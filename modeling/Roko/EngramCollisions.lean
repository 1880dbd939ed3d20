import Roko.FileSubstrate
import Roko.EngramIdentity

/-!
# Engrams with one content hash

The fields of an engram are hashed with a bar behind each.  A body is JSON and ends by
itself, and the taint is one byte; a kind, an author or a lineage may go on over the bar,
and what a kind or the tags are written as may mean two things.
-/

namespace Roko

open SeparatedFields

def bar : UInt8 := 124

/-- What `serde_json::to_vec` makes of bodies: an object each, none of which is the
beginning of another. -/
structure BodiesDelimited {Body : Type} (toVec : Body → Option (List UInt8)) : Prop where
  written : ∀ body, (toVec body).isSome = true
  delimited : ∀ first second firstBytes secondBytes, toVec first = some firstBytes →
    toVec second = some secondBytes → firstBytes <+: secondBytes → first = second

namespace Engram

variable {Body : Type} (toVec : Body → Option (List UInt8)) (engram : Engram Body)

def lineageBytes : List UInt8 :=
  engram.lineage.flatMap (·.toList)

def tagBytes : List UInt8 :=
  engram.tags.entries.flatMap fun entry =>
    textBytes entry.1 ++ textBytes "=" ++ textBytes entry.2 ++ textBytes ";"

def behindAuthor : List UInt8 :=
  (if engram.tainted then 1 else 0) :: bar :: (engram.lineageBytes ++ bar :: engram.tagBytes)

def behindKind : List UInt8 :=
  canonicalBytes toVec engram.body ++
    bar :: (textBytes engram.author ++ bar :: engram.behindAuthor)

/-- The field of one engram goes on over the bar at which that of the other ends, or the
other way round. -/
def Confused (field rest : Engram Body → List UInt8) (first second : Engram Body) : Prop :=
  Overruns bar (field first) (rest first) (field second) (rest second) ∨
    Overruns bar (field second) (rest second) (field first) (rest first)

/-- Two engrams that are not taken for one another: no kind, author or lineage of one goes
on where that of the other ends, and no two kinds or tags are written in one way, when the
fields before are the same. -/
structure ToldApart (first second : Engram Body) : Prop where
  kind : ¬ Confused (fun engram => textBytes engram.kind.identityKey) (behindKind toVec)
    first second
  author : first.kind.identityKey = second.kind.identityKey → first.body = second.body →
    ¬ Confused (fun engram => textBytes engram.author) behindAuthor first second
  lineage : first.kind.identityKey = second.kind.identityKey → first.body = second.body →
    first.author = second.author → first.tainted = second.tainted →
      ¬ Confused lineageBytes tagBytes first second
  texts : first.kind.identityKey = second.kind.identityKey → first.body = second.body →
    first.author = second.author → first.tainted = second.tainted →
      first.lineage = second.lineage → first.tagBytes = second.tagBytes →
        first.kind = second.kind ∧ first.tags = second.tags

/-- What the id is meant to be: engrams with the same id are the same, so that a put
discards no other engram. -/
structure IdentityLaw (blake3 : List UInt8 → Digest) (first second : Engram Body) : Prop where
  identity : first.contentHash toVec blake3 = second.contentHash toVec blake3 →
    first = second
  discards : ∀ codec : EngramCodec (Engram Body),
    (∀ engram, codec.id engram = engram.contentHash toVec blake3) →
      ∀ substrate : FileSubstrate (Engram Body), substrate.index = [first] →
        (FileSubstrate.put codec substrate second).1.log = substrate.log →
          first = second

variable {toVec} {engram} {first second : Engram Body}

theorem hashed_eq : engram.hashed toVec =
    textBytes engram.kind.identityKey ++ bar :: engram.behindKind toVec := by
  have oneBar : textBytes "|" = [bar] := by decide
  simp [hashed, behindKind, behindAuthor, lineageBytes, tagBytes, oneBar]

theorem Confused.ne {field rest : Engram Body → List UInt8}
    (confused : Confused field rest first second) : field first ≠ field second := by
  rcases confused with overruns | overruns
  · exact overruns.ne
  · exact Ne.symm overruns.ne

theorem append_bar_iff (field rest : Engram Body → List UInt8) :
    field first ++ bar :: rest first = field second ++ bar :: rest second ↔
      field first = field second ∧ rest first = rest second ∨
        Confused field rest first second :=
  append_eq_append_iff

theorem lineage_of_bytes (same : first.lineageBytes = second.lineageBytes) :
    first.lineage = second.lineage := by
  have wide (lineage : List Digest) :
      ∀ block ∈ lineage.map Vector.toList, block.length = 32 := by
    intro block member
    obtain ⟨digest, _, rfl⟩ := List.mem_map.mp member
    exact digest.length_toList
  rw [lineageBytes, lineageBytes, List.flatMap_def, List.flatMap_def] at same
  have blocks := flatten_inj (by decide) (wide first.lineage) (wide second.lineage) same
  exact List.map_injective_iff.mpr (fun _ _ => Vector.toList_inj.mp) blocks

theorem behindKind_iff (encoding : BodiesDelimited toVec) :
    first.behindKind toVec = second.behindKind toVec ↔
      first.body = second.body ∧
        textBytes first.author ++ bar :: first.behindAuthor =
          textBytes second.author ++ bar :: second.behindAuthor := by
  obtain ⟨firstBytes, firstWritten⟩ := Option.isSome_iff_exists.mp (encoding.written first.body)
  obtain ⟨secondBytes, secondWritten⟩ :=
    Option.isSome_iff_exists.mp (encoding.written second.body)
  have bodies : firstBytes <+: secondBytes → first.body = second.body :=
    encoding.delimited _ _ _ _ firstWritten secondWritten
  have others : secondBytes <+: firstBytes → second.body = first.body :=
    encoding.delimited _ _ _ _ secondWritten firstWritten
  have bytes (same : first.body = second.body) : firstBytes = secondBytes := by
    rw [same, secondWritten] at firstWritten
    exact (Option.some.inj firstWritten).symm
  rw [behindKind, behindKind, canonicalBytes, canonicalBytes, firstWritten, secondWritten]
  dsimp only [Option.getD_some]
  constructor
  · intro same
    obtain ⟨front, rest⟩ := append_inj_of_delimited (fun starts => bytes (bodies starts))
      (fun starts => (bytes (others starts).symm).symm) same
    exact ⟨bodies (front ▸ List.prefix_rfl), (List.cons.inj rest).2⟩
  · rintro ⟨same, rest⟩
    rw [bytes same, rest]

theorem behindAuthor_iff :
    first.behindAuthor = second.behindAuthor ↔
      first.tainted = second.tainted ∧
        first.lineageBytes ++ bar :: first.tagBytes =
          second.lineageBytes ++ bar :: second.tagBytes := by
  rw [behindAuthor, behindAuthor, List.cons.injEq, List.cons.injEq]
  have byte : ((if first.tainted then 1 else 0 : UInt8) = if second.tainted then 1 else 0) ↔
      first.tainted = second.tainted := by
    cases first.tainted <;> cases second.tainted <;> decide
  rw [byte, and_iff_right rfl]

theorem eq_of_fields (kind : first.kind = second.kind) (body : first.body = second.body)
    (author : first.author = second.author) (tainted : first.tainted = second.tainted)
    (lineage : first.lineage = second.lineage) (tags : first.tags = second.tags) :
    first = second := by
  cases first
  cases second
  simp only at kind body author tainted lineage tags
  rw [kind, body, author, tainted, lineage, tags]

/-- Two engrams are hashed from the same bytes only if they are the same, exactly when they
are told apart. -/
theorem hashed_inj_iff (encoding : BodiesDelimited toVec) :
    (first.hashed toVec = second.hashed toVec → first = second) ↔
      ToldApart toVec first second := by
  rw [hashed_eq, hashed_eq,
    append_bar_iff (fun engram => textBytes engram.kind.identityKey) (behindKind toVec),
    behindKind_iff encoding, append_bar_iff (fun engram => textBytes engram.author) behindAuthor,
    behindAuthor_iff, append_bar_iff lineageBytes tagBytes]
  constructor
  · intro told
    constructor
    case kind =>
      intro confused
      exact confused.ne (by rw [told (Or.inr confused)])
    case author =>
      intro kind body confused
      refine confused.ne ?_
      rw [told (Or.inl ⟨congrArg textBytes kind, body, Or.inr confused⟩)]
    case lineage =>
      intro kind body author tainted confused
      refine confused.ne ?_
      rw [told (Or.inl ⟨congrArg textBytes kind, body,
        Or.inl ⟨congrArg textBytes author, tainted, Or.inr confused⟩⟩)]
    case texts =>
      intro kind body author tainted lineage tags
      have same := told (Or.inl ⟨congrArg textBytes kind, body,
        Or.inl ⟨congrArg textBytes author, tainted,
          Or.inl ⟨by rw [lineageBytes, lineageBytes, lineage], tags⟩⟩⟩)
      exact ⟨congrArg Engram.kind same, congrArg Engram.tags same⟩
  · rintro told (⟨kind, body, behind⟩ | confused)
    · have key := textBytes_inj kind
      rcases behind with ⟨author, tainted, rest⟩ | confused
      · have writer := textBytes_inj author
        rcases rest with ⟨bytes, tags⟩ | confused
        · have lineage := lineage_of_bytes bytes
          obtain ⟨sameKind, sameTags⟩ := told.texts key body writer tainted lineage tags
          exact eq_of_fields sameKind body writer tainted lineage sameTags
        · exact absurd confused (told.lineage key body writer tainted)
      · exact absurd confused (told.author key body)
    · exact absurd confused told.kind

/-- A put that leaves the log as it is has found the id in the index. -/
theorem containsKey_of_put {codec : EngramCodec (Engram Body)}
    {substrate : FileSubstrate (Engram Body)}
    (discarded : (FileSubstrate.put codec substrate second).1.log = substrate.log) :
    FileSubstrate.containsKey codec substrate.index (codec.id second) = true := by
  by_contra unknown
  rw [FileSubstrate.put, if_neg unknown] at discarded
  simp [FileSubstrate.lineBytes] at discarded

/-- The id of one of two engrams is that of the other only if they are the same, exactly
when they are told apart. -/
theorem identity_lawful_iff (encoding : BodiesDelimited toVec)
    {blake3 : List UInt8 → Digest}
    (collisionFree : blake3 (first.hashed toVec) = blake3 (second.hashed toVec) →
      first.hashed toVec = second.hashed toVec) :
    IdentityLaw toVec blake3 first second ↔ ToldApart toVec first second := by
  rw [← hashed_inj_iff encoding]
  constructor
  · intro law same
    exact law.identity (congrArg blake3 same)
  · intro told
    constructor
    case identity => exact fun same => told (collisionFree same)
    case discards =>
      intro codec ids substrate index discarded
      obtain ⟨stored, member, same⟩ :=
        FileSubstrate.containsKey_iff.mp (containsKey_of_put discarded)
      rw [index, List.mem_singleton] at member
      rw [member, ids, ids] at same
      exact told (collisionFree same)

/-- An engram without separators where they would be taken for others. -/
structure Separable (engram : Engram Body) : Prop where
  kind : engram.kind.Plain
  author : bar ∉ textBytes engram.author
  tags : bar ∉ engram.tagBytes
  entries : ∀ entry ∈ engram.tags.entries,
    61 ∉ textBytes entry.1 ∧ 59 ∉ textBytes entry.2

theorem tagBytes_eq (engram : Engram Body) :
    engram.tagBytes = writePairs 61 59
      (engram.tags.entries.map fun entry => (textBytes entry.1, textBytes entry.2)) := by
  have equals : textBytes "=" = [61] := by decide
  have semicolon : textBytes ";" = [59] := by decide
  simp [tagBytes, writePairs, List.flatMap_map, equals, semicolon]

theorem tags_of_tagBytes (separable : Separable first) (other : Separable second)
    (same : first.tagBytes = second.tagBytes) : first.tags = second.tags := by
  have free (engram : Engram Body) (separable : Separable engram) :
      ∀ pair ∈ engram.tags.entries.map fun entry => (textBytes entry.1, textBytes entry.2),
        61 ∉ pair.1 ∧ 59 ∉ pair.2 := by
    intro pair member
    obtain ⟨entry, isEntry, rfl⟩ := List.mem_map.mp member
    exact separable.entries entry isEntry
  have injective : Function.Injective
      fun entry : String × String => (textBytes entry.1, textBytes entry.2) := by
    intro left right pairs
    rw [Prod.mk.injEq] at pairs
    exact Prod.ext (textBytes_inj pairs.1) (textBytes_inj pairs.2)
  rw [tagBytes_eq, tagBytes_eq] at same
  have entries := List.map_injective_iff.mpr injective
    (writePairs_inj (free first separable) (free second other) same)
  cases firstTags : first.tags
  cases secondTags : second.tags
  simp only [firstTags, secondTags] at entries
  rw [Tags.mk.injEq]
  exact entries

/-- Two engrams without such separators are told apart. -/
theorem toldApart_of_separable (separable : Separable first) (other : Separable second) :
    ToldApart toVec first second where
  kind confused := by
    rcases confused with overruns | overruns
    · exact not_overruns_of_field separable.kind.bar_notMem overruns
    · exact not_overruns_of_field other.kind.bar_notMem overruns
  author _ _ confused := by
    rcases confused with overruns | overruns
    · exact not_overruns_of_field separable.author overruns
    · exact not_overruns_of_field other.author overruns
  lineage _ _ _ _ confused := by
    rcases confused with overruns | overruns
    · exact not_overruns_of_rest other.tags overruns
    · exact not_overruns_of_rest separable.tags overruns
  texts key _ _ _ _ tags :=
    ⟨Kind.identityKey_inj separable.kind other.kind key,
      tags_of_tagBytes separable other tags⟩

/-- A marker of a kind, with the JSON of the empty body. -/
def marker (kind : Kind) (author : String) (tags : Tags) : Engram Unit where
  kind
  body := ()
  author
  tainted := false
  lineage := []
  tags

def emptyBody (_ : Unit) : Option (List UInt8) :=
  some (textBytes "\x7b\"format\":\"empty\"\x7d")

def noTags : Tags := ⟨[], List.Pairwise.nil⟩

theorem markers_confused :
    let task := marker (.builtin .task) "agent" noTags
    let customTask := marker (.custom "task") "agent" noTags
    let compound := marker (.compound [.builtin .task]) "agent" noTags
    let customCompound := marker (.custom "compound(task)") "agent" noTags
    let oneTag := marker (.builtin .task) "agent" ⟨[("a", "b;c=d")], by decide⟩
    let twoTags := marker (.builtin .task) "agent" ⟨[("a", "b"), ("c", "d")], by decide⟩
    let agent := marker (.builtin .task) "agent" ⟨[("k", "x|\x00||y=z")], by decide⟩
    let longAgent := marker (.builtin .task) "agent|\x00||k=x" ⟨[("y", "z")], by decide⟩
    task.hashed emptyBody = customTask.hashed emptyBody ∧ task ≠ customTask ∧
      compound.hashed emptyBody = customCompound.hashed emptyBody ∧ compound ≠ customCompound ∧
      oneTag.hashed emptyBody = twoTags.hashed emptyBody ∧ oneTag ≠ twoTags ∧
      agent.hashed emptyBody = longAgent.hashed emptyBody ∧ agent ≠ longAgent ∧
      ∀ blake3, ¬ IdentityLaw emptyBody blake3 task customTask := by
  have kinds : marker (.builtin .task) "agent" noTags ≠ marker (.custom "task") "agent" noTags :=
    fun same => nomatch congrArg Engram.kind same
  refine ⟨by decide, kinds, by decide, ?_, by decide, ?_, by decide, ?_, ?_⟩
  · exact fun same => nomatch congrArg Engram.kind same
  · exact fun same => absurd (congrArg (·.tags.entries) same) (by decide)
  · exact fun same => absurd (congrArg Engram.author same) (by decide)
  · intro blake3 law
    exact kinds (law.identity (congrArg blake3 (by decide)))

theorem emptyBody_delimited : BodiesDelimited emptyBody where
  written _ := rfl
  delimited _ _ _ _ _ _ _ := rfl

theorem identity_lawful_markers :
    IdentityLaw emptyBody (fun bytes => Vector.replicate 32 (UInt8.ofNat bytes.length))
      (marker (.builtin .task) "agent" noTags)
      (marker (.compound [.builtin .plan, .custom "com.example.widget"]) "agent"
        ⟨[("a", "b=c")], by decide⟩) := by
  refine (identity_lawful_iff emptyBody_delimited (fun same => ?_)).mpr ?_
  · exact absurd same (by decide)
  · apply toldApart_of_separable
    · exact ⟨.builtin .task, by decide, by decide, by decide⟩
    · refine ⟨.compound _ ?_, by decide, by decide, by decide⟩
      intro part member
      rcases List.mem_cons.mp member with rfl | member
      · exact .builtin .plan
      · rw [List.mem_singleton.mp member]
        refine .custom _ (by decide) (by decide +kernel) ?_
        intro kind
        cases kind <;> decide

end Engram

end Roko
