import Mathlib.Data.List.Basic

/-!
# Fields with separators between them

Fields that are written one after another, with a separator behind each, are read apart
where none goes on over the separator.  So are pairs with one symbol behind the key and one
behind the value, and blocks of a fixed length.
-/

namespace SeparatedFields

variable {Symbol : Type*}

/-- The first field goes on over the separator at which the second one ends. -/
def Overruns (separator : Symbol) (field rest other otherRest : List Symbol) : Prop :=
  ∃ excess, field = other ++ separator :: excess ∧ otherRest = excess ++ separator :: rest

theorem append_eq_append_iff {separator : Symbol} {field rest other otherRest : List Symbol} :
    field ++ separator :: rest = other ++ separator :: otherRest ↔
      field = other ∧ rest = otherRest ∨ Overruns separator field rest other otherRest ∨
        Overruns separator other otherRest field rest := by
  constructor
  · intro same
    rcases List.append_eq_append_iff.mp same with ⟨gap, longer, rests⟩ | ⟨gap, longer, rests⟩
    · cases gap with
      | nil =>
          rw [List.nil_append, List.cons.injEq] at rests
          rw [List.append_nil] at longer
          exact Or.inl ⟨longer.symm, rests.2⟩
      | cons symbol excess =>
          rw [List.cons_append, List.cons.injEq] at rests
          obtain ⟨rfl, behind⟩ := rests
          exact Or.inr (Or.inr ⟨excess, longer, behind⟩)
    · cases gap with
      | nil =>
          rw [List.nil_append, List.cons.injEq] at rests
          rw [List.append_nil] at longer
          exact Or.inl ⟨longer, rests.2.symm⟩
      | cons symbol excess =>
          rw [List.cons_append, List.cons.injEq] at rests
          obtain ⟨rfl, behind⟩ := rests
          exact Or.inr (Or.inl ⟨excess, longer, behind⟩)
  · rintro (⟨rfl, rfl⟩ | ⟨excess, rfl, rfl⟩ | ⟨excess, rfl, rfl⟩)
    · rfl
    · simp
    · simp

theorem Overruns.ne {separator : Symbol} {field rest other otherRest : List Symbol}
    (overruns : Overruns separator field rest other otherRest) : field ≠ other := by
  obtain ⟨excess, rfl, _⟩ := overruns
  simp

theorem not_overruns_of_field {separator : Symbol} {field rest other otherRest : List Symbol}
    (free : separator ∉ field) : ¬ Overruns separator field rest other otherRest := by
  rintro ⟨excess, rfl, _⟩
  exact free (by simp)

theorem not_overruns_of_rest {separator : Symbol} {field rest other otherRest : List Symbol}
    (free : separator ∉ otherRest) : ¬ Overruns separator field rest other otherRest := by
  rintro ⟨excess, _, rfl⟩
  exact free (by simp)

/-- Fields without the separator are read apart. -/
theorem append_inj_of_free {separator : Symbol} {field rest other otherRest : List Symbol}
    (free : separator ∉ field) (otherFree : separator ∉ other)
    (same : field ++ separator :: rest = other ++ separator :: otherRest) :
    field = other ∧ rest = otherRest := by
  rcases append_eq_append_iff.mp same with equal | overruns | overruns
  · exact equal
  · exact absurd overruns (not_overruns_of_field free)
  · exact absurd overruns (not_overruns_of_field otherFree)

/-- Two texts that no other of their kind begins with are read apart. -/
theorem append_inj_of_delimited {field rest other otherRest : List Symbol}
    (delimited : field <+: other → field = other)
    (otherDelimited : other <+: field → other = field)
    (same : field ++ rest = other ++ otherRest) : field = other ∧ rest = otherRest := by
  have equal : field = other := by
    rcases List.append_eq_append_iff.mp same with ⟨gap, longer, _⟩ | ⟨gap, longer, _⟩
    · exact delimited ⟨gap, longer.symm⟩
    · exact (otherDelimited ⟨gap, longer.symm⟩).symm
  subst equal
  exact ⟨rfl, List.append_cancel_left same⟩

/-- Blocks of one length are read apart. -/
theorem flatten_inj {width : Nat} (positive : 0 < width) {blocks others : List (List Symbol)}
    (wide : ∀ block ∈ blocks, block.length = width)
    (otherWide : ∀ block ∈ others, block.length = width)
    (same : blocks.flatten = others.flatten) : blocks = others := by
  induction blocks generalizing others with
  | nil =>
      cases others with
      | nil => rfl
      | cons other others =>
          rw [List.flatten_cons] at same
          have empty : other = [] := (List.append_eq_nil_iff.mp same.symm).1
          have first := otherWide other List.mem_cons_self
          rw [empty, List.length_nil] at first
          omega
  | cons block blocks ih =>
      cases others with
      | nil =>
          rw [List.flatten_cons] at same
          have empty : block = [] := (List.append_eq_nil_iff.mp same).1
          have first := wide block List.mem_cons_self
          rw [empty, List.length_nil] at first
          omega
      | cons other others =>
          rw [List.forall_mem_cons] at wide otherWide
          rw [List.flatten_cons, List.flatten_cons] at same
          obtain ⟨first, rest⟩ := List.append_inj same (wide.1.trans otherWide.1.symm)
          rw [first, ih wide.2 otherWide.2 rest]

/-- Pairs, with one symbol behind each key and one behind each value. -/
def writePairs (equals terminator : Symbol) (pairs : List (List Symbol × List Symbol)) :
    List Symbol :=
  pairs.flatMap fun pair => pair.1 ++ equals :: (pair.2 ++ [terminator])

theorem writePairs_cons (equals terminator : Symbol) (pair : List Symbol × List Symbol)
    (pairs : List (List Symbol × List Symbol)) :
    writePairs equals terminator (pair :: pairs) =
      pair.1 ++ equals :: (pair.2 ++ terminator :: writePairs equals terminator pairs) := by
  simp [writePairs]

theorem writePairs_inj {equals terminator : Symbol}
    {pairs others : List (List Symbol × List Symbol)}
    (free : ∀ pair ∈ pairs, equals ∉ pair.1 ∧ terminator ∉ pair.2)
    (otherFree : ∀ pair ∈ others, equals ∉ pair.1 ∧ terminator ∉ pair.2)
    (same : writePairs equals terminator pairs = writePairs equals terminator others) :
    pairs = others := by
  induction pairs generalizing others with
  | nil =>
      cases others with
      | nil => rfl
      | cons other others =>
          rw [writePairs_cons] at same
          simp [writePairs] at same
  | cons pair pairs ih =>
      cases others with
      | nil =>
          rw [writePairs_cons] at same
          simp [writePairs] at same
      | cons other others =>
          rw [List.forall_mem_cons] at free otherFree
          rw [writePairs_cons, writePairs_cons] at same
          obtain ⟨keys, behind⟩ := append_inj_of_free free.1.1 otherFree.1.1 same
          obtain ⟨values, rest⟩ := append_inj_of_free free.1.2 otherFree.1.2 behind
          rw [ih free.2 otherFree.2 rest, Prod.ext keys values]

end SeparatedFields
