import Mathlib.Data.List.TakeWhile

/-!
# The network policy

The model of `roko-agent/src/safety/network.rs`.  A parser of URLs is given, and a
URL knows its host and how the host is written.  `IpAddr::from_str` reads addresses as the standard library
does.
-/

namespace Roko

namespace Network

structure Ipv4Addr where
  first : UInt8
  second : UInt8
  third : UInt8
  fourth : UInt8
  deriving DecidableEq, Repr

/-- The eight segments of an address. -/
abbrev Ipv6Addr := Vector UInt16 8

inductive IpAddr
  | v4 (addr : Ipv4Addr)
  | v6 (addr : Ipv6Addr)
  deriving DecidableEq

/-- The bits of a segment, of two bytes. -/
def segment (high low : UInt8) : UInt16 :=
  high.toUInt16 * 256 + low.toUInt16

/-- `char::to_digit`. -/
def toDigit (radix : Nat) (char : Char) : Option Nat :=
  let digit := if '0' ≤ char ∧ char ≤ '9' then char.toNat - 48
    else if 'a' ≤ char ∧ char ≤ 'z' then char.toNat - 87
    else if 'A' ≤ char ∧ char ≤ 'Z' then char.toNat - 55
    else radix
  if digit < radix then some digit else none

/-- The parsers return the text that is left. -/
def readGivenChar (target : Char) : List Char → Option (List Char)
  | [] => none
  | char :: text => if char = target then some text else none

def readSeparator {Value : Type} (separator : Char) (index : Nat)
    (inner : List Char → Option (Value × List Char)) (text : List Char) :
    Option (Value × List Char) :=
  if 0 < index then (readGivenChar separator text).bind inner else inner text

def readNumber (radix maxDigits limit : Nat) (allowZeroPrefix : Bool) (text : List Char) :
    Option (Nat × List Char) :=
  let digits := text.takeWhile fun char => (toDigit radix char).isSome
  let value := digits.foldl (fun value char => value * radix + (toDigit radix char).getD 0) 0
  if digits.length = 0 ∨ maxDigits < digits.length then none
  else if !allowZeroPrefix ∧ text.head? = some '0' ∧ 1 < digits.length then none
  else if limit < value then none
  else some (value, text.drop digits.length)

def readOctet (text : List Char) : Option (UInt8 × List Char) :=
  (readNumber 10 3 255 false text).map fun read => (.ofNat read.1, read.2)

def readIpv4Addr (text : List Char) : Option (Ipv4Addr × List Char) := do
  let (first, text) ← readOctet text
  let (second, text) ← readSeparator '.' 1 readOctet text
  let (third, text) ← readSeparator '.' 2 readOctet text
  let (fourth, text) ← readSeparator '.' 3 readOctet text
  return (⟨first, second, third, fourth⟩, text)

def readGroup (text : List Char) : Option (UInt16 × List Char) :=
  (readNumber 16 4 65535 true text).map fun read => (.ofNat read.1, read.2)

/-- Reads up to so many groups, and says whether the last two were an IPv4 address. -/
def readGroups : Nat → Nat → List Char → List UInt16 × Bool × List Char
  | 0, _, text => ([], false, text)
  | room + 1, index, text =>
      let embedded := if 0 < room then readSeparator ':' index readIpv4Addr text else none
      match embedded with
      | some (addr, rest) =>
          ([segment addr.first addr.second, segment addr.third addr.fourth], true, rest)
      | none =>
          match readSeparator ':' index readGroup text with
          | none => ([], false, text)
          | some (group, rest) =>
              let (groups, ipv4, rest) := readGroups room (index + 1) rest
              (group :: groups, ipv4, rest)

def ofGroups (groups : List UInt16) : Ipv6Addr :=
  Vector.ofFn fun index => groups.getD index 0

def readIpv6Addr (text : List Char) : Option (Ipv6Addr × List Char) :=
  let (head, headIpv4, text) := readGroups 8 0 text
  if head.length = 8 then some (ofGroups head, text)
  else if headIpv4 then none
  else do
    let text ← readGivenChar ':' text
    let text ← readGivenChar ':' text
    let (tail, _, text) := readGroups (8 - (head.length + 1)) 0 text
    let zeros := List.replicate (8 - tail.length - head.length) 0
    return (ofGroups (head ++ zeros ++ tail), text)

/-- `IpAddr::from_str`: the whole text is an address. -/
def parseIpAddr (text : String) : Option IpAddr :=
  let read := match readIpv4Addr text.toList with
    | some (addr, rest) => some (IpAddr.v4 addr, rest)
    | none => (readIpv6Addr text.toList).map fun (addr, rest) => (.v6 addr, rest)
  read.bind fun (addr, rest) => if rest.isEmpty then some addr else none

def isPrivateIpv4 (ip : Ipv4Addr) : Bool :=
  let isLoopback := ip.first = 127
  let isPrivate := ip.first = 10 ∨ (ip.first = 172 ∧ 16 ≤ ip.second ∧ ip.second ≤ 31) ∨
    (ip.first = 192 ∧ ip.second = 168)
  let isLinkLocal := ip.first = 169 ∧ ip.second = 254
  let isUnspecified := ip = ⟨0, 0, 0, 0⟩
  isLoopback ∨ isPrivate ∨ isLinkLocal ∨ isUnspecified

def isPrivateIpv6 (ip : Ipv6Addr) : Bool :=
  let isLoopback := ip = ofGroups [0, 0, 0, 0, 0, 0, 0, 1]
  let isUnspecified := ip = ofGroups []
  if isLoopback ∨ isUnspecified then true
  else if ip[0] &&& 0xffc0 = 0xfe80 then true
  else if ip[0] &&& 0xfe00 = 0xfc00 then true
  else false

def isPrivateIp : IpAddr → Bool
  | .v4 addr => isPrivateIpv4 addr
  | .v6 addr => isPrivateIpv6 addr

example : parseIpAddr "10.0.0.1" = some (.v4 ⟨10, 0, 0, 1⟩) := by decide

/-- The host of a URL.  A host that is not a special URL's is a domain, whatever its text. -/
inductive Host
  | domain (name : String)
  | ipv4 (addr : Ipv4Addr)
  | ipv6 (addr : Ipv6Addr)
  deriving DecidableEq

/-- How the URL standard writes a host: a bracket stands only around an IPv6 address, and an
address is written so that it is read back. -/
inductive Host.Written : Host → String → Prop
  | domain (name : String) (bare : name.toList.head? ≠ some '[') : Written (.domain name) name
  | ipv4 (addr : Ipv4Addr) (text : String) (bare : text.toList.head? ≠ some '[')
      (read : parseIpAddr text = some (.v4 addr)) : Written (.ipv4 addr) text
  | ipv6 (addr : Ipv6Addr) (text : String) (read : parseIpAddr text = some (.v6 addr)) :
      Written (.ipv6 addr) ("[" ++ text ++ "]")

/-- What the check reads of a `Url`. -/
structure Url where
  scheme : String
  host : Option Host
  hostStr : Option String
  written : Option.Rel Host.Written host hostStr

structure NetworkPolicy where
  /-- No scheme at all stands for every scheme. -/
  allowSchemes : List String := ["https"]
  allowHosts : List String := []
  denyHosts : List String := []
  blockPrivateNetworks : Bool := true
  deriving DecidableEq, Repr

def hostMatches (host entry : String) : Bool :=
  if entry.toList.isEmpty then false
  else if entry.toList.head? = some '.' then decide (entry.toList <:+ host.toList)
  else host = entry

/-- `host.strip_prefix('[').and_then(|s| s.strip_suffix(']')).unwrap_or(host)`. -/
def ipCandidate (host : String) : String :=
  match host.toList with
  | '[' :: text => if text.getLast? = some ']' then .ofList text.dropLast else host
  | _ => host

variable (parse : String → Option Url)

/-- The errors are `NetworkBlocked`, with their texts. -/
def checkUrlWithPolicy (url : String) (policy : NetworkPolicy) : Except String Unit :=
  match parse url with
  | none => .error ("invalid url: " ++ url)
  | some parsed =>
      let scheme := parsed.scheme
      if ¬policy.allowSchemes.isEmpty ∧ scheme ∉ policy.allowSchemes then
        .error ("scheme " ++ scheme ++ " not allowed")
      else match parsed.hostStr with
        | none => .error "url has no host"
        | some host =>
            if policy.blockPrivateNetworks ∧ (parseIpAddr (ipCandidate host)).any isPrivateIp then
              .error "private network address blocked"
            else match policy.denyHosts.find? (hostMatches host) with
              | some entry => .error ("host " ++ host ++ " matches deny rule " ++ entry)
              | none =>
                  if ¬policy.allowHosts.isEmpty ∧ ¬policy.allowHosts.any (hostMatches host) then
                    .error ("host " ++ host ++ " not in allowlist")
                  else .ok ()

def checkUrl (url : String) : Except String Unit :=
  checkUrlWithPolicy parse url {}

/-- `Ipv6Addr::to_ipv4_mapped`. -/
def toIpv4Mapped (ip : Ipv6Addr) : Option Ipv4Addr :=
  if ip.toList.take 6 = [0, 0, 0, 0, 0, 0xffff] then
    some ⟨(ip[6] / 256).toUInt8, ip[6].toUInt8, (ip[7] / 256).toUInt8, ip[7].toUInt8⟩
  else none

/-- The address that a host is the literal of. -/
def Host.literal : Host → Option IpAddr
  | .domain name => parseIpAddr name
  | .ipv4 addr => some (.v4 addr)
  | .ipv6 addr => some (.v6 addr)

/-- The IPv4 address that a literal reaches. -/
def IpAddr.reaches : IpAddr → Option Ipv4Addr
  | .v4 addr => some addr
  | .v6 addr => toIpv4Mapped addr

def Host.ReachesPrivate (host : Host) : Prop :=
  ∃ ip ∈ host.literal, ∃ addr ∈ ip.reaches, isPrivateIpv4 addr

/-- An IPv6 literal that reaches a private IPv4 address. -/
def Host.MapsPrivate (host : Host) : Prop :=
  ∃ ip, host.literal = some (.v6 ip) ∧ ∃ addr ∈ toIpv4Mapped ip, isPrivateIpv4 addr

namespace NetworkPolicy

variable (policy : NetworkPolicy)

def Admits (scheme : String) : Prop :=
  policy.allowSchemes = [] ∨ scheme ∈ policy.allowSchemes

/-- The answer of the two lists, where the entries that stand for the host are known. -/
def Refuses (matching : String → Bool) : Prop :=
  (∃ entry ∈ policy.denyHosts, matching entry) ∨
    policy.allowHosts ≠ [] ∧ ∀ entry ∈ policy.allowHosts, matching entry = false

end NetworkPolicy

/-- A domain name, which is no literal, and the same name with a trailing dot, in URLs of one
scheme. -/
structure SameButDot (plain dotted : String) (scheme name : String) : Prop where
  plain : ∃ parsed, parse plain = some parsed ∧ parsed.scheme = scheme ∧
    parsed.host = some (.domain name)
  dotted : ∃ parsed, parse dotted = some parsed ∧ parsed.scheme = scheme ∧
    parsed.host = some (.domain (name ++ "."))
  notLiteral : parseIpAddr name = none ∧ parseIpAddr (name ++ ".") = none

/-- The accepted URL has no host that reaches a private IPv4 address. -/
def GuardsPrivate (url : String) (policy : NetworkPolicy) : Prop :=
  checkUrlWithPolicy parse url policy = .ok () → policy.blockPrivateNetworks →
    ∀ parsed ∈ parse url, ∀ host ∈ parsed.host, ¬ host.ReachesPrivate

def SameAnswer (plain dotted : String) (policy : NetworkPolicy) : Prop :=
  checkUrlWithPolicy parse plain policy = .ok () ↔ checkUrlWithPolicy parse dotted policy = .ok ()

/-- An entry that stands for the name with a trailing dot ends in a dot, and stands for the
name when it is read without it. -/
def dottedMatches (name entry : String) : Bool :=
  entry.toList.getLast? = some '.' &&
    (entry = "." || hostMatches name (.ofList entry.toList.dropLast))

/-- The URL's host is an IPv6 literal of a private IPv4 address, which no rule refuses. -/
def LetsMappedIn (url : String) (policy : NetworkPolicy) : Prop :=
  ∃ parsed host text, parse url = some parsed ∧ parsed.host = some host ∧
    parsed.hostStr = some text ∧ host.MapsPrivate ∧ policy.blockPrivateNetworks ∧
      policy.Admits parsed.scheme ∧ ¬ policy.Refuses (hostMatches text)

theorem ipCandidate_of_bare {text : String} (bare : text.toList.head? ≠ some '[') :
    ipCandidate text = text := by
  unfold ipCandidate
  split
  case h_1 rest letters => simp [letters] at bare
  case h_2 => rfl

theorem ipCandidate_of_brackets (text : String) : ipCandidate ("[" ++ text ++ "]") = text := by
  have letters : ("[" ++ text ++ "]").toList = '[' :: (text.toList ++ [']']) := by simp
  simp [ipCandidate, letters]

/-- The check reads the literal off the text of the host. -/
theorem parseIpAddr_ipCandidate {host : Host} {text : String} (written : host.Written text) :
    parseIpAddr (ipCandidate text) = host.literal := by
  cases written with
  | domain name bare => rw [ipCandidate_of_bare bare, Host.literal]
  | ipv4 addr text bare read => rw [ipCandidate_of_bare bare, read, Host.literal]
  | ipv6 addr text read => rw [ipCandidate_of_brackets, read, Host.literal]

/-- The first segment of a mapped address is zero, and the sixth is not. -/
theorem isPrivateIpv6_of_mapped {ip : Ipv6Addr} {addr : Ipv4Addr}
    (mapped : toIpv4Mapped ip = some addr) : isPrivateIpv6 ip = false := by
  have segments : ip.toList.take 6 = [0, 0, 0, 0, 0, 0xffff] := by
    unfold toIpv4Mapped at mapped
    split at mapped
    case isTrue segments => exact segments
    case isFalse => cases mapped
  have at_eq (index : Nat) (small : index < 6) :
      some ip[index] = [0, 0, 0, 0, 0, 0xffff][index]? := by
    rw [← segments, List.getElem?_take_of_lt small, Vector.getElem?_toList,
      Vector.getElem?_eq_getElem]
  have first : ip[0] = 0 := Option.some.inj (at_eq 0 (by decide))
  have sixth : ip[5] = 0xffff := Option.some.inj (at_eq 5 (by decide))
  have apart (groups : List UInt16) (zero : groups.getD 5 0 = 0) : ip ≠ ofGroups groups := by
    rintro rfl
    rw [ofGroups, Vector.getElem_ofFn, zero] at sixth
    exact absurd sixth (by decide)
  simp [isPrivateIpv6, apart, first]

theorem hostMatches_ofList (host : String) (letters : List Char) :
    hostMatches host (.ofList letters) = true ↔ letters ≠ [] ∧
      (letters.head? = some '.' ∧ letters <:+ host.toList ∨
        letters.head? ≠ some '.' ∧ letters = host.toList) := by
  have same : host = .ofList letters ↔ letters = host.toList := by
    rw [← String.toList_inj, String.toList_ofList, eq_comm]
  rw [hostMatches, String.toList_ofList]
  split
  case isTrue empty =>
    exact iff_of_false nofun fun matching => matching.1 (List.isEmpty_iff.mp empty)
  case isFalse filled =>
    rw [List.isEmpty_iff] at filled
    by_cases dotted : letters.head? = some '.'
    · simp [dotted, filled]
    · simp [dotted, filled, same]

theorem dottedMatches_ofList (name : String) (front : List Char) (last : Char) :
    dottedMatches name (.ofList (front ++ [last])) = true ↔
      last = '.' ∧ (front = [] ∨ hostMatches name (.ofList front) = true) := by
  have alone : String.ofList (front ++ [last]) = "." ↔ front = [] ∧ last = '.' := by
    rw [← String.toList_inj, String.toList_ofList]
    cases front <;> simp
  rw [dottedMatches, String.toList_ofList, List.getLast?_concat, List.dropLast_concat]
  by_cases dot : last = '.'
  case pos => simp [dot]
  case neg => simp [dot]

theorem concat_suffix_concat (front chars : List Char) (last : Char) :
    front ++ [last] <:+ chars ++ ['.'] ↔ last = '.' ∧ front <:+ chars := by
  rw [List.suffix_concat_iff]
  constructor
  case mp =>
    rintro (empty | ⟨rest, same, ending⟩)
    · simp at empty
    · obtain ⟨rfl, last_eq⟩ := List.append_inj' same rfl
      exact ⟨List.singleton_inj.mp last_eq, ending⟩
  case mpr =>
    rintro ⟨rfl, ending⟩
    exact .inr ⟨front, rfl, ending⟩

/-- A name with a trailing dot ends in an entry if the name ends in it without its dot. -/
theorem hostMatches_dot (name entry : String) :
    hostMatches (name ++ ".") entry = dottedMatches name entry := by
  obtain ⟨letters, rfl⟩ := entry.exists_eq_ofList
  rcases List.eq_nil_or_concat letters with rfl | ⟨front, last, rfl⟩
  · rfl
  have named : (name ++ ".").toList = name.toList ++ ['.'] := String.toList_append
  have exact_iff : front ++ [last] = name.toList ++ ['.'] ↔ last = '.' ∧ front = name.toList := by
    rw [List.append_singleton_inj, and_comm]
  rw [List.concat_eq_append, Bool.eq_iff_iff, hostMatches_ofList, dottedMatches_ofList,
    hostMatches_ofList, named, concat_suffix_concat, exact_iff]
  cases front with
  | nil => by_cases dot : last = '.' <;> simp [dot]
  | cons first rest =>
    have heads : (first :: rest ++ [last]).head? = (first :: rest).head? := rfl
    rw [heads]
    simp [and_left_comm, ← and_or_left]

theorem NetworkPolicy.refuses_iff (policy : NetworkPolicy) (matching : String → Bool) :
    policy.Refuses matching ↔ (policy.denyHosts.find? matching).isSome ∨
      ¬policy.allowHosts.isEmpty ∧ ¬policy.allowHosts.any matching := by
  simp [NetworkPolicy.Refuses]

theorem Url.exists_hostStr (parsed : Url) {host : Host} (named : parsed.host = some host) :
    ∃ text, parsed.hostStr = some text := by
  have both := parsed.written
  rw [named] at both
  cases hostStr : parsed.hostStr with
  | none => rw [hostStr] at both; cases both
  | some text => exact ⟨text, rfl⟩

theorem Url.written_of_some (parsed : Url) {host : Host} {text : String}
    (named : parsed.host = some host) (hostStr : parsed.hostStr = some text) :
    host.Written text := by
  have both := parsed.written
  rw [named, hostStr] at both
  cases both with
  | some written => exact written

/-- The check accepts a host that is no private literal and that the lists do not refuse. -/
theorem checkUrlWithPolicy_ok_iff {url : String} {policy : NetworkPolicy} {parsed : Url}
    {host : Host} {text : String} (read : parse url = some parsed)
    (named : parsed.host = some host) (hostStr : parsed.hostStr = some text) :
    checkUrlWithPolicy parse url policy = .ok () ↔ policy.Admits parsed.scheme ∧
      ¬ (policy.blockPrivateNetworks ∧ host.literal.any isPrivateIp) ∧
      ¬ policy.Refuses (hostMatches text) := by
  have written := parsed.written_of_some named hostStr
  simp only [checkUrlWithPolicy, read, hostStr, parseIpAddr_ipCandidate written]
  by_cases admitted : policy.Admits parsed.scheme
  case neg =>
    have refused : ¬policy.allowSchemes.isEmpty ∧ parsed.scheme ∉ policy.allowSchemes := by
      simpa [NetworkPolicy.Admits] using admitted
    rw [if_pos refused]
    exact iff_of_false nofun fun accepted => admitted accepted.1
  have taken : ¬ (¬policy.allowSchemes.isEmpty ∧ parsed.scheme ∉ policy.allowSchemes) := by
    simpa [NetworkPolicy.Admits, or_iff_not_imp_left] using admitted
  rw [if_neg taken]
  by_cases isPrivate : policy.blockPrivateNetworks ∧ host.literal.any isPrivateIp
  case pos =>
    rw [if_pos isPrivate]
    exact iff_of_false nofun fun accepted => accepted.2.1 isPrivate
  rw [if_neg isPrivate, policy.refuses_iff]
  cases policy.denyHosts.find? (hostMatches text) with
  | some entry => exact iff_of_false nofun fun accepted => accepted.2.2 (.inl rfl)
  | none =>
      dsimp only
      split
      case isTrue unlisted => exact iff_of_false nofun fun accepted => accepted.2.2 (.inr unlisted)
      case isFalse listed =>
        refine iff_of_true rfl ⟨admitted, isPrivate, ?_⟩
        simpa using listed

/-- A host reaches a private address as a literal that the guard knows, or through a mapped
one. -/
theorem Host.reachesPrivate_iff (host : Host) :
    host.ReachesPrivate ↔
      (∃ addr, host.literal = some (.v4 addr) ∧ isPrivateIpv4 addr) ∨ host.MapsPrivate := by
  constructor
  case mp =>
    rintro ⟨ip, literal, addr, reached, isPrivate⟩
    cases ip with
    | v4 other =>
        obtain rfl : other = addr := Option.some.inj reached
        exact .inl ⟨other, literal, isPrivate⟩
    | v6 other => exact .inr ⟨other, literal, addr, reached, isPrivate⟩
  case mpr =>
    rintro (⟨addr, literal, isPrivate⟩ | ⟨ip, literal, addr, mapped, isPrivate⟩)
    · exact ⟨.v4 addr, literal, addr, rfl, isPrivate⟩
    · exact ⟨.v6 ip, literal, addr, mapped, isPrivate⟩

theorem guardsPrivate_iff (url : String) (policy : NetworkPolicy) :
    GuardsPrivate parse url policy ↔ ¬ LetsMappedIn parse url policy := by
  constructor
  case mp =>
    rintro guards ⟨parsed, host, text, read, named, hostStr, mapped, block, admitted, unrefused⟩
    refine guards ?_ block parsed read host named (host.reachesPrivate_iff.mpr (.inr mapped))
    rw [checkUrlWithPolicy_ok_iff parse read named hostStr]
    obtain ⟨ip, literal, addr, reached, -⟩ := mapped
    refine ⟨admitted, ?_, unrefused⟩
    simp [literal, isPrivateIp, isPrivateIpv6_of_mapped reached]
  case mpr =>
    intro shut accepted block parsed read host named reaches
    obtain ⟨text, hostStr⟩ := parsed.exists_hostStr named
    obtain ⟨admitted, passed, unrefused⟩ :=
      (checkUrlWithPolicy_ok_iff parse read named hostStr).mp accepted
    rcases host.reachesPrivate_iff.mp reaches with ⟨addr, literal, isPrivate⟩ | mapped
    · exact passed ⟨block, by simpa [literal, isPrivateIp] using isPrivate⟩
    · exact shut ⟨parsed, host, text, read, named, hostStr, mapped, block, admitted, unrefused⟩

/-- A domain name that is no literal is left to the lists. -/
theorem checkUrlWithPolicy_domain_iff {url : String} {policy : NetworkPolicy} {parsed : Url}
    {name : String} (read : parse url = some parsed) (named : parsed.host = some (.domain name))
    (notLiteral : parseIpAddr name = none) :
    checkUrlWithPolicy parse url policy = .ok () ↔
      policy.Admits parsed.scheme ∧ ¬ policy.Refuses (hostMatches name) := by
  obtain ⟨text, hostStr⟩ := parsed.exists_hostStr named
  obtain rfl : text = name := by
    cases parsed.written_of_some named hostStr
    rfl
  rw [checkUrlWithPolicy_ok_iff parse read named hostStr]
  simp [Host.literal, notLiteral]

theorem sameAnswer_iff {plain dotted scheme name : String}
    (same : SameButDot parse plain dotted scheme name) (policy : NetworkPolicy) :
    SameAnswer parse plain dotted policy ↔ ¬ policy.Admits scheme ∨
      (policy.Refuses (hostMatches name) ↔ policy.Refuses (dottedMatches name)) := by
  obtain ⟨parsed, read, rfl, named⟩ := same.plain
  obtain ⟨other, otherRead, scheme_eq, otherNamed⟩ := same.dotted
  have matches_eq : hostMatches (name ++ ".") = dottedMatches name :=
    funext (hostMatches_dot name)
  rw [SameAnswer, checkUrlWithPolicy_domain_iff parse read named same.notLiteral.1,
    checkUrlWithPolicy_domain_iff parse otherRead otherNamed same.notLiteral.2, matches_eq,
    scheme_eq]
  by_cases admitted : policy.Admits parsed.scheme
  · simp [admitted, not_iff_not]
  · simp [admitted]

/-- The private guard misses the mapped literals alone, and a trailing dot changes the answer
unless the entries that end in a dot refuse what all of them refuse. -/
theorem targets_alike_iff :
    (∀ url policy, GuardsPrivate parse url policy ↔ ¬ LetsMappedIn parse url policy) ∧
      ∀ plain dotted scheme name policy, SameButDot parse plain dotted scheme name →
        (SameAnswer parse plain dotted policy ↔ ¬ policy.Admits scheme ∨
          (policy.Refuses (hostMatches name) ↔ policy.Refuses (dottedMatches name))) :=
  ⟨guardsPrivate_iff parse, fun _ _ _ _ policy same => sameAnswer_iff parse same policy⟩

/-- The URLs of a private address in its mapped form and of a domain name in both spellings. -/
def sampleUrls : String → Option Url
  | "https://[::ffff:127.0.0.1]/" =>
      let loopback := ofGroups [0, 0, 0, 0, 0, 0xffff, 0x7f00, 1]
      some ⟨"https", some (.ipv6 loopback), some "[::ffff:7f00:1]",
        .some (.ipv6 loopback "::ffff:7f00:1" (by decide))⟩
  | "https://evil.com/" => some ⟨"https", some (.domain "evil.com"), some "evil.com",
      .some (.domain "evil.com" (by decide))⟩
  | "https://evil.com./" => some ⟨"https", some (.domain "evil.com."), some "evil.com.",
      .some (.domain "evil.com." (by decide))⟩
  | _ => none

theorem sampleUrls_sameButDot :
    SameButDot sampleUrls "https://evil.com/" "https://evil.com./" "https" "evil.com" where
  plain := ⟨_, rfl, rfl, rfl⟩
  dotted := ⟨_, rfl, rfl, rfl⟩
  notLiteral := by decide

theorem targets_alike_sample :
    GuardsPrivate sampleUrls "https://evil.com/" {} ∧
      SameAnswer sampleUrls "https://evil.com/" "https://evil.com./" {} := by
  have guard := (targets_alike_iff sampleUrls).1 "https://evil.com/" {}
  have answers := (targets_alike_iff sampleUrls).2 _ _ _ _ {} sampleUrls_sameButDot
  refine ⟨guard.mpr ?_, answers.mpr (.inr ?_)⟩
  · rintro ⟨_, _, _, ⟨⟩, ⟨⟩, ⟨⟩, ⟨ip, literal, -⟩, -⟩
    have unread : (Host.domain "evil.com").literal = none := by decide
    rw [unread] at literal
    cases literal
  · simp [NetworkPolicy.Refuses]

theorem mapped_loopback_passes :
    ¬ GuardsPrivate sampleUrls "https://[::ffff:127.0.0.1]/" {} ∧
      ¬ SameAnswer sampleUrls "https://evil.com/" "https://evil.com./"
        { denyHosts := ["evil.com"] } := by
  constructor
  · intro guards
    refine guards rfl rfl _ rfl _ rfl ⟨_, rfl, ⟨127, 0, 0, 1⟩, ?_, ?_⟩ <;> decide
  · intro same
    exact absurd (same.mpr rfl) (by decide)

end Network

end Roko
