/-!
# Socket addresses

A network address and the number of a service there, as text: `192.0.2.1:80` or `[2001:db8::1]:80`.
`SocketAddress.read` accepts any way to write the groups of an address; `SocketAddress.text` has one
way: the longest run of zero groups is left out, the first of equals, if it has more than one group.
-/

set_option autoImplicit false

namespace EventReplay

/-- A network address. -/
inductive HostAddress where
  /-- Four bytes. -/
  | v4 (bytes : List Nat)
  /-- Eight groups of sixteen bits, and the zone that the address is meant in, 0 for none. -/
  | v6 (groups : List Nat) (zone : Nat)
deriving DecidableEq, Repr

/-- A network address and the number of a service there. -/
structure SocketAddress where
  host : HostAddress
  service : Nat
deriving DecidableEq, Repr

namespace SocketAddress

/-! ## Reading -/

/-- The value of a digit in a base up to sixteen. -/
def digit? (base : Nat) (c : Char) : Option Nat :=
  let n :=
    if c.isDigit then c.toNat - '0'.toNat
    else if 'a' ≤ c ∧ c ≤ 'f' then c.toNat - 'a'.toNat + 10
    else if 'A' ≤ c ∧ c ≤ 'F' then c.toNat - 'A'.toNat + 10
    else base
  if n < base then some n else none

/-- The number at the front in some base, up to a greatest value. -/
def readNumber (base greatest : Nat) (cs : List Char) : Option (Nat × List Char) :=
  let digits := cs.takeWhile fun c => (digit? base c).isSome
  let n := digits.foldl (fun n c => base * n + (digit? base c).getD 0) 0
  if digits ≠ [] ∧ n ≤ greatest then some (n, cs.drop digits.length) else none

/-- The number at the front if it has at most so many digits. -/
def readShort (base width greatest : Nat) (cs : List Char) : Option (Nat × List Char) :=
  if (cs.takeWhile fun c => (digit? base c).isSome).length ≤ width then readNumber base greatest cs
  else none

/-- One byte of a four-byte address; no zero stands in front. -/
def readByte (cs : List Char) : Option (Nat × List Char) :=
  match cs with
  | '0' :: c :: _ => if c.isDigit then none else readShort 10 3 255 cs
  | _ => readShort 10 3 255 cs

/-- So many bytes more of a four-byte address, each behind a point. -/
def readBytes : Nat → List Char → Option (List Nat × List Char)
  | 0, cs => some ([], cs)
  | more + 1, '.' :: cs =>
    match readByte cs with
    | none => none
    | some (n, cs) => (readBytes more cs).map fun (ns, rest) => (n :: ns, rest)
  | _ + 1, _ => none

/-- A four-byte address. -/
def readV4 (cs : List Char) : Option (List Nat × List Char) :=
  match readByte cs with
  | none => none
  | some (n, cs) => (readBytes 3 cs).map fun (ns, rest) => (n :: ns, rest)

/-- The two groups that four bytes make. -/
def groupsOfBytes : List Nat → List Nat
  | [a, b, c, d] => [256 * a + b, 256 * c + d]
  | _ => []

/-- The groups at the front, at most `room`, with colons between them, and whether the last two of them
were written as four bytes. `first` says that no colon stands before. -/
def readGroups : Nat → Bool → List Char → List Nat × Bool × List Char
  | 0, _, cs => ([], false, cs)
  | room + 1, first, cs =>
    let entry : Option (List Char) :=
      if first then some cs
      else
        match cs with
        | ':' :: rest => some rest
        | _ => none
    match entry with
    | none => ([], false, cs)
    | some start =>
      match if room = 0 then none else readV4 start with
      | some (bytes, rest) => (groupsOfBytes bytes, true, rest)
      | none =>
        match readShort 16 4 65535 start with
        | none => ([], false, cs)
        | some (group, rest) =>
          let (groups, asBytes, rest) := readGroups room false rest
          (group :: groups, asBytes, rest)

/-- Eight groups; two colons stand for as many zero groups as are lacking, at least one. -/
def readV6 (cs : List Char) : Option (List Nat × List Char) :=
  match readGroups 8 true cs with
  | (head, asBytes, rest) =>
    if head.length = 8 then some (head, rest)
    else if asBytes then none
    else
      match rest with
      | ':' :: ':' :: rest =>
        match readGroups (7 - head.length) true rest with
        | (tail, _, rest) =>
          some (head ++ List.replicate (8 - head.length - tail.length) 0 ++ tail, rest)
      | _ => none

/-- The number of a service at the end. -/
def readService : List Char → Option Nat
  | ':' :: cs =>
    match readNumber 10 65535 cs with
    | some (service, []) => some service
    | _ => none
  | _ => none

/-- The zone of an address, if one is written. -/
def readZone : List Char → Option (Nat × List Char)
  | '%' :: cs => readNumber 10 4294967295 cs
  | cs => some (0, cs)

/-- The address that a text writes. -/
def read (text : String) : Option SocketAddress :=
  match text.toList with
  | '[' :: cs => do
    let (groups, cs) ← readV6 cs
    let (zone, cs) ← readZone cs
    match cs with
    | ']' :: cs => (readService cs).map fun service => ⟨.v6 groups zone, service⟩
    | _ => none
  | cs => do
    let (bytes, cs) ← readV4 cs
    (readService cs).map fun service => ⟨.v4 bytes, service⟩

/-! ## Writing -/

/-- The bytes of an address with points between them. -/
def bytesText (bytes : List Nat) : String := String.intercalate "." (bytes.map toString)

/-- Groups with colons between them. -/
def groupsText (groups : List Nat) : String :=
  String.intercalate ":" (groups.map fun n => String.ofList (Nat.toDigits 16 n))

/-- Where the longest run of zero groups starts, and its length; of equals, the first. -/
def longestZeros (groups : List Nat) : Nat × Nat :=
  (List.range groups.length).foldl (fun best start =>
    let length := ((groups.drop start).takeWhile (· = 0)).length
    if best.2 < length then (start, length) else best) (0, 0)

/-- The text of eight groups. Those that stand for a four-byte address end in its bytes. -/
def v6Text (groups : List Nat) : String :=
  match groups with
  | [0, 0, 0, 0, 0, 65535, a, b] =>
    "::ffff:" ++ bytesText [a / 256, a % 256, b / 256, b % 256]
  | _ =>
    let (start, length) := longestZeros groups
    if 1 < length then
      groupsText (groups.take start) ++ "::" ++ groupsText (groups.drop (start + length))
    else groupsText groups

/-- The text of an address. -/
def text (address : SocketAddress) : String :=
  match address.host with
  | .v4 bytes => bytesText bytes ++ ":" ++ toString address.service
  | .v6 groups zone =>
    "[" ++ v6Text groups ++ (if zone = 0 then "" else "%" ++ toString zone) ++ "]:" ++
      toString address.service

end SocketAddress

end EventReplay
