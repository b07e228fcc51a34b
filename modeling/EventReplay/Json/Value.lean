import EventReplay.Json.Grammar

/-!
# JSON values

`readValue` builds a value from lexemes, one move of the grammar after another, and `Value.read` reads
a whole text. Unlike the bare grammar it limits the depth of nesting, and wants numbers in range and
strings that say a text.

A number without fraction and exponent is an integer if 64 bits hold it; any other is a
floating-point number. Of several members with one key the last counts (`Value.settle`).
-/

set_option autoImplicit false

namespace EventReplay.Json

/-- A JSON value. The members of an object stand in the order of the text. -/
inductive Value where
  | null
  | bool (b : Bool)
  | int (n : Int)
  | float (x : Float)
  | text (s : String)
  | array (items : List Value)
  | object (members : List (String × Value))

/-! ## Numbers -/

/-- The greatest number of an unsigned 64-bit word. -/
def maxWord : Nat := 18446744073709551615

/-- The value of an ASCII digit. -/
def digitValue (b : UInt8) : Nat := b.toNat - 0x30

/-- Takes in digits as long as a 64-bit word holds the number they make; the digits that do not fit
are left. -/
def gather (n : Nat) : Bytes → Nat × Bytes
  | [] => (n, [])
  | b :: rest =>
    if 10 * n + digitValue b ≤ maxWord then gather (10 * n + digitValue b) rest
    else (n, b :: rest)

/-- The value of a row of digits. -/
def digitsValue (digits : Bytes) : Nat := digits.foldl (fun n b => 10 * n + digitValue b) 0

/-- A power of ten as a floating-point number. -/
def tenTo (n : Nat) : Float := Float.ofScientific 1 false n

/-- A floating-point number times a power of ten, by one multiplication or one division; a number too
small for one division is first divided by 10^308. There is none when the product is too great.
Three divisions bring every number to zero. -/
def scale (divisions : Nat) (x : Float) (exponent : Int) : Option Float :=
  if exponent.natAbs ≤ 308 then
    if 0 ≤ exponent then
      let scaled := x * tenTo exponent.toNat
      if scaled.isInf then none else some scaled
    else some (x / tenTo exponent.natAbs)
  else if x == 0 then some x
  else if 0 ≤ exponent then none
  else
    match divisions with
    | 0 => some 0
    | divisions + 1 => scale divisions (x / tenTo 308) (exponent + 308)

/-- The number with a sign, the leading digits and a power of ten. -/
def signedScale (negative : Bool) (significand : Nat) (exponent : Int) : Option Value :=
  (scale 3 (UInt64.ofNat significand).toFloat exponent).map fun x =>
    .float (if negative then -x else x)

/-- The greatest exponent that is taken as it stands. -/
def maxExponent : Nat := 2147483647

/-- The number that a numeral names, or nothing when it is out of range. The leading digits are those
that fit a 64-bit word; each digit of the whole part that does not fit counts as a power of ten, and
once a digit of the fraction does not fit, the fraction ends there. -/
def Numeral.value? (n : Numeral) : Option Value :=
  let (lead, left) := gather 0 n.whole
  let (significand, shift) :=
    match n.fraction with
    | none => (lead, (left.length : Int))
    | some digits =>
      let (significand, unused) := gather lead digits
      (significand, (left.length : Int) - ((digits.length : Int) - unused.length))
  match n.exponent with
  | none =>
    if n.fraction = none ∧ left = [] then
      if !n.negative then some (.int lead)
      else if 0 < lead ∧ lead ≤ 9223372036854775808 then some (.int (-(lead : Int)))
      else some (.float (-(UInt64.ofNat lead).toFloat))
    else signedScale n.negative significand shift
  | some (minus, digits) =>
    let exponent := digitsValue digits
    if exponent ≤ maxExponent then
      signedScale n.negative significand (if minus then shift - exponent else shift + exponent)
    else if significand = 0 ∨ minus then some (.float (if n.negative then -0.0 else 0.0))
    else none

/-! ## Reading -/

/-- A container that is still open, with what it holds so far, latest first. -/
inductive Frame where
  | array (items : List Value)
  | object (members : List (String × Value))
  /-- An object whose latest key still lacks its value. -/
  | member (key : String) (members : List (String × Value))

/-- The value of a token that is a value by itself. -/
def scalarValue : Token → Except Fault Value
  | .null => .ok .null
  | .bool b => .ok (.bool b)
  | .number n =>
    match n.value? with
    | some v => .ok v
    | none => .error .malformed
  | .string body =>
    match textOf? body with
    | some s => .ok (.text s)
    | none => .error .malformed
  | _ => .error .malformed

/-- What reading has come to: a complete value, or open containers and what is needed. -/
inductive Progress where
  | complete (v : Value)
  | within (frames : List Frame) (need : Need)

/-- Puts a complete value where it belongs. -/
def place (v : Value) : List Frame → Progress
  | .array items :: frames => .within (.array (v :: items) :: frames) .moreItems
  | .member key members :: frames => .within (.object ((key, v) :: members) :: frames) .moreMembers
  | _ => .complete v

/-- Makes a move; at most `room` containers may be open. -/
def build (room : Nat) (frames : List Frame) (t : Token) : Move → Except Fault Progress
  | .scalar =>
    match scalarValue t with
    | .ok v => .ok (place v frames)
    | .error fault => .error fault
  | .opening b =>
    if frames.length < room then
      match b with
      | .array => .ok (.within (.array [] :: frames) .firstItem)
      | .object => .ok (.within (.object [] :: frames) .firstKey)
    else .error .malformed
  | .closing =>
    match frames with
    | .array items :: frames => .ok (place (.array items.reverse) frames)
    | .object members :: frames => .ok (place (.object members.reverse) frames)
    | _ => .error .malformed
  | .key =>
    match frames, t with
    | .object members :: frames, .string body =>
      match textOf? body with
      | some key => .ok (.within (.member key members :: frames) .colon)
      | none => .error .malformed
    | _, _ => .error .malformed
  | .separator next => .ok (.within frames next)

/-- Reads on until the outermost value is complete; gives it and the lexemes behind it. -/
def readValue (room : Nat) :
    List Frame → Need → List Lexeme → Except Fault (Value × List Lexeme)
  | _, _, [] => .error .truncated
  | frames, need, l :: ls =>
    match move need l.token with
    | .error fault => .error fault
    | .ok m =>
      match build room frames l.token m with
      | .error fault => .error fault
      | .ok (.complete v) => .ok (v, ls)
      | .ok (.within frames need) => readValue room frames need ls

theorem readValue_length {room : Nat} {frames : List Frame} {need : Need} {ls rest : List Lexeme}
    {v : Value} (h : readValue room frames need ls = .ok (v, rest)) : rest.length < ls.length := by
  induction ls generalizing frames need with
  | nil => simp [readValue] at h
  | cons l ls ih =>
    rw [readValue] at h
    split at h
    · simp at h
    · split at h
      · simp at h
      · simp only [Except.ok.injEq, Prod.mk.injEq] at h
        simp [h.2]
      · have := ih h
        simp only [List.length_cons]
        omega

/-- The deepest nesting that is read. -/
def maxDepth : Nat := 127

/-- The value that a text holds. -/
def Value.read (s : Bytes) : Except Fault Value :=
  match readValue maxDepth [] .value (lex s) with
  | .error fault => .error fault
  | .ok (v, []) => .ok v
  | .ok (_, _ :: _) => .error .malformed

/-! ## Settling members -/

/-- Sets a member; a key that is there keeps its place. -/
def setMember (key : String) (v : Value) : List (String × Value) → List (String × Value)
  | [] => [(key, v)]
  | (k, w) :: members => if k = key then (k, v) :: members else (k, w) :: setMember key v members

/-- The member name under which an object stands for the JSON text that the member holds. -/
def embeddedKey : String :=
  String.ofList <| [36, 115, 101, 114, 100, 101, 95, 106, 115, 111, 110, 58, 58, 112, 114, 105, 118,
    97, 116, 101, 58, 58, 82, 97, 119, 86, 97, 108, 117, 101].map Char.ofNat

mutual

/-- The value with one member for each key, at any depth. An object that starts with the embedded
key stands for the text in it, which must be the only member and be read itself; texts within texts
are followed `depth` times. -/
def Value.settle (depth : Nat) : Value → Option Value
  | .array items => (settleItems depth items).map .array
  | .object members =>
    match members with
    | [] => some (.object [])
    | (key, v) :: more =>
      if key = embeddedKey then
        match depth, v, more with
        | depth + 1, .text s, [] =>
          match Value.read (Utf8.encode s) with
          | .ok w => w.settle depth
          | .error _ => none
        | _, _, _ => none
      else
        match v.settle depth, settleMembers depth more with
        | some v, some more => some (.object (more.foldl (fun ms m => setMember m.1 m.2 ms) [(key, v)]))
        | _, _ => none
  | v => some v
termination_by v => (depth, sizeOf v)

/-- The items, each settled. -/
def settleItems (depth : Nat) : List Value → Option (List Value)
  | [] => some []
  | v :: items =>
    match v.settle depth, settleItems depth items with
    | some v, some items => some (v :: items)
    | _, _ => none
termination_by items => (depth, sizeOf items)

/-- The members, each with its value settled. -/
def settleMembers (depth : Nat) : List (String × Value) → Option (List (String × Value))
  | [] => some []
  | (key, v) :: members =>
    match v.settle depth, settleMembers depth members with
    | some v, some members => some ((key, v) :: members)
    | _, _ => none
termination_by members => (depth, sizeOf members)

end

end EventReplay.Json
