import EventReplay.Json.Lexeme

/-!
# The grammar of JSON

Whether a row of lexemes is a JSON value is decided one token at a time. `Need` says what may come
next, `move` says what a token does there, and a stack of open brackets remembers where a closing
bracket leads back to. `skipValue` follows the grammar and takes the lexemes of one value off the
front; the reader of values (`EventReplay.Json.readValue`) makes the same moves.
-/

set_option autoImplicit false

namespace EventReplay.Json

/-- The two kinds of container. -/
inductive Bracket where
  | array
  | object
deriving DecidableEq, Repr

/-- What may come next. -/
inductive Need where
  /-- A value. -/
  | value
  /-- The first item of an array, or the array's end. -/
  | firstItem
  /-- A comma and an item, or the array's end. -/
  | moreItems
  /-- The first key of an object, or the object's end. -/
  | firstKey
  /-- A key. -/
  | key
  /-- The colon behind a key. -/
  | colon
  /-- A comma and a key, or the object's end. -/
  | moreMembers
deriving DecidableEq, Repr

/-- What a token does where it is allowed. -/
inductive Move where
  /-- It is a value by itself. -/
  | scalar
  /-- It opens a container. -/
  | opening (b : Bracket)
  /-- It closes the innermost container. -/
  | closing
  /-- It is the key of a member. -/
  | key
  /-- It stands between two parts, of which the second is needed now. -/
  | separator (next : Need)
deriving DecidableEq, Repr

/-- The move of a token where a value may start. -/
def startValue : Token → Except Fault Move
  | .null | .bool _ | .number _ | .string _ => .ok .scalar
  | .openArray => .ok (.opening .array)
  | .openObject => .ok (.opening .object)
  | .badString fault | .badScalar fault => .error fault
  | .closeArray | .closeObject | .comma | .colon => .error .malformed

/-- The move of a token where a key must start. -/
def startKey : Token → Except Fault Move
  | .string _ => .ok .key
  | .badString fault => .error fault
  | _ => .error .malformed

/-- The move of a token. -/
def move (need : Need) (t : Token) : Except Fault Move :=
  match need with
  | .value => startValue t
  | .firstItem => if t = .closeArray then .ok .closing else startValue t
  | .moreItems =>
    if t = .comma then .ok (.separator .value)
    else if t = .closeArray then .ok .closing
    else .error .malformed
  | .firstKey => if t = .closeObject then .ok .closing else startKey t
  | .key => startKey t
  | .colon => if t = .colon then .ok (.separator .value) else .error .malformed
  | .moreMembers =>
    if t = .comma then .ok (.separator .key)
    else if t = .closeObject then .ok .closing
    else .error .malformed

/-- What is needed after a value inside a container. -/
def Bracket.more : Bracket → Need
  | array => .moreItems
  | object => .moreMembers

/-- What is needed after an opening bracket. -/
def Bracket.first : Bracket → Need
  | array => .firstItem
  | object => .firstKey

/-- Where a move leads: the open brackets, innermost first, and what is needed. Nothing is needed
once the outermost value is complete. -/
def advance (opened : List Bracket) : Move → Option (List Bracket × Need)
  | .scalar => opened.head?.map fun b => (opened, b.more)
  | .opening b => some (b :: opened, b.first)
  | .closing => opened.tail.head?.map fun b => (opened.tail, b.more)
  | .key => some (opened, .colon)
  | .separator next => some (opened, next)

/-- The lexemes that complete a value, and those behind it. -/
def skipValue : List Bracket → Need → List Lexeme → Option (List Lexeme × List Lexeme)
  | _, _, [] => none
  | opened, need, l :: ls =>
    match move need l.token with
    | .error _ => none
    | .ok m =>
      match advance opened m with
      | none => some ([l], ls)
      | some (opened, need) =>
        match skipValue opened need ls with
        | none => none
        | some (taken, rest) => some (l :: taken, rest)

/-- What lexemes spell, without the blanks in front of the first. -/
def spell : List Lexeme → Bytes
  | [] => []
  | l :: ls => l.text ++ ls.flatMap fun l => l.gap ++ l.text

/-- The JSON value that the bytes hold, as it is written but for blanks around it. Neither the depth
of nesting nor the range of a number is limited, and a string may hold half a surrogate pair. -/
def rawValue? (s : Bytes) : Option Bytes :=
  match skipValue [] .value (lex s) with
  | some (taken, []) =>
    let text := spell taken
    if (Utf8.decode? text).isSome then some text else none
  | _ => none

end EventReplay.Json
