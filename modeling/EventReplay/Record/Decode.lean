import EventReplay.Json.Value
import EventReplay.Millis

/-!
# Reading stream records

`decodeLine` reads one line of a stream: a record, or an array of records, which is how records are
aggregated. A record is an object with a `type`; inside an array it may also be an array of the type
and the fields in order.

The type is looked at where it stands, the other fields once the whole record has been read. So text
that is not JSON goes before a field that is missing or wrong, but not before a wrong type.
-/

set_option autoImplicit false

namespace EventReplay

open Json (Fault Lexeme Value)

/-- A stream record as its consumers see it. -/
inductive Record where
  | event (timestamp : Int) (key : String) (data : Value)
  | watermark (value : Int) (emittedAt : Int)

/-- The types that a record can have. -/
inductive RecordType where
  | event
  | watermark
deriving DecidableEq, Repr

/-- The type of a name. -/
def RecordType.ofName? (name : String) : Option RecordType :=
  if name = "event" then some event
  else if name = "watermark" then some watermark
  else none

namespace Record

/-! ## Fields -/

/-- A time, which a record gives as an integer. -/
def time? : Value → Option Int
  | .int n => if Millis.InRange n then some n else none
  | _ => none

/-- A text. -/
def text? : Value → Option String
  | .text s => some s
  | _ => none

/-- The value of a field that occurs once. -/
def field? (name : String) (members : List (String × Value)) : Option Value :=
  match members.filter fun m => m.1 = name with
  | [(_, v)] => some v
  | _ => none

/-- The record of a type whose fields have the given values in order; `depth` bounds how far texts
inside texts are followed. -/
def ofFields? (depth : Nat) : RecordType → List Value → Option Record
  | .event, [timestamp, key, data] => do
    let timestamp ← time? timestamp
    let key ← text? key
    let data ← data.settle depth
    return .event timestamp key data
  | .watermark, [value, emittedAt] => do
    let value ← time? value
    let emittedAt ← time? emittedAt
    return .watermark value emittedAt
  | _, _ => none

/-- The names of the fields in order. -/
def fieldNames : RecordType → List String
  | .event => ["timestamp", "partition_key", "data"]
  | .watermark => ["watermark", "emitted_at"]

/-- The record of a type that an object's members make; members with other names do not count. -/
def ofMembers? (depth : Nat) (type : RecordType) (members : List (String × Value)) : Option Record :=
  match (fieldNames type).mapM fun name => field? name members with
  | some values => ofFields? depth type values
  | none => none

/-! ## Records -/

/-- The type at the front. -/
def readType : List Lexeme → Except Fault (RecordType × List Lexeme)
  | [] => .error .truncated
  | l :: ls =>
    match Json.startValue l.token with
    | .error fault => .error fault
    | .ok .scalar =>
      match Json.scalarValue l.token with
      | .error fault => .error fault
      | .ok (.text name) =>
        match RecordType.ofName? name with
        | some type => .ok (type, ls)
        | none => .error .mismatched
      | .ok _ => .error .mismatched
    | .ok _ => .error .mismatched

theorem readType_length {ls rest : List Lexeme} {type : RecordType}
    (h : readType ls = .ok (type, rest)) : rest.length < ls.length := by
  unfold readType at h
  repeat' split at h
  all_goals simp_all

/-- The members of an object up to its end, after what is needed at the front: the type, if it has
been met, and the other members, latest first. At most `room` containers may be open in a value. -/
def readMembers (room : Nat) (type : Option RecordType) (members : List (String × Value))
    (need : Json.Need) (ls : List Lexeme) :
    Except Fault ((Option RecordType × List (String × Value)) × List Lexeme) :=
  match ls with
  | [] => .error .truncated
  | l :: ls =>
    match Json.move need l.token with
    | .error fault => .error fault
    | .ok .closing => .ok ((type, members.reverse), ls)
    | .ok (.separator next) => readMembers room type members next ls
    | .ok _ =>
      match Json.scalarValue l.token with
      | .ok (.text key) =>
        match ls with
        | [] => .error .truncated
        | l :: ls =>
          match Json.move .colon l.token with
          | .error fault => .error fault
          | .ok _ =>
            if key = "type" then
              if type.isSome then .error .mismatched
              else
                match _h : readType ls with
                | .error fault => .error fault
                | .ok (type, rest) => readMembers room (some type) members .moreMembers rest
            else
              match _h : Json.readValue room [] .value ls with
              | .error fault => .error fault
              | .ok (v, rest) => readMembers room type ((key, v) :: members) .moreMembers rest
      | _ => .error .malformed
termination_by ls.length
decreasing_by
  · simp
  · have := readType_length _h
    simp only [List.length_cons]
    omega
  · have := Json.readValue_length _h
    simp only [List.length_cons]
    omega

/-- The items of an array up to its end, after what is needed at the front. -/
def readItems (room : Nat) (items : List Value) (need : Json.Need) (ls : List Lexeme) :
    Except Fault (List Value × List Lexeme) :=
  match ls with
  | [] => .error .truncated
  | l :: rest =>
    match Json.move need l.token with
    | .error fault => .error fault
    | .ok .closing => .ok (items.reverse, rest)
    | .ok (.separator next) => readItems room items next rest
    | .ok _ =>
      match _h : Json.readValue room [] .value (l :: rest) with
      | .error fault => .error fault
      | .ok (v, rest) => readItems room (v :: items) .moreItems rest
termination_by ls.length
decreasing_by
  · simp
  · exact Json.readValue_length _h

theorem readMembers_length {room : Nat} {type : Option RecordType}
    {members : List (String × Value)} {need : Json.Need} {ls rest : List Lexeme}
    {found : Option RecordType × List (String × Value)}
    (h : readMembers room type members need ls = .ok (found, rest)) : rest.length < ls.length := by
  fun_induction readMembers room type members need ls with
  | case1 => simp at h
  | case2 => simp at h
  | case3 => simp_all
  | case4 =>
    rename_i ih
    have := ih h
    simp only [List.length_cons]
    omega
  | case5 => simp at h
  | case6 => simp at h
  | case7 => simp at h
  | case8 => simp at h
  | case9 =>
    rename_i ih
    have := ih h
    have hr := readType_length (by assumption)
    simp only [List.length_cons]
    omega
  | case10 => simp at h
  | case11 =>
    rename_i hr ih
    have := ih h
    have := Json.readValue_length hr
    simp only [List.length_cons]
    omega
  | case12 => simp at h

theorem readItems_length {room : Nat} {items found : List Value} {need : Json.Need}
    {ls rest : List Lexeme} (h : readItems room items need ls = .ok (found, rest)) :
    rest.length < ls.length := by
  fun_induction readItems room items need ls with
  | case1 => simp at h
  | case2 => simp at h
  | case3 => simp_all
  | case4 =>
    rename_i ih
    have := ih h
    simp only [List.length_cons]
    omega
  | case5 => simp at h
  | case6 =>
    rename_i hr ih
    have := ih h
    have := Json.readValue_length hr
    omega

/-- The record at the front, inside which at most `room` containers may be open in a value. -/
def read (depth room : Nat) : List Lexeme → Except Fault (Record × List Lexeme)
  | [] => .error .truncated
  | l :: ls =>
    match Json.startValue l.token with
    | .error fault => .error fault
    | .ok (.opening .object) =>
      match readMembers room none [] .firstKey ls with
      | .error fault => .error fault
      | .ok ((some type, members), rest) =>
        match ofMembers? depth type members with
        | some record => .ok (record, rest)
        | none => .error .mismatched
      | .ok ((none, _), _) => .error .mismatched
    | .ok (.opening .array) =>
      match ls with
      | [] => .error .truncated
      | first :: _ =>
        if first.token = .closeArray then .error .mismatched
        else
          match readType ls with
          | .error fault => .error fault
          | .ok (type, rest) =>
            match readItems room [] .moreItems rest with
            | .error fault => .error fault
            | .ok (values, rest) =>
              match ofFields? depth type values with
              | some record => .ok (record, rest)
              | none => .error .mismatched
    | .ok _ =>
      match Json.scalarValue l.token with
      | .error fault => .error fault
      | .ok _ => .error .mismatched

theorem read_length {depth room : Nat} {ls rest : List Lexeme} {record : Record}
    (h : read depth room ls = .ok (record, rest)) : rest.length < ls.length := by
  cases ls with
  | nil => simp [read] at h
  | cons l ls =>
    simp only [read] at h
    split at h
    · simp at h
    · split at h
      · simp at h
      · rename_i hm
        split at h
        · have := readMembers_length hm
          simp only [Except.ok.injEq, Prod.mk.injEq] at h
          simp only [List.length_cons, ← h.2]
          omega
        · simp at h
      · simp at h
    · split at h
      · simp at h
      · split at h
        · simp at h
        · split at h
          · simp at h
          · rename_i ht
            split at h
            · simp at h
            · rename_i hi
              split at h
              · have := readType_length ht
                have := readItems_length hi
                simp only [Except.ok.injEq, Prod.mk.injEq] at h
                simp only [List.length_cons, ← h.2] at *
                omega
              · simp at h
    · split at h <;> simp at h

/-- The records of an aggregate up to its end, after what is needed at the front. -/
def readAll (depth room : Nat) (records : List Record) (need : Json.Need) (ls : List Lexeme) :
    Except Fault (List Record × List Lexeme) :=
  match ls with
  | [] => .error .truncated
  | l :: rest =>
    match Json.move need l.token with
    | .error fault => .error fault
    | .ok .closing => .ok (records.reverse, rest)
    | .ok (.separator next) => readAll depth room records next rest
    | .ok _ =>
      match _h : read depth room (l :: rest) with
      | .error fault => .error fault
      | .ok (record, rest) => readAll depth room (record :: records) .moreItems rest
termination_by ls.length
decreasing_by
  · simp
  · exact read_length _h

/-- The records of the lexemes of a line, which end with them. -/
def ofLexemes (depth : Nat) (ls : List Lexeme) : Except Fault (List Record) :=
  let finish : Except Fault (List Record × List Lexeme) → Except Fault (List Record)
    | .error fault => .error fault
    | .ok (records, []) => .ok records
    | .ok (_, _ :: _) => .error .malformed
  match ls with
  | l :: rest =>
    if l.token = .openArray then
      finish (readAll depth (Json.maxDepth - 2) [] .firstItem rest)
    else
      finish ((read depth (Json.maxDepth - 1) ls).map fun (record, rest) => ([record], rest))
  | [] => .error .truncated

end Record

/-- The records of one line of a stream. -/
def decodeLine (line : Bytes) : Except Fault (List Record) :=
  Record.ofLexemes line.length (Json.lex (line.dropWhile Bytes.isAsciiBlank))

end EventReplay
