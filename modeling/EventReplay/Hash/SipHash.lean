import EventReplay.Text.Utf8

/-!
# SipHash-1-3

The keyed hash of bytes with one round for each word and three at the end, here with both keys zero.
It spreads partition keys over the shards of a stream (`shardOf`) and names payloads that come
without a key (`keyOfPayload`).
-/

set_option autoImplicit false

namespace EventReplay

/-- The four words of state. -/
structure SipHash where
  v0 : UInt64
  v1 : UInt64
  v2 : UInt64
  v3 : UInt64

namespace SipHash

/-- The bits of a word moved up, those that leave coming in below; `0 < n < 64`. -/
def rotate (x : UInt64) (n : UInt64) : UInt64 := (x <<< n) ||| (x >>> (64 - n))

/-- The state before any input, for keys zero. -/
def start : SipHash :=
  ⟨0x736f6d6570736575, 0x646f72616e646f6d, 0x6c7967656e657261, 0x7465646279746573⟩

/-- One round. -/
def round (s : SipHash) : SipHash :=
  let v0 := s.v0 + s.v1
  let v1 := rotate s.v1 13 ^^^ v0
  let v0 := rotate v0 32
  let v2 := s.v2 + s.v3
  let v3 := rotate s.v3 16 ^^^ v2
  let v0 := v0 + v3
  let v3 := rotate v3 21 ^^^ v0
  let v2 := v2 + v1
  let v1 := rotate v1 17 ^^^ v2
  let v2 := rotate v2 32
  ⟨v0, v1, v2, v3⟩

/-- Takes in one word. -/
def absorb (s : SipHash) (word : UInt64) : SipHash :=
  let s := round { s with v3 := s.v3 ^^^ word }
  { s with v0 := s.v0 ^^^ word }

/-- The word of at most eight bytes, the first lowest. -/
def word (bytes : Bytes) : UInt64 := bytes.foldr (fun b w => (w <<< 8) ||| b.toUInt64) 0

/-- Takes in bytes eight at a time. The last word holds what is left and the count of all bytes,
modulo 256, as its highest byte. -/
def absorbAll (s : SipHash) (count : Nat) : Bytes → SipHash
  | a :: b :: c :: d :: e :: f :: g :: h :: rest =>
    absorbAll (s.absorb (word [a, b, c, d, e, f, g, h])) (count + 8) rest
  | rest => s.absorb (word rest ||| ((UInt64.ofNat (count + rest.length)) <<< 56))

/-- The hash of bytes. -/
def hash (bytes : Bytes) : UInt64 :=
  let s := absorbAll start 0 bytes
  let s := round (round (round { s with v2 := s.v2 ^^^ 0xff }))
  s.v0 ^^^ s.v1 ^^^ s.v2 ^^^ s.v3

/-- The hash of a text: of its bytes with 0xFF, which no text holds, behind them. -/
def ofText (s : String) : UInt64 := hash (Utf8.encode s ++ [0xFF])

end SipHash

/-- The shard that a partition key goes to among `shards`; no shards count as one. -/
def shardOf (key : String) (shards : Nat) : Nat :=
  (SipHash.ofText key).toNat % max shards 1

/-- Sixteen hexadecimal digits of a word, the highest first. -/
def hexWord (w : UInt64) : String :=
  let digits := Nat.toDigits 16 w.toNat
  String.ofList (List.replicate (16 - digits.length) '0' ++ digits)

/-- The partition key of a payload that is a text and comes without a key. -/
def keyOfPayload (payload : Bytes) : String := hexWord (SipHash.hash (payload ++ [0xFF]))

theorem shardOf_lt (key : String) (shards : Nat) : shardOf key shards < max shards 1 :=
  Nat.mod_lt _ (by omega)

end EventReplay
