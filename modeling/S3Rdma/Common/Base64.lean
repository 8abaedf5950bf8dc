import S3Rdma.Lib.Bytes

/-!
# Base64 on the legacy control path

`base64_encode` and `base64_decode` of `src/common/base64.hpp`. The encoder takes three bytes at a
time and pads the last group; the decoder shifts six bits at a time through a 32-bit accumulator,
skips every byte outside the alphabet and emits a byte whenever eight bits are there.
-/

namespace S3Rdma

/-- The encoder's table. -/
def base64Table : Bytes :=
  ascii "ABCDEFGHIJKLMNOPQRSTUVWXYZabcdefghijklmnopqrstuvwxyz0123456789+/"

/-- The character of six bits. -/
def base64Char (n : BitVec 32) : UInt8 := base64Table.getD (n &&& 0x3F).toNat 0

/-- One pass of the encoder's loop: the four characters of one, two or three bytes. -/
def base64Group (a : UInt8) (b c : Option UInt8) : Bytes :=
  let n : BitVec 32 := (a.toBitVec.setWidth 32 <<< 16) ||| ((b.getD 0).toBitVec.setWidth 32 <<< 8)
    ||| (c.getD 0).toBitVec.setWidth 32
  [base64Char (n >>> 18), base64Char (n >>> 12),
    if b.isSome then base64Char (n >>> 6) else chr '=',
    if c.isSome then base64Char n else chr '=']

/-- `base64_encode`. -/
def base64Encode : Bytes → Bytes
  | [] => []
  | [a] => base64Group a none none
  | [a, b] => base64Group a (some b) none
  | a :: b :: c :: rest => base64Group a (some b) (some c) ++ base64Encode rest

/-- The decoder's `val`: the six bits of a character, or `none` (the code's `-1`) for padding and
every byte outside the alphabet. -/
def base64Val (c : UInt8) : Option ℕ :=
  if isUpper c then some (c.toNat - 65)
  else if isLower c then some (c.toNat - 97 + 26)
  else if isDigit c then some (c.toNat - 48 + 52)
  else if c = chr '+' then some 62
  else if c = chr '/' then some 63
  else none

/-- The decoder's loop variables. -/
structure Base64State where
  /-- The accumulator, an `int` taken as 32 wrapping bits. -/
  buf : BitVec 32
  /-- The number of bits of `buf` that have not been emitted. -/
  bits : ℕ
  /-- The bytes emitted so far. -/
  out : Bytes

/-- One pass of the decoder's loop. -/
def base64Step (s : Base64State) (c : UInt8) : Base64State :=
  match base64Val c with
  | none => s
  | some v =>
    let buf := (s.buf <<< 6) ||| BitVec.ofNat 32 v
    let bits := s.bits + 6
    if 8 ≤ bits then
      ⟨buf, bits - 8, s.out ++ [UInt8.ofNat (buf.sshiftRight (bits - 8) &&& 0xFF).toNat]⟩
    else ⟨buf, bits, s.out⟩

/-- `base64_decode`. -/
def base64Decode (s : Bytes) : Bytes := (s.foldl base64Step ⟨0, 0, []⟩).out

end S3Rdma
