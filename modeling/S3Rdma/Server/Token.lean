import S3Rdma.Common.Protocol
import S3Rdma.Server.HandleGet

/-!
# The token header, from the client to the server

The encoder works in groups of three bytes, the decoder is a bit accumulator. They meet in the
number that the accumulator's pending bits stand for: a character of value `v` makes it
`64 * low + v`, and when eight bits are there the upper part is emitted and the rest is pending
(`base64Step_emit`). Four characters of a group then give back its three bytes
(`foldl_base64Group`), from any contents of the accumulator above the pending bits.

The server tells the two encodings apart by a colon, which Base64 text never contains.
-/

namespace S3Rdma

/-! ## The encoder -/

/-- Three bytes in a group are digits in base 256. -/
theorem toNat_group (a b c : UInt8) :
    ((a.toBitVec.setWidth 32 <<< 16) ||| (b.toBitVec.setWidth 32 <<< 8) |||
      c.toBitVec.setWidth 32 : BitVec 32).toNat = a.toNat * 2^16 + b.toNat * 2^8 + c.toNat := by
  have ha := a.toNat_lt
  have hb := b.toNat_lt
  have hc := c.toNat_lt
  have h₁ : (a.toBitVec.setWidth 32 <<< 16 : BitVec 32).toNat = 2^16 * a.toNat := by
    rw [BitVec.toNat_shiftLeft, BitVec.toNat_setWidth, Nat.shiftLeft_eq, UInt8.toNat_toBitVec]
    omega
  have h₂ : (b.toBitVec.setWidth 32 <<< 8 : BitVec 32).toNat = 2^8 * b.toNat := by
    rw [BitVec.toNat_shiftLeft, BitVec.toNat_setWidth, Nat.shiftLeft_eq, UInt8.toNat_toBitVec]
    omega
  have h₃ : (c.toBitVec.setWidth 32 : BitVec 32).toNat = c.toNat := by
    rw [BitVec.toNat_setWidth, UInt8.toNat_toBitVec]
    omega
  rw [BitVec.toNat_or, BitVec.toNat_or, h₁, h₂, h₃,
    ← Nat.two_pow_add_eq_or_of_lt (show 2^8 * b.toNat < 2^16 by omega),
    show 2^16 * a.toNat + 2^8 * b.toNat = 2^8 * (2^8 * a.toNat + b.toNat) by ring,
    ← Nat.two_pow_add_eq_or_of_lt (show c.toNat < 2^8 by omega)]
  ring

/-- The decoder reads six bits back from their character. -/
theorem base64Val_base64Char (n : BitVec 32) : base64Val (base64Char n) = some (n.toNat % 64) := by
  have htable : ∀ k, k < 64 → base64Val (base64Table.getD k 0) = some k := by decide +kernel
  have hmask : (n &&& 0x3F).toNat = n.toNat % 64 := by
    rw [BitVec.toNat_and]
    exact Nat.and_two_pow_sub_one_eq_mod n.toNat 6
  rw [base64Char, hmask, htable _ (Nat.mod_lt _ (by decide))]

/-- The character of the bits from `k` on has their value. -/
theorem base64Val_shift (n : BitVec 32) (k : ℕ) :
    base64Val (base64Char (n >>> k)) = some (n.toNat / 2^k % 64) := by
  rw [base64Val_base64Char, BitVec.toNat_ushiftRight, Nat.shiftRight_eq_div_pow]

/-! ## The decoder -/

/-- A character is one more digit in base 64 in the accumulator, which keeps 26 bits of what it was.
-/
theorem toNat_shift_or (buf : BitVec 32) {v : ℕ} (hv : v < 64) :
    ((buf <<< 6) ||| BitVec.ofNat 32 v).toNat = 64 * (buf.toNat % 2^26) + v := by
  have hshift : (buf <<< 6).toNat = 2^6 * (buf.toNat % 2^26) := by
    rw [BitVec.toNat_shiftLeft, Nat.shiftLeft_eq]
    omega
  rw [BitVec.toNat_or, hshift, BitVec.toNat_ofNat, Nat.mod_eq_of_lt (by omega : v < 2^32),
    ← Nat.two_pow_add_eq_or_of_lt (show v < 2^6 by omega)]

/-- The byte that is emitted from the accumulator; the sign does not reach it. -/
theorem toNat_sshiftRight_and (buf : BitVec 32) {k : ℕ} (hk : k ≤ 4) :
    (buf.sshiftRight k &&& 0xFF).toNat = buf.toNat / 2^k % 256 := by
  have hmask : (buf.sshiftRight k &&& 0xFF).toNat = (buf.sshiftRight k).toNat % 256 := by
    rw [BitVec.toNat_and]
    exact Nat.and_two_pow_sub_one_eq_mod _ 8
  have hint := BitVec.toInt_sshiftRight (x := buf) (n := k)
  rw [Int.shiftRight_eq_div_pow, BitVec.toInt_eq_toNat_cond, BitVec.toInt_eq_toNat_cond] at hint
  have hlt := buf.isLt
  have hlt' := (buf.sshiftRight k).isLt
  rw [hmask]
  generalize (buf.sshiftRight k).toNat = y at *
  interval_cases k <;> split_ifs at hint <;> norm_num at hint ⊢ <;> omega

/-- A byte outside the alphabet changes nothing. -/
theorem base64Step_skip {c : UInt8} (h : base64Val c = none) (s : Base64State) :
    base64Step s c = s := by
  rw [base64Step, h]

section Step

variable {s : Base64State} {c : UInt8} {v : ℕ}

/-- The first character of a group is pending. -/
theorem base64Step_pending (hc : base64Val c = some v) (hv : v < 64) (hbits : s.bits = 0) :
    (base64Step s c).bits = 6 ∧ (base64Step s c).buf.toNat % 2^6 = v ∧
      (base64Step s c).out = s.out := by
  have hbuf := toNat_shift_or s.buf hv
  rw [base64Step, hc, hbits]
  refine ⟨rfl, ?_, rfl⟩
  show ((s.buf <<< 6) ||| BitVec.ofNat 32 v).toNat % 2^6 = v
  omega

/-- A character behind `k + 2` pending bits emits a byte and leaves `k` of its own bits pending. -/
theorem base64Step_emit {k low : ℕ} (hc : base64Val c = some v) (hv : v < 64) (hk : k ≤ 4)
    (hbits : s.bits = k + 2) (hlow : s.buf.toNat % 2^(k + 2) = low) :
    (base64Step s c).bits = k ∧ (base64Step s c).buf.toNat % 2^k = (64 * low + v) % 2^k ∧
      (base64Step s c).out = s.out ++ [UInt8.ofNat ((64 * low + v) / 2^k)] := by
  have hbuf := toNat_shift_or s.buf hv
  have hstep : base64Step s c = ⟨(s.buf <<< 6) ||| BitVec.ofNat 32 v, k, s.out ++
      [UInt8.ofNat (((s.buf <<< 6) ||| BitVec.ofNat 32 v).sshiftRight k &&& 0xFF).toNat]⟩ := by
    rw [base64Step, hc]
    dsimp only
    rw [if_pos (by omega), show s.bits + 6 - 8 = k by omega]
  have hlt := s.buf.isLt
  rw [hstep, toNat_sshiftRight_and _ hk]
  refine ⟨rfl, ?_, ?_⟩
  · dsimp only
    rw [hbuf]
    interval_cases k <;> norm_num at hlow ⊢ <;> omega
  · have hbyte : (64 * (s.buf.toNat % 2^26) + v) / 2^k % 256 = (64 * low + v) / 2^k := by
      interval_cases k <;> norm_num at hlow ⊢ <;> omega
    rw [hbuf, hbyte]

end Step

/-- The first two characters of a group, which are never padding: they emit its first byte. -/
theorem foldl_group_start (n : BitVec 32) {s : Base64State} (hn : n.toNat < 2^24) (hbits : s.bits = 0) :
    ∃ t, [base64Char (n >>> 18), base64Char (n >>> 12)].foldl base64Step s = t ∧ t.bits = 4 ∧
      t.buf.toNat % 2^4 = n.toNat / 2^12 % 16 ∧
      t.out = s.out ++ [UInt8.ofNat (n.toNat / 2^16)] := by
  obtain ⟨hb₁, hl₁, ho₁⟩ := base64Step_pending (base64Val_shift n 18) (Nat.mod_lt _ (by decide)) hbits
  obtain ⟨hb₂, hl₂, ho₂⟩ := base64Step_emit (k := 4) (base64Val_shift n 12)
    (Nat.mod_lt _ (by decide)) le_rfl hb₁ hl₁
  refine ⟨_, rfl, hb₂, ?_, ?_⟩
  · rw [List.foldl_cons, List.foldl_cons, List.foldl_nil, hl₂]
    omega
  · rw [List.foldl_cons, List.foldl_cons, List.foldl_nil, ho₂, ho₁]
    congr 3
    omega

/-- A padding character is skipped. -/
theorem base64Val_pad : base64Val (chr '=') = none := by decide

/-- A group of three bytes is decoded to them, from any accumulator without pending bits. -/
theorem foldl_base64Group (a b c : UInt8) {s : Base64State} (hbits : s.bits = 0) :
    ((base64Group a (some b) (some c)).foldl base64Step s).bits = 0 ∧
      ((base64Group a (some b) (some c)).foldl base64Step s).out = s.out ++ [a, b, c] := by
  have hn := toNat_group a b c
  have ha := a.toNat_lt
  have hb := b.toNat_lt
  have hc := c.toNat_lt
  -- The 24 bits of the group as a number `n`, cut by the encoder into four characters.
  unfold base64Group
  simp only [Option.getD_some, Option.isSome_some, if_true]
  generalize (a.toBitVec.setWidth 32 <<< 16 ||| b.toBitVec.setWidth 32 <<< 8 |||
    c.toBitVec.setWidth 32 : BitVec 32) = n at hn ⊢
  -- The first two characters give one byte, the other two one each.
  obtain ⟨t, ht, hbt, hlt, hot⟩ := foldl_group_start n (by omega) hbits
  obtain ⟨hb₃, hl₃, ho₃⟩ := base64Step_emit (k := 2) (base64Val_shift n 6)
    (Nat.mod_lt _ (by decide)) (by decide) hbt hlt
  obtain ⟨hb₄, -, ho₄⟩ := base64Step_emit (k := 0) (base64Val_base64Char n)
    (Nat.mod_lt _ (by decide)) (by decide) hb₃ hl₃
  rw [show [base64Char (n >>> 18), base64Char (n >>> 12), base64Char (n >>> 6), base64Char n] =
    [base64Char (n >>> 18), base64Char (n >>> 12)] ++ [base64Char (n >>> 6), base64Char n] from rfl,
    List.foldl_append, ht, List.foldl_cons, List.foldl_cons, List.foldl_nil]
  refine ⟨hb₄, ?_⟩
  -- The bits emitted are those of `a`, `b` and `c`.
  have e₁ : n.toNat / 2^16 = a.toNat := by omega
  have e₂ : (64 * (n.toNat / 2^12 % 16) + n.toNat / 2^6 % 64) / 2^2 = b.toNat := by omega
  have e₃ : (64 * ((64 * (n.toNat / 2^12 % 16) + n.toNat / 2^6 % 64) % 2^2) + n.toNat % 64) / 2^0 =
      c.toNat := by omega
  rw [ho₄, ho₃, hot, e₁, e₂, e₃]
  simp

/-- Decoding an encoded text appends the text. -/
theorem foldl_base64Encode (d : Bytes) (s : Base64State) (hbits : s.bits = 0) :
    ((base64Encode d).foldl base64Step s).out = s.out ++ d := by
  induction d using base64Encode.induct generalizing s with
  | case1 => simp [base64Encode]
  -- One byte is left: two characters and two that are skipped.
  | case2 a =>
    have hn := toNat_group a 0 0
    have ha := a.toNat_lt
    unfold base64Encode base64Group
    simp only [Option.getD_none, Option.isSome_none, Bool.false_eq_true, if_false]
    generalize (a.toBitVec.setWidth 32 <<< 16 ||| (0 : UInt8).toBitVec.setWidth 32 <<< 8 |||
      (0 : UInt8).toBitVec.setWidth 32 : BitVec 32) = n at hn ⊢
    change n.toNat = a.toNat * 2^16 + 0 * 2^8 + 0 at hn
    obtain ⟨t, ht, -, -, hot⟩ := foldl_group_start n (by omega) hbits
    rw [show [base64Char (n >>> 18), base64Char (n >>> 12), chr '=', chr '='] =
      [base64Char (n >>> 18), base64Char (n >>> 12)] ++ [chr '=', chr '='] from rfl,
      List.foldl_append, ht, List.foldl_cons, List.foldl_cons, List.foldl_nil,
      base64Step_skip base64Val_pad, base64Step_skip base64Val_pad, hot,
      show n.toNat / 2^16 = a.toNat by omega]
    simp
  -- Two bytes are left: three characters and one that is skipped.
  | case3 a b =>
    have hn := toNat_group a b 0
    have ha := a.toNat_lt
    have hb := b.toNat_lt
    unfold base64Encode base64Group
    simp only [Option.getD_none, Option.getD_some, Option.isSome_none, Option.isSome_some,
      Bool.false_eq_true, if_false, if_true]
    generalize (a.toBitVec.setWidth 32 <<< 16 ||| b.toBitVec.setWidth 32 <<< 8 |||
      (0 : UInt8).toBitVec.setWidth 32 : BitVec 32) = n at hn ⊢
    change n.toNat = a.toNat * 2^16 + b.toNat * 2^8 + 0 at hn
    obtain ⟨t, ht, hbt, hlt, hot⟩ := foldl_group_start n (by omega) hbits
    obtain ⟨-, -, ho₃⟩ := base64Step_emit (k := 2) (base64Val_shift n 6)
      (Nat.mod_lt _ (by decide)) (by decide) hbt hlt
    have e₂ : (64 * (n.toNat / 2^12 % 16) + n.toNat / 2^6 % 64) / 2^2 = b.toNat := by omega
    rw [show [base64Char (n >>> 18), base64Char (n >>> 12), base64Char (n >>> 6), chr '='] =
      [base64Char (n >>> 18), base64Char (n >>> 12)] ++ [base64Char (n >>> 6), chr '='] from rfl,
      List.foldl_append, ht, List.foldl_cons, List.foldl_cons, List.foldl_nil,
      base64Step_skip base64Val_pad, ho₃, hot, e₂, show n.toNat / 2^16 = a.toNat by omega]
    simp
  -- A whole group leaves no pending bits, so the induction goes on behind it.
  | case4 a b c rest ih =>
    obtain ⟨hb, ho⟩ := foldl_base64Group a b c hbits
    rw [base64Encode, List.foldl_append, ih _ hb, ho]
    simp

/-- The decoder undoes the encoder. -/
theorem base64Decode_base64Encode (d : Bytes) : base64Decode (base64Encode d) = d := by
  unfold base64Decode
  rw [foldl_base64Encode d _ rfl, List.nil_append]

/-- The characters of a group are in the table, or padding. -/
theorem colon_not_mem_base64Group (a : UInt8) (b c : Option UInt8) :
    chr ':' ∉ base64Group a b c := by
  have hchar : ∀ n : BitVec 32, chr ':' ≠ base64Char n := by
    have htable : ∀ k, k < 64 → chr ':' ≠ base64Table.getD k 0 := by decide +kernel
    intro n
    have hmask : (n &&& 0x3F).toNat = n.toNat % 64 := by
      rw [BitVec.toNat_and]
      exact Nat.and_two_pow_sub_one_eq_mod n.toNat 6
    rw [base64Char, hmask]
    exact htable _ (Nat.mod_lt _ (by decide))
  have hpad : chr ':' ≠ chr '=' := by decide
  unfold base64Group
  simp only [List.mem_cons, List.not_mem_nil, or_false, not_or]
  refine ⟨hchar _, hchar _, ?_, ?_⟩ <;>
  · split_ifs
    · exact hchar _
    · exact hpad

/-- Encoded text contains no colon. -/
theorem colon_not_mem_base64Encode (d : Bytes) : chr ':' ∉ base64Encode d := by
  induction d using base64Encode.induct with
  | case1 => simp [base64Encode]
  | case2 a => exact colon_not_mem_base64Group a none none
  | case3 a b => exact colon_not_mem_base64Group a (some b) none
  | case4 a b c rest ih =>
    rw [base64Encode, List.mem_append, not_or]
    exact ⟨colon_not_mem_base64Group a (some b) (some c), ih⟩

/-! ## The two encodings -/

/-- What is behind the first colon does not matter to the address. -/
theorem parseRdmaRemoteAddr_append {s : Bytes} (h : chr ':' ∈ s) (t : Bytes) :
    parseRdmaRemoteAddr (s ++ t) = parseRdmaRemoteAddr s := by
  obtain ⟨pre, post, rfl, hpre⟩ := List.eq_append_cons_of_mem h
  unfold parseRdmaRemoteAddr
  rw [List.append_assoc, List.cons_append, idxOf?_append_cons hpre, idxOf?_append_cons hpre]
  simp

/-- Without its trailing NULs, a descriptor with a colon still has it. -/
theorem colon_mem_rdropWhile {d : Bytes} (h : chr ':' ∈ d) : chr ':' ∈ d.rdropWhile (· == 0) := by
  have hsplit : d.rdropWhile (· == 0) ++ d.rtakeWhile (· == 0) = d := List.rdropWhile_append_rtakeWhile
  rw [← hsplit, List.mem_append] at h
  rcases h with h | h
  · exact h
  · exact absurd (List.mem_rtakeWhile_imp h) (by decide)

/-- The token header, from the client to the server: Base64 is undone by the server's decoder and
contains no colon. So the server recovers a descriptor with a colon from either encoding, without
its trailing NULs from the verbatim one, and finds the same address in it. -/
theorem rdmaToken_roundtrip (d : Bytes) :
    base64Decode (base64Encode d) = d ∧ chr ':' ∉ base64Encode d ∧
      (chr ':' ∈ d →
        Server.rdmaDescr (encodeRdmaToken d .base64) = d ∧
        Server.rdmaDescr (encodeRdmaToken d .verbatim) = d.rdropWhile (· == 0) ∧
        ∀ enc, parseRdmaRemoteAddr (Server.rdmaDescr (encodeRdmaToken d enc)) =
          parseRdmaRemoteAddr d) := by
  have hroundtrip := base64Decode_base64Encode d
  have hcolon := colon_not_mem_base64Encode d
  refine ⟨hroundtrip, hcolon, fun hd => ?_⟩
  -- The server tells the encodings apart by the colon, which Base64 cannot contain.
  have hbase64 : Server.rdmaDescr (encodeRdmaToken d .base64) = d := by
    rw [encodeRdmaToken, Server.rdmaDescr, if_neg hcolon, hroundtrip]
  have hverbatim : Server.rdmaDescr (encodeRdmaToken d .verbatim) = d.rdropWhile (· == 0) := by
    rw [encodeRdmaToken, Server.rdmaDescr, if_pos (colon_mem_rdropWhile hd)]
  refine ⟨hbase64, hverbatim, fun enc => ?_⟩
  cases enc with
  | base64 => rw [hbase64]
  | verbatim =>
    -- The NULs that the verbatim encoding drops stand behind the colon.
    have hsplit : d.rdropWhile (· == 0) ++ d.rtakeWhile (· == 0) = d :=
      List.rdropWhile_append_rtakeWhile
    calc parseRdmaRemoteAddr (Server.rdmaDescr (encodeRdmaToken d .verbatim))
        = parseRdmaRemoteAddr (d.rdropWhile (· == 0)) := by rw [hverbatim]
      _ = parseRdmaRemoteAddr (d.rdropWhile (· == 0) ++ d.rtakeWhile (· == 0)) :=
        (parseRdmaRemoteAddr_append (colon_mem_rdropWhile hd) _).symm
      _ = parseRdmaRemoteAddr d := by rw [hsplit]

/-- A descriptor with two trailing NULs, whose address both encodings carry. -/
theorem rdmaToken_roundtrip_7f0a :
    chr ':' ∈ ascii "7f0a:10" ++ [0, 0] ∧
      ∀ enc, parseRdmaRemoteAddr (Server.rdmaDescr (encodeRdmaToken (ascii "7f0a:10" ++ [0, 0]) enc)) =
        0x7f0a := by
  have hmem : chr ':' ∈ ascii "7f0a:10" ++ [0, 0] := by decide
  refine ⟨hmem, fun enc => ?_⟩
  rw [((rdmaToken_roundtrip _).2.2 hmem).2.2 enc]
  decide +kernel

end S3Rdma
