import S3Rdma.Server.Token

/-!
# The accumulator of the Base64 decoder

`base64_decode` never masks its `int` accumulator, so the accumulator is the whole number that the
characters read so far denote in base 64, modulo `2^32` (`toNat_accumulator`). In C++17 a left shift
of a negative value, or one whose result does not fit the unsigned type, is undefined. The text is
taken from its end: a further character shifts the accumulator once more, and what that shift needs
of the number also bounds every shift before it. So all shifts are defined exactly if the number of
all characters but the last is below `2^26`: `base64Decode_noSignedOverflow_iff`.
-/

namespace S3Rdma

/-- The six-bit values of the characters of a text that the decoder does not skip. -/
def base64Values (s : Bytes) : List ℕ := s.filterMap base64Val

/-- The decoder's accumulator after a text. -/
def accumulator (s : Bytes) : BitVec 32 := (s.foldl base64Step ⟨0, 0, []⟩).buf

/-- `buf << 6` is defined in C++17: the value is not negative, and its product with `2^6` is
representable in the unsigned type of the same width. -/
def ShiftDefined (buf : BitVec 32) : Prop := 0 ≤ buf.toInt ∧ buf.toInt * 64 < 2^32

/-- Every shift that `base64_decode` makes on a text is defined. -/
def NoSignedOverflow (s : Bytes) : Prop :=
  ∀ p c q, s = p ++ c :: q → (base64Val c).isSome = true → ShiftDefined (accumulator p)

/-- A character has six bits. -/
theorem base64Val_lt {c : UInt8} {v : ℕ} (h : base64Val c = some v) : v < 64 := by
  have hall : ∀ c, (base64Val c).all (· < 64) = true := by
    rw [forall_byte_iff]
    decide +kernel
  have hc := hall c
  rw [h] at hc
  exact of_decide_eq_true hc

/-- One more byte shifts the accumulator by its six bits, or leaves it. -/
theorem accumulator_concat (s : Bytes) (c : UInt8) :
    accumulator (s ++ [c]) = (base64Val c).elim (accumulator s)
      fun v => (accumulator s <<< 6) ||| BitVec.ofNat 32 v := by
  unfold accumulator
  rw [List.foldl_concat]
  generalize s.foldl base64Step ⟨0, 0, []⟩ = t
  unfold base64Step
  cases base64Val c with
  | none => rfl
  | some v =>
    dsimp only
    split_ifs <;> rfl

/-- A number in base 64 is that of its digits without the last, times 64, and less than 64 more. -/
theorem digitsValue_dropLast (ds : List ℕ) (h : ∀ d ∈ ds, d < 64) :
    digitsValue 64 ds.dropLast ≤ digitsValue 64 ds ∧
      digitsValue 64 ds < digitsValue 64 ds.dropLast * 64 + 64 := by
  rcases List.eq_nil_or_concat ds with rfl | ⟨ds', d, rfl⟩
  · decide
  · have hd := h d (by simp)
    rw [List.concat_eq_append, List.dropLast_concat, digitsValue_append]
    omega

/-- The accumulator is the number that the characters denote, modulo `2^32`. -/
theorem toNat_accumulator (s : Bytes) :
    (accumulator s).toNat = digitsValue 64 (base64Values s) % 2^32 := by
  induction s using List.reverseRecOn with
  | nil => rfl
  | append_singleton s c ih =>
    rw [accumulator_concat]
    unfold base64Values at ih ⊢
    rw [List.filterMap_append]
    cases hc : base64Val c with
    | none => simpa [hc] using ih
    | some v =>
      rw [List.filterMap_cons_some hc, List.filterMap_nil, digitsValue_append, Option.elim_some,
        toNat_shift_or _ (base64Val_lt hc), ih]
      have hv := base64Val_lt hc
      omega

/-- The shifts on a longer text are those on the text, and one more if the last byte is a
character. -/
theorem noSignedOverflow_concat (s : Bytes) (c : UInt8) :
    NoSignedOverflow (s ++ [c]) ↔
      NoSignedOverflow s ∧ ((base64Val c).isSome = true → ShiftDefined (accumulator s)) := by
  constructor
  · intro h
    refine ⟨fun p d q hs hd => h p d (q ++ [c]) (by rw [hs]; simp) hd, fun hc => ?_⟩
    exact h s c [] rfl hc
  · rintro ⟨hprev, hlast⟩ p d q hs hd
    rcases List.eq_nil_or_concat q with rfl | ⟨q', e, rfl⟩
    · obtain ⟨rfl, hcd⟩ := List.append_inj' hs rfl
      rw [(List.cons.inj hcd).1] at hlast
      exact hlast hd
    · have hs' : s ++ [c] = (p ++ d :: q') ++ [e] := by simp [hs]
      exact hprev p d q' (List.append_inj' hs' rfl).1 hd

/-- Where the number before the last character fits, the shift is defined exactly below `2^26`. -/
theorem shiftDefined_iff {s : Bytes} (h : digitsValue 64 (base64Values s) < 2^32) :
    ShiftDefined (accumulator s) ↔ digitsValue 64 (base64Values s) < 2^26 := by
  have hacc := toNat_accumulator s
  unfold ShiftDefined
  rw [BitVec.toInt_eq_toNat_cond]
  split_ifs <;> omega

/-- Every shift of `base64_decode` is defined exactly if the number that all characters but the
last denote in base 64 is below `2^26`. -/
theorem base64Decode_noSignedOverflow_iff (s : Bytes) :
    NoSignedOverflow s ↔ digitsValue 64 (base64Values s).dropLast < 2^26 := by
  induction s using List.reverseRecOn with
  | nil =>
    refine ⟨fun _ => by decide, fun _ p c q hs => ?_⟩
    simp at hs
  | append_singleton s c ih =>
    have hvalues : base64Values (s ++ [c]) = base64Values s ++ (base64Val c).toList := by
      unfold base64Values
      rw [List.filterMap_append]
      cases hc : base64Val c <;> simp [hc]
    rw [noSignedOverflow_concat, ih, hvalues]
    cases hc : base64Val c with
    | none => simp
    | some v =>
      -- All characters but the new one are now the whole text before it.
      rw [Option.toList_some, List.dropLast_concat]
      have hdigits : ∀ d ∈ base64Values s, d < 64 := by
        intro d hd
        obtain ⟨e, -, he⟩ := List.mem_filterMap.mp hd
        exact base64Val_lt he
      obtain ⟨hle, hlt⟩ := digitsValue_dropLast _ hdigits
      constructor
      · rintro ⟨hprev, hshift⟩
        exact (shiftDefined_iff (by omega)).mp (hshift rfl)
      · intro h
        exact ⟨by omega, fun _ => (shiftDefined_iff (by omega)).mpr h⟩

/-- The token of the descriptor `7f0a:10` overflows the accumulator at its sixth character. -/
theorem base64Decode_overflow :
    base64Encode (ascii "7f0a:10") = ascii "N2YwYToxMA==" ∧
      (accumulator (ascii "N2YwY")).toInt = 232360984 ∧
      ¬ NoSignedOverflow (ascii "N2YwYToxMA==") := by
  have hrun : base64Encode (ascii "7f0a:10") = ascii "N2YwYToxMA==" ∧
      (accumulator (ascii "N2YwY")).toInt = 232360984 := by decide +kernel
  refine ⟨hrun.1, hrun.2, fun h => ?_⟩
  have hshift := (h (ascii "N2YwY") (chr 'T') (ascii "oxMA==") rfl (by decide)).2
  rw [hrun.2] at hshift
  omega

end S3Rdma
