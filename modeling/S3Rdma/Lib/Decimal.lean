import S3Rdma.Lib.Bytes

/-!
# Loops over decimal digits

A parser of decimal numbers goes over the digits and multiplies by ten, and before each step it may
stop by a test of its own. `digitLoop` is that loop for any test, and `digitVisits` the values at
which it looks. When the test before a step is equivalent to a test of the step's result
(`StopsAbove`), the loop accepts exactly the digits of a number up to the limit
(`digitLoop_eq_some_iff`), and on no text does a value on its way exceed the limit
(`le_of_mem_digitVisits`), however long the text is and whatever zeros it starts with. A loop that
only stops at what is no digit is bounded by its number of digits (`lt_of_mem_digitVisits`).
-/

namespace S3Rdma

/-- The loop: stop, or multiply by ten and add the digit. -/
def digitLoop (stop : ℕ → UInt8 → Bool) : Bytes → ℕ → Option ℕ
  | [], v => some v
  | c :: cs, v => if stop v c then none else digitLoop stop cs (v * 10 + decimalDigit c)

/-- The value and the byte at the start of each pass of the loop. -/
def digitVisits (stop : ℕ → UInt8 → Bool) : Bytes → ℕ → List (ℕ × UInt8)
  | [], _ => []
  | c :: cs, v =>
    (v, c) :: if stop v c then [] else digitVisits stop cs (v * 10 + decimalDigit c)

/-- On the bytes of a text and from values up to the limit, the loop stops exactly at what is no
digit and where the next value would exceed the limit. -/
def StopsAbove (stop : ℕ → UInt8 → Bool) (limit : ℕ) (s : Bytes) : Prop :=
  ∀ c ∈ s, ∀ v ≤ limit, stop v c = true ↔ isDigit c = false ∨ limit < v * 10 + decimalDigit c

/-- The loop gives the result on a text, and on the way neither a value nor the result of a step
that is made exceeds the largest value of its machine type. -/
structure LoopWithin (stop : ℕ → UInt8 → Bool) (max : ℕ) (s : Bytes) (result : Option ℕ) : Prop where
  loop : result = digitLoop stop s 0
  within : ∀ p ∈ digitVisits stop s 0, p.1 ≤ max ∧
    (stop p.1 p.2 = false → isDigit p.2 = true ∧ p.1 * 10 + decimalDigit p.2 ≤ max)

/-- A function with the equations of the loop is the loop. -/
theorem eq_digitLoop {stop : ℕ → UInt8 → Bool} {f : Bytes → ℕ → Option ℕ}
    (hnil : ∀ v, f [] v = some v)
    (hcons : ∀ c cs v,
      f (c :: cs) v = if stop v c then none else f cs (v * 10 + decimalDigit c)) (s : Bytes) (v : ℕ) :
    f s v = digitLoop stop s v := by
  induction s generalizing v with
  | nil => exact hnil v
  | cons c cs ih => rw [hcons, digitLoop, ih]

section Limit

variable {stop : ℕ → UInt8 → Bool} {limit : ℕ} {s : Bytes} {v : ℕ}

/-- The loop accepts exactly the digits of a number up to the limit. -/
theorem digitLoop_eq_some_iff (h : StopsAbove stop limit s) (hv : v ≤ limit) {w : ℕ} :
    digitLoop stop s v = some w ↔
      (∀ c ∈ s, isDigit c = true) ∧ decimalFrom v s = w ∧ w ≤ limit := by
  induction s generalizing v with
  | nil =>
    simp only [digitLoop, decimalFrom, List.foldl_nil, Option.some.injEq, List.not_mem_nil,
      false_implies, implies_true, true_and]
    constructor
    · rintro rfl
      exact ⟨rfl, hv⟩
    · exact fun hw => hw.1
  | cons c cs ih =>
    have htest := h c List.mem_cons_self v hv
    have hstep : decimalFrom v (c :: cs) = decimalFrom (v * 10 + decimalDigit c) cs := rfl
    rw [digitLoop, hstep, List.forall_mem_cons]
    by_cases hstop : stop v c = true
    · -- What is refused here is no digit, or makes the value too large for good.
      rw [if_pos hstop]
      refine iff_of_false (by simp) ?_
      rintro ⟨⟨hc, -⟩, rfl, hle⟩
      have hmono := le_decimalFrom (v * 10 + decimalDigit c) cs
      rcases htest.mp hstop with hno | hbig
      · rw [hc] at hno
        cases hno
      · omega
    · obtain ⟨hdigit, hsmall⟩ := not_or.mp (mt htest.mpr hstop)
      rw [Bool.not_eq_false] at hdigit
      rw [if_neg hstop, ih (fun d hd => h d (List.mem_cons_of_mem _ hd)) (by omega)]
      simp only [hdigit, true_and]

/-- No value of the loop exceeds the limit, and neither does the result of a step that is made. -/
theorem le_of_mem_digitVisits (h : StopsAbove stop limit s) (hv : v ≤ limit) {p : ℕ × UInt8}
    (hp : p ∈ digitVisits stop s v) :
    p.1 ≤ limit ∧ (stop p.1 p.2 = false →
      isDigit p.2 = true ∧ p.1 * 10 + decimalDigit p.2 ≤ limit) := by
  induction s generalizing v with
  | nil => cases hp
  | cons c cs ih =>
    have htest := h c List.mem_cons_self v hv
    rw [digitVisits] at hp
    rcases List.mem_cons.mp hp with rfl | hp
    · refine ⟨hv, fun hgo => ?_⟩
      obtain ⟨hdigit, hsmall⟩ := not_or.mp (mt htest.mpr (Bool.eq_false_iff.mp hgo))
      rw [Bool.not_eq_false] at hdigit
      exact ⟨hdigit, not_lt.mp hsmall⟩
    · by_cases hstop : stop v c = true
      · rw [if_pos hstop] at hp
        cases hp
      · obtain ⟨-, hsmall⟩ := not_or.mp (mt htest.mpr hstop)
        rw [if_neg hstop] at hp
        exact ih (fun d hd => h d (List.mem_cons_of_mem _ hd)) (by omega) hp

/-- On digits, the loop gives the number that they denote, or nothing. -/
theorem digitLoop_of_digits (h : StopsAbove stop limit s) (hs : s.all isDigit = true) :
    digitLoop stop s 0 = if decimalValue s ≤ limit then some (decimalValue s) else none := by
  split_ifs with hle
  · rw [digitLoop_eq_some_iff h (Nat.zero_le _), decimalFrom_zero]
    exact ⟨List.all_eq_true.mp hs, rfl, hle⟩
  · refine Option.eq_none_iff_forall_ne_some.mpr fun w hw => hle ?_
    rw [digitLoop_eq_some_iff h (Nat.zero_le _), decimalFrom_zero] at hw
    obtain ⟨-, rfl, hw⟩ := hw
    exact hw

/-- A loop that stops above a limit stays within every type that has the limit. -/
theorem StopsAbove.loopWithin (h : StopsAbove stop limit s) {max : ℕ} (hmax : limit ≤ max)
    {result : Option ℕ} (hloop : result = digitLoop stop s 0) : LoopWithin stop max s result := by
  refine ⟨hloop, fun p hp => ?_⟩
  obtain ⟨hle, hstep⟩ := le_of_mem_digitVisits h (Nat.zero_le limit) hp
  exact ⟨hle.trans hmax, fun hgo => ⟨(hstep hgo).1, (hstep hgo).2.trans hmax⟩⟩

end Limit

/-- The loop that only stops at what is no digit gives what the digits denote. -/
theorem digitLoop_digits {s : Bytes} {v w : ℕ} :
    digitLoop (fun _ c => !isDigit c) s v = some w ↔
      s.all isDigit = true ∧ decimalFrom v s = w := by
  induction s generalizing v with
  | nil => simp [digitLoop, decimalFrom]
  | cons c cs ih =>
    have hstep : decimalFrom v (c :: cs) = decimalFrom (v * 10 + decimalDigit c) cs := rfl
    rw [digitLoop, hstep, List.all_cons]
    by_cases hc : isDigit c = true
    · simp [hc, ih]
    · simp [hc]

/-- Each of its steps adds one digit to the number of digits. -/
theorem lt_of_mem_digitVisits {s : Bytes} {v k : ℕ} (hv : v < 10^k) {p : ℕ × UInt8}
    (hp : p ∈ digitVisits (fun _ c => !isDigit c) s v) :
    p.1 < 10^(k + s.length) ∧
      (isDigit p.2 = true → p.1 * 10 + decimalDigit p.2 < 10^(k + s.length)) := by
  induction s generalizing v k with
  | nil => cases hp
  | cons c cs ih =>
    have hstep : isDigit c = true → v * 10 + decimalDigit c < 10^(k + 1) := by
      intro hc
      have hd := decimalDigit_le hc
      rw [pow_succ]
      omega
    -- The bound is the same for the tail, with one digit more before it.
    have hlength : k + (c :: cs).length = k + 1 + cs.length := by
      rw [List.length_cons]
      omega
    rw [hlength]
    rw [digitVisits] at hp
    rcases List.mem_cons.mp hp with rfl | hp
    · refine ⟨lt_of_lt_of_le hv (Nat.pow_le_pow_right (by omega) (by omega)), fun hc => ?_⟩
      exact lt_of_lt_of_le (hstep hc) (Nat.pow_le_pow_right (by omega) (by omega))
    · by_cases hc : isDigit c = true
      · rw [if_neg (by simp [hc])] at hp
        exact ih (hstep hc) hp
      · rw [if_pos (by simp [hc])] at hp
        cases hp

end S3Rdma
