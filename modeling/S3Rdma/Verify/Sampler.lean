import Mathlib.Data.Int.CardIntervalMod

/-!
# Which GETs are verified

`Sampler` of `src/common/verify/sampler.cpp`, in the words of its own types. `should_sample`
compares the occurrence of a key with a phase, modulo `every`. The terms of the phase are reduced
before they are added, so nothing wraps around and the phase is a number below `every`
(`shouldSampleWith_iff`). From there on everything is arithmetic of residues: a window of `every`
occurrences meets each residue once, and the phases of the threads are `stride` apart.

Nothing depends on what `mix64` computes, so it is a parameter of `shouldSampleWith`, and what is
shown of every such function holds of `should_sample` itself (`shouldSample_window`).
-/

namespace S3Rdma.Verify

/-- `Sampler`. -/
structure Sampler where
  seed : UInt64
  every : UInt32
  thread_id : UInt32
  num_threads : UInt32

/-- `mix64`, the finalizer of splitmix64. -/
def mix64 (x : UInt64) : UInt64 :=
  let x := x + 0x9e3779b97f4a7c15
  let x := (x ^^^ (x >>> 30)) * 0xbf58476d1ce4e5b9
  let x := (x ^^^ (x >>> 27)) * 0x94d049bb133111eb
  x ^^^ (x >>> 31)

namespace Sampler

/-- The distance between the phases of two threads. -/
def stride (s : Sampler) : UInt32 :=
  let threads := if s.num_threads = 0 then 1 else s.num_threads
  if s.every / threads = 0 then 1 else s.every / threads

/-- `should_sample`, with any function in the place of `mix64`. -/
def shouldSampleWith (mix : UInt64 → UInt64) (s : Sampler) (key_id : UInt32) (occurrence : UInt64) :
    Bool :=
  if s.every = 0 then false
  else if s.every = 1 then true
  else
    let keyed := mix (s.seed ^^^ (0x517cc1b727220a95 * (key_id.toUInt64 + 1)))
    let keyed_phase := keyed % s.every.toUInt64
    let thread_phase := (s.thread_id.toUInt64 * s.stride.toUInt64) % s.every.toUInt64
    let phase := (keyed_phase + thread_phase) % s.every.toUInt64
    occurrence % s.every.toUInt64 == phase

/-- `should_sample`. -/
def shouldSample (s : Sampler) (key_id : UInt32) (occurrence : UInt64) : Bool :=
  s.shouldSampleWith mix64 key_id occurrence

/-- The decisions for the GETs that a thread issues for these keys, one after the other, with a
counter of the occurrences of each key. -/
def decisions (mix : UInt64 → UInt64) (s : Sampler) :
    List UInt32 → (UInt32 → UInt64) → List (UInt32 × Bool)
  | [], _ => []
  | key :: keys, occurrences =>
    (key, s.shouldSampleWith mix key (occurrences key)) ::
      s.decisions mix keys (Function.update occurrences key (occurrences key + 1))

/-! ## The phase -/

variable (mix : UInt64 → UInt64) (s : Sampler)

/-- The part of the phase that is the key's. -/
def keyed (key_id : UInt32) : ℕ :=
  (mix (s.seed ^^^ (0x517cc1b727220a95 * (key_id.toUInt64 + 1)))).toNat

/-- The phase of a thread and a key, before it is reduced. -/
def phase (key_id : UInt32) : ℕ := s.keyed mix key_id + s.thread_id.toNat * s.stride.toNat

variable {mix s}

/-- The stride is the number of occurrences for each thread, and at least one. -/
theorem stride_toNat (hthreads : s.num_threads ≠ 0) :
    s.stride.toNat = max 1 (s.every.toNat / s.num_threads.toNat) := by
  have hdiv := UInt32.toNat_div s.every s.num_threads
  unfold stride
  simp only [if_neg hthreads]
  split_ifs with hzero
  · have hnat : s.every.toNat / s.num_threads.toNat = 0 := by
      rw [← hdiv, hzero]
      rfl
    rw [hnat]
    rfl
  · have hpos : (s.every / s.num_threads).toNat ≠ 0 := by
      intro heq
      exact hzero (UInt32.toNat_inj.mp heq)
    omega

/-- An occurrence is sampled exactly if it has the residue of the phase. -/
theorem shouldSampleWith_iff (hevery : s.every ≠ 0) (key_id : UInt32) (occurrence : UInt64) :
    s.shouldSampleWith mix key_id occurrence = true ↔
      occurrence.toNat ≡ s.phase mix key_id [MOD s.every.toNat] := by
  have hpos : 0 < s.every.toNat := Nat.pos_of_ne_zero fun h => hevery (UInt32.toNat_inj.mp h)
  have hlt := s.every.toNat_lt
  unfold shouldSampleWith
  rw [if_neg hevery]
  split_ifs with hone
  · -- With `every == 1` there is one residue.
    rw [hone]
    exact iff_of_true rfl (Nat.modEq_one)
  · have hproduct : s.thread_id.toNat * s.stride.toNat < 2^64 := by
      calc s.thread_id.toNat * s.stride.toNat < 2^32 * 2^32 :=
            Nat.mul_lt_mul'' s.thread_id.toNat_lt s.stride.toNat_lt
        _ = 2^64 := by norm_num
    have hkeyed := Nat.mod_lt (s.keyed mix key_id) hpos
    have hthread := Nat.mod_lt (s.thread_id.toNat * s.stride.toNat) hpos
    rw [beq_iff_eq, ← UInt64.toNat_inj]
    simp only [UInt64.toNat_mod, UInt64.toNat_add, UInt64.toNat_mul, UInt32.toNat_toUInt64]
    rw [Nat.mod_eq_of_lt hproduct]
    change occurrence.toNat % s.every.toNat =
      (s.keyed mix key_id % s.every.toNat +
        s.thread_id.toNat * s.stride.toNat % s.every.toNat) % 2^64 % s.every.toNat ↔ _
    -- Both terms are below `every`, so their sum does not wrap around.
    rw [Nat.mod_eq_of_lt (show _ < 2^64 by omega), ← Nat.add_mod]
    rfl

/-! ## One thread -/

/-- Among consecutive numbers, as many as the modulus, exactly one has a given residue. -/
theorem existsUnique_modEq {n : ℕ} (hn : 0 < n) (o p : ℕ) :
    ∃! j : ℕ, j < n ∧ o + j ≡ p [MOD n] := by
  have hle : o % n ≤ n := (Nat.mod_lt o hn).le
  have hmod : o + (p + (n - o % n)) % n ≡ p [MOD n] :=
    calc o + (p + (n - o % n)) % n ≡ o + (p + (n - o % n)) [MOD n] :=
          Nat.ModEq.add_left _ (Nat.mod_modEq _ _)
      _ ≡ o % n + (p + (n - o % n)) [MOD n] := Nat.ModEq.add_right _ (Nat.mod_modEq _ _).symm
      _ = p + n := by omega
      _ ≡ p [MOD n] := Nat.add_mod_right p n
  refine ⟨(p + (n - o % n)) % n, ⟨Nat.mod_lt _ hn, hmod⟩, ?_⟩
  rintro j ⟨hj, hmod'⟩
  have hcancel := Nat.ModEq.add_left_cancel' o (hmod'.trans hmod.symm)
  exact hcancel.eq_of_lt_of_lt hj (Nat.mod_lt _ hn)

/-- The number of residues of a kind below `c` is `c / n`, rounded down or up. -/
theorem count_modEq_eq_or {n : ℕ} (hn : 0 < n) (c p : ℕ) :
    c.count (· ≡ p [MOD n]) = c / n ∨ c.count (· ≡ p [MOD n]) = (c + n - 1) / n := by
  rw [Nat.count_modEq_card c hn p]
  split_ifs with hlt
  · right
    -- There is a remainder, so rounding up adds one.
    have hc := Nat.div_add_mod c n
    have hr := Nat.mod_lt c hn
    have hup : c + n - 1 = (c % n - 1) + n * (c / n + 1) := by
      rw [Nat.mul_add]
      omega
    have hsmall : (c % n - 1) / n = 0 := Nat.div_eq_of_lt (by omega)
    rw [hup, Nat.add_mul_div_left _ _ hn, hsmall, Nat.zero_add]
  · exact .inl rfl

/-- Of as many consecutive occurrences of a key as `every`, exactly one is sampled. -/
theorem existsUnique_shouldSampleWith (hevery : s.every ≠ 0) (key_id : UInt32) {o : ℕ}
    (ho : o + s.every.toNat ≤ 2^64) :
    ∃! j : ℕ, j < s.every.toNat ∧
      s.shouldSampleWith mix key_id (UInt64.ofNat (o + j)) = true := by
  have hpos : 0 < s.every.toNat := Nat.pos_of_ne_zero fun h => hevery (UInt32.toNat_inj.mp h)
  obtain ⟨j, ⟨hj, hmod⟩, hunique⟩ := existsUnique_modEq hpos o (s.phase mix key_id)
  -- The occurrences of the window are numbers below `2^64`.
  have hiff : ∀ i < s.every.toNat, (s.shouldSampleWith mix key_id (UInt64.ofNat (o + i)) = true ↔
      o + i ≡ s.phase mix key_id [MOD s.every.toNat]) := by
    intro i hi
    rw [shouldSampleWith_iff hevery, UInt64.toNat_ofNat_of_lt' (show o + i < 2^64 by omega)]
  exact ⟨j, ⟨hj, (hiff j hj).mpr hmod⟩, fun i hi => hunique i ⟨hi.1, (hiff i hi.1).mp hi.2⟩⟩

/-- The decisions for a key are those for the next occurrences of it, whatever is issued between. -/
theorem count_decisions (hevery : s.every ≠ 0) {key : UInt32} {keys : List UInt32}
    {occurrences : UInt32 → UInt64} {a : ℕ}
    (ha : keys.count key ≠ 0 → (occurrences key).toNat = a) (hle : a + keys.count key ≤ 2^64) :
    a.count (· ≡ s.phase mix key [MOD s.every.toNat]) +
        (s.decisions mix keys occurrences).count (key, true) =
      (a + keys.count key).count (· ≡ s.phase mix key [MOD s.every.toNat]) := by
  induction keys generalizing occurrences a with
  | nil => simp [decisions]
  | cons k keys ih =>
    unfold decisions
    -- An occurrence of the key is the next number; another key leaves its counter alone.
    by_cases hk : k = key
    · subst hk
      rw [List.count_cons_self] at ha hle
      have hnow : (occurrences k).toNat = a := ha (Nat.succ_ne_zero _)
      have hnext : keys.count k ≠ 0 →
          (Function.update occurrences k (occurrences k + 1) k).toNat = a + 1 := by
        intro hmore
        rw [Function.update_self, UInt64.toNat_add, hnow]
        exact Nat.mod_eq_of_lt (by change a + 1 < _; omega)
      have hrest := ih hnext (by omega)
      have hdecision : s.shouldSampleWith mix k (occurrences k) = true ↔
          a ≡ s.phase mix k [MOD s.every.toNat] := by
        rw [shouldSampleWith_iff hevery, hnow]
      rw [List.count_cons_self, List.count_cons, show a + (keys.count k + 1) = a + 1 + keys.count k by
        omega, ← hrest, Nat.count_succ]
      by_cases hsample : s.shouldSampleWith mix k (occurrences k) = true
      · rw [if_pos (hdecision.mp hsample), hsample]
        simp only [beq_self_eq_true, if_true]
        omega
      · rw [if_neg (mt hdecision.mpr hsample), Bool.eq_false_iff.mpr hsample]
        simp
    · rw [List.count_cons_of_ne hk] at ha hle ⊢
      have hother : Function.update occurrences k (occurrences k + 1) key = occurrences key :=
        Function.update_of_ne (Ne.symm hk) _ _
      rw [List.count_cons_of_ne (by simp [hk])]
      exact ih (by rw [hother]; exact ha) hle

/-- A key that is issued `c` times is sampled `c / every` times, rounded down or up. -/
theorem count_decisions_eq_or (hevery : s.every ≠ 0) {key : UInt32} {keys : List UInt32}
    (hkeys : keys.count key ≤ 2^64) :
    (s.decisions mix keys fun _ => 0).count (key, true) = keys.count key / s.every.toNat ∨
      (s.decisions mix keys fun _ => 0).count (key, true) =
        (keys.count key + s.every.toNat - 1) / s.every.toNat := by
  have hpos : 0 < s.every.toNat := Nat.pos_of_ne_zero fun h => hevery (UInt32.toNat_inj.mp h)
  have hcount := @count_decisions mix s hevery key keys (fun _ => 0) 0 (fun _ => rfl)
    (by rwa [Nat.zero_add])
  rw [Nat.count_zero, Nat.zero_add, Nat.zero_add] at hcount
  rw [hcount]
  exact count_modEq_eq_or hpos _ _

/-! ## Several threads -/

/-- Threads that are no more than the occurrences of a window have different phases. -/
theorem phase_injective {seed : UInt64} {every num_threads t₁ t₂ : UInt32} {key : UInt32}
    (hle : num_threads ≤ every) (h₁ : t₁ < num_threads) (h₂ : t₂ < num_threads)
    (h : (Sampler.mk seed every t₁ num_threads).phase mix key ≡
      (Sampler.mk seed every t₂ num_threads).phase mix key [MOD every.toNat]) : t₁ = t₂ := by
  rw [UInt32.le_iff_toNat_le] at hle
  rw [UInt32.lt_iff_toNat_lt] at h₁ h₂
  have hthreads : num_threads ≠ 0 := by
    rintro rfl
    exact absurd h₁ (Nat.not_lt_zero _)
  have hstride : ∀ t : UInt32, (Sampler.mk seed every t num_threads).stride.toNat =
      max 1 (every.toNat / num_threads.toNat) := fun t => stride_toNat hthreads
  have hdiv : 0 < every.toNat / num_threads.toNat := Nat.div_pos hle (by omega)
  have hmax : max 1 (every.toNat / num_threads.toNat) = every.toNat / num_threads.toNat := by omega
  unfold phase at h
  rw [hstride, hstride, hmax] at h
  -- A multiple of the stride for each thread fits into one window.
  have hfits : ∀ t : ℕ, t < num_threads.toNat →
      t * (every.toNat / num_threads.toNat) < every.toNat := by
    intro t ht
    calc t * (every.toNat / num_threads.toNat)
        < num_threads.toNat * (every.toNat / num_threads.toNat) := Nat.mul_lt_mul_of_pos_right ht hdiv
      _ ≤ every.toNat := Nat.mul_div_le _ _
  have hmul := (Nat.ModEq.add_left_cancel' _ h).eq_of_lt_of_lt (hfits _ h₁) (hfits _ h₂)
  exact UInt32.toNat_inj.mp (Nat.eq_of_mul_eq_mul_right hdiv hmul)

/-- Threads that are no more than the occurrences of a window do not sample the same occurrence. -/
theorem not_shouldSampleWith_both {seed : UInt64} {every num_threads t₁ t₂ : UInt32}
    (hevery : every ≠ 0) (hle : num_threads ≤ every) (h₁ : t₁ < num_threads) (h₂ : t₂ < num_threads)
    (hdiff : t₁ ≠ t₂) (key : UInt32) (occurrence : UInt64) :
    ¬ ((Sampler.mk seed every t₁ num_threads).shouldSampleWith mix key occurrence = true ∧
      (Sampler.mk seed every t₂ num_threads).shouldSampleWith mix key occurrence = true) := by
  rintro ⟨hs₁, hs₂⟩
  rw [shouldSampleWith_iff hevery] at hs₁ hs₂
  exact hdiff (phase_injective hle h₁ h₂ (hs₁.symm.trans hs₂))

/-- Of more threads than a window has occurrences, an occurrence is sampled by no more than their share. -/
theorem length_filter_shouldSample_le {seed : UInt64} {every num_threads : UInt32}
    (hevery : every ≠ 0) (hlt : every < num_threads) (key : UInt32) (occurrence : UInt64) :
    ((List.range num_threads.toNat).filter fun t =>
        (Sampler.mk seed every (UInt32.ofNat t) num_threads).shouldSampleWith mix key
          occurrence).length ≤ (num_threads.toNat + every.toNat - 1) / every.toNat := by
  rw [UInt32.lt_iff_toNat_lt] at hlt
  have hpos : 0 < every.toNat := Nat.pos_of_ne_zero fun h => hevery (UInt32.toNat_inj.mp h)
  have hthreads : num_threads ≠ 0 := by
    rintro rfl
    exact absurd hlt (Nat.not_lt_zero _)
  -- The stride is one, so the threads that sample have one residue.
  obtain ⟨v, ⟨-, hv⟩, -⟩ := existsUnique_modEq hpos
    ((Sampler.mk seed every 0 num_threads).keyed mix key) occurrence.toNat
  have hsame : ∀ t < num_threads.toNat,
      (Sampler.mk seed every (UInt32.ofNat t) num_threads).shouldSampleWith mix key occurrence = true ↔
        t ≡ v [MOD every.toNat] := by
    intro t ht
    have hstride : (Sampler.mk seed every (UInt32.ofNat t) num_threads).stride.toNat = 1 := by
      rw [stride_toNat hthreads, Nat.div_eq_of_lt hlt]
      rfl
    have htoNat : (UInt32.ofNat t).toNat = t :=
      UInt32.toNat_ofNat_of_lt' (ht.trans num_threads.toNat_lt)
    rw [shouldSampleWith_iff hevery, phase, hstride, Nat.mul_one]
    change occurrence.toNat ≡ (Sampler.mk seed every 0 num_threads).keyed mix key +
      (UInt32.ofNat t).toNat [MOD every.toNat] ↔ _
    rw [htoNat]
    constructor
    · intro h
      exact Nat.ModEq.add_left_cancel' _ (h.symm.trans hv.symm)
    · intro h
      exact hv.symm.trans (h.symm.add_left _)
  have hcount : ((List.range num_threads.toNat).filter fun t =>
      (Sampler.mk seed every (UInt32.ofNat t) num_threads).shouldSampleWith mix key
        occurrence).length = num_threads.toNat.count (· ≡ v [MOD every.toNat]) := by
    rw [Nat.count, ← List.countP_eq_length_filter]
    refine List.countP_congr fun t ht => ?_
    rw [hsame t (List.mem_range.mp ht), decide_eq_true_eq]
  have hdown : num_threads.toNat / every.toNat ≤
      (num_threads.toNat + every.toNat - 1) / every.toNat := Nat.div_le_div_right (by omega)
  rw [hcount]
  rcases count_modEq_eq_or hpos num_threads.toNat v with h | h
  · rw [h]
    exact hdown
  · rw [h]

/-- Sampling is exact for each thread, starves no key, and is spread over the threads. The counter
of a key is a word of 64 bits, so a key is issued at most `2^64` times. -/
theorem shouldSample_exact (mix : UInt64 → UInt64) (seed : UInt64) (every num_threads : UInt32)
    (hevery : 1 ≤ every) (key : UInt32) :
    (∀ thread_id < num_threads,
      (∀ o : ℕ, o + every.toNat ≤ 2^64 → ∃! j : ℕ, j < every.toNat ∧
        (Sampler.mk seed every thread_id num_threads).shouldSampleWith mix key
          (UInt64.ofNat (o + j)) = true) ∧
      ∀ keys : List UInt32, keys.count key ≤ 2^64 →
        ((Sampler.mk seed every thread_id num_threads).decisions mix keys fun _ => 0).count
            (key, true) = keys.count key / every.toNat ∨
        ((Sampler.mk seed every thread_id num_threads).decisions mix keys fun _ => 0).count
            (key, true) = (keys.count key + every.toNat - 1) / every.toNat) ∧
    (num_threads ≤ every → ∀ t₁ < num_threads, ∀ t₂ < num_threads, t₁ ≠ t₂ → ∀ occurrence,
      ¬ ((Sampler.mk seed every t₁ num_threads).shouldSampleWith mix key occurrence = true ∧
        (Sampler.mk seed every t₂ num_threads).shouldSampleWith mix key occurrence = true)) ∧
    (every < num_threads → ∀ occurrence,
      ((List.range num_threads.toNat).filter fun t =>
        (Sampler.mk seed every (UInt32.ofNat t) num_threads).shouldSampleWith mix key
          occurrence).length ≤ (num_threads.toNat + every.toNat - 1) / every.toNat) := by
  have hne : every ≠ 0 := by
    rintro rfl
    exact absurd hevery (by decide)
  exact ⟨fun thread_id _ => ⟨fun o ho =>
        (Sampler.mk seed every thread_id num_threads).existsUnique_shouldSampleWith hne key ho,
      fun keys hkeys => count_decisions_eq_or hne hkeys⟩,
    fun hle t₁ h₁ t₂ h₂ hdiff => not_shouldSampleWith_both hne hle h₁ h₂ hdiff key,
    fun hlt => length_filter_shouldSample_le hne hlt key⟩

/-- Two threads that verify every third GET: of four GETs for one key, with another key between, the
first thread samples one or two, and no occurrence is sampled by both. -/
theorem shouldSample_exact_two_threads :
    (1 : UInt32) ≤ 3 ∧
      (((Sampler.mk 17 3 0 2).decisions mix64 [5, 5, 9, 5, 5] fun _ => 0).count (5, true) = 1 ∨
        ((Sampler.mk 17 3 0 2).decisions mix64 [5, 5, 9, 5, 5] fun _ => 0).count (5, true) = 2) ∧
      ∀ occurrence, ¬ ((Sampler.mk 17 3 0 2).shouldSample 5 occurrence = true ∧
        (Sampler.mk 17 3 1 2).shouldSample 5 occurrence = true) := by
  obtain ⟨hthread, hspread, -⟩ := shouldSample_exact mix64 17 3 2 (by decide) 5
  exact ⟨by decide, (hthread 0 (by decide)).2 [5, 5, 9, 5, 5] (by decide),
    hspread (by decide) 0 (by decide) 1 (by decide) (by decide)⟩

/-- `should_sample` with its own `mix64`: a thread samples one of each window of occurrences, and no
two of at most `every` threads sample the same one. -/
theorem shouldSample_window {seed : UInt64} {every num_threads t : UInt32} (hevery : every ≠ 0)
    (key : UInt32) :
    (∀ o : ℕ, o + every.toNat ≤ 2^64 → ∃! j : ℕ, j < every.toNat ∧
      (Sampler.mk seed every t num_threads).shouldSample key (UInt64.ofNat (o + j)) = true) ∧
    (num_threads ≤ every → t < num_threads → ∀ t' < num_threads, t ≠ t' → ∀ occurrence,
      (Sampler.mk seed every t num_threads).shouldSample key occurrence = true →
        (Sampler.mk seed every t' num_threads).shouldSample key occurrence = false) := by
  refine ⟨fun o ho =>
      (Sampler.mk seed every t num_threads).existsUnique_shouldSampleWith hevery key ho,
    fun hle ht t' ht' hdiff occurrence h => ?_⟩
  have hboth := @not_shouldSampleWith_both mix64 seed every num_threads t t' hevery hle ht ht'
    hdiff key occurrence
  exact Bool.eq_false_iff.mpr fun h' => hboth ⟨h, h'⟩

end Sampler

end S3Rdma.Verify
