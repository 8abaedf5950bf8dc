import S3Rdma.Probe.Experiments

/-!
# The layout that an accepted geometry gives

`validate_geometry` checks `W * (S + 2G)` once, with checked operations and against the largest
registration. Everything the experiments compute afterwards is unchecked: the cells of the slots
(`make_cell`), the length of the window of a single GET, and the ranges that the slots of the
concurrent experiment ask for. All of it is bounded by that one product (`slot_end_le`), so no word
wraps around (`validateGeometry_safe`).
-/

namespace S3Rdma.Probe

/-- `requested` in `exp_single_get`: `end - start + 1`, unchecked. -/
def Options.requested (o : Options) : ℕ := add64 (sub64 o.windowEnd o.windowStart) 1

/-- The first byte that `range_for` asks for. -/
def Options.rangeFirst (o : Options) (k : ℕ) : ℕ :=
  if o.objects = [] then k * o.slot_bytes % 2^64 else 0

/-- The last byte that `range_for` asks for. -/
def Options.rangeLast (o : Options) (k : ℕ) : ℕ := sub64 (add64 (o.rangeFirst k) o.slot_bytes) 1

/-- `range_for` prints the two. -/
theorem rangeFor_eq (o : Options) (k : ℕ) :
    rangeFor o k = plainRange (o.rangeFirst k) (o.rangeLast k) := rfl

/-- A cell lies before another one. -/
def Cell.Before (c d : Cell) : Prop := c.base + c.size ≤ d.base

/-- The cell of a slot: what `make_cell` computes is what the same sums and products are on numbers,
each of them below `2^64`; the cell lies in the arena, and its payload stands between two guards. -/
structure CellSafe (o : Options) (g : Geometry) (k : ℕ) (c : Cell) : Prop where
  size_eq : c.size = o.guard + o.slot_bytes + o.guard
  size_lt : o.guard + o.slot_bytes + o.guard < 2^64
  base_eq : c.base = k * (o.guard + o.slot_bytes + o.guard)
  base_lt : k * (o.guard + o.slot_bytes + o.guard) < 2^64
  payload_eq : c.payload = c.base + o.guard
  payload_lt : c.base + o.guard < 2^64
  inside : c.base + c.size ≤ g.arena
  trail_eq : c.payload + o.slot_bytes + o.guard = c.base + c.size

/-- All layout arithmetic of the experiments with `slots` slots is safe. -/
structure SafeGeometry (o : Options) (slots : ℕ) (g : Geometry) : Prop where
  guard_pos : 0 < o.guard
  cells : ∀ k < slots, CellSafe o g k (makeCell k o.guard o.slot_bytes)
  disjoint : ∀ j < slots, ∀ k < slots, j ≠ k →
    (makeCell j o.guard o.slot_bytes).Before (makeCell k o.guard o.slot_bytes) ∨
      (makeCell k o.guard o.slot_bytes).Before (makeCell j o.guard o.slot_bytes)
  /-- Every size that is cast to `ssize_t` keeps its value. -/
  signed : ∀ n ∈ [o.slot_bytes, o.guard, g.cell, g.arena, o.requested, g.expected],
    n ≤ kSsizeMax ∧ signed64 n = n
  window : o.windowStart ≤ o.windowEnd ∧ o.windowEnd - o.windowStart + 1 < 2^64 ∧
    o.requested = o.windowEnd - o.windowStart + 1
  expected : g.expected ≤ o.requested ∧ o.requested ≤ o.slot_bytes
  /-- What `range_for` prints are numbers that did not wrap around. -/
  ranges : o.objects = [] → ∀ k < slots,
    rangeFor o k = plainRange (o.rangeFirst k) (o.rangeLast k) ∧
      k * o.slot_bytes + o.slot_bytes < 2^64 ∧ o.rangeFirst k = k * o.slot_bytes ∧
      o.rangeLast k = k * o.slot_bytes + o.slot_bytes - 1
  partition : o.objects = [] → ∀ x, x < slots * o.slot_bytes ↔
    ∃! k, k < slots ∧ o.rangeFirst k ≤ x ∧ x ≤ o.rangeLast k

section Accepted

variable {o : Options} {slots : ℕ} {g : Geometry}

/-- The cells up to a slot take no more than all of them. -/
theorem slot_end_le {k : ℕ} (size : ℕ) (hk : k < slots) : k * size + size ≤ size * slots := by
  calc k * size + size = (k + 1) * size := by ring
    _ ≤ slots * size := Nat.mul_le_mul_right _ hk
    _ = size * slots := Nat.mul_comm _ _

/-- The cell of a slot is safe. -/
theorem cellSafe_makeCell (hcell : g.cell = o.slot_bytes + o.guard * 2)
    (harena : g.arena = g.cell * slots) (hmax : g.arena ≤ kMaxReg) {k : ℕ} (hk : k < slots) :
    CellSafe o g k (makeCell k o.guard o.slot_bytes) := by
  have hreg : kMaxReg < 2^63 := by decide
  have hsize : o.guard + o.slot_bytes + o.guard = o.slot_bytes + o.guard * 2 := by ring
  have hend : k * (o.slot_bytes + o.guard * 2) + (o.slot_bytes + o.guard * 2) ≤ g.arena := by
    rw [harena, hcell]
    exact slot_end_le _ hk
  rw [makeCell_eq hk (by rw [← hcell, ← harena]; exact hmax)]
  refine ⟨hsize.symm, by omega, by rw [hsize], by rw [hsize]; omega, rfl, ?_, hend, ?_⟩
  · dsimp only
    omega
  · dsimp only
    omega

/-- Of two slots, the cell of the lower one lies before the other. -/
theorem makeCell_before (hcell : g.cell = o.slot_bytes + o.guard * 2)
    (harena : g.arena = g.cell * slots) (hmax : g.arena ≤ kMaxReg) {j k : ℕ} (hjk : j < k)
    (hk : k < slots) :
    (makeCell j o.guard o.slot_bytes).Before (makeCell k o.guard o.slot_bytes) := by
  have hj := cellSafe_makeCell hcell harena hmax (hjk.trans hk)
  have hk := cellSafe_makeCell hcell harena hmax hk
  unfold Cell.Before
  rw [hj.base_eq, hj.size_eq, hk.base_eq, Nat.mul_comm k]
  exact slot_end_le _ hjk

/-- In the mode with one object, the words of a range do not wrap around. -/
theorem range_exact (hobjects : o.objects = []) (hpos : 0 < o.slot_bytes)
    (hlt : slots * o.slot_bytes < 2^64) {k : ℕ} (hk : k < slots) :
    k * o.slot_bytes + o.slot_bytes < 2^64 ∧ o.rangeFirst k = k * o.slot_bytes ∧
      o.rangeLast k = k * o.slot_bytes + o.slot_bytes - 1 := by
  have hend := slot_end_le o.slot_bytes hk
  rw [Nat.mul_comm o.slot_bytes] at hend
  have hfirst : o.rangeFirst k = k * o.slot_bytes := by
    unfold Options.rangeFirst
    rw [if_pos hobjects, Nat.mod_eq_of_lt (by omega)]
  refine ⟨by omega, hfirst, ?_⟩
  unfold Options.rangeLast
  rw [hfirst, add64_eq (by omega), sub64_eq (by omega) (by omega)]

/-- Numbers of `size` consecutive bytes each partition what they cover: a byte belongs to the slot
that the division by the size gives. -/
theorem exists_unique_slot {size : ℕ} (hpos : 0 < size) (x : ℕ) :
    x < slots * size ↔ ∃! k, k < slots ∧ k * size ≤ x ∧ x ≤ k * size + size - 1 := by
  constructor
  · intro hx
    refine ⟨x / size, ⟨?_, Nat.div_mul_le_self x size, ?_⟩, ?_⟩
    · exact Nat.div_lt_of_lt_mul (by rwa [Nat.mul_comm])
    · have hlt := Nat.lt_div_mul_add hpos (a := x)
      omega
    · rintro k ⟨-, hle, hlast⟩
      refine (Nat.div_eq_of_lt_le hle ?_).symm
      rw [Nat.succ_mul]
      omega
  · rintro ⟨k, ⟨hk, -, hlast⟩, -⟩
    have hend := slot_end_le size hk
    rw [Nat.mul_comm]
    omega

end Accepted

/-- An accepted geometry makes all layout arithmetic safe. -/
theorem validateGeometry_safe (o : Options) (slots : ℕ) (g : Geometry)
    (h : validateGeometry o slots = .ok g) : SafeGeometry o slots g := by
  have hreg : kMaxReg < 2^63 := by decide
  have hssize : kSsizeMax = 2^63 - 1 := rfl
  obtain ⟨⟨hpos, hbytes⟩, hguard, hslots, hcells, len, hlen, -, hexpected⟩ :=
    validateGeometry_cases h
  obtain ⟨hcell, harena, hmax⟩ := cellAndArena_eq_some hcells
  obtain ⟨hwindow, hlength, hfits⟩ := windowLength_eq_some hlen
  have hrequested : o.requested = len := by
    unfold Options.requested sub64 add64
    omega
  -- One cell is not larger than the arena, and the payloads are a part of it.
  have hone : g.cell ≤ g.arena := by
    rw [harena]
    exact Nat.le_mul_of_pos_right _ hslots
  have hpayloads : slots * o.slot_bytes < 2^64 := by
    calc slots * o.slot_bytes ≤ slots * g.cell := Nat.mul_le_mul_left _ (by omega)
      _ = g.arena := by rw [harena, Nat.mul_comm]
      _ < 2^64 := by omega
  refine ⟨hguard, fun k hk => cellSafe_makeCell hcell harena hmax hk, ?_, ?_,
    ⟨hwindow, by omega, by rw [hrequested, hlength]⟩, by omega,
    fun hobjects k hk => ⟨rangeFor_eq o k, range_exact hobjects hpos hpayloads hk⟩, ?_⟩
  · intro j hj k hk hne
    rcases Nat.lt_or_gt_of_ne hne with hlt | hlt
    · exact .inl (makeCell_before hcell harena hmax hlt hk)
    · exact .inr (makeCell_before hcell harena hmax hlt hj)
  · intro n hn
    have hle : n ≤ kSsizeMax := by
      simp only [List.mem_cons, List.not_mem_nil, or_false] at hn
      omega
    exact ⟨hle, signed64_eq (by omega)⟩
  · intro hobjects x
    rw [exists_unique_slot hpos]
    refine existsUnique_congr fun k => and_congr_right fun hk => ?_
    obtain ⟨-, hfirst, hlast⟩ := range_exact hobjects hpos hpayloads hk
    rw [hfirst, hlast]

/-- The defaults with their sixteen slots are accepted. -/
theorem validateGeometry_safe_default :
    SafeGeometry {} 16 ⟨8519680, 136314880, 8388608⟩ :=
  validateGeometry_safe {} 16 ⟨8519680, 136314880, 8388608⟩ (by decide +kernel)

end S3Rdma.Probe
