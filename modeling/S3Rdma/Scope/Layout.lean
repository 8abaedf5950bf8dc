import S3Rdma.Lib.Tiling
import S3Rdma.Probe.Options

/-!
# The guarded cells of the scope probe

The layout of `src/probe/scope_probe_main.cpp`: a base region with one payload and its trailing
guard, and after it cells of a leading guard, a payload and a trailing guard, all sizes rounded up
to 4096. `checked_add`, `checked_mul` and the registration limit are those of the rig probe, which
has the same text. What is not checked in the source (the subtractions, and the sums of case `p`)
is computed with wrap-around here.

Everything a slot computes lies below the end of its cell, and the cell ends inside the arena
(`interiorSlot_eq_some`), so nothing wraps. In case `p` the arena is made at least two cells large;
a cell is a multiple of 4096, so rounding the half down cannot make it smaller than a cell
(`le_alignDown`).
-/

namespace S3Rdma.Scope

open Probe (checkedAdd checkedMul checkedAdd_eq_some checkedMul_eq_some kMaxReg)

/-- The cases of `--exp`. -/
inductive Case where
  | b0
  | i0
  | s0
  | si
  | r
  | p
  | m
deriving DecidableEq

/-! ## The layout -/

/-- `kAlign`. -/
def kAlign : ℕ := 4096

/-- `SIZE_MAX`. -/
def sizeMax : ℕ := 2^64 - 1

/-- `align_up`. -/
def alignUp (v : ℕ) : Option ℕ := (checkedAdd v (kAlign - 1)).map fun r => r / kAlign * kAlign

/-- `align_down`. -/
def alignDown (v : ℕ) : ℕ := v / kAlign * kAlign

/-- `Span`. -/
structure Span where
  offset : ℕ
  len : ℕ
deriving DecidableEq

/-- `Slot`. -/
structure Slot where
  payload : Span
  lead_guard : Span
  trail_guard : Span
deriving DecidableEq

/-- `Layout`, without the field for the error. -/
structure Layout where
  xfer : ℕ
  guard : ℕ
  base_region : ℕ
  cell : ℕ
deriving DecidableEq

/-- `build_layout`. -/
def buildLayout (xfer guard : ℕ) : Except Bytes Layout :=
  match (checkedAdd xfer guard).bind alignUp with
  | none => .error (ascii "base region overflow")
  | some base_region =>
    match ((checkedAdd guard xfer).bind fun tmp => checkedAdd tmp guard).bind alignUp with
    | none => .error (ascii "cell size overflow")
    | some cell => .ok ⟨xfer, guard, base_region, cell⟩

/-- `base_slot`. -/
def baseSlot (L : Layout) : Slot where
  payload := ⟨0, L.xfer⟩
  lead_guard := ⟨0, 0⟩
  trail_guard := ⟨L.xfer, sub64 L.base_region L.xfer⟩

/-- `interior_slot`. -/
def interiorSlot (L : Layout) (j arena : ℕ) : Option Slot := do
  let cells ← checkedMul j L.cell
  let cell_start ← checkedAdd L.base_region cells
  let off ← checkedAdd cell_start L.guard
  let end_ ← checkedAdd off L.xfer
  let slot_end ← checkedAdd cell_start L.cell
  if slot_end > arena then none
  return {
    payload := ⟨off, L.xfer⟩
    lead_guard := ⟨cell_start, L.guard⟩
    trail_guard := ⟨end_, sub64 slot_end end_⟩ }

/-- `arena_for_slots`. -/
def arenaForSlots (L : Layout) (count : ℕ) : ℕ :=
  ((checkedMul count L.cell).bind (checkedAdd L.base_region)).getD sizeMax

/-! ## The arena of a run -/

/-- `arena_bytes` and `p_half` of `main`. -/
structure Arena where
  arena_bytes : ℕ
  p_half : ℕ := 0
deriving DecidableEq

/-- Case `p`: an arena of at least two cells, and its half. -/
def halveArena (L : Layout) (arena_bytes : ℕ) : Except Bytes Arena :=
  match checkedMul L.cell 2 with
  | none => .error (ascii "p overflow")
  | some two =>
    let arena_bytes := if arena_bytes < two then two else arena_bytes
    let p_half := alignDown (arena_bytes / 2)
    if p_half < L.cell then .error (ascii "p half smaller than a cell")
    else .ok { arena_bytes, p_half }

/-- `main` up to the choice of the arena; `option` is the value of `--arena-bytes`, or `0`. -/
def chooseArena (exp : Case) (option : ℕ) (L : Layout) : Except Bytes Arena :=
  let slots_needed := if exp = .r then 2 else 1
  let derived := arenaForSlots L slots_needed
  if derived = sizeMax then .error (ascii "arena size overflow")
  else
    let arena_bytes := if option ≠ 0 then option else derived
    if exp = .p then halveArena L arena_bytes
    else if arena_bytes < derived then .error (ascii "arena too small for layout")
    else .ok { arena_bytes }

/-- The arena, within the limit of a registration. -/
def planArena (exp : Case) (option : ℕ) (L : Layout) : Except Bytes Arena :=
  (chooseArena exp option L).bind fun arena =>
    if arena.arena_bytes > kMaxReg then .error (ascii "arena exceeds CUOBJ_MAX_MEMORY_REG_SIZE")
    else .ok arena

/-- The slot of case `p` in the slice that starts at `origin`; the one of slice A starts at `0`. -/
def pSlot (L : Layout) (origin : ℕ) : Slot where
  payload := ⟨add64 origin L.guard, L.xfer⟩
  lead_guard := ⟨origin, L.guard⟩
  trail_guard := ⟨add64 (add64 origin L.guard) L.xfer, sub64 (sub64 L.cell L.guard) L.xfer⟩

/-! ## Checked and rounded sizes -/

section Arithmetic

variable {a b n v : ℕ}

/-- A sum that fits is accepted. -/
theorem checkedAdd_of_le (h : a + b ≤ sizeMax) : checkedAdd a b = some (a + b) := by
  unfold sizeMax at h
  rw [checkedAdd, if_neg (by omega)]

/-- A product that fits is accepted. -/
theorem checkedMul_of_le (h : a * b ≤ sizeMax) : checkedMul a b = some (a * b) := by
  rw [checkedMul, if_neg]
  rintro ⟨ha, hb⟩
  have hle : b ≤ (2^64 - 1) / a := (Nat.le_div_iff_mul_le (by omega)).mpr (by rwa [Nat.mul_comm])
  omega

/-- A sum with a word that is accepted fits. -/
theorem checkedAdd_le (h : checkedAdd a b = some n) (hb : b ≤ sizeMax) : n ≤ sizeMax := by
  unfold checkedAdd at h
  unfold sizeMax at hb ⊢
  split_ifs at h with hbig
  obtain rfl := Option.some.inj h
  omega

/-- A product that is accepted fits. -/
theorem checkedMul_le (h : checkedMul a b = some n) : n ≤ sizeMax := by
  unfold checkedMul at h
  split_ifs at h with hbig
  obtain rfl := Option.some.inj h
  rcases Nat.eq_zero_or_pos a with rfl | ha
  · simp
  · have hle : b ≤ (2^64 - 1) / a := by
      by_contra hlt
      exact hbig ⟨by omega, by omega⟩
    rw [Nat.mul_comm]
    exact (Nat.le_div_iff_mul_le ha).mp hle

/-- A size that is rounded up is a multiple of the alignment, not smaller, and fits. -/
theorem alignUp_eq_some (h : alignUp v = some n) : v ≤ n ∧ n % kAlign = 0 ∧ n ≤ sizeMax := by
  obtain ⟨r, hr, rfl⟩ := Option.map_eq_some_iff.mp h
  have hsum := checkedAdd_eq_some hr
  have hfits := checkedAdd_le hr (by decide)
  unfold kAlign at hsum ⊢
  refine ⟨by omega, Nat.mul_mod_left _ _, by omega⟩

/-- Rounding down gives a multiple of the alignment. -/
theorem alignDown_mod (v : ℕ) : alignDown v % kAlign = 0 := Nat.mul_mod_left _ _

/-- Rounding down does not go below a multiple of the alignment. -/
theorem le_alignDown (hn : n % kAlign = 0) (h : n ≤ v) : n ≤ alignDown v := by
  unfold alignDown
  calc n = n / kAlign * kAlign := (Nat.div_mul_cancel (Nat.dvd_of_mod_eq_zero hn)).symm
    _ ≤ v / kAlign * kAlign := Nat.mul_le_mul_right _ (Nat.div_le_div_right h)

end Arithmetic

/-! ## Slots -/

/-- A span as a piece of an interval. -/
def Span.piece (s : Span) : ℕ × ℕ := (s.offset, s.len)

/-- The leading guard, the payload and the trailing guard of a slot tile an interval, with at least
`guard` bytes on both sides. -/
structure Guarded (s : Slot) (guard xfer lo hi : ℕ) : Prop where
  tiles : Tiles lo hi [s.lead_guard.piece, s.payload.piece, s.trail_guard.piece]
  lead : s.lead_guard.len = guard
  payload : s.payload.len = xfer
  trail : guard ≤ s.trail_guard.len

/-- What `build_layout` has computed when it succeeds. -/
structure WellFormed (L : Layout) : Prop where
  xfer_pos : 1 ≤ L.xfer
  guard_pos : 1 ≤ L.guard
  base_le : L.xfer + L.guard ≤ L.base_region
  base_fits : L.base_region ≤ sizeMax
  cell_le : L.guard + L.xfer + L.guard ≤ L.cell
  cell_fits : L.cell ≤ sizeMax
  cell_aligned : L.cell % kAlign = 0

/-- A layout that is built is well formed. -/
theorem buildLayout_wellFormed {xfer guard : ℕ} {L : Layout} (hxfer : 1 ≤ xfer) (hguard : 1 ≤ guard)
    (h : buildLayout xfer guard = .ok L) : WellFormed L ∧ L.xfer = xfer ∧ L.guard = guard := by
  unfold buildLayout at h
  split at h
  · cases h
  rename_i base_region hbase
  split at h
  · cases h
  rename_i cell hcell
  obtain rfl := Except.ok.inj h
  obtain ⟨sum, hsum, hbase⟩ := Option.bind_eq_some_iff.mp hbase
  obtain ⟨size, hsize, hcell⟩ := Option.bind_eq_some_iff.mp hcell
  obtain ⟨part, hpart, hsize⟩ := Option.bind_eq_some_iff.mp hsize
  obtain ⟨hle, -, hfits⟩ := alignUp_eq_some hbase
  obtain ⟨hle', haligned, hfits'⟩ := alignUp_eq_some hcell
  rw [checkedAdd_eq_some hsum] at hle
  rw [checkedAdd_eq_some hsize, checkedAdd_eq_some hpart] at hle'
  exact ⟨⟨hxfer, hguard, hle, hfits, hle', hfits', haligned⟩, rfl, rfl⟩

section Slots

variable {L : Layout}

/-- The payload of the base slot and its trailing guard tile the base region. -/
theorem baseSlot_tiles (hL : WellFormed L) :
    Tiles 0 L.base_region [(baseSlot L).payload.piece, (baseSlot L).trail_guard.piece] ∧
      L.guard ≤ (baseSlot L).trail_guard.len := by
  have hbase := hL.base_le
  have hxfer := hL.xfer_pos
  have hguard := hL.guard_pos
  have hfits : L.base_region < 2^64 := by
    have := hL.base_fits
    unfold sizeMax at this
    omega
  have hrest : sub64 L.base_region L.xfer = L.base_region - L.xfer := sub64_eq hfits (by omega)
  unfold baseSlot Span.piece
  dsimp only
  rw [hrest]
  refine ⟨⟨rfl, hxfer, ?_, ?_, ?_⟩, by omega⟩
  · exact (Nat.zero_add _).symm
  · dsimp only
    omega
  · change 0 + L.xfer + (L.base_region - L.xfer) = L.base_region
    omega

/-- The slot of an index, computed on numbers. -/
def plainSlot (L : Layout) (j : ℕ) : Slot where
  payload := ⟨L.base_region + j * L.cell + L.guard, L.xfer⟩
  lead_guard := ⟨L.base_region + j * L.cell, L.guard⟩
  trail_guard := ⟨L.base_region + j * L.cell + L.guard + L.xfer, L.cell - L.guard - L.xfer⟩

/-- `interior_slot` succeeds exactly if the cell ends in the arena, and then nothing has wrapped. -/
theorem interiorSlot_eq_some (hL : WellFormed L) {j arena : ℕ} (harena : arena ≤ sizeMax) {s : Slot} :
    interiorSlot L j arena = some s ↔
      L.base_region + j * L.cell + L.cell ≤ arena ∧ s = plainSlot L j := by
  have hcell := hL.cell_le
  have hmax : sizeMax = 2^64 - 1 := rfl
  -- The one subtraction is not checked; guard and payload are in the cell, so it does not wrap.
  have htrail : L.base_region + j * L.cell + L.cell ≤ arena →
      sub64 (L.base_region + j * L.cell + L.cell)
        (L.base_region + j * L.cell + L.guard + L.xfer) = L.cell - L.guard - L.xfer := by
    intro hin
    rw [sub64_eq (by omega) (by omega)]
    omega
  constructor
  · intro h
    unfold interiorSlot at h
    simp only [Option.bind_eq_bind, Option.bind_eq_some_iff] at h
    obtain ⟨cells, hcells, start, hstart, off, hoff, end_, hend, slot_end, hslot, h⟩ := h
    obtain rfl := checkedMul_eq_some hcells
    obtain rfl := checkedAdd_eq_some hstart
    obtain rfl := checkedAdd_eq_some hoff
    obtain rfl := checkedAdd_eq_some hend
    obtain rfl := checkedAdd_eq_some hslot
    split_ifs at h with hout
    · simp at h
    · have hin : L.base_region + j * L.cell + L.cell ≤ arena := not_lt.mp hout
      rw [htrail hin] at h
      exact ⟨hin, (Option.some.inj h).symm⟩
  · rintro ⟨hin, rfl⟩
    unfold interiorSlot
    simp only [Option.bind_eq_bind]
    rw [checkedMul_of_le (by omega), Option.bind_some, checkedAdd_of_le (by omega),
      Option.bind_some, checkedAdd_of_le (by omega), Option.bind_some,
      checkedAdd_of_le (by omega), Option.bind_some, checkedAdd_of_le (by omega),
      Option.bind_some, if_neg (not_lt.mpr hin), htrail hin]
    rfl

/-- A slot on numbers tiles its cell. -/
theorem plainSlot_guarded (hL : WellFormed L) (j : ℕ) :
    Guarded (plainSlot L j) L.guard L.xfer (L.base_region + j * L.cell)
      (L.base_region + j * L.cell + L.cell) := by
  have hcell := hL.cell_le
  have hxfer := hL.xfer_pos
  have hguard := hL.guard_pos
  refine ⟨⟨rfl, hguard, rfl, hxfer, rfl, ?_, ?_⟩, rfl, rfl, ?_⟩
  · change 0 < L.cell - L.guard - L.xfer
    omega
  · change L.base_region + j * L.cell + L.guard + L.xfer + (L.cell - L.guard - L.xfer) = _
    omega
  · change L.guard ≤ L.cell - L.guard - L.xfer
    omega

/-- The cells of two indices do not meet. -/
theorem cells_disjoint (L : Layout) {i j : ℕ} (h : i ≠ j) :
    L.base_region + i * L.cell + L.cell ≤ L.base_region + j * L.cell ∨
      L.base_region + j * L.cell + L.cell ≤ L.base_region + i * L.cell := by
  have hstep : ∀ {a b : ℕ}, a < b → a * L.cell + L.cell ≤ b * L.cell := by
    intro a b hab
    rw [← Nat.succ_mul]
    exact Nat.mul_le_mul_right _ hab
  rcases Nat.lt_or_gt_of_ne h with hlt | hlt
  · have := hstep hlt
    omega
  · have := hstep hlt
    omega

/-- The arena of some slots is what they take, if that fits. -/
theorem arenaForSlots_eq {count : ℕ} (h : arenaForSlots L count ≠ sizeMax) :
    arenaForSlots L count = L.base_region + count * L.cell ∧
      L.base_region + count * L.cell ≤ sizeMax := by
  unfold arenaForSlots at h ⊢
  cases hcells : checkedMul count L.cell with
  | none => exact absurd (by rw [hcells]; rfl) h
  | some cells =>
    rw [hcells, Option.bind_some] at h
    rw [Option.bind_some]
    cases htotal : checkedAdd L.base_region cells with
    | none => exact absurd (by rw [htotal]; rfl) h
    | some total =>
      have hfits := checkedAdd_le htotal (checkedMul_le hcells)
      have hvalue := checkedAdd_eq_some htotal
      rw [checkedMul_eq_some hcells] at hvalue
      rw [← hvalue]
      exact ⟨rfl, hfits⟩

/-- In the arena of some slots, every one of them is found. -/
theorem interiorSlot_of_lt {count j : ℕ} (hL : WellFormed L) (h : arenaForSlots L count ≠ sizeMax)
    (hj : j < count) : interiorSlot L j (arenaForSlots L count) = some (plainSlot L j) := by
  obtain ⟨hvalue, hfits⟩ := arenaForSlots_eq h
  rw [hvalue]
  refine (interiorSlot_eq_some hL hfits).mpr ⟨?_, rfl⟩
  have hcells : j * L.cell + L.cell ≤ count * L.cell := by
    rw [← Nat.succ_mul]
    exact Nat.mul_le_mul_right _ hj
  omega

/-- The slot of a slice in case `p` tiles the first cell of the slice. -/
theorem pSlot_guarded (hL : WellFormed L) (origin : ℕ) (h : origin + L.cell ≤ sizeMax) :
    Guarded (pSlot L origin) L.guard L.xfer origin (origin + L.cell) := by
  have hcell := hL.cell_le
  have hxfer := hL.xfer_pos
  have hguard := hL.guard_pos
  have hmax : sizeMax = 2^64 - 1 := rfl
  have hoff : add64 origin L.guard = origin + L.guard := add64_eq (by omega)
  have hend : add64 (origin + L.guard) L.xfer = origin + L.guard + L.xfer := add64_eq (by omega)
  have htrail : sub64 (sub64 L.cell L.guard) L.xfer = L.cell - L.guard - L.xfer := by
    have hinner : sub64 L.cell L.guard = L.cell - L.guard := sub64_eq (by omega) (by omega)
    rw [hinner]
    exact sub64_eq (by omega) (by omega)
  unfold pSlot
  rw [hoff, hend, htrail]
  refine ⟨⟨rfl, hguard, rfl, hxfer, rfl, ?_, ?_⟩, rfl, rfl, ?_⟩
  · change 0 < L.cell - L.guard - L.xfer
    omega
  · change origin + L.guard + L.xfer + (L.cell - L.guard - L.xfer) = _
    omega
  · change L.guard ≤ L.cell - L.guard - L.xfer
    omega

end Slots

/-! ## Case `p` -/

/-- The half of an arena of at least two cells holds a cell, and so does the rest. -/
theorem halveArena_eq {L : Layout} (hL : WellFormed L) (arena_bytes : ℕ) :
    halveArena L arena_bytes = .error (ascii "p overflow") ∨
      ∃ a, halveArena L arena_bytes = .ok a ∧ a.p_half % kAlign = 0 ∧ L.cell ≤ a.p_half ∧
        a.p_half + L.cell ≤ a.arena_bytes := by
  unfold halveArena
  cases htwo : checkedMul L.cell 2 with
  | none => exact .inl rfl
  | some two =>
    right
    obtain rfl := checkedMul_eq_some htwo
    dsimp only
    generalize harena : (if arena_bytes < L.cell * 2 then L.cell * 2 else arena_bytes) = arena
    have hle : L.cell * 2 ≤ arena := by
      rw [← harena]
      split_ifs <;> omega
    have hhalf : L.cell ≤ alignDown (arena / 2) := le_alignDown hL.cell_aligned (by omega)
    have hround : alignDown (arena / 2) ≤ arena / 2 := Nat.div_mul_le_self _ _
    rw [if_neg (not_lt.mpr hhalf)]
    exact ⟨_, rfl, alignDown_mod _, hhalf, by dsimp only; omega⟩

/-- In case `p`, `main` has refused the size, or chosen two aligned halves that both fit a cell. -/
theorem chooseArena_p {L : Layout} (hL : WellFormed L) (option : ℕ) :
    chooseArena .p option L = .error (ascii "arena size overflow") ∨
      chooseArena .p option L = .error (ascii "p overflow") ∨
      ∃ a, chooseArena .p option L = .ok a ∧ a.p_half % kAlign = 0 ∧ L.cell ≤ a.p_half ∧
        a.p_half + L.cell ≤ a.arena_bytes := by
  unfold chooseArena
  dsimp only
  rw [if_neg (by decide : ¬ Case.p = Case.r)]
  by_cases hderived : arenaForSlots L 1 = sizeMax
  · rw [if_pos hderived]
    exact .inl rfl
  · rw [if_neg hderived, if_pos rfl]
    exact .inr (halveArena_eq hL _)

/-- What `main` has fixed in case `p`, for every value of `--arena-bytes`. -/
theorem planArena_p {L : Layout} (hL : WellFormed L) (option : ℕ) :
    planArena .p option L ≠ .error (ascii "p half smaller than a cell") ∧
      ∀ a, planArena .p option L = .ok a → a.p_half % kAlign = 0 ∧ L.cell ≤ a.p_half ∧
        a.p_half + L.cell ≤ a.arena_bytes ∧ a.arena_bytes ≤ kMaxReg := by
  have hother : ∀ e : Bytes, e ≠ ascii "p half smaller than a cell" →
      (.error e : Except Bytes Arena) ≠ .error (ascii "p half smaller than a cell") :=
    fun e he h => he (Except.error.inj h)
  unfold planArena
  rcases chooseArena_p hL option with h | h | ⟨a, h, haligned, hhalf, hrest⟩
  · rw [h]
    exact ⟨hother _ (by decide), fun a ha => by cases ha⟩
  · rw [h]
    exact ⟨hother _ (by decide), fun a ha => by cases ha⟩
  · rw [h, Except.bind]
    split_ifs with hbig
    · exact ⟨hother _ (by decide), fun a ha => by cases ha⟩
    · refine ⟨by simp, fun a' ha' => ?_⟩
      obtain rfl := Except.ok.inj ha'
      exact ⟨haligned, hhalf, hrest, not_lt.mp hbig⟩

/-! ## The result -/

/-- The cells of a layout are disjoint, guarded and in bounds. -/
structure SafeLayout (L : Layout) : Prop where
  /-- The base slot: its payload and its trailing guard. -/
  base : Tiles 0 L.base_region [(baseSlot L).payload.piece, (baseSlot L).trail_guard.piece]
  /-- A slot that is found tiles its cell, which lies behind the base region and in the arena. -/
  interior : ∀ j arena s, arena ≤ sizeMax → interiorSlot L j arena = some s →
    Guarded s L.guard L.xfer (L.base_region + j * L.cell) (L.base_region + (j + 1) * L.cell) ∧
      L.base_region + (j + 1) * L.cell ≤ arena
  /-- The cells of two indices do not meet. -/
  disjoint : ∀ i j, i ≠ j →
    L.base_region + (i + 1) * L.cell ≤ L.base_region + j * L.cell ∨
      L.base_region + (j + 1) * L.cell ≤ L.base_region + i * L.cell
  /-- In the arena for some slots all of them are found. -/
  enough : ∀ count, arenaForSlots L count ≠ sizeMax → ∀ j < count,
    (interiorSlot L j (arenaForSlots L count)).isSome = true
  /-- Case `p`: the exit for a half that is too small is never taken. -/
  p_reachable : ∀ option, planArena .p option L ≠ .error (ascii "p half smaller than a cell")
  /-- Case `p`: the two cells lie in the two slices of the arena. -/
  p_halves : ∀ option a, planArena .p option L = .ok a → a.p_half % 4096 = 0 ∧
    (Guarded (pSlot L 0) L.guard L.xfer 0 L.cell ∧ L.cell ≤ a.p_half) ∧
    (Guarded (pSlot L a.p_half) L.guard L.xfer a.p_half (a.p_half + L.cell) ∧
      a.p_half + L.cell ≤ a.arena_bytes)

/-- The cells of every layout that is built are disjoint, guarded and in bounds. -/
theorem buildLayout_safe (xfer guard : ℕ) (L : Layout) (hxfer : 1 ≤ xfer) (hguard : 1 ≤ guard)
    (h : buildLayout xfer guard = .ok L) : SafeLayout L ∧ L.xfer = xfer ∧ L.guard = guard := by
  obtain ⟨hL, hxfer, hguard⟩ := buildLayout_wellFormed hxfer hguard h
  have hnext : ∀ j, L.base_region + (j + 1) * L.cell = L.base_region + j * L.cell + L.cell := by
    intro j
    rw [Nat.succ_mul, Nat.add_assoc]
  refine ⟨⟨(baseSlot_tiles hL).1, ?_, ?_, ?_, fun option => (planArena_p hL option).1, ?_⟩, hxfer,
    hguard⟩
  · intro j arena s harena hs
    obtain ⟨hin, rfl⟩ := (interiorSlot_eq_some hL harena).mp hs
    rw [hnext]
    exact ⟨plainSlot_guarded hL j, hin⟩
  · intro i j hij
    rw [hnext, hnext]
    exact cells_disjoint L hij
  · intro count hcount j hj
    rw [interiorSlot_of_lt hL hcount hj]
    rfl
  · intro option a ha
    obtain ⟨haligned, hhalf, hrest, hmax⟩ := (planArena_p hL option).2 a ha
    have hreg : kMaxReg ≤ sizeMax := by decide
    have hA := pSlot_guarded hL 0 (by omega)
    rw [Nat.zero_add] at hA
    exact ⟨haligned, ⟨hA, hhalf⟩, pSlot_guarded hL a.p_half (by omega), hrest⟩

/-- The layout for the default sizes is safe. -/
theorem buildLayout_safe_default : SafeLayout ⟨4194304, 65536, 4259840, 4325376⟩ :=
  (buildLayout_safe 4194304 65536 _ (by decide) (by decide) (by decide +kernel)).1

end S3Rdma.Scope
