import Mathlib.Algebra.BigOperators.Intervals
import Mathlib.Algebra.Order.BigOperators.Group.Finset
import Mathlib.Data.List.Basic
import Mathlib.Tactic.Ring

/-!
# Consecutive pieces

A list of pieces, each a start and a length, tiles `[lo, hi)` when the first starts at `lo`, each
next one starts where the one before it ends, the last ends at `hi`, and none is empty. Every
position of the interval then lies in exactly one of them. `pieceAt` is the length of the `k`-th
piece when an interval is cut into pieces of a fixed size with a shorter last one, and
`pieces_tile` says that these pieces do tile the interval.

When only the first `r k` positions of the `k`-th piece are filled, the filled positions are a
prefix of the interval exactly when nothing is filled after a piece that is not full
(`filled_prefix_iff`).
-/

namespace S3Rdma

/-- The pieces of a list are nonempty, consecutive, and cover `[lo, hi)`. -/
def Tiles (lo hi : ℕ) : List (ℕ × ℕ) → Prop
  | [] => lo = hi
  | p :: ps => p.1 = lo ∧ 0 < p.2 ∧ Tiles (lo + p.2) hi ps

/-- Pieces that tile an interval followed by pieces that tile the next one tile both. -/
theorem Tiles.append {lo mid hi : ℕ} {ps qs : List (ℕ × ℕ)} (hp : Tiles lo mid ps)
    (hq : Tiles mid hi qs) : Tiles lo hi (ps ++ qs) := by
  induction ps generalizing lo with
  | nil =>
    have h : lo = mid := hp
    rw [List.nil_append, h]
    exact hq
  | cons p ps ih => exact ⟨hp.1, hp.2.1, ih hp.2.2⟩

/-- One more piece at the end of a tiled interval. -/
theorem Tiles.snoc {lo mid n : ℕ} {ps : List (ℕ × ℕ)} (hp : Tiles lo mid ps) (hn : 0 < n) :
    Tiles lo (mid + n) (ps ++ [(mid, n)]) :=
  hp.append ⟨rfl, hn, rfl⟩

/-- The length of the `k`-th piece when `[0, length)` is cut into pieces of `chunk`. -/
def pieceAt (chunk length k : ℕ) : ℕ := min chunk (length - k * chunk)

/-- The number of pieces when `[0, length)` is cut into pieces of `chunk`. -/
def pieceCount (chunk length : ℕ) : ℕ := (length + chunk - 1) / chunk

/-- There is a `k`-th piece exactly when it starts before the end. -/
theorem lt_pieceCount_iff {chunk length k : ℕ} (hc : 0 < chunk) :
    k < pieceCount chunk length ↔ k * chunk < length := by
  unfold pieceCount
  rw [Nat.lt_iff_add_one_le, Nat.le_div_iff_mul_le hc, Nat.add_mul, Nat.one_mul]
  omega

/-- The first `n` pieces tile the beginning of the interval. -/
theorem pieces_tile {chunk length : ℕ} (hc : 0 < chunk) (base : ℕ) {n : ℕ}
    (hn : n ≤ pieceCount chunk length) :
    Tiles base (base + min (n * chunk) length)
      ((List.range n).map fun k => (base + k * chunk, pieceAt chunk length k)) := by
  induction n with
  | zero => simp [Tiles]
  | succ n ih =>
    have hk := (lt_pieceCount_iff hc).mp (Nat.lt_of_succ_le hn)
    have hpos : 0 < pieceAt chunk length n := by
      unfold pieceAt
      omega
    have ht := (ih (by omega)).snoc hpos
    rw [min_eq_left (Nat.le_of_lt hk)] at ht
    have hend : base + n * chunk + pieceAt chunk length n =
        base + min ((n + 1) * chunk) length := by
      unfold pieceAt
      rw [Nat.succ_mul]
      omega
    rw [List.range_succ, List.map_append, ← hend]
    exact ht

/-- The first `n` pieces of a list, after each other, are its beginning. -/
theorem flatMap_pieces {α : Type*} (xs : List α) (chunk length n : ℕ) :
    (List.range n).flatMap (fun k => (xs.drop (k * chunk)).take (pieceAt chunk length k)) =
      xs.take (min (n * chunk) length) := by
  induction n with
  | zero => simp
  | succ n ih =>
    have hend : min ((n + 1) * chunk) length =
        min (n * chunk) length + pieceAt chunk length n := by
      unfold pieceAt
      rw [Nat.succ_mul]
      omega
    rw [List.range_succ, List.flatMap_append, ih, hend, List.take_add]
    by_cases hk : n * chunk ≤ length
    · simp [min_eq_left hk]
    · have h0 : pieceAt chunk length n = 0 := by
        unfold pieceAt
        omega
      simp [h0]

/-- The lengths of the first `n` pieces add up to the end of the last of them. -/
theorem sum_pieceAt (chunk length n : ℕ) :
    ∑ k ∈ Finset.range n, pieceAt chunk length k = min (n * chunk) length := by
  induction n with
  | zero => simp
  | succ n ih =>
    rw [Finset.sum_range_succ, ih, pieceAt, Nat.succ_mul]
    omega

/-- The pieces reach the end of the interval. -/
theorem le_pieceCount_mul {chunk : ℕ} (hc : 0 < chunk) (length : ℕ) :
    length ≤ pieceCount chunk length * chunk :=
  Nat.le_of_not_lt fun h => Nat.lt_irrefl _ ((lt_pieceCount_iff hc).mpr h)

/-- When no piece is filled beyond its end, the first `n` fill at most what they cover. -/
theorem sum_filled_le {chunk length : ℕ} {r : ℕ → ℕ} (n : ℕ)
    (hr : ∀ k, k < n → r k ≤ pieceAt chunk length k) :
    ∑ k ∈ Finset.range n, r k ≤ min (n * chunk) length := by
  rw [← sum_pieceAt]
  exact Finset.sum_le_sum fun k hk => hr k (Finset.mem_range.mp hk)

/-- When each of `n` pieces is filled up to `r k`, the first `∑ r k` positions are all filled
exactly when every piece after one that is not full is empty. -/
theorem filled_prefix_iff {chunk length : ℕ} (hc : 0 < chunk) {r : ℕ → ℕ} {n : ℕ}
    (hn : n = pieceCount chunk length) (hr : ∀ k, k < n → r k ≤ pieceAt chunk length k) :
    (∀ p, p < ∑ k ∈ Finset.range n, r k → p % chunk < r (p / chunk)) ↔
      ∀ j k, j < k → k < n → r j < pieceAt chunk length j → r k = 0 := by
  constructor
  · intro h j k hjk hkn hshort
    by_contra hk0
    -- The first piece that is not full has a hole at its end, below what is counted.
    have hex : ∃ i, i < n ∧ r i < pieceAt chunk length i := ⟨j, by omega, hshort⟩
    classical
    obtain ⟨hin, hi⟩ := Nat.find_spec hex
    have hfull : ∀ l, l < Nat.find hex → r l = pieceAt chunk length l := by
      intro l hl
      have hnot := Nat.find_min hex hl
      have hle := hr l (by omega)
      by_contra hne
      exact hnot ⟨by omega, by omega⟩
    have hij : Nat.find hex ≤ j := Nat.find_min' hex ⟨by omega, hshort⟩
    generalize Nat.find hex = i at hin hi hfull hij
    have hlt : i * chunk < length := by rwa [hn, lt_pieceCount_iff hc] at hin
    have hpi : pieceAt chunk length i ≤ chunk := Nat.min_le_left _ _
    have hstart : ∑ l ∈ Finset.range i, r l = i * chunk := by
      rw [Finset.sum_congr rfl (g := fun _ => chunk) fun l hl => ?_]
      · simp
      · have hl' := Finset.mem_range.mp hl
        have hmul : (l + 1) * chunk ≤ i * chunk := Nat.mul_le_mul_right _ hl'
        rw [hfull l hl', pieceAt]
        rw [Nat.succ_mul] at hmul
        omega
    have hsum : i * chunk + r i + r k ≤ ∑ l ∈ Finset.range n, r l := by
      have hsub : insert k (Finset.range (i + 1)) ⊆ Finset.range n := by
        intro x hx
        rw [Finset.mem_insert, Finset.mem_range] at hx
        rw [Finset.mem_range]
        omega
      have hle := Finset.sum_le_sum_of_subset (f := r) hsub
      rw [Finset.sum_insert (by rw [Finset.mem_range]; omega), Finset.sum_range_succ, hstart] at hle
      omega
    have hp := h (i * chunk + r i) (by omega)
    have hdiv : (i * chunk + r i) / chunk = i := by
      rw [Nat.add_comm, Nat.add_mul_div_right _ _ hc, Nat.div_eq_of_lt (by omega), Nat.zero_add]
    have hmod : (i * chunk + r i) % chunk = r i := by
      rw [Nat.add_comm, Nat.add_mul_mod_self_right, Nat.mod_eq_of_lt (by omega)]
    rw [hdiv, hmod] at hp
    exact absurd hp (Nat.lt_irrefl _)
  · intro h p hp
    by_contra hhole
    have hlen := sum_filled_le n hr
    have hpq := Nat.div_add_mod p chunk
    have hd := Nat.mod_lt p hc
    rw [Nat.mul_comm] at hpq
    generalize p / chunk = q at hhole hpq
    generalize p % chunk = d at hhole hpq hd
    have hqn : q < n := by
      rw [hn]
      exact (lt_pieceCount_iff hc).mpr (by omega)
    have hshort : r q < pieceAt chunk length q := by
      unfold pieceAt
      omega
    -- Nothing is filled after the `q`-th piece, so the count ends before `p`.
    have hrest : ∑ k ∈ Finset.range n, r k = ∑ k ∈ Finset.range (q + 1), r k := by
      symm
      apply Finset.sum_subset
      · intro x hx
        rw [Finset.mem_range] at hx ⊢
        omega
      · intro k hk hkq
        rw [Finset.mem_range] at hk hkq
        exact h q k (by omega) hk hshort
    have hbefore := sum_filled_le q fun k (hk : k < q) => hr k (by omega)
    rw [hrest, Finset.sum_range_succ] at hp
    omega

end S3Rdma
