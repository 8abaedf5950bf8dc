import S3Rdma.Lib.Bytes
import Mathlib.Data.List.Perm.Basic

/-!
# `std::map` as a sorted list

A `std::map` is the list of its entries in the order of their keys (`Sorted`). `upsert` is an entry
under a new key, or a value combined with the one already there. It keeps the order, and under
`List.lookup` it changes the value of its key only (`lookup_upsert`). `emplace` refuses a key that
is there, and so does nothing but add an entry (`emplace_eq_some_iff`).
-/

namespace S3Rdma.OrdMap

variable {α β : Type*}

/-- The entries are in the strict order of their keys. -/
def Sorted [LT α] (m : List (α × β)) : Prop := m.Pairwise fun a b => a.1 < b.1

section Lookup

variable [BEq α] [LawfulBEq α]

/-- A lookup passes over an entry of another key. -/
theorem lookup_cons_of_ne {k : α} {e : α × β} (h : k ≠ e.1) (m : List (α × β)) :
    (e :: m).lookup k = m.lookup k := by
  rw [List.lookup_cons, beq_false_of_ne h]

/-- What a lookup finds is an entry. -/
theorem mem_of_lookup_eq_some {k : α} {v : β} {m : List (α × β)} (h : m.lookup k = some v) :
    (k, v) ∈ m := by
  obtain ⟨l₁, l₂, rfl, -⟩ := List.lookup_eq_some_iff.mp h
  exact List.mem_append_right _ List.mem_cons_self

/-- A key with an entry is found. -/
theorem exists_lookup_of_mem_keys {k : α} {m : List (α × β)} (h : k ∈ m.map Prod.fst) :
    ∃ v, m.lookup k = some v := by
  obtain ⟨e, he, rfl⟩ := List.mem_map.mp h
  refine Option.ne_none_iff_exists'.mp fun hnone => ?_
  exact bne_iff_ne.mp (List.lookup_eq_none_iff.mp hnone e he) rfl

variable [LT α] [LE α] [Std.LawfulOrderLT α]

/-- A key that is smaller than all others is not there. -/
theorem lookup_eq_none_of_lt {m : List (α × β)} {k : α} (h : ∀ e ∈ m, k < e.1) :
    m.lookup k = none := by
  rw [List.lookup_eq_none_iff]
  intro e he
  have hlt := h e he
  rw [bne_iff_ne]
  rintro rfl
  exact Std.lt_irrefl hlt

/-- In a sorted map, an entry is what its key gives. -/
theorem Sorted.lookup_of_mem {m : List (α × β)} (h : Sorted m) {e : α × β} (he : e ∈ m) :
    m.lookup e.1 = some e.2 := by
  induction m with
  | nil => simp at he
  | cons e' m ih =>
    obtain ⟨hhead, htail⟩ := List.pairwise_cons.mp h
    rcases List.mem_cons.mp he with rfl | he
    · exact List.lookup_cons_self
    · have hne : e.1 ≠ e'.1 := by
        intro heq
        have hlt := hhead e he
        rw [heq] at hlt
        exact Std.lt_irrefl hlt
      rw [lookup_cons_of_ne hne, ih htail he]

end Lookup

/-- An entry that was added to the end of a list was added to it. -/
theorem append_perm_cons {l m m' : List α} {a : α} (h : m'.Perm (a :: m)) :
    (l ++ m').Perm (a :: (l ++ m)) :=
  (h.append_left l).trans List.perm_middle

/-- The keys of a sorted map are distinct. -/
theorem Sorted.nodup_keys [LT α] [LE α] [Std.LawfulOrderLT α] {m : List (α × β)} (h : Sorted m) :
    (m.map Prod.fst).Nodup := by
  refine List.pairwise_map.mpr (List.Pairwise.imp (fun {a b} hlt heq => ?_) h)
  rw [heq] at hlt
  exact Std.lt_irrefl hlt

/-- Two sorted maps with the same entries are the same. -/
theorem Sorted.eq_of_perm [LT α] [LE α] [Std.LawfulOrderLT α] [Std.IsPreorder α]
    {m m' : List (α × β)} (h : Sorted m) (h' : Sorted m') (hp : m.Perm m') : m = m' := by
  refine hp.eq_of_pairwise (fun a b _ _ hab hba => ?_) h h'
  exact absurd (Std.lt_trans hab hba) Std.lt_irrefl

variable [LT α] [DecidableLT α] [DecidableEq α]

/-- Put `v` under the key `k`; if there is a value `w` under it already, make it `f w v`. -/
def upsert (f : β → β → β) (k : α) (v : β) : List (α × β) → List (α × β)
  | [] => [(k, v)]
  | (k', w) :: m =>
    if k < k' then (k, v) :: (k', w) :: m
    else if k = k' then (k', f w v) :: m
    else (k', w) :: upsert f k v m

/-- After an insertion, the keys are the new one and those before. -/
theorem mem_keys_upsert {f : β → β → β} {k k' : α} {v : β} {m : List (α × β)} :
    k' ∈ (upsert f k v m).map Prod.fst ↔ k' = k ∨ k' ∈ m.map Prod.fst := by
  induction m with
  | nil => simp [upsert]
  | cons e m ih =>
    unfold upsert
    split_ifs with hlt heq
    · simp
    · subst heq
      simp
    · rw [List.map_cons, List.mem_cons, ih, List.map_cons, List.mem_cons]
      tauto

/-- A new entry is added to the others. -/
theorem upsert_perm {f : β → β → β} {k : α} {v : β} {m : List (α × β)} (h : k ∉ m.map Prod.fst) :
    (upsert f k v m).Perm ((k, v) :: m) := by
  induction m with
  | nil => exact List.Perm.refl _
  | cons e m ih =>
    rw [List.map_cons, List.mem_cons, not_or] at h
    unfold upsert
    split_ifs with hlt heq
    · exact List.Perm.refl _
    · exact absurd heq h.1
    · exact ((ih h.2).cons e).trans (List.Perm.swap _ _ _)

/-- `std::map::emplace`: an entry under a new key, or nothing. -/
def emplace (k : α) (v : β) (m : List (α × β)) : Option (List (α × β)) :=
  if k ∈ m.map Prod.fst then none else some (upsert (fun w _ => w) k v m)

/-- `emplace` fails exactly for a key that is there. -/
theorem emplace_eq_none_iff {k : α} {v : β} {m : List (α × β)} :
    emplace k v m = none ↔ k ∈ m.map Prod.fst := by
  unfold emplace
  split_ifs with hk
  · exact iff_of_true rfl hk
  · exact iff_of_false (by simp) hk

variable [LE α] [Std.IsLinearOrder α] [Std.LawfulOrderLT α]

/-- An insertion keeps the order. -/
theorem Sorted.upsert {m : List (α × β)} (h : Sorted m) (f : β → β → β) (k : α) (v : β) :
    Sorted (upsert f k v m) := by
  induction m with
  | nil => exact List.pairwise_singleton _ _
  | cons e m ih =>
    obtain ⟨hhead, htail⟩ := List.pairwise_cons.mp h
    unfold OrdMap.upsert
    split_ifs with hlt heq
    · refine List.pairwise_cons.mpr ⟨fun e' he' => ?_, h⟩
      rcases List.mem_cons.mp he' with rfl | he'
      · exact hlt
      · exact Std.lt_trans hlt (hhead e' he')
    · exact List.pairwise_cons.mpr ⟨hhead, htail⟩
    · refine List.pairwise_cons.mpr ⟨fun e' he' => ?_, ih htail⟩
      have hgt : e.1 < k := by
        rcases Std.lt_trichotomy k e.1 with h' | h' | h'
        · exact absurd h' hlt
        · exact absurd h' heq
        · exact h'
      rcases mem_keys_upsert.mp (List.mem_map_of_mem he') with hk | hk
      · rwa [hk]
      · obtain ⟨e'', he'', hkey⟩ := List.mem_map.mp hk
        rw [← hkey]
        exact hhead e'' he''

/-- An insertion gives its key the new value, combined with the old one if there was one, and leaves
the others as they are. -/
theorem lookup_upsert [BEq α] [LawfulBEq α] {m : List (α × β)} (h : Sorted m) (f : β → β → β)
    (k k' : α) (v : β) :
    (OrdMap.upsert f k v m).lookup k' =
      if k' = k then some ((m.lookup k).elim v (f · v)) else m.lookup k' := by
  induction m with
  | nil =>
    unfold OrdMap.upsert
    split_ifs with hk
    · rw [hk, List.lookup_cons_self]
      rfl
    · exact lookup_cons_of_ne hk []
  | cons e m ih =>
    obtain ⟨hhead, htail⟩ := List.pairwise_cons.mp h
    unfold OrdMap.upsert
    by_cases hlt : k < e.1
    · -- A new key, before all others.
      have hnone : (e :: m).lookup k = none := by
        apply lookup_eq_none_of_lt
        intro e' he'
        rcases List.mem_cons.mp he' with rfl | he'
        · exact hlt
        · exact Std.lt_trans hlt (hhead e' he')
      rw [if_pos hlt, hnone]
      split_ifs with hk
      · rw [hk, List.lookup_cons_self]
        rfl
      · exact lookup_cons_of_ne hk (e :: m)
    · rw [if_neg hlt]
      by_cases heq : k = e.1
      · subst heq
        rw [if_pos rfl]
        split_ifs with hk
        · rw [hk, List.lookup_cons_self, List.lookup_cons_self]
          rfl
        · have hk' : k' ≠ (e.1, f e.2 v).1 := hk
          rw [lookup_cons_of_ne hk, lookup_cons_of_ne hk']
      · rw [if_neg heq, lookup_cons_of_ne heq]
        by_cases hk' : k' = e.1
        · have hne : k' ≠ k := fun hkk => heq (hkk.symm.trans hk')
          rw [if_neg hne, hk', List.lookup_cons_self, List.lookup_cons_self]
        · rw [lookup_cons_of_ne hk', lookup_cons_of_ne hk', ih htail]

/-- `emplace` succeeds exactly for a new key, and adds its entry. -/
theorem emplace_eq_some_iff {k : α} {v : β} {m m' : List (α × β)} (hm : Sorted m) :
    emplace k v m = some m' ↔ k ∉ m.map Prod.fst ∧ Sorted m' ∧ m'.Perm ((k, v) :: m) := by
  unfold emplace
  split_ifs with hk
  · exact iff_of_false (by simp) fun h => h.1 hk
  · rw [Option.some.injEq]
    constructor
    · rintro rfl
      exact ⟨hk, hm.upsert _ k v, upsert_perm hk⟩
    · rintro ⟨-, hm', hp⟩
      exact (hm.upsert _ k v).eq_of_perm hm' ((upsert_perm hk).trans hp.symm)

end S3Rdma.OrdMap
