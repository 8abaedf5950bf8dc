import Mathlib.Data.List.Basic
import Mathlib.Data.List.Nodup
import S3Rdma.Server.Completion
import S3Rdma.Server.FdCache

/-!
# The end of the server

`~S3Server` of `src/server/s3_server.cpp`: it closes the descriptors of the cache, and gives the
registrations and the channel of every slot in the pool back to the RDMA library. It must not give
back what the server does not have, or a descriptor is closed twice, and what it does not give back
is lost.

Every slot that was created is in the pool or with a thread (`Pool.Kept`), and when no request runs
any more, a thread has one only if an exception has left its request. So the destructor closes every
open descriptor once, and gives back once what it gives back of a slot, for all slots but those of
such requests: `teardown_exact`. What it leaves, it leaves to the destructor of the library.
-/

namespace S3Rdma.Server

/-! ## Giving back -/

section Release

variable {α : Type*} [DecidableEq α]

/-- What is left after some things are given back one by one; `none` if one of them is not there. -/
def releaseAll : List α → List α → Option (List α)
  | [], held => some held
  | a :: l, held => if a ∈ held then releaseAll l (held.erase a) else none

/-- Different things that are there can be given back, and the others are left. -/
theorem releaseAll_eq_some {l held : List α} (hl : l.Nodup) (h : l ⊆ held) :
    releaseAll l held = some (held.diff l) := by
  induction l generalizing held with
  | nil => rfl
  | cons a l ih =>
    obtain ⟨hnot, hl⟩ := List.nodup_cons.mp hl
    obtain ⟨ha, h⟩ := List.cons_subset.mp h
    rw [releaseAll, if_pos ha, List.diff_cons]
    refine ih hl fun b hb => ?_
    have hne : b ≠ a := fun heq => hnot (heq ▸ hb)
    exact (List.mem_erase_of_ne hne).mpr (h hb)

end Release

/-! ## The destructor -/

/-- What a slot has of the RDMA library. -/
inductive SlotResource where
  | channel (slot : ℕ)
  /-- `staging[i]`, from `allocHostBuffer`. -/
  | host (slot i : ℕ)
  /-- `staging_reg[i]`, from `registerBuffer`. -/
  | registration (slot i : ℕ)
deriving DecidableEq

namespace SlotResource

/-- The slot that a resource belongs to. -/
def slot : SlotResource → ℕ
  | .channel slot => slot
  | .host slot _ => slot
  | .registration slot _ => slot

/-- The resource is memory. -/
def isHost : SlotResource → Bool
  | .host _ _ => true
  | _ => false

end SlotResource

/-- What `create_slot` takes for a slot. -/
def createSlot (slot : ℕ) : List SlotResource :=
  .channel slot :: [0, 1].flatMap fun i => [.host slot i, .registration slot i]

/-- What the destructor gives back of a slot. A slot has both registrations: `create_slot` aborts
otherwise. -/
def destroySlot (slot : ℕ) : List SlotResource :=
  [0, 1].map (.registration slot) ++ [.channel slot]

/-- The descriptors that the destructor closes, in the order in which it meets the entries of
`fd_cache_`. -/
def closedFds (entries : List (Bytes × CachedFd)) : List ℤ :=
  (entries.map fun p => p.2.fd_direct).filter fun fd => 0 ≤ fd

/-- `~S3Server`: the open descriptors and the resources that are left, unless something is given
back that is not there. -/
def teardown (entries : List (Bytes × CachedFd)) (opened : List ℤ) (pool : Pool) :
    Option (List ℤ × List SlotResource) := do
  let opened ← releaseAll (closedFds entries) opened
  let taken := (List.range pool.created).flatMap createSlot
  -- `pool_` from its front.
  let left ← releaseAll (pool.free.reverse.flatMap destroySlot) taken
  return (opened, left)

/-- What is given back of a slot is the slot's, and not its memory. -/
theorem mem_destroySlot {slot : ℕ} {r : SlotResource} :
    r ∈ destroySlot slot ↔ r ∈ createSlot slot ∧ r.isHost = false := by
  cases r <;> simp [createSlot, destroySlot, SlotResource.isHost]

/-- A slot has its own resources. -/
theorem slot_of_mem (slot : ℕ) : ∀ r ∈ createSlot slot, r.slot = slot := by
  simp [createSlot, SlotResource.slot]

/-- A list of resources of each of some different slots has no resource twice. -/
theorem nodup_flatMap_slots {slots : List ℕ} {f : ℕ → List SlotResource} (hslots : slots.Nodup)
    (hf : ∀ x, (f x).Nodup) (hown : ∀ x, ∀ r ∈ f x, r.slot = x) : (slots.flatMap f).Nodup := by
  refine List.nodup_flatMap.mpr ⟨fun x _ => hf x, hslots.imp fun {x y} hne => ?_⟩
  intro r hx hy
  exact hne ((hown x r hx).symm.trans (hown y r hy))

/-! ## Slots are kept -/

/-- Every slot that was created is free or held, and no other slot is. -/
def Pool.Kept (s : Pool) : Prop := ∀ x, s.owners x = (decide (x < s.created)).toNat

section Kept

variable {max_concurrency : ℕ} {s t s' : Pool} {m : Move}

/-- A thread goes from phase `p` to phase `q`, and slots that it gets or gives come from or go to the
free ones, or are new. -/
theorem Pool.Kept.become {i total created : ℕ} {free : List ℕ} {p q : Phase} (hk : s.Kept)
    (hp : s.threads[i]? = some p)
    (howners : ∀ x, free.count x + (q.slot == some x).toNat + (decide (x < s.created)).toNat =
      s.free.count x + (p.slot == some x).toNat + (decide (x < created)).toNat) :
    Pool.Kept ⟨free, total, created, s.threads.set i q⟩ := by
  intro x
  have hset := @countP_set_add _ (fun p : Phase => p.slot == some x) _ _ _ q hp
  have hbefore := hk x
  have hmoved := howners x
  simp only [← toNat_eq_ite] at hset
  simp only [Pool.owners] at hbefore ⊢
  omega

/-- A change keeps the slots. -/
theorem Pool.Kept.change (hk : s.Kept) (h : Change max_concurrency s m t) : t.Kept := by
  cases h with
  | take hp hphase hfree =>
    refine hk.become hp fun x => ?_
    rcases hphase with rfl | rfl <;> simp [hfree, Phase.slot, List.count_cons, toNat_eq_ite]
  | wait hp _ hphase =>
    refine hk.become hp fun x => ?_
    rcases hphase with ⟨rfl, -⟩ | rfl <;> simp [Phase.slot]
  | create hp =>
    refine hk.become hp fun x => ?_
    simp only [Phase.slot, toNat_eq_ite, decide_eq_true_eq, beq_iff_eq, Option.some.injEq]
    split_ifs <;> simp at * <;> omega
  | give hp =>
    refine hk.become hp fun x => ?_
    simp [Phase.slot, List.count_cons, toNat_eq_ite]
  | grow hp | fail hp | leave hp | wake hp => exact hk.become hp fun x => by simp [Phase.slot]

/-- A step keeps the slots. -/
theorem Pool.Kept.step {a : ℕ × Move} (hk : s.Kept) (h : s.step max_concurrency a = some s') :
    s'.Kept := by
  obtain ⟨t, hchange, hwoken⟩ := step_cases h
  obtain rfl | ⟨j, hj, rfl⟩ := hwoken
  · exact hk.change hchange
  · have hwake : Change max_concurrency t .spurious (t.become j .woken) := .wake hj
    exact (hk.change hchange).change hwake

/-- No slot exists at first, so all are kept. -/
theorem Pool.kept_initial (n : ℕ) : (Pool.initial n).Kept := by
  intro x
  simp [Pool.initial, Pool.owners, List.countP_replicate, Phase.slot]

/-- How often a slot is free, and how often it is held. -/
theorem Pool.owners_eq (s : Pool) (x : ℕ) : s.owners x = s.free.count x + s.held.count x := by
  rw [Pool.held, List.count_filterMap]
  rfl

/-- A slot that was created is free if it is not held, and the other way round. -/
theorem Pool.Kept.mem_free_iff (hk : s.Kept) {x : ℕ} : x ∈ s.free ↔ x < s.created ∧ x ∉ s.held := by
  have hx := hk x
  rw [s.owners_eq] at hx
  rw [← List.count_pos_iff, ← List.count_eq_zero]
  by_cases hlt : x < s.created
  · rw [decide_eq_true hlt, Bool.toNat_true] at hx
    omega
  · rw [decide_eq_false hlt, Bool.toNat_false] at hx
    omega

/-- No slot is free twice. -/
theorem Pool.Kept.nodup_free (hk : s.Kept) : s.free.Nodup := by
  refine List.nodup_iff_count_le_one.mpr fun x => ?_
  have hx := hk x
  have hle := Bool.toNat_le (decide (x < s.created))
  rw [s.owners_eq] at hx
  omega

/-- The destructor has what it gives back of the free slots. It leaves the memory of all slots, and
everything of the slots that are held. -/
theorem Pool.Kept.release (hk : s.Kept) :
    ∃ left, releaseAll (s.free.reverse.flatMap destroySlot)
        ((List.range s.created).flatMap createSlot) = some left ∧ left.Nodup ∧
      ∀ r, r ∈ left ↔ r ∈ (List.range s.created).flatMap createSlot ∧
        (r.isHost = true ∨ r.slot ∈ s.held) := by
  have hgiven : (s.free.reverse.flatMap destroySlot).Nodup :=
    nodup_flatMap_slots (List.nodup_reverse.mpr hk.nodup_free) (fun x => by simp [destroySlot])
      fun x r hr => slot_of_mem x r (mem_destroySlot.mp hr).1
  have htaken : ((List.range s.created).flatMap createSlot).Nodup :=
    nodup_flatMap_slots List.nodup_range (fun x => by simp [createSlot]) slot_of_mem
  -- What is given back was taken for a slot that is not held, and is not memory.
  have hmem : ∀ r, r ∈ s.free.reverse.flatMap destroySlot ↔
      r ∈ (List.range s.created).flatMap createSlot ∧ r.isHost = false ∧ r.slot ∉ s.held := by
    intro r
    simp only [List.mem_flatMap, List.mem_reverse, List.mem_range, hk.mem_free_iff,
      mem_destroySlot]
    constructor
    · rintro ⟨x, ⟨hlt, hheld⟩, hr, hhost⟩
      exact ⟨⟨x, hlt, hr⟩, hhost, (slot_of_mem x r hr).symm ▸ hheld⟩
    · rintro ⟨⟨x, hlt, hr⟩, hhost, hheld⟩
      exact ⟨x, ⟨hlt, slot_of_mem x r hr ▸ hheld⟩, hr, hhost⟩
  refine ⟨_, releaseAll_eq_some hgiven fun r hr => ((hmem r).mp hr).1, htaken.diff, fun r => ?_⟩
  rw [htaken.mem_sdiff_iff, hmem]
  cases r.isHost <;> tauto

end Kept

/-! ## Descriptors -/

/-- The descriptors in the cache are valid. -/
def FdCache.Valid (s : FdCache) : Prop := ∀ fd ∈ s.opened, 0 ≤ fd

/-- Each section of `get_fd` keeps the descriptors in the cache valid. -/
theorem FdCache.Valid.step {s s' : FdCache} {a : ℕ × FdMove} (hv : s.Valid)
    (h : s.step a = some s') : s'.Valid := by
  intro fd hfd
  cases step_effect h with
  | missed _ hopened | found _ _ _ hopened | failed _ _ hopened => exact hv fd (hopened ▸ hfd)
  | kept c e _ hopened _ _ _ hnonneg =>
    rw [hopened] at hfd
    rcases List.mem_cons.mp hfd with rfl | hfd
    · exact hnonneg
    · exact hv fd hfd

/-- The destructor closes all descriptors, in whatever order it meets them. -/
theorem FdCache.Inv.release {s : FdCache} (hi : s.Inv) (hv : s.Valid)
    {entries : List (Bytes × CachedFd)} (hperm : entries.Perm s.cache) :
    releaseAll (closedFds entries) s.opened = some [] := by
  have hfds : (entries.map fun p => p.2.fd_direct).Perm s.opened := by
    rw [hi.opened]
    exact hperm.map _
  have hclosed : closedFds entries = entries.map fun p => p.2.fd_direct :=
    List.filter_eq_self.mpr fun fd hfd => decide_eq_true (hv fd (hfds.subset hfd))
  have hnone : s.opened.diff (entries.map fun p => p.2.fd_direct) = [] := by
    refine List.eq_nil_iff_forall_not_mem.mpr fun fd hfd => ?_
    obtain ⟨hmem, hnot⟩ := hi.distinct.mem_sdiff_iff.mp hfd
    exact hnot (hfds.mem_iff.mpr hmem)
  rw [hclosed, releaseAll_eq_some (hfds.nodup_iff.mpr hi.distinct) hfds.subset, hnone]

/-! ## The requests -/

section Requests

variable {cfg : Config} {max_concurrency : ℕ} {calls : List GetCall} {s s' : Serving}

/-- A step of the server keeps the slots. -/
theorem Serving.kept_step {a : ℕ × Act} (hk : s.pool.Kept)
    (h : s.step cfg max_concurrency calls a = some s') : s'.pool.Kept := by
  cases step_cases h with
  | move _ _ hstep => exact hk.step hstep
  | _ => exact hk

/-- When no request is running, a slot is held exactly if an exception has left its request. -/
theorem Serving.Inv.mem_held_iff (hi : s.Inv cfg max_concurrency calls)
    (hover : ∀ i, i < calls.length → (s.work i).isActive = false) {x : ℕ} :
    x ∈ s.pool.held ↔ ∃ (i : ℕ) (q : GetCall), calls[i]? = some q ∧
      s.pool.threads[i]? = some (.holding x) ∧
      ∀ slot, (q.handle cfg slot).1.isReturned = false := by
  constructor
  · intro hx
    obtain ⟨ph, hmem, hslot⟩ := List.mem_filterMap.mp hx
    obtain ⟨i, hph⟩ := List.mem_iff_getElem?.mp hmem
    have hlt : i < calls.length := hi.length ▸ (List.getElem?_eq_some_iff.mp hph).1
    have hq : calls[i]? = some calls[i] := List.getElem?_eq_getElem hlt
    obtain ⟨ph', hph', halone⟩ := hi.alone i _ hq
    obtain rfl := Option.some.inj (hph.symm.trans hph')
    have hidle := hover i hlt
    cases ph with
    | holding y =>
      obtain rfl := Option.some.inj hslot
      refine ⟨i, _, hq, hph, fun slot => ?_⟩
      cases hw : s.work i with
      | running p =>
        rw [hw] at hidle
        cases hidle
      | done r =>
        rw [hw] at halone
        exact halone.2 slot ▸ halone.1
      | _ =>
        rw [hw] at halone
        exact halone.elim
    | _ => cases hslot
  · rintro ⟨i, q, -, hph, -⟩
    exact List.mem_filterMap.mpr ⟨_, List.mem_of_getElem? hph, rfl⟩

/-- The destructor gives back what the server has, once: after any calls of `get_fd` and any
requests, in every interleaving, it closes every open descriptor and no other, and it gives back the
registrations and the channels of all slots but those whose request an exception has left. What is
left is all that those slots have, and the memory of every slot. -/
theorem teardown_exact (hmax : max_concurrency < 2^32) (mem : ℕ → Staging) {as : List (ℕ × Act)}
    (hrun : runSteps (Serving.step cfg max_concurrency calls) as (.initial calls.length mem) =
      some s) (hover : ∀ i, i < calls.length → (s.work i).isActive = false)
    {n : ℕ} {moves : List (ℕ × FdMove)} {c : FdCache}
    (hfds : runSteps FdCache.step moves (.initial n) = some c)
    {entries : List (Bytes × CachedFd)} (hperm : entries.Perm c.cache) :
    ∃ left, teardown entries c.opened s.pool = some ([], left) ∧ left.Nodup ∧
      ∀ r, r ∈ left ↔ r ∈ (List.range s.pool.created).flatMap createSlot ∧
        (r.isHost = true ∨ ∃ (i : ℕ) (q : GetCall), calls[i]? = some q ∧
          s.pool.threads[i]? = some (.holding r.slot) ∧
          ∀ slot, (q.handle cfg slot).1.isReturned = false) := by
  have hi : s.Inv cfg max_concurrency calls :=
    runSteps_invariant (fun _ _ _ hi h => hi.change hmax (Serving.step_cases h))
      (Serving.inv_initial cfg max_concurrency calls mem) hrun
  have hk : s.pool.Kept :=
    runSteps_invariant (I := fun s : Serving => s.pool.Kept)
      (fun _ _ _ hk h => Serving.kept_step hk h) (Pool.kept_initial calls.length) hrun
  have hv : c.Valid :=
    runSteps_invariant (fun _ _ _ hv h => FdCache.Valid.step hv h)
      (fun fd hfd => absurd hfd List.not_mem_nil) hfds
  obtain ⟨left, hleft, hnodup, hmem⟩ := hk.release
  refine ⟨left, ?_, hnodup, fun r => ?_⟩
  · simp only [teardown, (FdCache.Inv.of_run hfds).release hv hperm, hleft]
    rfl
  · rw [hmem r, hi.mem_held_iff hover]

end Requests

/-- Two requests: an exception leaves the first, and the second returns. -/
def oneLost : List (ℕ × Act) :=
  [(0, .start), (0, .move .acquire), (1, .start), (0, .move .created), (0, .access),
    (1, .move .acquire), (0, .unwind), (1, .move .created), (1, .access), (1, .access),
    (1, .access), (1, .access), (1, .access), (1, .move .release), (1, .move (.notify none))]

/-- The channel of the slot that was lost is left, and that of the other slot is given back. -/
theorem teardown_exact_one_lost :
    ∃ s c left, runSteps (Serving.step ⟨2, false⟩ 2 [threadlessCall, threeBytesCall]) oneLost
        (.initial 2 fun _ _ _ => 7) = some s ∧
      runSteps FdCache.step racingMoves (.initial 3) = some c ∧ c.opened = [7] ∧
      teardown c.cache c.opened s.pool = some ([], left) ∧
      .channel 0 ∈ left ∧ .channel 1 ∉ left := by
  have hend : (runSteps (Serving.step ⟨2, false⟩ 2 [threadlessCall, threeBytesCall]) oneLost
      (.initial 2 fun _ _ _ => 7)).map
        (fun s => (s.pool, (List.range 2).map fun i => (s.work i).isActive)) =
      some (⟨[1], 2, 2, [.holding 0, .idle]⟩, [false, false]) := by decide +kernel
  have hfds : (runSteps FdCache.step racingMoves (.initial 3)).map FdCache.opened = some [7] := rfl
  obtain ⟨s, hrun, hs⟩ := Option.map_eq_some_iff.mp hend
  obtain ⟨c, hc, hopened⟩ := Option.map_eq_some_iff.mp hfds
  obtain ⟨hpool, hidle⟩ := Prod.mk.inj hs
  have hover : ∀ i, i < 2 → (s.work i).isActive = false := by
    intro i hi
    have hin := List.mem_map_of_mem (f := fun i => (s.work i).isActive) (List.mem_range.mpr hi)
    rw [hidle] at hin
    simpa using hin
  obtain ⟨left, hleft, -, hmem⟩ :=
    teardown_exact (by decide) _ hrun hover hc (List.Perm.refl _)
  refine ⟨s, c, left, hrun, hc, hopened, hleft, (hmem _).mpr ?_, fun h => ?_⟩
  · rw [hpool]
    refine ⟨by decide, .inr ⟨0, _, rfl, rfl, fun slot => ?_⟩⟩
    rw [GetCall.handle_indep _ _ slot fun _ _ => 0]
    decide +kernel
  · obtain ⟨-, hhost | ⟨i, q, -, hph, -⟩⟩ := (hmem _).mp h
    · cases hhost
    · rw [hpool] at hph
      have hin := List.mem_of_getElem? hph
      revert hin
      decide

end S3Rdma.Server
