import S3Rdma.Lib.Bytes
import S3Rdma.Lib.OrdMap
import S3Rdma.Lib.Runs
import Mathlib.Data.List.Nodup

/-!
# The cache of descriptors

`get_fd` of `src/server/s3_server.cpp`, for any number of threads. It looks a path up under a shared
lock and, if it is not there, once more under an exclusive lock before it opens the file, so a call
is one or two steps and other threads may run between them. `open` gives a descriptor that is not
open, or fails; `fstat` gives a size, or fails, and then the descriptor is closed again.

A step does one of four things (`FdCache.Effect`), and only one of them changes the cache: the
second lookup has failed, and the new descriptor is kept under its path. So the open descriptors are
those of the cache, each under one path (`FdCache.Inv`), and what a call returned for a path is what
the cache holds under it ever after.
-/

namespace S3Rdma.Server

/-- `FdEntry`, an entry of `fd_cache_`. -/
structure CachedFd where
  fd_direct : ℤ
  size : ℕ
deriving DecidableEq

/-- Who calls `get_fd`: the handler of a HEAD, or `handle_get`. -/
inductive Caller where
  | head
  | get
deriving DecidableEq

/-- A call of `get_fd` that has returned. -/
structure FdCall where
  caller : Caller
  path : Bytes
  /-- What the call returned. -/
  ret : ℤ := -1
  /-- What the call assigned to `file_size`, if it did. -/
  file_size : Option ℕ := none
  /-- The descriptor that `open` gave to the call. -/
  opened : Option ℤ := none
  /-- The call has closed that descriptor. -/
  closed : Bool := false
deriving DecidableEq

/-- The call opened a file and kept its descriptor. -/
def FdCall.kept (c : FdCall) : Bool := c.opened.isSome && !c.closed

/-- The cache, the system and the threads. -/
structure FdCache where
  /-- `fd_cache_`. -/
  cache : List (Bytes × CachedFd) := []
  /-- The descriptors that were opened and have not been closed. -/
  opened : List ℤ := []
  /-- For each thread, the call that is between its two lookups. -/
  threads : List (Option (Caller × Bytes))
  /-- The calls that have returned, the last one first. -/
  calls : List FdCall := []
deriving DecidableEq

/-- What a thread does next: the section under the shared lock, or the one under the exclusive lock,
with the outcomes of `open` and of `fstat` in case it gets to them. -/
inductive FdMove where
  | lookup (caller : Caller) (path : Bytes)
  | insert (fd : ℤ) (st_size : Option ℤ)
deriving DecidableEq

/-- Thread `i` returns from its call. -/
def FdCache.finish (s : FdCache) (i : ℕ) (c : FdCall) : FdCache :=
  { s with threads := s.threads.set i none, calls := c :: s.calls }

/-- The path was found. -/
def FdCache.found (s : FdCache) (i : ℕ) (caller : Caller) (path : Bytes) (e : CachedFd) : FdCache :=
  s.finish i { caller, path, ret := e.fd_direct, file_size := some e.size }

/-- The section under the exclusive lock. -/
def FdCache.exclusive (s : FdCache) (i : ℕ) (caller : Caller) (path : Bytes) (fd : ℤ)
    (st_size : Option ℤ) : Option FdCache :=
  match s.cache.lookup path with
  | some e => some (s.found i caller path e)
  | none =>
    if fd < 0 then some (s.finish i { caller, path })
    -- `open` gives no descriptor that is open.
    else if fd ∈ s.opened then none
    else
      let s := { s with opened := fd :: s.opened }
      match st_size with
      | none =>
        some ({ s with opened := s.opened.erase fd }.finish i
          { caller, path, opened := some fd, closed := true })
      | some n =>
        -- `static_cast<uint64_t>(st.st_size)`.
        let entry : CachedFd := { fd_direct := fd, size := (n % 2^64).toNat }
        some ({ s with cache := (path, entry) :: s.cache }.finish i
          { caller, path, ret := fd, file_size := some entry.size, opened := some fd })

/-- One section of `get_fd` by thread `i`, if it is possible. -/
def FdCache.step (s : FdCache) (a : ℕ × FdMove) : Option FdCache :=
  let i := a.1
  match s.threads[i]?, a.2 with
  | some none, .lookup caller path =>
    match s.cache.lookup path with
    | some e => some (s.found i caller path e)
    | none => some { s with threads := s.threads.set i (some (caller, path)) }
  | some (some (caller, path)), .insert fd st_size => s.exclusive i caller path fd st_size
  | _, _ => none

/-- Any number of threads, and nothing in the cache. -/
def FdCache.initial (n : ℕ) : FdCache := { threads := List.replicate n none }

/-! ## What a step does -/

/-- What a step does to the cache, to the open descriptors and to the calls. -/
inductive FdCache.Effect (s s' : FdCache) : Prop where
  /-- The first lookup failed. -/
  | missed (hcache : s'.cache = s.cache) (hopened : s'.opened = s.opened)
      (hcalls : s'.calls = s.calls)
  /-- The path was found by the first or by the second lookup. -/
  | found (c : FdCall) (e : CachedFd) (hcache : s'.cache = s.cache) (hopened : s'.opened = s.opened)
      (hcalls : s'.calls = c :: s.calls) (he : s.cache.lookup c.path = some e)
      (hret : c.ret = e.fd_direct) (hsize : c.file_size = some e.size) (hkept : c.kept = false)
  /-- `open` or `fstat` failed. -/
  | failed (c : FdCall) (hcache : s'.cache = s.cache) (hopened : s'.opened = s.opened)
      (hcalls : s'.calls = c :: s.calls) (hret : c.ret = -1) (hkept : c.kept = false)
  /-- The file was opened, and its descriptor is in the cache. -/
  | kept (c : FdCall) (e : CachedFd) (hcache : s'.cache = (c.path, e) :: s.cache)
      (hopened : s'.opened = e.fd_direct :: s.opened) (hcalls : s'.calls = c :: s.calls)
      (hnone : s.cache.lookup c.path = none) (hnew : e.fd_direct ∉ s.opened)
      (hnonneg : 0 ≤ e.fd_direct) (hret : c.ret = e.fd_direct) (hsize : c.file_size = some e.size)
      (hkept : c.kept = true)

/-- The section under the exclusive lock finds the path, fails, or keeps a new descriptor. -/
theorem FdCache.exclusive_effect {s s' : FdCache} {i : ℕ} {caller : Caller} {path : Bytes} {fd : ℤ}
    {st_size : Option ℤ} (h : s.exclusive i caller path fd st_size = some s') : s.Effect s' := by
  unfold exclusive at h
  split at h
  next e he =>
    obtain rfl := Option.some.inj h
    exact .found { caller, path, ret := e.fd_direct, file_size := some e.size } e rfl rfl rfl he rfl
      rfl rfl
  next hnone =>
    split_ifs at h with hneg hopen
    · obtain rfl := Option.some.inj h
      exact .failed { caller, path } rfl rfl rfl rfl rfl
    · cases st_size with
      | none =>
        -- What `open` gave is closed before the call returns.
        obtain rfl := Option.some.inj h
        exact .failed { caller, path, opened := some fd, closed := true } rfl
          (List.erase_cons_head fd s.opened) rfl rfl rfl
      | some n =>
        obtain rfl := Option.some.inj h
        exact .kept
          { caller, path, ret := fd, file_size := some (n % 2^64).toNat, opened := some fd }
          { fd_direct := fd, size := (n % 2^64).toNat } rfl rfl rfl hnone hopen (not_lt.mp hneg) rfl
          rfl rfl

/-- Each step has one of the four effects. -/
theorem FdCache.step_effect {s s' : FdCache} {a : ℕ × FdMove} (h : s.step a = some s') :
    s.Effect s' := by
  unfold step at h
  dsimp only at h
  split at h
  next caller path _ _ =>
    split at h
    next e he =>
      obtain rfl := Option.some.inj h
      exact .found { caller, path, ret := e.fd_direct, file_size := some e.size } e rfl rfl rfl he
        rfl rfl rfl
    next =>
      obtain rfl := Option.some.inj h
      exact .missed rfl rfl rfl
  next => exact exclusive_effect h
  next => simp at h

/-! ## The invariant -/

/-- How often the descriptor of a path was kept. -/
def FdCache.keptFor (s : FdCache) (path : Bytes) : ℕ :=
  s.calls.countP fun c => c.kept && c.path == path

/-- The open descriptors are those of the cache, and each call that succeeded agrees with it. -/
structure FdCache.Inv (s : FdCache) : Prop where
  /-- Each path is in the cache at most once. -/
  paths : (s.cache.map Prod.fst).Nodup
  /-- The open descriptors are those of the cache. -/
  opened : s.opened = s.cache.map fun p => p.2.fd_direct
  /-- No descriptor was given while it was open. -/
  distinct : s.opened.Nodup
  /-- A descriptor was kept for the paths in the cache, once for each. -/
  kept : ∀ path, s.keptFor path = (s.cache.map Prod.fst).count path
  /-- What a call returned is in the cache. -/
  agrees : ∀ c ∈ s.calls, 0 ≤ c.ret →
    ∃ e : CachedFd, s.cache.lookup c.path = some e ∧ c.ret = e.fd_direct ∧
      c.file_size = some e.size

/-- The invariant of the cache holds at the start. -/
theorem FdCache.Inv.initial (n : ℕ) : (FdCache.initial n).Inv where
  paths := List.nodup_nil
  opened := rfl
  distinct := List.nodup_nil
  kept := fun _ => rfl
  agrees := by simp [FdCache.initial]

/-- A call that returns adds to the count of its path if it kept a descriptor. -/
theorem FdCache.keptFor_cons {s s' : FdCache} {c : FdCall} (h : s'.calls = c :: s.calls)
    (path : Bytes) :
    s'.keptFor path = s.keptFor path + if c.kept && c.path == path then 1 else 0 := by
  unfold keptFor
  rw [h, List.countP_cons]

/-- A call that keeps no descriptor preserves it, if what it returned is in the cache. -/
theorem FdCache.Inv.of_call {s s' : FdCache} {c : FdCall} (hi : s.Inv) (hcache : s'.cache = s.cache)
    (hopened : s'.opened = s.opened) (hcalls : s'.calls = c :: s.calls) (hkept : c.kept = false)
    (hagrees : 0 ≤ c.ret → ∃ e : CachedFd, s.cache.lookup c.path = some e ∧ c.ret = e.fd_direct ∧
      c.file_size = some e.size) : s'.Inv := by
  refine ⟨hcache ▸ hi.paths, ?_, hopened ▸ hi.distinct, fun path => ?_, ?_⟩
  · rw [hopened, hcache, hi.opened]
  · rw [keptFor_cons hcalls, hkept, hcache, hi.kept path]
    simp
  · rw [hcalls, hcache]
    exact List.forall_mem_cons.mpr ⟨hagrees, hi.agrees⟩

/-- Each section of `get_fd` keeps the invariant of the cache. -/
theorem FdCache.Inv.step {s s' : FdCache} {a : ℕ × FdMove} (hi : s.Inv)
    (h : s.step a = some s') : s'.Inv := by
  cases step_effect h with
  | missed hcache hopened hcalls =>
    refine ⟨hcache ▸ hi.paths, ?_, hopened ▸ hi.distinct, fun path => ?_, ?_⟩
    · rw [hopened, hcache, hi.opened]
    · rw [keptFor, hcalls, hcache]
      exact hi.kept path
    · rw [hcalls, hcache]
      exact hi.agrees
  | found c e hcache hopened hcalls he hret hsize hkept =>
    exact hi.of_call hcache hopened hcalls hkept fun _ => ⟨e, he, hret, hsize⟩
  | failed c hcache hopened hcalls hret hkept =>
    refine hi.of_call hcache hopened hcalls hkept fun hnonneg => ?_
    omega
  | kept c e hcache hopened hcalls hnone hnew _ hret hsize hkept =>
    -- The path is new to the cache, and the descriptor to the open ones.
    have hpath : c.path ∉ s.cache.map Prod.fst := by
      intro hmem
      obtain ⟨p, hp, heq⟩ := List.mem_map.mp hmem
      have hne := List.lookup_eq_none_iff.mp hnone p hp
      simp [heq] at hne
    refine ⟨?_, ?_, ?_, fun path => ?_, ?_⟩
    · rw [hcache, List.map_cons]
      exact List.nodup_cons.mpr ⟨hpath, hi.paths⟩
    · rw [hopened, hcache, List.map_cons, hi.opened]
    · rw [hopened]
      exact List.nodup_cons.mpr ⟨hnew, hi.distinct⟩
    · rw [keptFor_cons hcalls, hkept, hcache, List.map_cons, List.count_cons, hi.kept path,
        Bool.true_and]
    · rw [hcalls, hcache]
      refine List.forall_mem_cons.mpr ⟨fun _ => ⟨e, List.lookup_cons_self, hret, hsize⟩, ?_⟩
      intro c' hc' hnonneg
      obtain ⟨e', he', hret', hsize'⟩ := hi.agrees c' hc' hnonneg
      -- A path that was there is another one.
      have hne : c'.path ≠ c.path := by
        intro heq
        rw [heq, hnone] at he'
        simp at he'
      exact ⟨e', (OrdMap.lookup_cons_of_ne hne s.cache).trans he', hret', hsize'⟩

/-- The invariant of the cache holds in every reachable state. -/
theorem FdCache.Inv.of_run {n : ℕ} {moves : List (ℕ × FdMove)} {s : FdCache}
    (hrun : runSteps FdCache.step moves (.initial n) = some s) : s.Inv :=
  runSteps_invariant (fun _ _ _ hi hstep => hi.step hstep) (.initial n) hrun

/-- An open descriptor stands under exactly one path of the cache. -/
theorem FdCache.Inv.existsUnique_path {s : FdCache} (hi : s.Inv) {fd : ℤ} (hfd : fd ∈ s.opened) :
    ∃! path, ∃ e : CachedFd, (path, e) ∈ s.cache ∧ e.fd_direct = fd := by
  have hdistinct := hi.distinct
  rw [hi.opened] at hfd hdistinct
  obtain ⟨p, hp, rfl⟩ := List.mem_map.mp hfd
  refine ⟨p.1, ⟨p.2, hp, rfl⟩, ?_⟩
  rintro path ⟨e, he, hfd⟩
  have heq := List.inj_on_of_nodup_map hdistinct he hp hfd
  rw [← heq]

/-- In every interleaving of calls of `get_fd`: the descriptor of a path is kept at most once, all
calls for a path that succeed return the same descriptor and the same size, and the open descriptors
are those of the cache, each under exactly one path. -/
theorem getFd_consistent (n : ℕ) (moves : List (ℕ × FdMove)) (s : FdCache)
    (hrun : runSteps FdCache.step moves (.initial n) = some s) :
    (∀ path, s.keptFor path ≤ 1) ∧
    (∀ c ∈ s.calls, ∀ c' ∈ s.calls, c.path = c'.path → 0 ≤ c.ret → 0 ≤ c'.ret →
      c.ret = c'.ret ∧ c.file_size.isSome ∧ c.file_size = c'.file_size) ∧
    (s.cache.map Prod.fst).Nodup ∧
    (∀ fd ∈ s.opened, ∃! path, ∃ e : CachedFd, (path, e) ∈ s.cache ∧ e.fd_direct = fd) ∧
    (∀ p ∈ s.cache, p.2.fd_direct ∈ s.opened) := by
  have hi := FdCache.Inv.of_run hrun
  refine ⟨fun path => ?_, ?_, hi.paths, fun fd hfd => hi.existsUnique_path hfd, fun p hp => ?_⟩
  · rw [hi.kept path]
    exact List.nodup_iff_count_le_one.mp hi.paths path
  · intro c hc c' hc' hpath hok hok'
    obtain ⟨e, he, hret, hsize⟩ := hi.agrees c hc hok
    obtain ⟨e', he', hret', hsize'⟩ := hi.agrees c' hc' hok'
    obtain rfl : e = e' := by
      rw [hpath, he'] at he
      exact (Option.some.inj he).symm
    refine ⟨hret.trans hret'.symm, ?_, hsize.trans hsize'.symm⟩
    rw [hsize]
    rfl
  · rw [hi.opened]
    exact List.mem_map_of_mem hp

/-- Two threads miss the same path. The first opens it after a failed `fstat` of a third thread has
given its descriptor back, and the others find what the first has put there. -/
def racingMoves : List (ℕ × FdMove) :=
  [(0, .lookup .head (ascii "d/b/o")), (1, .lookup .get (ascii "d/b/o")),
    (2, .lookup .get (ascii "d/b/p")), (2, .insert 7 none), (0, .insert 7 (some 42)),
    (1, .insert 8 (some 43)), (2, .lookup .get (ascii "d/b/o"))]

/-- The racing calls are a run of the cache, and agree on the descriptor. -/
theorem getFd_consistent_racing :
    ∃ s : FdCache, runSteps FdCache.step racingMoves (.initial 3) = some s ∧
      s.calls.map FdCall.ret = [7, 7, 7, -1] ∧ s.opened = [7] ∧ ∀ path, s.keptFor path ≤ 1 := by
  have hrun : (runSteps FdCache.step racingMoves (.initial 3)).map
      (fun s => (s.calls.map FdCall.ret, s.opened)) = some ([7, 7, 7, -1], [7]) := rfl
  obtain ⟨s, hs, heq⟩ := Option.map_eq_some_iff.mp hrun
  obtain ⟨hret, hopened⟩ := Prod.mk.inj heq
  exact ⟨s, hs, hret, hopened, (getFd_consistent 3 racingMoves s hs).1⟩

end S3Rdma.Server
