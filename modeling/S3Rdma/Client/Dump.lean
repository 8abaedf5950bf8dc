import Mathlib.Data.List.GetD
import S3Rdma.Lib.Bytes

/-!
# The dump of the benchmark client

A run of `src/client/main.cpp` with one thread and `--out`: the objects are looked up, every one of
them is fetched once to warm up, then they are fetched in turn until the time is over, all into the
start of one buffer, and at the end the buffer is written to a file.

`get_registered` is given by what it returns and by what it makes of the buffer; in a run that
delivers, it puts the bytes it was asked for at the start of the buffer and leaves the rest, from
the end of the warm-up on (`Delivering`). Then the buffer starts with the bytes of the last GET
(`BufferInv`), which are `min(range_size, size)` of them. The dump takes `size` bytes, so it is
what the last GET delivered exactly if that GET was not cut short by `--range-size`:
`runClient_dump_iff`.
-/

namespace S3Rdma.Client

/-- The arguments that a run depends on. -/
structure Args where
  objects : List Bytes
  out : Bytes := []
  /-- `0` without `--range-size`. -/
  range_size : ℕ := 0

/-- `ObjDesc`. -/
structure ObjDesc where
  key : Bytes := []
  size : ℕ := 0
deriving DecidableEq

/-- `ThreadResult`, without the time. -/
structure ThreadResult where
  total_bytes : ℤ := 0
  iters : ℕ := 0
  ok : Bool := true
deriving DecidableEq

/-- A call of `get_registered`. -/
structure Get where
  size : ℕ
  object : Bytes
  range : Bytes
deriving DecidableEq

/-- What a call returns and leaves in the buffer; the calls of a run are numbered. -/
abbrev Transport := ℕ → Get → Bytes → ℤ × Bytes

/-! ## The program -/

/-- The loop of `discover_objects`; `head` is what `head_size` returns. -/
def discoverLoop (head : Bytes → ℤ) : List Bytes → List ObjDesc → ℕ → Option (List ObjDesc × ℕ)
  | [], objs, max_size => some (objs, max_size)
  | key :: keys, objs, max_size =>
    if head key ≤ 0 then none
    else discoverLoop head keys (objs ++ [⟨key, (head key).toNat⟩]) (max max_size (head key).toNat)

/-- `discover_objects`; `none` when the program exits. -/
def discoverObjects (head : Bytes → ℤ) (keys : List Bytes) : Option (List ObjDesc × ℕ) :=
  discoverLoop head keys [] 0

section Run

variable (transport : Transport) (range_size : ℕ) (objs : List ObjDesc)

/-- The number of bytes that a GET of an object asks for. -/
def xferSize (obj : ObjDesc) : ℕ := if range_size > 0 then min range_size obj.size else obj.size

/-- The GET of an object. -/
def getOf (obj : ObjDesc) : Get where
  size := xferSize range_size obj
  object := obj.key
  range :=
    if range_size > 0 then ascii "bytes=0-" ++ decimal (xferSize range_size obj - 1) else []

/-- The warm-up: one GET for each object, whatever it returns. -/
def warmUp : List ObjDesc → ℕ → Bytes → Bytes
  | [], _, buf => buf
  | obj :: objs, call, buf => warmUp objs (call + 1) (transport call (getOf range_size obj) buf).2

/-- The object of an iteration. -/
def objAt (iter : ℕ) : ObjDesc := objs.getD (iter % objs.length) {}

/-- The worker's loop, in which `stop` is read as false `n` more times. The call numbers go on after
the warm-up. -/
def worker : ℕ → ℕ → ThreadResult → Bytes → ThreadResult × Bytes
  | 0, _, r, buf => (r, buf)
  | n + 1, iter, r, buf =>
    let got := transport (objs.length + iter) (getOf range_size (objAt objs iter)) buf
    if got.1 < 0 then ({ r with ok := false }, got.2)
    else worker n (iter + 1) { r with total_bytes := r.total_bytes + got.1, iters := iter + 1 } got.2

end Run

/-- The optional dump. -/
def dump (args : Args) (objs : List ObjDesc) (r : ThreadResult) (buf : Bytes) : Option Bytes :=
  if args.out ≠ [] ∧ r.total_bytes > 0 then
    -- `to_host(last_obj.size)`
    some (buf.take (objAt objs (r.iters - 1)).size)
  else none

/-- `main` with one thread, from the arguments on: the exit status and what is written to `--out`.
`fresh n` is the contents of a new buffer of `n` bytes, and `iterations` the number of times that
the worker has not been told to stop. -/
def runClient (head : Bytes → ℤ) (transport : Transport) (fresh : ℕ → Bytes) (args : Args)
    (iterations : ℕ) : ℕ × Option Bytes :=
  match discoverObjects head args.objects with
  | none => (1, none)
  | some (objs, max_size) =>
    let buf := warmUp transport args.range_size objs 0 (fresh max_size)
    let done := worker transport args.range_size objs iterations 0 {} buf
    if !done.1.ok then (1, none) else (0, dump args objs done.1 done.2)

/-! ## The requests of a run -/

/-- A request that the program makes. -/
inductive Sent where
  | head (key : Bytes)
  | get (g : Get)
deriving DecidableEq

/-- The HEADs of `discover_objects`, which ends with the first that gives no size. -/
def sentHeads (head : Bytes → ℤ) : List Bytes → List Sent
  | [] => []
  | key :: keys => .head key :: if head key ≤ 0 then [] else sentHeads head keys

/-- The GETs of the worker's loop, in which `stop` is read as false `n` more times. -/
def sentByWorker (transport : Transport) (range_size : ℕ) (objs : List ObjDesc) :
    ℕ → ℕ → Bytes → List Sent
  | 0, _, _ => []
  | n + 1, iter, buf =>
    let got := transport (objs.length + iter) (getOf range_size (objAt objs iter)) buf
    .get (getOf range_size (objAt objs iter)) ::
      if got.1 < 0 then [] else sentByWorker transport range_size objs n (iter + 1) got.2

/-- The requests of `runClient`, in their order. -/
def sentByClient (head : Bytes → ℤ) (transport : Transport) (fresh : ℕ → Bytes) (args : Args)
    (iterations : ℕ) : List Sent :=
  sentHeads head args.objects ++
    match discoverObjects head args.objects with
    | none => []
    | some (objs, max_size) =>
      objs.map (fun obj => .get (getOf args.range_size obj)) ++
        sentByWorker transport args.range_size objs iterations 0
          (warmUp transport args.range_size objs 0 (fresh max_size))

/-! ## A run that delivers -/

/-- Every HEAD gives the size of its object, every GET from the `first` on delivers what it asks for
to the start of the buffer, the GETs before it leave the length of the buffer, and a new buffer has
the size that was asked for. -/
structure Delivering (content : Bytes → Bytes) (head : Bytes → ℤ) (transport : Transport)
    (fresh : ℕ → Bytes) (first : ℕ) : Prop where
  head : ∀ key, head key = (content key).length
  warm : ∀ call, call < first → ∀ g buf, (transport call g buf).2.length = buf.length
  get : ∀ call, first ≤ call → ∀ g buf, transport call g buf =
    ((g.size : ℤ), (content g.object).take g.size ++ buf.drop g.size)
  fresh : ∀ n, (fresh n).length = n

/-- The description of an object with a content. -/
def describe (content : Bytes → Bytes) (key : Bytes) : ObjDesc := ⟨key, (content key).length⟩

/-- The key of the last GET of a run. -/
def Args.lastKey (args : Args) (iterations : ℕ) : Bytes :=
  args.objects.getD ((iterations - 1) % args.objects.length) []

/-- The bytes that the GET of an object delivers. -/
def delivered (content : Bytes → Bytes) (range_size : ℕ) (key : Bytes) : Bytes :=
  (content key).take (xferSize range_size (describe content key))

section Delivering

variable {content : Bytes → Bytes} {head : Bytes → ℤ} {transport : Transport} {fresh : ℕ → Bytes}

/-- The loop appends the descriptions, and its maximum bounds their sizes. -/
theorem discoverLoop_eq (hhead : ∀ key, head key = (content key).length) {keys : List Bytes}
    (hpos : ∀ key ∈ keys, content key ≠ []) (objs : List ObjDesc) (max_size : ℕ) :
    ∃ m, discoverLoop head keys objs max_size = some (objs ++ keys.map (describe content), m) ∧
      max_size ≤ m ∧ ∀ key ∈ keys, (content key).length ≤ m := by
  induction keys generalizing objs max_size with
  | nil => exact ⟨max_size, by simp [discoverLoop], le_rfl, by simp⟩
  | cons key keys ih =>
    have hlen : 0 < (content key).length :=
      List.length_pos_iff.mpr (hpos key List.mem_cons_self)
    obtain ⟨m, hm, hle, hall⟩ := ih (fun k hk => hpos k (List.mem_cons_of_mem _ hk))
      (objs ++ [describe content key]) (max max_size (content key).length)
    refine ⟨m, ?_, (le_max_left _ _).trans hle, ?_⟩
    · rw [discoverLoop, hhead key, if_neg (by omega), Int.toNat_natCast, List.map_cons,
        List.append_cons objs (describe content key)]
      exact hm
    · intro k hk
      rcases List.mem_cons.mp hk with rfl | hk
      · exact (le_max_right _ _).trans hle
      · exact hall k hk

/-- A GET asks for no more than its object has. -/
theorem xferSize_le (range_size : ℕ) (obj : ObjDesc) : xferSize range_size obj ≤ obj.size := by
  unfold xferSize
  split_ifs <;> omega

/-- The GET of an iteration is one of the objects. -/
theorem objAt_mem {objs : List ObjDesc} (h : objs ≠ []) (iter : ℕ) : objAt objs iter ∈ objs := by
  have hlt : iter % objs.length < objs.length := Nat.mod_lt _ (List.length_pos_iff.mpr h)
  unfold objAt
  rw [List.getD_eq_getElem _ _ hlt]
  exact List.getElem_mem hlt

/-- The iteration of a list of keys fetches the key at the index modulo their number. -/
theorem objAt_map (keys : List Bytes) (hne : keys ≠ []) (iter : ℕ) :
    objAt (keys.map (describe content)) iter =
      describe content (keys.getD (iter % keys.length) []) := by
  have hlt : iter % keys.length < keys.length := Nat.mod_lt _ (List.length_pos_iff.mpr hne)
  unfold objAt
  rw [List.length_map, List.getD_eq_getElem _ _ (by simpa using hlt),
    List.getD_eq_getElem _ _ hlt, List.getElem_map]

/-- A GET that fits leaves the buffer's length. -/
theorem length_get {xs buf : Bytes} {n : ℕ} (hxs : n ≤ xs.length) (hbuf : n ≤ buf.length) :
    (xs.take n ++ buf.drop n).length = buf.length := by
  simp
  omega

/-- If its GETs leave the length of the buffer, the warm-up does, whatever they return. -/
theorem length_warmUp {range_size call : ℕ} {objs : List ObjDesc}
    (hlength : ∀ c, c < call + objs.length → ∀ g buf, (transport c g buf).2.length = buf.length)
    (buf : Bytes) : (warmUp transport range_size objs call buf).length = buf.length := by
  induction objs generalizing buf call with
  | nil => rfl
  | cons obj objs ih =>
    rw [List.length_cons] at hlength
    rw [warmUp, ih fun c hc => hlength c (by omega), hlength call (by omega)]

/-- After `iter` iterations nothing has failed, the buffer has its length and, once there was a GET,
it starts with what the last one has delivered. -/
structure BufferInv (content : Bytes → Bytes) (range_size : ℕ) (objs : List ObjDesc) (size iter : ℕ)
    (r : ThreadResult) (buf : Bytes) : Prop where
  ok : r.ok = true
  iters : r.iters = iter
  length : buf.length = size
  bytes : 0 ≤ r.total_bytes ∧ (0 < iter → 0 < r.total_bytes)
  last : 0 < iter → buf.take (xferSize range_size (objAt objs (iter - 1))) =
    (content (objAt objs (iter - 1)).key).take (xferSize range_size (objAt objs (iter - 1)))

/-- The worker keeps `BufferInv`. -/
theorem worker_inv {first : ℕ} (hd : Delivering content head transport fresh first)
    {range_size size : ℕ} {objs : List ObjDesc} (hfirst : first ≤ objs.length) (hne : objs ≠ [])
    (hobjs : ∀ obj ∈ objs, 0 < obj.size ∧ obj.size = (content obj.key).length ∧ obj.size ≤ size)
    (n : ℕ) {iter : ℕ} {r : ThreadResult} {buf : Bytes}
    (h : BufferInv content range_size objs size iter r buf) :
    BufferInv content range_size objs size (iter + n)
      (worker transport range_size objs n iter r buf).1
      (worker transport range_size objs n iter r buf).2 := by
  induction n generalizing iter r buf with
  | zero => exact h
  | succ n ih =>
    -- One iteration: its GET fits in the buffer and overwrites the beginning of it.
    obtain ⟨hpos, hsize, hfits⟩ := hobjs _ (objAt_mem hne iter)
    have hxfer := xferSize_le range_size (objAt objs iter)
    have hxfer_pos : 0 < xferSize range_size (objAt objs iter) := by
      unfold xferSize
      split_ifs <;> omega
    have hget := hd.get (objs.length + iter) (hfirst.trans (Nat.le_add_right _ _))
      (getOf range_size (objAt objs iter)) buf
    have hlength := h.length
    rw [worker, hget, if_neg (by dsimp only; omega), Nat.add_comm n 1, ← Nat.add_assoc]
    refine ih ⟨h.ok, rfl, ?_, ?_, fun _ => ?_⟩
    · exact (length_get (by dsimp only [getOf]; omega) (by dsimp only [getOf]; omega)).trans hlength
    · have hbytes := h.bytes.1
      dsimp only [getOf]
      omega
    · rw [Nat.add_sub_cancel]
      dsimp only [getOf]
      refine List.take_left' ?_
      rw [List.length_take]
      omega

/-- What a run that delivers writes to `--out` is the start of a buffer that starts with the bytes of
the last GET. -/
theorem runClient_eq {args : Args}
    (hd : Delivering content head transport fresh args.objects.length) {iterations : ℕ}
    (hkeys : args.objects ≠ []) (hpos : ∀ key ∈ args.objects, content key ≠ [])
    (hout : args.out ≠ []) (hiter : 1 ≤ iterations) :
    ∃ buf : Bytes, runClient head transport fresh args iterations =
        (0, some (buf.take (content (args.lastKey iterations)).length)) ∧
      (content (args.lastKey iterations)).length ≤ buf.length ∧
      buf.take (xferSize args.range_size (describe content (args.lastKey iterations))) =
        delivered content args.range_size (args.lastKey iterations) := by
  -- The buffer has the size of the largest object; the warm-up keeps its length.
  obtain ⟨m, hdiscover, -, hmax⟩ := discoverLoop_eq hd.head hpos [] 0
  rw [List.nil_append] at hdiscover
  have hne : args.objects.map (describe content) ≠ [] := by simpa using hkeys
  have hobjs : ∀ obj ∈ args.objects.map (describe content),
      0 < obj.size ∧ obj.size = (content obj.key).length ∧ obj.size ≤ m := by
    intro obj hobj
    obtain ⟨key, hkey, rfl⟩ := List.mem_map.mp hobj
    exact ⟨List.length_pos_iff.mpr (hpos key hkey), rfl, hmax key hkey⟩
  have hwarm : (warmUp transport args.range_size (args.objects.map (describe content)) 0
      (fresh m)).length = m :=
    (length_warmUp (fun c hc => hd.warm c (by simpa using hc)) _).trans (hd.fresh m)
  have hinit : BufferInv content args.range_size (args.objects.map (describe content)) m 0 {}
      (warmUp transport args.range_size (args.objects.map (describe content)) 0 (fresh m)) :=
    ⟨rfl, rfl, hwarm, ⟨le_rfl, fun h => absurd h (lt_irrefl 0)⟩, fun h => absurd h (lt_irrefl 0)⟩
  -- After the loop it starts with what the last GET delivered.
  have hinv := worker_inv hd (by simp) hne hobjs iterations hinit
  rw [Nat.zero_add] at hinv
  have hlast := hinv.last (by omega)
  have hmem := hobjs _ (objAt_mem hne (iterations - 1))
  rw [objAt_map _ hkeys] at hlast hmem
  refine ⟨_, ?_, ?_, hlast⟩
  · unfold runClient discoverObjects
    rw [hdiscover]
    dsimp only
    rw [hinv.ok, Bool.not_true, if_neg (by decide), dump,
      if_pos ⟨hout, hinv.bytes.2 (by omega)⟩, hinv.iters, objAt_map _ hkeys]
    rfl
  · rw [hinv.length]
    exact hmem.2.2

end Delivering

/-- The file that `--out` writes is what the last GET delivered exactly if there is no
`--range-size`, or the object of that GET is not larger. -/
theorem runClient_dump_iff (content : Bytes → Bytes) (head : Bytes → ℤ) (transport : Transport)
    (fresh : ℕ → Bytes) (args : Args)
    (hd : Delivering content head transport fresh args.objects.length) (iterations : ℕ)
    (hkeys : args.objects ≠ []) (hpos : ∀ key ∈ args.objects, content key ≠ [])
    (hout : args.out ≠ []) (hiter : 1 ≤ iterations) :
    (runClient head transport fresh args iterations).2 =
        some (delivered content args.range_size (args.lastKey iterations)) ↔
      args.range_size = 0 ∨ (content (args.lastKey iterations)).length ≤ args.range_size := by
  obtain ⟨buf, hrun, hlen, hlast⟩ := runClient_eq hd hkeys hpos hout hiter
  rw [hrun]
  generalize args.lastKey iterations = key at *
  have hxfer : xferSize args.range_size (describe content key) = (content key).length ↔
      args.range_size = 0 ∨ (content key).length ≤ args.range_size := by
    unfold xferSize describe
    dsimp only
    split_ifs <;> omega
  rw [← hxfer, Option.some.injEq]
  constructor
  · -- The two texts have different lengths otherwise.
    intro h
    have hlength := congrArg List.length h
    unfold delivered at hlength
    rw [List.length_take, List.length_take] at hlength
    have hle := xferSize_le args.range_size (describe content key)
    change _ ≤ (content key).length at hle
    omega
  · intro h
    rw [← hlast, h]

/-- Every object has three bytes. -/
def threeBytesContent (_ : Bytes) : Bytes := [5, 6, 7]

/-- A transport that delivers three bytes of every object. -/
def threeBytesTransport : Transport :=
  fun _ g buf => ((g.size : ℤ), (threeBytesContent g.object).take g.size ++ buf.drop g.size)

/-- The object `k` has three bytes, and every other two. -/
def twoSizesContent (key : Bytes) : Bytes := if key = ascii "k" then [5, 6, 7] else [1, 2]

/-- The first two GETs fail, and the others deliver the start of an object as far as it fits. -/
def lateTransport : Transport := fun call g buf =>
  if call < 2 then (-1, buf)
  else ((g.size : ℤ), ((twoSizesContent g.object).take g.size ++ buf.drop g.size))

/-- The objects `k` and `l` in turn with `--range-size 2`, after a warm-up that fails: the dump after
four iterations is what the last GET delivered, since `l` has two bytes, and after three it is not,
since `k` has three. -/
theorem runClient_dump_two_sizes :
    (runClient (fun key => (twoSizesContent key).length) lateTransport (List.replicate · 9)
        { objects := [ascii "k", ascii "l"], out := ascii "dump.bin", range_size := 2 } 4).2 =
      some (delivered twoSizesContent 2 (ascii "l")) ∧
    (runClient (fun key => (twoSizesContent key).length) lateTransport (List.replicate · 9)
        { objects := [ascii "k", ascii "l"], out := ascii "dump.bin", range_size := 2 } 3).2 ≠
      some (delivered twoSizesContent 2 (ascii "k")) := by
  have hd : Delivering twoSizesContent (fun key => (twoSizesContent key).length) lateTransport
      (List.replicate · 9) 2 :=
    { head := fun _ => rfl
      warm := fun call hcall g buf => by simp [lateTransport, hcall]
      get := fun call hcall g buf => if_neg (not_lt.mpr hcall)
      fresh := fun _ => List.length_replicate }
  have hiff := fun n hn => runClient_dump_iff twoSizesContent
    (fun key => (twoSizesContent key).length) lateTransport (List.replicate · 9)
    { objects := [ascii "k", ascii "l"], out := ascii "dump.bin", range_size := 2 } hd n (by decide)
    (by decide) (by decide) hn
  exact ⟨(hiff 4 (by decide)).mpr (by decide), fun h => absurd ((hiff 3 (by decide)).mp h) (by decide)⟩

/-- With `--range-size 2` the dump has a third byte, which is left over from the new buffer. -/
theorem runClient_dump_leftover :
    (runClient (fun _ => 3) threeBytesTransport (List.replicate · 9)
      { objects := [ascii "k"], out := ascii "dump.bin", range_size := 2 } 1).2 = some [5, 6, 9] ∧
      delivered threeBytesContent 2 (ascii "k") = [5, 6] := by
  decide +kernel

end S3Rdma.Client
