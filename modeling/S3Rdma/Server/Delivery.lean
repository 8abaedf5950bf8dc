import Mathlib.Algebra.BigOperators.Ring.Finset
import S3Rdma.Server.Deliver

/-!
# What a GET delivers

Through `handleGet_writes` a GET is a run of `Job.deliver`, and this module says what such a run
leaves in the client's memory. The `k`-th piece passes when its write returns a count and the next
piece could be read beside it. `deliver_of_passes` peels off the pieces that pass, so a run is known
by its first piece that does not: if there is none it succeeds (`run_of_passes`), and it succeeds
only then (`passes_of_run`).

The client's memory is read through `landedAt`. The window is shorter than the address space, so
each position of it belongs to one piece only, and it has landed exactly when the write of that
piece got that far (`landedAt_run`).
-/

namespace S3Rdma.Server

/-- The byte that a write put at a remote address. Addresses wrap at `2^64`. -/
def Write.byteAt (w : Write) (addr : ℕ) : Option UInt8 :=
  if sub64 addr w.remote_off < w.landed then w.data[sub64 addr w.remote_off]? else none

/-- The byte at a remote address after some writes, if any of them reached it. -/
def landedAt (ws : List Write) (addr : ℕ) : Option UInt8 :=
  ws.reverse.findSome? fun w => w.byteAt addr

/-- Writes that put the first `n` bytes of a file from `offset` on at `base`: nonempty consecutive
pieces of at most `chunk` bytes that cover `[base, base + n)` once and in order, all of them whole,
with the bytes of the file. -/
structure Delivered (file : File) (offset base n chunk : ℕ) (ws : List Write) : Prop where
  tiles : Tiles base (base + n) (ws.map fun w => (w.remote_off, w.data.length))
  piece_le : ∀ w ∈ ws, w.data.length ≤ chunk
  whole : ∀ w ∈ ws, w.ret = w.data.length ∧ w.landed = w.data.length
  data : ws.flatMap Write.data = file.slice offset n

/-- A search in which only one element can be found finds what is there. -/
theorem findSome?_eq_of_unique {α β : Type*} {f : α → Option β} {l : List α} {q : α}
    (hq : q ∈ l) (h : ∀ k ∈ l, k ≠ q → f k = none) : l.findSome? f = f q := by
  classical
  induction l with
  | nil => simp at hq
  | cons x xs ih =>
    have hxs : ∀ k ∈ xs, k ≠ q → f k = none := fun k hk => h k (List.mem_cons_of_mem _ hk)
    rw [List.findSome?_cons]
    by_cases hx : x = q
    · subst hx
      cases hfx : f x with
      | some b => rfl
      | none =>
        rw [List.findSome?_eq_none_iff]
        intro k hk
        by_cases hkx : k = x
        · rw [hkx, hfx]
        · exact hxs k hk hkx
    · rw [h x List.mem_cons_self hx]
      exact ih ((List.mem_cons.mp hq).resolve_left fun he => hx he.symm) hxs

namespace Job

variable (j : Job)

/-- What the write of the `k`-th piece returns; an exception counts as a failure. -/
def ret (k : ℕ) : ℤ :=
  match j.env.rdma k (j.piece k) with
  | .returned ret _ => ret
  | .throws => -1

/-- How many bytes of the `k`-th piece land. -/
def landed (k : ℕ) : ℕ :=
  match j.env.rdma k (j.piece k) with
  | .returned _ landed => landed
  | .throws => 0

/-- The write of the `k`-th piece, with its outcome. -/
def writeAt (k : ℕ) : Write := j.write k (j.ret k) (j.landed k)

/-- The `k`-th piece is written, and the next one, if there is one, is read beside it. -/
def Passes (k : ℕ) : Prop :=
  0 ≤ j.ret k ∧ (k + 1 < j.count → j.env.spawns k = true ∧ j.readOk (k + 1) = true)

variable {j}

/-- A piece that passes is followed by the rest. -/
theorem deliver_step {n k : ℕ} (hn : k + (n + 1) = j.count) (total : ℤ) (h : j.Passes k) :
    j.deliver (n + 1) k total =
      ((j.deliver n (k + 1) (total + j.ret k)).1,
        j.writeAt k :: (j.deliver n (k + 1) (total + j.ret k)).2) := by
  obtain ⟨hret, hnext⟩ := h
  have hspawn : ¬ (n ≠ 0 ∧ j.env.spawns k = false) := by
    rintro ⟨h0, hs⟩
    rw [(hnext (by omega)).1] at hs
    exact Bool.noConfusion hs
  have hread : ¬ (n ≠ 0 ∧ j.readOk (k + 1) = false) := by
    rintro ⟨h0, hs⟩
    rw [(hnext (by omega)).2] at hs
    exact Bool.noConfusion hs
  rw [deliver, if_neg hspawn]
  unfold writeAt ret landed at *
  cases hrd : j.env.rdma k (j.piece k) with
  | throws => simp [hrd] at hret
  | returned r l =>
    simp only [hrd] at hret ⊢
    rw [if_neg (by omega), if_neg hread]

/-- A piece that does not pass ends the transfer without a count. -/
theorem deliver_stop {n k : ℕ} (hn : k + (n + 1) = j.count) (total : ℤ) (h : ¬ j.Passes k)
    (status : ℕ) (m : ℤ) : (j.deliver (n + 1) k total).1 ≠ .returned status (some m) := by
  intro heq
  apply h
  rw [deliver] at heq
  by_cases hspawn : n ≠ 0 ∧ j.env.spawns k = false
  · simp [hspawn] at heq
  · rw [if_neg hspawn] at heq
    unfold Passes ret
    cases hrd : j.env.rdma k (j.piece k) with
    | throws =>
      simp only [hrd] at heq
      split_ifs at heq
    | returned r l =>
      simp only [hrd] at heq ⊢
      by_cases hneg : r < 0
      · simp [hneg] at heq
      · by_cases hread : n ≠ 0 ∧ j.readOk (k + 1) = false
        · simp [hneg, hread] at heq
        · refine ⟨by omega, fun hk => ?_⟩
          have h0 : n ≠ 0 := by omega
          exact ⟨by simpa [h0] using hspawn, by simpa [h0] using hread⟩

/-- A write that returns a failure ends the transfer. -/
theorem deliver_fail {n k : ℕ} (hspawn : j.env.spawns k = true) {ret : ℤ} {landed : ℕ}
    (hrd : j.env.rdma k (j.piece k) = .returned ret landed) (hret : ret < 0) (total : ℤ) :
    j.deliver (n + 1) k total = (.returned 500 none, [j.write k ret landed]) := by
  rw [deliver, if_neg (by simp [hspawn]), hrd]
  dsimp only
  rw [if_pos hret]

/-- When the first `f` pieces pass, they are written and the rest follows. -/
theorem deliver_of_passes {f n : ℕ} (hn : f + n = j.count) (h : ∀ k, k < f → j.Passes k) :
    j.deliver j.count 0 0 =
      ((j.deliver n f (∑ k ∈ Finset.range f, j.ret k)).1,
        (List.range f).map j.writeAt ++ (j.deliver n f (∑ k ∈ Finset.range f, j.ret k)).2) := by
  induction f generalizing n with
  | zero =>
    have hcount : n = j.count := by omega
    simp [hcount]
  | succ f ih =>
    rw [ih (n := n + 1) (by omega) fun k hk => h k (by omega),
      deliver_step (by omega) _ (h f (Nat.lt_succ_self f)), Finset.sum_range_succ, List.range_succ]
    simp

/-- A transfer all of whose pieces pass succeeds, and reports the sum of what was returned. -/
theorem run_of_passes (h0 : j.readOk 0 = true) (h : ∀ k, k < j.count → j.Passes k) :
    j.run = (.returned j.status (some (∑ k ∈ Finset.range j.count, j.ret k)),
      (List.range j.count).map j.writeAt) := by
  have hd := deliver_of_passes (j := j) (n := 0) (by omega) h
  unfold run
  rw [h0, if_neg (by simp), hd]
  simp [deliver]

/-- A transfer reports a count only if all its pieces pass. -/
theorem passes_of_run {status : ℕ} {m : ℤ} (h : j.run.1 = .returned status (some m)) :
    j.readOk 0 = true ∧ ∀ k, k < j.count → j.Passes k := by
  unfold run at h
  split_ifs at h with h0
  · simp at h
  · refine ⟨by simpa using h0, ?_⟩
    by_contra hex
    push Not at hex
    classical
    -- The first piece that does not pass ends the transfer.
    obtain ⟨hlt, hnot⟩ := Nat.find_spec hex
    have hbefore : ∀ k, k < Nat.find hex → j.Passes k := by
      intro k hk
      by_contra hk'
      exact Nat.find_min hex hk ⟨by omega, hk'⟩
    generalize Nat.find hex = f at hlt hnot hbefore
    have hn : f + (j.count - (f + 1) + 1) = j.count := by omega
    rw [deliver_of_passes hn hbefore] at h
    exact deliver_stop hn _ hnot _ _ h

/-! ## The client's memory -/

/-- Where in the `k`-th write the `p`-th byte of the window would be. -/
theorem sub64_remote {k p : ℕ} (hk : k * j.cfg.chunk_size < j.length) (hp : p < j.length) :
    sub64 ((j.remote_base + p) % 2^64) ((j.remote_base + k * j.cfg.chunk_size) % 2^64) =
      if k * j.cfg.chunk_size ≤ p then p - k * j.cfg.chunk_size
      else 2^64 - (k * j.cfg.chunk_size - p) := by
  have hw := j.window_lt
  have hb := j.base_lt
  unfold sub64
  split_ifs <;> omega

/-- The `k`-th write reaches the positions of the window from its start as far as it landed. -/
theorem byteAt_writeAt {k p : ℕ} (hk : k < j.count) (hp : p < j.length)
    (hl : j.landed k ≤ j.piece k) :
    (j.writeAt k).byteAt ((j.remote_base + p) % 2^64) =
      if k * j.cfg.chunk_size ≤ p ∧ p < k * j.cfg.chunk_size + j.landed k then
        (j.file.slice j.offset j.length)[p]?
      else none := by
  have hk' := (lt_pieceCount_iff j.chunk_pos).mp hk
  have hpc := piece_le hk'
  have hw := j.window_lt
  have hsub := sub64_remote hk' hp
  unfold Write.byteAt writeAt write
  dsimp only
  rw [hsub]
  by_cases hle : k * j.cfg.chunk_size ≤ p
  · rw [if_pos hle]
    by_cases hin : p < k * j.cfg.chunk_size + j.landed k
    · rw [if_pos (by omega), if_pos ⟨hle, hin⟩, File.slice_getElem? (by omega),
        File.slice_getElem? hp]
      congr 1
      omega
    · rw [if_neg (by omega), if_neg (by omega)]
  · rw [if_neg hle, if_neg (by omega), if_neg (by omega)]

/-- After all writes, a position of the window has landed exactly when the write of its piece got
that far. -/
theorem landedAt_run (hl : ∀ k, k < j.count → j.landed k ≤ j.piece k) {p : ℕ}
    (hp : p < j.length) :
    landedAt ((List.range j.count).map j.writeAt) ((j.remote_base + p) % 2^64) =
      if p % j.cfg.chunk_size < j.landed (p / j.cfg.chunk_size) then
        (j.file.slice j.offset j.length)[p]?
      else none := by
  have hc := j.chunk_pos
  have hpq := Nat.div_add_mod p j.cfg.chunk_size
  have hd := Nat.mod_lt p hc
  rw [Nat.mul_comm] at hpq
  have hq : p / j.cfg.chunk_size < j.count := (lt_pieceCount_iff hc).mpr (by omega)
  -- No other piece reaches this position.
  have hother : ∀ k, k < j.count → k ≠ p / j.cfg.chunk_size →
      (j.writeAt k).byteAt ((j.remote_base + p) % 2^64) = none := by
    intro k hk hne
    rw [byteAt_writeAt hk hp (hl k hk), if_neg]
    rintro ⟨hle, hlt⟩
    apply hne
    have hpk := piece_le ((lt_pieceCount_iff hc).mp hk)
    have hlk := hl k hk
    exact (Nat.div_eq_of_lt_le hle (by rw [Nat.succ_mul]; omega)).symm
  have hmem : p / j.cfg.chunk_size ∈ (List.range j.count).reverse := by simpa using hq
  unfold landedAt
  rw [← List.map_reverse, List.findSome?_map, findSome?_eq_of_unique hmem]
  · have hin : p / j.cfg.chunk_size * j.cfg.chunk_size ≤ p ∧
        p < p / j.cfg.chunk_size * j.cfg.chunk_size + j.landed (p / j.cfg.chunk_size) ↔
        p % j.cfg.chunk_size < j.landed (p / j.cfg.chunk_size) := by omega
    rw [Function.comp_apply, byteAt_writeAt hq hp (hl _ hq)]
    simp only [hin]
  · intro k hk hne
    rw [Function.comp_apply]
    exact hother k (by simpa using hk) hne

/-- A write that lands as a whole is the write of its piece. -/
theorem writeAt_whole {k : ℕ}
    (h : j.env.rdma k (j.piece k) = .returned (j.piece k) (j.piece k)) :
    j.writeAt k = j.write k (j.piece k) (j.piece k) := by
  simp [writeAt, ret, landed, h]

/-- The first pieces, when their writes are whole, are a tiling of the beginning of the client's
memory with the beginning of the window. -/
theorem delivered_of_whole (hfile : j.offset + j.length ≤ j.file.bytes.length)
    (htop : j.remote_base + j.length ≤ 2^64) {f : ℕ} (hf : f ≤ j.count)
    (h : ∀ k, k < f → j.env.rdma k (j.piece k) = .returned (j.piece k) (j.piece k)) :
    Delivered j.file j.offset j.remote_base (min (f * j.cfg.chunk_size) j.length)
      j.cfg.chunk_size ((List.range f).map j.writeAt) := by
  have hstart : ∀ k, k < f → k * j.cfg.chunk_size < j.length := fun k hk =>
    (lt_pieceCount_iff j.chunk_pos).mp (Nat.lt_of_lt_of_le hk hf)
  have hlen : ∀ k, k < f → (j.writeAt k).data.length = j.piece k := by
    intro k hk
    have hp := piece_le (hstart k hk)
    exact File.slice_length (by omega)
  -- The clauses of `Delivered`: the tiling, the bound on a write, that it is whole, and the bytes.
  refine ⟨?_, ?_, ?_, ?_⟩
  · have ht := pieces_tile j.chunk_pos j.remote_base hf
    rw [List.map_map]
    refine (List.map_congr_left fun k hk => ?_) ▸ ht
    have hk' := List.mem_range.mp hk
    have hs := hstart k hk'
    have hoff : (j.writeAt k).remote_off = j.remote_base + k * j.cfg.chunk_size :=
      Nat.mod_eq_of_lt (by omega)
    rw [Function.comp_apply, hoff, hlen k hk']
    rfl
  · intro w hw
    obtain ⟨k, hk, rfl⟩ := List.mem_map.mp hw
    rw [hlen k (List.mem_range.mp hk)]
    exact (piece_le (hstart k (List.mem_range.mp hk))).2.1
  · intro w hw
    obtain ⟨k, hk, rfl⟩ := List.mem_map.mp hw
    have hk' := List.mem_range.mp hk
    rw [hlen k hk', writeAt_whole (h k hk')]
    exact ⟨rfl, rfl⟩
  · have hd := flatMap_pieces (j.file.bytes.drop j.offset) j.cfg.chunk_size j.length f
    rw [List.flatMap_map]
    unfold File.slice
    rw [← hd]
    congr 1
    funext k
    rw [List.drop_drop]
    rfl

/-- A buffered read without failures returns its piece when the file has it. -/
theorem readOk_buffered (hb : j.cfg.direct_io = false) {k : ℕ}
    (hp : ∀ o ∈ j.env.preads k, o.Progress) (hk : k * j.cfg.chunk_size ≤ j.length) :
    j.readOk k =
      decide (j.offset + k * j.cfg.chunk_size + j.piece k ≤ j.file.bytes.length ∨
        j.piece k = 0) := by
  have hw := j.window_lt
  have hpk : j.piece k ≤ j.length - k * j.cfg.chunk_size := Nat.min_le_right _ _
  have hplan : j.plan k = ⟨j.offset + k * j.cfg.chunk_size, j.piece k, 0, j.piece k⟩ := by
    unfold plan
    rw [hb, planChunk_buffered]
    rfl
  unfold readOk
  rw [preadFull_result _ _ _ _ _ _ _ hp (Nat.zero_le _), hplan]
  unfold enough
  dsimp only
  rw [add64_eq (by omega), decide_eq_decide]
  omega

/-- Buffered reads of an unchanged file all return their piece. -/
theorem readOk_of_buffered (hb : j.cfg.direct_io = false)
    (hp : ∀ k, ∀ o ∈ j.env.preads k, o.Progress)
    (hfile : j.offset + j.length ≤ j.file.bytes.length) (k : ℕ) (hk : k = 0 ∨ k < j.count) :
    j.readOk k = true := by
  have hk' : k * j.cfg.chunk_size ≤ j.length := by
    rcases hk with rfl | hk
    · omega
    · exact Nat.le_of_lt ((lt_pieceCount_iff j.chunk_pos).mp hk)
  have hpk : j.piece k ≤ j.length - k * j.cfg.chunk_size := Nat.min_le_right _ _
  rw [readOk_buffered hb (hp k) hk', decide_eq_true_iff]
  omega

/-- All pieces together are the window. -/
theorem min_count_mul (j : Job) : min (j.count * j.cfg.chunk_size) j.length = j.length :=
  min_eq_right (le_pieceCount_mul j.chunk_pos j.length)

section WholeWrites

variable (hread : ∀ k, k = 0 ∨ k < j.count → j.readOk k = true)
  (hs : ∀ k, j.env.spawns k = true)

include hread hs

/-- When all pieces can be read, those whose writes are whole pass. -/
theorem passes_of_whole {k : ℕ}
    (h : j.env.rdma k (j.piece k) = .returned (j.piece k) (j.piece k)) : j.Passes k := by
  refine ⟨?_, fun hk => ⟨hs k, hread _ (.inr hk)⟩⟩
  simp [ret, h]

/-- A transfer whose reads succeed and whose writes are whole succeeds, and reports the length of
the window. -/
theorem run_whole
    (h : ∀ k, k < j.count → j.env.rdma k (j.piece k) = .returned (j.piece k) (j.piece k)) :
    j.run = (.returned j.status (some j.length), (List.range j.count).map j.writeAt) := by
  have hsum : ∑ k ∈ Finset.range j.count, j.ret k = j.length := by
    have hcongr : ∀ k ∈ Finset.range j.count, j.ret k = (j.piece k : ℤ) := fun k hk => by
      simp [ret, h k (Finset.mem_range.mp hk)]
    have hall := (sum_pieceAt j.cfg.chunk_size j.length j.count).trans j.min_count_mul
    rw [Finset.sum_congr rfl hcongr, ← Nat.cast_sum]
    exact congrArg Nat.cast hall
  rw [run_of_passes (hread 0 (.inl rfl)) fun k hk => passes_of_whole hread hs (h k hk), hsum]

/-- A transfer whose `f`-th write fails after whole ones fails after that write. -/
theorem run_fail {f : ℕ} (hf : f < j.count)
    (h : ∀ k, k < f → j.env.rdma k (j.piece k) = .returned (j.piece k) (j.piece k)) {ret : ℤ}
    {landed : ℕ} (hrd : j.env.rdma f (j.piece f) = .returned ret landed) (hret : ret < 0) :
    j.run = (.returned 500 none, (List.range f).map j.writeAt ++ [j.write f ret landed]) := by
  have hn : f + (j.count - (f + 1) + 1) = j.count := by omega
  unfold run
  rw [hread 0 (.inl rfl), if_neg (by simp),
    deliver_of_passes hn fun k hk => passes_of_whole hread hs (h k hk), deliver_fail (hs f) hrd hret]

end WholeWrites

/-- A transfer whose reads succeed and whose writes are whole delivers the window. -/
theorem run_delivers (hread : ∀ k, k = 0 ∨ k < j.count → j.readOk k = true)
    (hs : ∀ k, j.env.spawns k = true) (hfile : j.offset + j.length ≤ j.file.bytes.length)
    (htop : j.remote_base + j.length ≤ 2^64)
    (h : ∀ k, k < j.count → j.env.rdma k (j.piece k) = .returned (j.piece k) (j.piece k)) :
    j.run.1 = .returned j.status (some j.length) ∧
      Delivered j.file j.offset j.remote_base j.length j.cfg.chunk_size j.run.2 := by
  have hdel := delivered_of_whole hfile htop le_rfl h
  rw [min_count_mul] at hdel
  rw [run_whole hread hs h]
  exact ⟨rfl, hdel⟩

/-- A transfer that fails at its `f`-th write after whole ones has delivered the pieces before. -/
theorem run_fail_delivers (hread : ∀ k, k = 0 ∨ k < j.count → j.readOk k = true)
    (hs : ∀ k, j.env.spawns k = true) (hfile : j.offset + j.length ≤ j.file.bytes.length)
    (htop : j.remote_base + j.length ≤ 2^64) {f : ℕ} (hf : f < j.count)
    (h : ∀ k, k < f → j.env.rdma k (j.piece k) = .returned (j.piece k) (j.piece k)) {ret : ℤ}
    {landed : ℕ} (hrd : j.env.rdma f (j.piece f) = .returned ret landed) (hret : ret < 0) :
    j.run.1 = .returned 500 none ∧
      ∃ ws w, j.run.2 = ws ++ [w] ∧
        Delivered j.file j.offset j.remote_base (f * j.cfg.chunk_size) j.cfg.chunk_size ws ∧
        w.remote_off = j.remote_base + f * j.cfg.chunk_size ∧ w.ret = ret := by
  have hstart := (lt_pieceCount_iff j.chunk_pos).mp hf
  have hdel := delivered_of_whole hfile htop (Nat.le_of_lt hf) h
  rw [min_eq_left (Nat.le_of_lt hstart)] at hdel
  rw [run_fail hread hs hf h hrd hret]
  exact ⟨rfl, _, _, rfl, hdel, Nat.mod_eq_of_lt (by omega), rfl⟩

/-- The window is in the file if all its pieces could be read. -/
theorem exists_byte_of_readOk {k : ℕ} (hk : k * j.cfg.chunk_size < j.length)
    (h : j.readOk k = true) {i : ℕ} (hi : i < j.piece k) :
    ∃ b, j.file.bytes[j.offset + k * j.cfg.chunk_size + i]? = some b := by
  have hspec := preadFull_spec j.file false (j.plan k).read_len (j.plan k).read_off
    (j.env.preads k) 0 (fun _ _ => 0) (Nat.zero_le _) fun i hi => absurd hi (Nat.not_lt_zero i)
  have hh := holds_of_enough hspec h (plan_end_lt hk)
  rw [plan_read_off_add hk, plan_piece] at hh
  exact ⟨_, hh i hi⟩

end Job

/-! ## Whole writes, and the first that fails -/

/-- The descriptor of a file that has not changed since it was opened. -/
def FdEntry.ofFile (file : File) : FdEntry := ⟨file, file.bytes.length, file.size_lt⟩

/-- A request for an object of `n` bytes without a `Range` header or with one printed in plain
decimal inside the object: its header, window and status. -/
inductive PlainRequest (n : ℕ) : Bytes → ℕ → ℕ → ℕ → Prop
  | whole : PlainRequest n [] 0 n 200
  | range {a b : ℕ} : a ≤ b → b < n → PlainRequest n (plainRange a b) a (b - a + 1) 206

/-- The window of a plain request is accepted. -/
theorem PlainRequest.requestWindow_eq {n offset length status : ℕ} {range_hdr : Bytes}
    (h : PlainRequest n range_hdr offset length status) (hn : n < 2^63) :
    ∃ is_range, requestWindow range_hdr n = some (offset, length, is_range) ∧
      status = if is_range then 206 else 200 := by
  cases h with
  | whole => exact ⟨false, rfl, rfl⟩
  | @range _ b hab hbn =>
    refine ⟨true, ?_, rfl⟩
    have hne : plainRange offset b ≠ [] := by simp [plainRange, ascii]
    unfold requestWindow
    rw [if_neg hne, parseRange_plainRange hab hbn (by omega)]
    dsimp only
    rw [if_neg (by decide), sub64_eq (by omega) hab, add64_eq (by omega)]

/-- Delivery of a buffered GET. When every `pread` makes progress and every write is whole, the
window is delivered. When the write of a piece fails after whole ones, the request fails, and what
was written before it is the beginning of the window. -/
theorem handleGet_delivers {cfg : Config} {file : File} {range_hdr rdma_token_b64 : Bytes}
    {offset length status : ℕ} {env : Env} (slot : Staging) (hbuf : cfg.direct_io = false)
    (hchunk : 1 ≤ cfg.chunk_size)
    (hreq : PlainRequest file.bytes.length range_hdr offset length status)
    (hbase : remoteBase rdma_token_b64 ≠ 0)
    (htop : remoteBase rdma_token_b64 + file.bytes.length ≤ 2^64)
    (hpreads : ∀ k, ∀ o ∈ env.preads k, o.Progress) (hspawns : ∀ k, env.spawns k = true) :
    ((∀ k, k < pieceCount cfg.chunk_size length →
        env.rdma k (pieceAt cfg.chunk_size length k) =
          .returned (pieceAt cfg.chunk_size length k) (pieceAt cfg.chunk_size length k)) →
      (handleGet cfg (some (.ofFile file)) range_hdr rdma_token_b64 slot env).1 =
          .returned status (some length) ∧
        Delivered file offset (remoteBase rdma_token_b64) length cfg.chunk_size
          (writesOf (handleGet cfg (some (.ofFile file)) range_hdr rdma_token_b64 slot env).2)) ∧
    ∀ f, f < pieceCount cfg.chunk_size length →
      (∀ k, k < f → env.rdma k (pieceAt cfg.chunk_size length k) =
        .returned (pieceAt cfg.chunk_size length k) (pieceAt cfg.chunk_size length k)) →
      ∀ ret landed, env.rdma f (pieceAt cfg.chunk_size length f) = .returned ret landed → ret < 0 →
        (handleGet cfg (some (.ofFile file)) range_hdr rdma_token_b64 slot env).1 =
            .returned 500 none ∧
          ∃ ws w, writesOf (handleGet cfg (some (.ofFile file)) range_hdr rdma_token_b64 slot env).2 =
              ws ++ [w] ∧
            Delivered file offset (remoteBase rdma_token_b64) (f * cfg.chunk_size) cfg.chunk_size
              ws ∧
            w.remote_off = remoteBase rdma_token_b64 + f * cfg.chunk_size ∧ w.ret = ret := by
  obtain ⟨is_range, hwin, hstatus⟩ := hreq.requestWindow_eq file.size_lt
  have hle := requestWindow_le file.size_lt hwin
  have hc : 0 < cfg.chunk_size := hchunk
  obtain ⟨h1, h2⟩ := handleGet_writes cfg (.ofFile file) slot env hc hwin hbase
  rw [h1, h2]
  have htop' : remoteBase rdma_token_b64 + length ≤ 2^64 := by omega
  -- Buffered reads return every piece, so only the writes decide how the job ends.
  have hread := Job.readOk_of_buffered
    (j := .ofRequest cfg (.ofFile file) rdma_token_b64 env hc hwin) hbuf hpreads hle
  refine ⟨fun hwhole => ?_, fun f hf hwhole ret landed hrd hneg => ?_⟩
  · rw [hstatus]
    exact Job.run_delivers hread hspawns hle htop' hwhole
  · exact Job.run_fail_delivers hread hspawns hle htop' hf hwhole hrd hneg

/-- An environment in which every second `pread` is interrupted, the others serve at most one byte,
and every write is whole. -/
def slowEnv : Env where
  preads _ := [.read 1, .eintr, .read 1, .eintr]
  spawns _ := true
  rdma _ piece := .returned piece piece
  fetch _ i := i

/-- Bytes 1 to 3 of a file of five, in chunks of two. -/
theorem handleGet_delivers_range_of_five :
    (handleGet ⟨2, false⟩ (some (.ofFile ⟨[5, 6, 7, 8, 9], by decide⟩)) (plainRange 1 3)
        (ascii "1000:0") (fun _ _ => 0) slowEnv).1 = .returned 206 (some 3) ∧
      Delivered ⟨[5, 6, 7, 8, 9], by decide⟩ 1 4096 3 2
        (writesOf (handleGet ⟨2, false⟩ (some (.ofFile ⟨[5, 6, 7, 8, 9], by decide⟩))
          (plainRange 1 3) (ascii "1000:0") (fun _ _ => 0) slowEnv).2) :=
  (handleGet_delivers (fun _ _ => 0) rfl (by decide) (.range (by decide) (by decide)) (by decide)
    (by decide) (fun _ => by simp [slowEnv, PreadOutcome.Progress]) (fun _ => rfl)).1 fun _ _ => rfl

/-! ## Counts that are not whole -/

/-- A request that reports a count has a chunk size and a remote address. -/
theorem chunk_pos_of_returned {cfg : Config} {e : FdEntry} {range_hdr rdma_token_b64 : Bytes}
    {slot : Staging} {env : Env} {offset length status : ℕ} {is_range : Bool} {m : ℤ}
    (hwin : requestWindow range_hdr e.size = some (offset, length, is_range))
    (hret : (handleGet cfg (some e) range_hdr rdma_token_b64 slot env).1 =
      .returned status (some m)) : 0 < cfg.chunk_size ∧ remoteBase rdma_token_b64 ≠ 0 := by
  unfold handleGet at hret
  dsimp only at hret
  rw [hwin] at hret
  dsimp only at hret
  unfold remoteBase
  split_ifs at hret with hb
  · simp at hret
  · refine ⟨?_, hb⟩
    unfold transfer at hret
    split_ifs at hret with hc
    · simp at hret
    · omega

/-- A write that returns a count has put so many bytes of its piece at the address it was given. -/
def Env.Honest (env : Env) : Prop :=
  ∀ k piece ret landed, env.rdma k piece = .returned ret landed → 0 ≤ ret →
    ret ≤ piece ∧ ret = landed

/-- No write returns anything after one that returned less than its piece. -/
def Env.ShortIsLast (env : Env) (chunk length : ℕ) : Prop :=
  ∀ i k, i < k → k < pieceCount chunk length → ∀ ret landed ret' landed',
    env.rdma i (pieceAt chunk length i) = .returned ret landed → ret < pieceAt chunk length i →
    env.rdma k (pieceAt chunk length k) = .returned ret' landed' → ret' = 0

namespace Job

variable {j : Job}

/-- In a transfer that reports a count, honest writes return what landed, within their piece. -/
theorem ret_of_honest (hh : j.env.Honest) {k : ℕ} (hp : j.Passes k) :
    j.ret k = j.landed k ∧ j.landed k ≤ j.piece k ∧
      j.env.rdma k (j.piece k) = .returned (j.landed k) (j.landed k) := by
  have hret := hp.1
  unfold ret landed at *
  cases hrd : j.env.rdma k (j.piece k) with
  | throws => simp [hrd] at hret
  | returned r l =>
    simp only [hrd] at hret ⊢
    obtain ⟨hle, heq⟩ := hh k _ r l hrd hret
    refine ⟨heq, by omega, by rw [heq]⟩

/-- In a transfer of which all pieces pass, what honest writes return is what landed. -/
theorem shortIsLast_iff (hh : j.env.Honest) (hpass : ∀ k, k < j.count → j.Passes k) :
    j.env.ShortIsLast j.cfg.chunk_size j.length ↔
      ∀ i k, i < k → k < j.count → j.landed i < pieceAt j.cfg.chunk_size j.length i →
        j.landed k = 0 := by
  have hrd := fun k (hk : k < j.count) => (ret_of_honest hh (hpass k hk)).2.2
  constructor
  · intro h i k hik hk hlt
    have h0 := h i k hik hk _ _ _ _ (hrd i (hik.trans hk)) (by exact_mod_cast hlt) (hrd k hk)
    exact_mod_cast h0
  · intro h i k hik hk ret landed ret' landed' hi hlt hk'
    have hi' := hi.symm.trans (hrd i (hik.trans hk))
    have hk'' := hk'.symm.trans (hrd k hk)
    simp only [RdmaOutcome.returned.injEq] at hi' hk''
    rw [hi'.1] at hlt
    rw [hk''.1, h i k hik hk (by exact_mod_cast hlt)]
    rfl

/-- Every byte of the window of a transfer that reports a count is in the file. -/
theorem exists_byte_of_passes (h0 : j.readOk 0 = true) (hpass : ∀ k, k < j.count → j.Passes k)
    {p : ℕ} (hp : p < j.length) : ∃ b, (j.file.slice j.offset j.length)[p]? = some b := by
  have hc := j.chunk_pos
  have hpq := Nat.div_add_mod p j.cfg.chunk_size
  have hd := Nat.mod_lt p hc
  rw [Nat.mul_comm] at hpq
  have hq : p / j.cfg.chunk_size * j.cfg.chunk_size < j.length := by omega
  have hok : j.readOk (p / j.cfg.chunk_size) = true := by
    have hlt := (lt_pieceCount_iff hc).mpr hq
    cases hk : p / j.cfg.chunk_size with
    | zero => exact h0
    | succ k =>
      rw [hk] at hlt
      exact ((hpass k (Nat.lt_of_succ_lt hlt)).2 hlt).2
  have hin : p % j.cfg.chunk_size < j.piece (p / j.cfg.chunk_size) := by
    unfold piece pieceAt
    omega
  rw [File.slice_getElem? hp]
  obtain ⟨b, hb⟩ := exists_byte_of_readOk hq hok hin
  rw [Nat.add_assoc, hpq] at hb
  exact ⟨b, hb⟩

/-- The count that a transfer reports is a prefix of the window that has landed exactly when no
write returned anything after a short one. -/
theorem run_count_iff (hh : j.env.Honest) {status : ℕ} {m : ℤ}
    (h : j.run.1 = .returned status (some m)) :
    (∀ i : ℕ, (i : ℤ) < m → ∃ b, (j.file.slice j.offset j.length)[i]? = some b ∧
        landedAt j.run.2 ((j.remote_base + i) % 2^64) = some b) ↔
      j.env.ShortIsLast j.cfg.chunk_size j.length := by
  obtain ⟨h0, hpass⟩ := passes_of_run h
  have hret := fun k (hk : k < j.count) => ret_of_honest hh (hpass k hk)
  have hland : ∀ k, k < j.count → j.landed k ≤ pieceAt j.cfg.chunk_size j.length k :=
    fun k hk => (hret k hk).2.1
  rw [run_of_passes h0 hpass] at h ⊢
  -- The count is the sum of what landed.
  have hm : m = ((∑ k ∈ Finset.range j.count, j.landed k : ℕ) : ℤ) := by
    simp only [Outcome.returned.injEq, Option.some.injEq] at h
    rw [← h.2, Nat.cast_sum]
    exact Finset.sum_congr rfl fun k hk => (hret k (Finset.mem_range.mp hk)).1
  have hle : ∑ k ∈ Finset.range j.count, j.landed k ≤ j.length :=
    (sum_filled_le j.count hland).trans (Nat.min_le_right _ _)
  rw [shortIsLast_iff hh hpass, ← filled_prefix_iff j.chunk_pos (show j.count = _ from rfl) hland, hm]
  refine forall_congr' fun p => ?_
  rw [Nat.cast_lt]
  refine imp_congr_right fun hp => ?_
  obtain ⟨b, hb⟩ := exists_byte_of_passes h0 hpass (hp.trans_le hle)
  rw [landedAt_run hland (hp.trans_le hle), hb]
  split_ifs with hin
  · simp [hin]
  · simp [hin]

end Job

/-- When `handle_get` reports a count, so many bytes have landed from the remote address on, with
the bytes of the window, exactly when no write returned anything after a short one. -/
theorem handleGet_count_iff {cfg : Config} {e : FdEntry} {range_hdr rdma_token_b64 : Bytes}
    {slot : Staging} {env : Env} {offset length : ℕ} {is_range : Bool} (hh : env.Honest)
    (status : ℕ) (m : ℤ)
    (hwin : requestWindow range_hdr e.size = some (offset, length, is_range))
    (hret : (handleGet cfg (some e) range_hdr rdma_token_b64 slot env).1 =
      .returned status (some m)) :
    (∀ i : ℕ, (i : ℤ) < m → ∃ b, (e.file.slice offset length)[i]? = some b ∧
        landedAt (writesOf (handleGet cfg (some e) range_hdr rdma_token_b64 slot env).2)
          ((remoteBase rdma_token_b64 + i) % 2^64) = some b) ↔
      env.ShortIsLast cfg.chunk_size length := by
  obtain ⟨hc, hb⟩ := chunk_pos_of_returned hwin hret
  obtain ⟨h1, h2⟩ := handleGet_writes cfg e slot env hc hwin hb
  rw [h1] at hret
  rw [h2]
  exact Job.run_count_iff (j := .ofRequest cfg e rdma_token_b64 env hc hwin) hh hret

/-- An environment in which the first write returns `0` and the others are whole. -/
def gapEnv : Env where
  preads _ := []
  spawns _ := true
  rdma k piece := if k = 0 then .returned 0 0 else .returned piece piece
  fetch _ _ := 0

/-- The counts that the first empty write and the others return are what landed. -/
theorem gapEnv_honest : gapEnv.Honest := by
  intro k piece ret landed h _
  simp only [gapEnv] at h
  split_ifs at h
  · simp only [RdmaOutcome.returned.injEq] at h
    omega
  · simp only [RdmaOutcome.returned.injEq] at h
    omega

/-- An environment in which the first write is whole and the others put one byte only. -/
def shortLastEnv : Env where
  preads _ := []
  spawns _ := true
  rdma k piece := if k = 0 then .returned piece piece else .returned (min piece 1) (min piece 1)
  fetch _ _ := 0

/-- The counts of `shortLastEnv` are what landed. -/
theorem shortLastEnv_honest : shortLastEnv.Honest := by
  intro k piece ret landed h _
  simp only [shortLastEnv] at h
  split_ifs at h
  · simp only [RdmaOutcome.returned.injEq] at h
    omega
  · simp only [RdmaOutcome.returned.injEq] at h
    omega

/-- Of four bytes in chunks of two, the second chunk is written short: the count is `3`, no write
returned anything after the short one, and the first three bytes have landed. -/
theorem handleGet_count_short_last :
    (handleGet ⟨2, false⟩ (some (.ofFile ⟨[5, 6, 7, 8], by decide⟩)) [] (ascii "1000:0")
      (fun _ _ => 0) shortLastEnv).1 = .returned 200 (some 3) ∧
    ∀ i : ℕ, (i : ℤ) < 3 → ∃ b, (File.slice ⟨[5, 6, 7, 8], by decide⟩ 0 4)[i]? = some b ∧
      landedAt (writesOf (handleGet ⟨2, false⟩ (some (.ofFile ⟨[5, 6, 7, 8], by decide⟩)) []
        (ascii "1000:0") (fun _ _ => 0) shortLastEnv).2)
        ((remoteBase (ascii "1000:0") + i) % 2^64) = some b := by
  have hret : (handleGet ⟨2, false⟩ (some (.ofFile ⟨[5, 6, 7, 8], by decide⟩)) []
      (ascii "1000:0") (fun _ _ => 0) shortLastEnv).1 = .returned 200 (some 3) := by decide
  -- There are two pieces, so a short write before another one would be the first, which is whole.
  have hshort : shortLastEnv.ShortIsLast 2 4 := by
    intro i k hik hk ret landed ret' landed' hi hlt
    have hcount : pieceCount 2 4 = 2 := by decide
    obtain rfl : i = 0 := by omega
    simp only [shortLastEnv, if_true, RdmaOutcome.returned.injEq] at hi
    omega
  exact ⟨hret, (handleGet_count_iff (e := .ofFile ⟨[5, 6, 7, 8], by decide⟩) shortLastEnv_honest
    200 3 rfl hret).mpr hshort⟩

/-- Two bytes in chunks of one: the count is `1`, and nothing has landed at the remote address. -/
theorem handleGet_count_gap : gapEnv.Honest ∧
    (handleGet ⟨1, false⟩ (some (.ofFile ⟨[5, 6], by decide⟩)) [] (ascii "1000:0") (fun _ _ => 0)
      gapEnv).1 = .returned 200 (some 1) ∧
    landedAt (writesOf (handleGet ⟨1, false⟩ (some (.ofFile ⟨[5, 6], by decide⟩)) []
      (ascii "1000:0") (fun _ _ => 0) gapEnv).2) (remoteBase (ascii "1000:0")) = none :=
  ⟨gapEnv_honest, by decide, by decide⟩

end S3Rdma.Server
