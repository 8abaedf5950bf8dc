import S3Rdma.Lib.Bytes
import S3Rdma.Lib.Word

/-!
# Staging buffers and `pread_full`

A slot has two staging buffers, written by `pread` and read by the RDMA engine. `pread_full` of
`src/server/s3_server.cpp` repeats `pread` until it has the bytes it was asked for, an error, or the
end of the file. What the kernel does at each `pread` is an input: a list of outcomes, one for each
call, after which it serves every call in full.

`preadFull_spec` is what the callers rely on: each `pread` stays inside the bytes asked for, the
other buffer is untouched at every moment, and the bytes returned are the file's. When no `pread`
fails and none returns `0` before the end of the file, `preadFull_result` says how many these are.
-/

namespace S3Rdma.Server

/-- The file behind a descriptor. Its size is an `off_t`, a signed 64-bit number. -/
structure File where
  bytes : Bytes
  size_lt : bytes.length < 2^63

/-- A file of three bytes. -/
def threeBytesFile : File := ⟨[5, 6, 7], by decide⟩

/-- The bytes `[off, off + n)` of a file, as far as they exist. -/
def File.slice (f : File) (off n : ℕ) : Bytes := (f.bytes.drop off).take n

/-- What the kernel does with one `pread`: it is interrupted by a signal, it fails, or it serves at
most `n` bytes. -/
inductive PreadOutcome where
  | eintr
  | error
  | read (n : ℕ)
deriving DecidableEq

/-- The outcome is an interruption or some progress. -/
def PreadOutcome.Progress : PreadOutcome → Prop
  | .eintr => True
  | .error => False
  | .read n => 0 < n

/-- How many bytes a `pread` of `count` bytes at `off` returns when at most `n` are served. -/
def File.served (f : File) (n count off : ℕ) : ℕ := min n (min count (f.bytes.length - off))

/-- The contents of a slot's two staging buffers. Positions past the end of a buffer are there too,
so that a write that overran it would be seen. -/
abbrev Staging := Bool → ℕ → UInt8

/-- The staging buffers after `data` was written into `buf` from position `dst` on. -/
def Staging.store (st : Staging) (buf : Bool) (dst : ℕ) (data : Bytes) : Staging := fun b i =>
  if b = buf ∧ dst ≤ i ∧ i < dst + data.length then data.getD (i - dst) 0 else st b i

/-- One RDMA write: its source in a staging buffer, its destination, and the file offset that the
loop is at. `source` is what the engine read from the buffer. -/
structure RdmaCall where
  buf : Bool
  local_off : ℕ
  piece : ℕ
  remote_off : ℕ
  file_off : ℕ
  source : Bytes
deriving DecidableEq

/-- What a request does, in order. An RDMA write is in progress from its `rdmaBegin` to its
`rdmaEnd`, which has `handleGetObject`'s return value and how many of the bytes landed. -/
inductive Ev where
  | acquire
  | release
  /-- One `pread` of at most `count` bytes from `off` into `buf` at `dst`; `none` is `-1`. -/
  | pread (buf : Bool) (dst count off : ℕ) (got : Option ℕ)
  /-- `pread_full` from `off` into `buf` returned; `none` is `-1`. -/
  | loaded (buf : Bool) (off : ℕ) (n : Option ℕ)
  | rdmaBegin (c : RdmaCall)
  | rdmaEnd (c : RdmaCall) (ret : ℤ) (landed : ℕ)
deriving DecidableEq

/-- A run of `pread_full`: its result, the buffers before and after each `pread`, the buffers at
its end, and its calls of `pread`. -/
structure PreadRun where
  result : Option ℕ
  snaps : List Staging
  final : Staging
  events : List Ev

/-- A run with one more `pread` in front, made when the buffers were `st`. -/
def PreadRun.push (r : PreadRun) (ev : Ev) (st : Staging) : PreadRun :=
  { r with snaps := st :: r.snaps, events := ev :: r.events }

/-- `pread_full`, from any point of its loop. -/
def preadFull (f : File) (buf : Bool) (count off : ℕ) : List PreadOutcome → ℕ → Staging → PreadRun
  | [], total, st =>
    if total < count then
      let m := f.served (count - total) (count - total) (off + total)
      let st' := st.store buf total (f.slice (off + total) m)
      -- A short read here is at the end of the file, and one more call returns `0`.
      let rest := if m = 0 ∨ total + m = count then []
        else [.pread buf (total + m) (count - (total + m)) (off + (total + m)) (some 0)]
      ⟨some (total + m), [st, st'], st',
        .pread buf total (count - total) (off + total) (some m) :: rest⟩
    else ⟨some total, [st], st, []⟩
  | o :: os, total, st =>
    if total < count then
      match o with
      | .eintr =>
        (preadFull f buf count off os total st).push
          (.pread buf total (count - total) (off + total) none) st
      | .error => ⟨none, [st], st, [.pread buf total (count - total) (off + total) none]⟩
      | .read n =>
        let m := f.served n (count - total) (off + total)
        let st' := st.store buf total (f.slice (off + total) m)
        if m = 0 then ⟨some total, [st], st, [.pread buf total (count - total) (off + total) (some 0)]⟩
        else
          (preadFull f buf count off os (total + m) st').push
            (.pread buf total (count - total) (off + total) (some m)) st
    else ⟨some total, [st], st, []⟩

/-- The first `n` bytes of a buffer are the file's from `off` on. -/
def Holds (f : File) (st : Staging) (buf : Bool) (off n : ℕ) : Prop :=
  ∀ i, i < n → f.bytes[off + i]? = some (st buf i)

/-- A write into one buffer leaves the other as it is. -/
theorem Staging.store_other (st : Staging) (buf : Bool) (dst : ℕ) (data : Bytes) :
    st.store buf dst data (!buf) = st (!buf) := by
  funext i
  simp [Staging.store]

/-- A `pread` serves no more than it was asked for, and only bytes of the file. -/
theorem File.served_le (f : File) (n count off : ℕ) :
    f.served n count off ≤ count ∧ f.served n count off ≤ f.bytes.length - off := by
  unfold File.served
  omega

/-- The length of a slice that lies in the file. -/
theorem File.slice_length {f : File} {off n : ℕ} (h : n ≤ f.bytes.length - off) :
    (f.slice off n).length = n := by
  unfold File.slice
  rw [List.length_take, List.length_drop]
  omega

/-- A slice has the bytes of the file. -/
theorem File.slice_getElem? {f : File} {off n i : ℕ} (h : i < n) :
    (f.slice off n)[i]? = f.bytes[off + i]? := by
  unfold File.slice
  rw [List.getElem?_take_of_lt h, List.getElem?_drop]

/-- A `pread` that continues where the last one ended extends what the buffer holds. -/
theorem Holds.store {f : File} {st : Staging} {buf : Bool} {off total m : ℕ}
    (h : Holds f st buf off total) (hm : m ≤ f.bytes.length - (off + total)) :
    Holds f (st.store buf total (f.slice (off + total) m)) buf off (total + m) := by
  intro i hi
  have hlen := File.slice_length hm
  by_cases hit : i < total
  · simp only [Staging.store, hlen]
    rw [if_neg (by omega)]
    exact h i hit
  · have hslice : (f.slice (off + total) m)[i - total]? = f.bytes[off + i]? := by
      rw [File.slice_getElem? (by omega)]
      congr 1
      omega
    simp only [Staging.store, hlen]
    rw [if_pos ⟨trivial, by omega, by omega⟩, List.getD_eq_getElem?_getD, hslice]
    have hin : off + i < f.bytes.length := by omega
    simp [List.getElem?_eq_getElem hin]

/-- What a run of `pread_full` for `count` bytes from `off` into `buf` does to the buffers. -/
structure PreadSpec (f : File) (buf : Bool) (count off : ℕ) (st : Staging) (r : PreadRun) :
    Prop where
  /-- The buffer that is not read into is as it was, between any two calls of `pread`. -/
  snaps_other : ∀ s ∈ r.snaps, s (!buf) = st (!buf)
  /-- The buffer that is not read into is as it was at the end. -/
  final_other : r.final (!buf) = st (!buf)
  /-- No more than `count` bytes are returned. -/
  result_le : ∀ n, r.result = some n → n ≤ count
  /-- The bytes returned are the file's. -/
  holds : ∀ n, r.result = some n → Holds f r.final buf off n
  /-- Every call asks for what is missing of the `count` bytes, after what is there. -/
  inside : ∀ ev ∈ r.events, ∃ dst got, dst ≤ count ∧
    ev = .pread buf dst (count - dst) (off + dst) got

/-- A run that makes no call returns what is there. -/
theorem PreadSpec.stop {f : File} {buf : Bool} {count off total : ℕ} {st : Staging}
    (hle : total ≤ count) (h : Holds f st buf off total) :
    PreadSpec f buf count off st ⟨some total, [st], st, []⟩ where
  snaps_other := by simp
  final_other := rfl
  result_le := by
    rintro n ⟨⟩
    exact hle
  holds := by
    rintro n ⟨⟩
    exact h
  inside := by simp

/-- A run of `pread_full` with one more call in front, which leaves the other buffer alone. -/
theorem PreadSpec.push {f : File} {buf : Bool} {count off total : ℕ} {st st' : Staging}
    {r : PreadRun} {got : Option ℕ} (h : PreadSpec f buf count off st' r)
    (hst : st' (!buf) = st (!buf)) (hle : total ≤ count) :
    PreadSpec f buf count off st
      (r.push (.pread buf total (count - total) (off + total) got) st) where
  snaps_other := by
    intro s hs
    rcases List.mem_cons.mp hs with rfl | hs
    · rfl
    · rw [h.snaps_other s hs, hst]
  final_other := h.final_other.trans hst
  result_le := h.result_le
  holds := h.holds
  inside := by
    intro ev hev
    rcases List.mem_cons.mp hev with rfl | hev
    · exact ⟨total, got, hle, rfl⟩
    · exact h.inside ev hev

/-- `pread_full` from any point of its loop at which the buffer holds what was read so far. -/
theorem preadFull_spec (f : File) (buf : Bool) (count off : ℕ) (outs : List PreadOutcome)
    (total : ℕ) (st : Staging) (hle : total ≤ count) (h : Holds f st buf off total) :
    PreadSpec f buf count off st (preadFull f buf count off outs total st) := by
  induction outs generalizing total st with
  -- When the outcomes run out, one `pread` serves all that the file has.
  | nil =>
    unfold preadFull
    split_ifs with hlt
    · obtain ⟨hm1, hm2⟩ := f.served_le (count - total) (count - total) (off + total)
      generalize f.served (count - total) (count - total) (off + total) = m at hm1 hm2
      have hst := st.store_other buf total (f.slice (off + total) m)
      have hh := h.store hm2
      refine ⟨?_, hst, ?_, ?_, ?_⟩
      · simp [hst]
      · rintro n ⟨⟩
        omega
      · rintro n ⟨⟩
        exact hh
      · intro ev hev
        rcases List.mem_cons.mp hev with rfl | hev
        · exact ⟨total, _, hle, rfl⟩
        · split_ifs at hev
          · simp at hev
          · rw [List.mem_singleton.mp hev]
            exact ⟨total + m, _, by omega, rfl⟩
    · exact PreadSpec.stop hle h
  | cons o os ih =>
    unfold preadFull
    split_ifs with hlt
    · cases o with
      | eintr => exact (ih total st hle h).push rfl hle
      | error =>
        refine ⟨by simp, rfl, by simp, by simp, ?_⟩
        intro ev hev
        rw [List.mem_singleton.mp hev]
        exact ⟨total, _, hle, rfl⟩
      | read n =>
        obtain ⟨hm1, hm2⟩ := f.served_le n (count - total) (off + total)
        dsimp only
        generalize f.served n (count - total) (off + total) = m at hm1 hm2
        split_ifs with hm0
        -- Zero bytes: the end of the file, where the loop stops with what it has.
        · refine ⟨by simp, rfl, ?_, ?_, ?_⟩
          · rintro n ⟨⟩
            exact hle
          · rintro n ⟨⟩
            exact h
          · intro ev hev
            rw [List.mem_singleton.mp hev]
            exact ⟨total, _, hle, rfl⟩
        · exact (ih _ _ (by omega) (h.store hm2)).push (st.store_other _ _ _) hle
    · exact PreadSpec.stop hle h

/-- When every `pread` is interrupted or makes progress, `pread_full` returns everything the file
has of what was asked for. -/
theorem preadFull_result (f : File) (buf : Bool) (count off : ℕ) (outs : List PreadOutcome)
    (total : ℕ) (st : Staging) (hprog : ∀ o ∈ outs, o.Progress)
    (hle : total ≤ min count (f.bytes.length - off)) :
    (preadFull f buf count off outs total st).result = some (min count (f.bytes.length - off)) := by
  induction outs generalizing total st with
  | nil =>
    unfold preadFull File.served
    split_ifs with hlt
    · simp only [Option.some.injEq]
      omega
    · simp only [Option.some.injEq]
      omega
  | cons o os ih =>
    have hos : ∀ o ∈ os, o.Progress := fun x hx => hprog x (List.mem_cons_of_mem _ hx)
    have ho := hprog o List.mem_cons_self
    unfold preadFull
    split_ifs with hlt
    · cases o with
      | eintr => exact ih total st hos hle
      | error => exact ho.elim
      | read n =>
        have hn : 0 < n := ho
        obtain ⟨hm1, hm2⟩ := f.served_le n (count - total) (off + total)
        -- A `pread` that may read something returns 0 only at the end of the file.
        have hm0 : f.served n (count - total) (off + total) = 0 ↔
            f.bytes.length - off ≤ total := by
          unfold File.served
          omega
        dsimp only
        generalize f.served n (count - total) (off + total) = m at hm1 hm2 hm0
        split_ifs with hz
        · have := hm0.mp hz
          simp only [Option.some.injEq]
          omega
        · exact ih _ _ hos (by omega)
    · simp only [Option.some.injEq]
      omega

/-- The calls of `pread_full` do not depend on what the buffers hold, and its result depends neither
on that nor on the buffer it reads into. -/
theorem preadFull_indep (f : File) (buf buf' : Bool) (count off : ℕ) (outs : List PreadOutcome)
    (total : ℕ) (st st' : Staging) :
    (preadFull f buf count off outs total st).result =
        (preadFull f buf' count off outs total st').result ∧
      (preadFull f buf count off outs total st).events =
        (preadFull f buf count off outs total st').events := by
  -- The loop looks at `total` and at the outcomes, never at the buffer.
  induction outs generalizing total st st' with
  | nil =>
    unfold preadFull
    split_ifs <;> exact ⟨rfl, rfl⟩
  | cons o os ih =>
    unfold preadFull
    split_ifs with hlt
    · cases o with
      | eintr => exact ⟨(ih total st st').1, congrArg (List.cons _) (ih total st st').2⟩
      | error => exact ⟨rfl, rfl⟩
      | read n =>
        dsimp only
        generalize f.served n (count - total) (off + total) = m
        generalize f.slice (off + total) m = data
        split_ifs with hm
        · exact ⟨rfl, rfl⟩
        · exact ⟨(ih (total + m) (st.store buf total data) (st'.store buf' total data)).1,
            congrArg (List.cons _)
              (ih (total + m) (st.store buf total data) (st'.store buf total data)).2⟩
    · exact ⟨rfl, rfl⟩

end S3Rdma.Server
