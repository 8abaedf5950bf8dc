import S3Rdma.Lib.Word

/-!
# Planning a chunk

`align_down`, `align_up` and `plan_chunk` of `src/server/s3_server.cpp`. A plan says where the file
is read, how much of it, where in the staging buffer the data then starts and how many bytes of it
are data. Without `O_DIRECT` the read is the piece itself (`planChunk_buffered`). With it the read
starts at the block below and is rounded up to whole blocks, and is then cut to the size of the
staging buffer; `planChunk_direct` gives the plan in closed form, and the piece lies inside the
read exactly when it still fits the buffer after the padding in front of it (`planChunk_fits_iff`).
-/

namespace S3Rdma.Server

/-- `kAlign`, the `O_DIRECT` alignment. -/
def kAlign : ℕ := 4096

/-- `align_down`: `v & ~(a - 1)`. -/
def alignDown (v a : ℕ) : ℕ := (BitVec.ofNat 64 v &&& ~~~(BitVec.ofNat 64 a - 1)).toNat

/-- `align_up`: `(v + a - 1) & ~(a - 1)`. -/
def alignUp (v a : ℕ) : ℕ :=
  ((BitVec.ofNat 64 v + BitVec.ofNat 64 a - 1) &&& ~~~(BitVec.ofNat 64 a - 1)).toNat

/-- `ChunkIO`: the parameters of one chunk's `pread`. -/
structure ChunkIO where
  /-- The file offset of the `pread`. -/
  read_off : ℕ
  /-- The length of the `pread`. -/
  read_len : ℕ
  /-- Where the data starts in the staging buffer. -/
  local_off : ℕ
  /-- The number of data bytes of this chunk. -/
  piece : ℕ
deriving DecidableEq

/-- `plan_chunk`. -/
def planChunk (file_off remaining chunk : ℕ) (direct_io : Bool) : ChunkIO :=
  let piece := if remaining > chunk then chunk else remaining
  if direct_io then
    let read_off := alignDown file_off kAlign
    let local_off := sub64 file_off read_off
    let read_len := alignUp (add64 piece local_off) kAlign
    { read_off, local_off, piece, read_len := if read_len > chunk then chunk else read_len }
  else { read_off := file_off, local_off := 0, read_len := piece, piece }

/-- `kAlign - 1` is the mask of the low twelve bits. -/
theorem kAlign_mask : BitVec.ofNat 64 kAlign - 1 = BitVec.ofNat 64 (2^12 - 1) := by decide

/-- `align_down` is the start of the block. -/
theorem alignDown_kAlign {v : ℕ} (hv : v < 2^64) : alignDown v kAlign = v / 4096 * 4096 := by
  unfold alignDown
  rw [kAlign_mask]
  exact clearLow_eq (k := 12) (by omega) hv

/-- `align_up` rounds up to whole blocks. -/
theorem alignUp_kAlign {v : ℕ} (hv : v + 4095 < 2^64) :
    alignUp v kAlign = (v + 4095) / 4096 * 4096 := by
  have hadd : BitVec.ofNat 64 v + BitVec.ofNat 64 kAlign - 1 = BitVec.ofNat 64 (v + 4095) := by
    rw [BitVec.sub_eq_add_neg, BitVec.add_assoc, ← BitVec.sub_eq_add_neg, kAlign_mask,
      ← BitVec.ofNat_add]
    rfl
  unfold alignUp
  rw [hadd, kAlign_mask]
  exact clearLow_eq (k := 12) (by omega) hv

/-- The code's conditional cut to the chunk size. -/
theorem cut_eq (n chunk : ℕ) : (if n > chunk then chunk else n) = min chunk n := by
  split_ifs <;> omega

/-- Every plan is for the rest of the window, or a chunk of it. -/
theorem planChunk_piece (file_off remaining chunk : ℕ) (direct_io : Bool) :
    (planChunk file_off remaining chunk direct_io).piece = min chunk remaining := by
  cases direct_io
  · simp only [planChunk, cut_eq]
    rfl
  · simp only [planChunk, cut_eq, if_true]

/-- Without `O_DIRECT` the piece is read where it is. -/
theorem planChunk_buffered (file_off remaining chunk : ℕ) :
    planChunk file_off remaining chunk false =
      { read_off := file_off, local_off := 0, read_len := min chunk remaining,
        piece := min chunk remaining } := by
  simp only [planChunk, cut_eq]
  rfl

/-- With `O_DIRECT` the read starts at the block below, is rounded up to whole blocks and is cut to
the size of the staging buffer. -/
theorem planChunk_direct {file_off remaining chunk : ℕ} (h : file_off + remaining < 2^63) :
    planChunk file_off remaining chunk true =
      { read_off := file_off / 4096 * 4096, local_off := file_off % 4096,
        read_len := min chunk ((min chunk remaining + file_off % 4096 + 4095) / 4096 * 4096),
        piece := min chunk remaining } := by
  have hd : alignDown file_off kAlign = file_off / 4096 * 4096 := alignDown_kAlign (by omega)
  have hl : sub64 file_off (file_off / 4096 * 4096) = file_off % 4096 := by
    rw [sub64_eq (by omega) (by omega)]
    omega
  have ha : add64 (min chunk remaining) (file_off % 4096) = min chunk remaining + file_off % 4096 :=
    add64_eq (by omega)
  have hu : alignUp (min chunk remaining + file_off % 4096) kAlign =
      (min chunk remaining + file_off % 4096 + 4095) / 4096 * 4096 := alignUp_kAlign (by omega)
  simp only [planChunk, cut_eq, hd, hl, ha, hu, if_true]

/-- Every read fits the staging buffer. -/
theorem planChunk_read_len_le (file_off remaining chunk : ℕ) (direct_io : Bool) :
    (planChunk file_off remaining chunk direct_io).read_len ≤ chunk := by
  cases direct_io
  · rw [planChunk_buffered]
    exact Nat.min_le_left _ _
  · simp only [planChunk, cut_eq, if_true]
    exact Nat.min_le_left _ _

/-- The data of a plan starts in the file where the chunk does. -/
theorem planChunk_read_off_add {file_off remaining chunk : ℕ} (direct_io : Bool)
    (h : file_off + remaining < 2^63) :
    (planChunk file_off remaining chunk direct_io).read_off +
      (planChunk file_off remaining chunk direct_io).local_off = file_off := by
  cases direct_io
  · rw [planChunk_buffered]
    simp
  · rw [planChunk_direct h]
    simp only
    omega

/-- A plan without `O_DIRECT` always reads its piece. With `O_DIRECT` it does exactly when the
padding in front of the piece leaves room for it in the staging buffer. -/
theorem planChunk_fits_iff {file_off remaining chunk : ℕ} (h : file_off + remaining < 2^63) :
    (planChunk file_off remaining chunk true).local_off +
        (planChunk file_off remaining chunk true).piece ≤
      (planChunk file_off remaining chunk true).read_len ↔
      file_off % 4096 + min chunk remaining ≤ chunk := by
  rw [planChunk_direct h]
  simp only
  omega

end S3Rdma.Server
