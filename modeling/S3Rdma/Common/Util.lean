import S3Rdma.Lib.Stoull

/-!
# Header names, descriptors, paths and ranges

`src/common/s3_util.hpp`: the names of the control path's headers, the remote address of a decoded
RDMA descriptor, the object path of a request and its byte range. All three parsers work on the raw
bytes and the two that read numbers go through `std::stoull`, so its grammar is part of theirs.
-/

namespace S3Rdma

/-- `kHdrRdmaToken`. -/
def kHdrRdmaToken : Bytes := ascii "x-amz-rdma-token"

/-- `kHdrRdmaReply`. -/
def kHdrRdmaReply : Bytes := ascii "x-amz-rdma-reply"

/-- `kHdrRdmaBytesTransferred`. -/
def kHdrRdmaBytesTransferred : Bytes := ascii "x-amz-rdma-bytes-transferred"

/-- `parse_rdma_remote_addr`: the text before the first colon as a base-16 number, or `0`. -/
def parseRdmaRemoteAddr (rdma_descr : Bytes) : ℕ :=
  match rdma_descr.idxOf? (chr ':') with
  | none => 0
  | some colon =>
    if colon = 0 then 0
    else
      match stoull 16 (rdma_descr.take colon) with
      | some (v, _) => v
      | none => 0

/-- A parsed `/<bucket>/<object>` request path. -/
structure ObjectPath where
  bucket : Bytes := []
  object : Bytes := []
  valid : Bool := false
deriving DecidableEq

/-- Does `pat` occur somewhere in `s`? -/
def occursIn (pat s : Bytes) : Bool := s.tails.any pat.isPrefixOf

/-- `parse_object_path`. -/
def parseObjectPath (path : Bytes) : ObjectPath :=
  match path with
  | [] => {}
  | c :: rest =>
    if c ≠ chr '/' then {}
    else
      match rest.idxOf? (chr '/') with
      | none => {}
      | some slash =>
        -- `slash` counts from the byte after the first slash.
        if rest.length ≤ slash + 1 then {}
        else
          let bucket := rest.take slash
          let object := rest.drop (slash + 1)
          if bucket = ascii "." ∨ bucket = ascii ".." ∨ chr '/' ∈ bucket then
            { bucket, object }
          else if object = ascii "." ∨ object = ascii ".." ∨ occursIn (ascii "/../") object ∨
              (ascii "../").isPrefixOf object ∨ (ascii "/..").isSuffixOf object then
            { bucket, object }
          else { bucket, object, valid := !bucket.isEmpty && !object.isEmpty }

/-- A parsed inclusive byte range. -/
structure ByteRange where
  start : ℕ := 0
  /-- The last byte of the range, inclusive (`end` in the source). -/
  end_ : ℕ := 0
  present : Bool := false
  valid : Bool := false
deriving DecidableEq

/-- `parse_range`: `bytes=a-b`, split at the first dash, each half read by `std::stoull`. -/
def parseRange (spec : Bytes) (file_size : ℕ) : ByteRange :=
  if spec = [] then {}
  else if !(ascii "bytes=").isPrefixOf spec then { present := true }
  else
    let body := spec.drop (ascii "bytes=").length
    match body.idxOf? (chr '-') with
    | none => { present := true }
    | some dash =>
      match stoull 10 (body.take dash) with
      | none => { present := true }
      | some (start, _) =>
        match stoull 10 (body.drop (dash + 1)) with
        | none => { start, present := true }
        | some (end_, _) =>
          if start > end_ ∨ end_ ≥ file_size then { start, end_, present := true }
          else { start, end_, present := true, valid := true }

/-- The remote address of a descriptor is a word. -/
theorem parseRdmaRemoteAddr_lt (rdma_descr : Bytes) : parseRdmaRemoteAddr rdma_descr < 2^64 := by
  unfold parseRdmaRemoteAddr
  split
  · omega
  · split_ifs
    · omega
    · split
      · rename_i v pos hv
        exact stoull_lt hv
      · omega

/-- A valid range is ordered and lies in the file. -/
theorem parseRange_valid {spec : Bytes} {n : ℕ} (h : (parseRange spec n).valid = true) :
    (parseRange spec n).start ≤ (parseRange spec n).end_ ∧ (parseRange spec n).end_ < n := by
  revert h
  unfold parseRange
  dsimp only
  split_ifs with hnil hpre
  · exact False.elim
  · exact False.elim
  · split
    · exact fun h => Bool.noConfusion h
    · split
      · exact fun h => Bool.noConfusion h
      · split
        · exact fun h => Bool.noConfusion h
        · split_ifs with hc
          · exact False.elim
          · intro _
            simp only
            omega

/-- The header `bytes=a-b` with both ends printed in plain decimal. -/
def plainRange (a b : ℕ) : Bytes := ascii "bytes=" ++ (decimal a ++ chr '-' :: decimal b)

/-- A printed number contains no dash. -/
theorem dash_not_mem_decimal (n : ℕ) : chr '-' ∉ decimal n := by
  intro h
  exact absurd (isDigit_of_mem_decimal h) (by decide)

/-- A header printed in plain decimal is accepted exactly within the file, and denotes its ends. -/
theorem parseRange_plainRange {a b n : ℕ} (hab : a ≤ b) (hbn : b < n) (hn : n ≤ 2^64) :
    parseRange (plainRange a b) n = { start := a, end_ := b, present := true, valid := true } := by
  have hne : plainRange a b ≠ [] := by simp [plainRange, ascii]
  have hpre : (ascii "bytes=").isPrefixOf (plainRange a b) = true := by
    rw [List.isPrefixOf_iff_prefix]
    exact List.prefix_append _ _
  have hbody : (plainRange a b).drop (ascii "bytes=").length = decimal a ++ chr '-' :: decimal b := by
    unfold plainRange
    rw [List.drop_left]
  have hcond : ¬ (a > b ∨ b ≥ n) := by omega
  unfold parseRange
  rw [if_neg hne, if_neg (by rw [hpre]; decide)]
  simp only [hbody, idxOf?_append_cons (dash_not_mem_decimal a), List.take_left,
    stoull_decimal (show a < 2^64 by omega)]
  have hdrop : (decimal a ++ chr '-' :: decimal b).drop ((decimal a).length + 1) = decimal b := by
    rw [List.append_cons, List.drop_left' (by simp)]
  simp only [hdrop, stoull_decimal (show b < 2^64 by omega), if_neg hcond]

end S3Rdma
