import S3Rdma.Http.Receipt

/-!
# The receipt and the segmentation of the stream

TCP delivers a stream of bytes in pieces, and where it cuts is nobody's choice. Each receive loop
tests its end at the cuts only. For the head this makes no difference: the first CRLFCRLF of the
stream is found whichever piece completes it, and if it is not within the cap the same bytes are
kept (`receive_cut`). For a body of declared length `v` it does: the loop stops at the first cut
that is not before `v`, and the message is complete only if that cut is at `v` exactly.

So the receipt is that of the whole stream (`streamResponse`) unless the stream goes on after a body
of declared length that is within the cap (`Surplus`). In that case there are always two ways of
cutting that differ: byte by byte the message is complete, and with one piece across the end of the
body it is not.
-/

namespace S3Rdma

/-- A way of cutting a stream into the pieces that `recv` returns. -/
structure Cuts (stream : Bytes) (segs : List Bytes) : Prop where
  flatten : segs.flatten = stream
  length_pos : ∀ seg ∈ segs, 1 ≤ seg.length
  length_le : ∀ seg ∈ segs, seg.length ≤ 8192

theorem Cuts.ne_nil {stream : Bytes} {segs : List Bytes} (h : Cuts stream segs) :
    ∀ seg ∈ segs, seg ≠ [] :=
  fun seg hseg => List.length_pos_iff.mp (h.length_pos seg hseg)

/-- The turns of the receive loops for a stream in pieces that ends with an orderly close. -/
def cutEvents (segs : List Bytes) : List RecvEvent := segs.map .recv ++ [.recv []]

/-- The response to a head, with its framing. -/
def headResponse (head : Bytes) : RawResponse :=
  classifyFraming (parseHead { head_complete := true, head_bytes := head })

/-- The stream has a complete head that declares a body of `v` bytes within the cap, and goes on
after that body. -/
def SurplusAt (max_head max_body : ℕ) (stream : Bytes) (i v : ℕ) : Prop :=
  findSub CRLFCRLF stream = some i ∧ i + 4 ≤ max_head ∧
    (parseHead { head_complete := true, head_bytes := stream.take (i + 4) }).head_malformed = false ∧
    (headResponse (stream.take (i + 4))).framing = .contentLength ∧
    (headResponse (stream.take (i + 4))).content_length = v ∧
    v ≤ max_body ∧ v < (stream.drop (i + 4)).length

/-- Some bytes follow a body of declared length. -/
def Surplus (max_head max_body : ℕ) (stream : Bytes) : Prop :=
  ∃ i v, SurplusAt max_head max_body stream i v

/-- The response to a whole stream: what the receive loops make of it when they do not cut a body of
declared length. -/
def streamResponse (max_head max_body : ℕ) (stream : Bytes) : RawResponse :=
  match (findSub CRLFCRLF stream).filter (· + 4 ≤ max_head) with
  | none =>
    { head_bytes := stream.take max_head, transport_error := true,
      error := if max_head ≤ stream.length then ascii "response head exceeds cap"
        else ascii "connection closed before end of head" }
  | some i =>
    let r := parseHead { head_complete := true, head_bytes := stream.take (i + 4) }
    if r.head_malformed then r
    else finishBody (classifyFraming r) max_body ⟨stream.drop (i + 4), true, none, []⟩

/-! ## The loops on a stream in pieces -/

/-- How the loop for the head ends on a stream in pieces: after the pieces `pre`, with a head, at
the cap, or at the end of the stream. -/
structure HeadCut (max_head : ℕ) (buf : Bytes) (segs pre post : List Bytes) : Prop where
  split : segs = pre ++ post
  bytes : (recvHead max_head (cutEvents segs) buf).bytes = buf ++ pre.flatten
  error : (recvHead max_head (cutEvents segs) buf).error = none
  /-- The loop goes on only while there is no head. -/
  before : ∀ p s t, pre = p ++ s :: t → findSub CRLFCRLF (buf ++ p.flatten) = none
  stop : ((findSub CRLFCRLF (buf ++ pre.flatten)).isSome ∨ max_head ≤ (buf ++ pre.flatten).length) ∧
      (recvHead max_head (cutEvents segs) buf).rest = cutEvents post ∨
    findSub CRLFCRLF (buf ++ pre.flatten) = none ∧ post = [] ∧
      (buf ++ pre.flatten).length < max_head

/-- The loop for the head ends with a head, at the cap, or at the end of the stream. -/
theorem recvHead_cut (max_head : ℕ) (segs : List Bytes) (hpos : ∀ seg ∈ segs, seg ≠ [])
    (buf : Bytes) (hbuf : findSub CRLFCRLF buf = none) :
    ∃ pre post, HeadCut max_head buf segs pre post := by
  -- By induction on the pieces; `buf` has no end of a head, as the loop goes on only then.
  induction segs generalizing buf with
  | nil =>
    refine ⟨[], [], rfl, ?_, ?_, by simp, ?_⟩
    all_goals
      simp only [cutEvents, List.map_nil, List.nil_append, recvHead, List.flatten_nil,
        List.append_nil]
      split_ifs with hcap
    · rfl
    · rfl
    · rfl
    · rfl
    · exact .inr ⟨hbuf, trivial, hcap⟩
    · exact .inl ⟨.inr (Nat.le_of_not_lt hcap), rfl⟩
  | cons seg segs ih =>
    have hne := hpos seg List.mem_cons_self
    have hpos' : ∀ s ∈ segs, s ≠ [] := fun s hs => hpos s (List.mem_cons_of_mem _ hs)
    have hcons : cutEvents (seg :: segs) = .recv seg :: cutEvents segs := rfl
    by_cases hcap : buf.length < max_head
    · cases hfind : findSub CRLFCRLF (buf ++ seg) with
      -- The end of the head arrives with this piece.
      | some i =>
        have hloop : recvHead max_head (cutEvents (seg :: segs)) buf =
            ⟨buf ++ seg, false, none, cutEvents segs⟩ := by
          simp only [hcons, recvHead, if_pos hcap, if_neg hne, hfind]
        refine ⟨[seg], segs, rfl, by simp [hloop], by rw [hloop], fun p s t hp => ?_, .inl ⟨.inl ?_, ?_⟩⟩
        · obtain ⟨rfl, -, -⟩ | ⟨p', rfl, hp'⟩ := List.cons_eq_append_iff.mp hp
          · rwa [List.flatten_nil, List.append_nil]
          · simp at hp'
        · rw [List.flatten_singleton, hfind]
          rfl
        · rw [hloop]
      -- It does not: the loop goes on with a longer buffer.
      | none =>
        have hloop : recvHead max_head (cutEvents (seg :: segs)) buf =
            recvHead max_head (cutEvents segs) (buf ++ seg) := by
          simp only [hcons, recvHead, if_pos hcap, if_neg hne, hfind]
        obtain ⟨pre, post, hsplit, hbytes, herr, hbefore, hstop⟩ := ih hpos' (buf ++ seg) hfind
        refine ⟨seg :: pre, post, by rw [hsplit]; rfl, ?_, by rw [hloop, herr], fun p s t hp => ?_, ?_⟩
        · rw [hloop, hbytes, List.flatten_cons, List.append_assoc]
        · obtain ⟨rfl, -, -⟩ | ⟨p', rfl, hp'⟩ := List.cons_eq_append_iff.mp hp
          · rwa [List.flatten_nil, List.append_nil]
          · rw [List.flatten_cons, ← List.append_assoc]
            exact hbefore p' s t hp'
        · rw [hloop, List.flatten_cons, ← List.append_assoc]
          exact hstop
    · have hloop : recvHead max_head (cutEvents (seg :: segs)) buf =
          ⟨buf, false, none, cutEvents (seg :: segs)⟩ := by
        rw [hcons, recvHead, if_neg hcap]
      refine ⟨[], seg :: segs, rfl, by simp [hloop], by rw [hloop], by simp, .inl ⟨.inr ?_, by rw [hloop]⟩⟩
      rw [List.flatten_nil, List.append_nil]
      omega

/-- How the loop for the body ends on a stream in pieces: after the pieces `pre`, past the cap, when
it is done, or at the end of the stream. -/
structure BodyCut (done : ℕ → Bool) (max_body : ℕ) (body : Bytes) (segs pre post : List Bytes) :
    Prop where
  split : segs = pre ++ post
  bytes : (recvBody done max_body (cutEvents segs) body).bytes = body ++ pre.flatten
  error : (recvBody done max_body (cutEvents segs) body).error = none
  /-- The loop goes on only while it is not done. -/
  before : ∀ p s t, pre = p ++ s :: t → done (body ++ p.flatten).length = false
  stop : (max_body < (body ++ pre.flatten).length ∨ done (body ++ pre.flatten).length) ∧
      (recvBody done max_body (cutEvents segs) body).eof = false ∨
    post = [] ∧ (body ++ pre.flatten).length ≤ max_body ∧
      (recvBody done max_body (cutEvents segs) body).eof = true

/-- The loop for the body ends past the cap, when it is done, or at the end of the stream. -/
theorem recvBody_cut (done : ℕ → Bool) (max_body : ℕ) (segs : List Bytes)
    (hpos : ∀ seg ∈ segs, seg ≠ []) (body : Bytes) :
    ∃ pre post, BodyCut done max_body body segs pre post := by
  -- By induction on the pieces; the loop tests the length before it receives.
  induction segs generalizing body with
  | nil =>
    refine ⟨[], [], rfl, ?_, ?_, by simp, ?_⟩
    all_goals
      simp only [cutEvents, List.map_nil, List.nil_append, recvBody, List.flatten_nil,
        List.append_nil]
      split_ifs with hstop
    · rfl
    · rfl
    · rfl
    · rfl
    · exact .inl ⟨hstop, rfl⟩
    · exact .inr ⟨trivial, Nat.le_of_not_lt (not_or.mp hstop).1, rfl⟩
  | cons seg segs ih =>
    have hne := hpos seg List.mem_cons_self
    have hpos' : ∀ s ∈ segs, s ≠ [] := fun s hs => hpos s (List.mem_cons_of_mem _ hs)
    have hcons : cutEvents (seg :: segs) = .recv seg :: cutEvents segs := rfl
    by_cases hstop : max_body < body.length ∨ done body.length = true
    · have hloop : recvBody done max_body (cutEvents (seg :: segs)) body =
          ⟨body, false, none, cutEvents (seg :: segs)⟩ := by
        rw [hcons, recvBody, if_pos hstop]
      refine ⟨[], seg :: segs, rfl, by simp [hloop], by rw [hloop], by simp, .inl ⟨?_, by rw [hloop]⟩⟩
      rwa [List.flatten_nil, List.append_nil]
    · have hloop : recvBody done max_body (cutEvents (seg :: segs)) body =
          recvBody done max_body (cutEvents segs) (body ++ seg) := by
        simp only [hcons, recvBody, if_neg hstop, if_neg hne]
      obtain ⟨pre, post, hsplit, hbytes, herr, hbefore, hend⟩ := ih hpos' (body ++ seg)
      refine ⟨seg :: pre, post, by rw [hsplit]; rfl, ?_, by rw [hloop, herr], fun p s t hp => ?_, ?_⟩
      · rw [hloop, hbytes, List.flatten_cons, List.append_assoc]
      · obtain ⟨rfl, -, -⟩ | ⟨p', rfl, hp'⟩ := List.cons_eq_append_iff.mp hp
        · rw [List.flatten_nil, List.append_nil]
          simpa using (not_or.mp hstop).2
        · rw [List.flatten_cons, ← List.append_assoc]
          exact hbefore p' s t hp'
      · rw [hloop, List.flatten_cons, ← List.append_assoc]
        exact hend

/-- What has arrived and what has not are the stream, so the first is the beginning of it. -/
theorem take_of_append_eq {xs ys stream : Bytes} (h : xs ++ ys = stream) {n : ℕ}
    (hn : n ≤ xs.length) : xs.take n = stream.take n ∧ xs.drop n ++ ys = stream.drop n := by
  subst h
  rw [List.take_append_of_le_length hn, List.drop_append_of_le_length hn]
  exact ⟨rfl, rfl⟩

section Stream

variable {max_head max_body : ℕ} {stream : Bytes} {segs : List Bytes}

/-- A head within the cap is found wherever the stream was cut. -/
theorem recvHead_found_cut (hflat : segs.flatten = stream) (hpos : ∀ seg ∈ segs, seg ≠ []) {i : ℕ}
    (hi : findSub CRLFCRLF stream = some i) (hcap : i + 4 ≤ max_head) :
    ∃ pre post, segs = pre ++ post ∧
      (recvHead max_head (cutEvents segs) []).bytes = pre.flatten ∧
      (recvHead max_head (cutEvents segs) []).rest = cutEvents post ∧
      findSub CRLFCRLF pre.flatten = some i ∧
      ∀ p s t, pre = p ++ s :: t → findSub CRLFCRLF p.flatten = none := by
  obtain ⟨pre, post, rfl, hbytes, -, hbefore, hend⟩ := recvHead_cut max_head segs hpos [] rfl
  simp only [List.nil_append] at hbytes hbefore hend
  have hsplit : pre.flatten ++ post.flatten = stream := by rw [← List.flatten_append, hflat]
  have hin : i + 4 ≤ stream.length := findSub_add_length_le hi
  rcases hend with ⟨hstop, hrest⟩ | ⟨hnone, rfl, -⟩
  · refine ⟨pre, post, rfl, hbytes, hrest, ?_, hbefore⟩
    rcases hstop with hsome | hlong
    · obtain ⟨k, hk⟩ := Option.isSome_iff_exists.mp hsome
      have hk' := findSub_append post.flatten hk
      rw [hsplit, hi] at hk'
      rw [hk, hk']
    · -- The cap was reached, so the head is in what was read.
      have htake := (take_of_append_eq hsplit (n := pre.flatten.length) le_rfl).1
      rw [List.take_length] at htake
      rw [htake]
      exact findSub_take hi (hcap.trans hlong)
  · rw [List.flatten_nil, List.append_nil] at hsplit
    rw [hsplit, hi] at hnone
    exact absurd hnone (by simp)

/-- Without a head within the cap, the same bytes are kept and the same error is reported. -/
theorem receive_no_head (hflat : segs.flatten = stream) (hpos : ∀ seg ∈ segs, seg ≠ [])
    (hno : (findSub CRLFCRLF stream).filter (· + 4 ≤ max_head) = none) :
    (receive max_head max_body (cutEvents segs) {}).1 = streamResponse max_head max_body stream := by
  obtain ⟨pre, post, rfl, hbytes, herr, -, hend⟩ := recvHead_cut max_head segs hpos [] rfl
  simp only [List.nil_append] at hbytes hend
  have hsplit : pre.flatten ++ post.flatten = stream := by rw [← List.flatten_append, hflat]
  -- What was read has no head within the cap either.
  have hno' : (findSub CRLFCRLF pre.flatten).filter (· + 4 ≤ max_head) = none := by
    cases hf : findSub CRLFCRLF pre.flatten with
    | none => rfl
    | some k =>
      have hk := findSub_append post.flatten hf
      rw [hsplit] at hk
      rwa [hk] at hno
  have hlen : max_head ≤ pre.flatten.length ∨ post = [] ∧ stream.length < max_head ∧
      findSub CRLFCRLF pre.flatten = none := by
    rcases hend with ⟨hsome | hlong, -⟩ | ⟨hnone, rfl, hshort⟩
    · obtain ⟨k, hk⟩ := Option.isSome_iff_exists.mp hsome
      have hin : k + 4 ≤ pre.flatten.length := findSub_add_length_le hk
      rw [hk, Option.filter_some] at hno'
      split_ifs at hno' with hle
      have hgt : ¬ k + 4 ≤ max_head := by simpa using hle
      exact .inl (by omega)
    · exact .inl hlong
    · refine .inr ⟨rfl, ?_, hnone⟩
      rwa [← hsplit, List.flatten_nil, List.append_nil]
  unfold receive streamResponse
  dsimp only
  rw [hbytes, hno, hno', herr]
  rcases hlen with hlong | ⟨rfl, hshort, hnone⟩
  · have hle : max_head ≤ stream.length := by
      rw [← hsplit, List.length_append]
      omega
    simp only [Option.getD_none, (take_of_append_eq hsplit hlong).1, hlong, hle, or_true, if_true]
  · rw [List.flatten_nil, List.append_nil] at hsplit
    rw [hsplit] at hnone ⊢
    simp [hnone, Nat.not_le.mpr hshort]

/-- The response does not depend on what was received beyond the cap of the body, and on the end of
the stream only when the body is delimited by it. -/
theorem finishBody_congr {r : RawResponse} {b b' : Received} (herr : b.error = b'.error)
    (hlen : min b.bytes.length (max_body + 1) = min b'.bytes.length (max_body + 1))
    (heof : r.framing = .closeDelimited → b.bytes.length ≤ max_body → b.eof = b'.eof) :
    finishBody r max_body b = finishBody r max_body b' := by
  have hsize : min b.bytes.length max_body = min b'.bytes.length max_body := by omega
  have htrunc : (max_body < b.bytes.length) = (max_body < b'.bytes.length) := by
    rw [eq_iff_iff]
    omega
  unfold finishBody
  simp only [herr, hsize, htrunc]
  by_cases hf : r.framing = .closeDelimited
  · by_cases hle : b.bytes.length ≤ max_body
    · rw [heof hf hle]
    · have hgt : max_body < b'.bytes.length := by omega
      simp [hgt]
  · cases hframing : r.framing with
    | closeDelimited => exact absurd hframing hf
    | contentLength => rfl
    | unset => rfl
    | chunkedUnqualified => rfl
    | invalid => rfl

/-- A body that does not go on after its declared length is received as a whole, as far as the cap
lets it be. -/
theorem recvBody_whole {r : RawResponse} {body : Bytes} (hpos : ∀ seg ∈ segs, seg ≠ [])
    (hno : ¬ ∃ v : ℕ, r.framing = .contentLength ∧ r.content_length = v ∧ v ≤ max_body ∧
      v < (body ++ segs.flatten).length) :
    finishBody r max_body (recvBody r.bodyDone max_body (cutEvents segs) body) =
      finishBody r max_body ⟨body ++ segs.flatten, true, none, []⟩ := by
  obtain ⟨pre, post, rfl, hbytes, herr, -, hend⟩ := recvBody_cut r.bodyDone max_body segs hpos body
  have hwhole : (body ++ (pre ++ post).flatten).length =
      (body ++ pre.flatten).length + post.flatten.length := by
    simp only [List.flatten_append, List.length_append]
    omega
  rcases hend with ⟨hlong | hdone, -⟩ | ⟨rfl, -, heof⟩
  · -- Past the cap, both are cut at it.
    refine finishBody_congr herr ?_ fun _ hle => ?_
    · rw [hbytes]
      dsimp only
      omega
    · rw [hbytes] at hle
      omega
  · -- Done, so there was no more to come, unless the cap had been passed too.
    simp only [RawResponse.bodyDone, decide_eq_true_eq] at hdone
    obtain ⟨hf, hnonneg, hle⟩ := hdone
    obtain ⟨v, hv⟩ := Int.eq_ofNat_of_zero_le hnonneg
    refine finishBody_congr herr ?_ fun hc => ?_
    · rw [hbytes]
      dsimp only
      by_cases hcap : v ≤ max_body
      · have hstop : ¬ v < (body ++ (pre ++ post).flatten).length :=
          fun hlt => hno ⟨v, hf, hv, hcap, hlt⟩
        omega
      · omega
    · rw [hf] at hc
      exact absurd hc (by simp)
  · refine finishBody_congr herr ?_ fun _ _ => heof
    rw [hbytes, List.append_nil]

/-- Unless the stream goes on after a body of declared length, the response is that to the whole
stream. -/
theorem receive_cut (hflat : segs.flatten = stream) (hpos : ∀ seg ∈ segs, seg ≠ [])
    (hno : ¬ Surplus max_head max_body stream) :
    (receive max_head max_body (cutEvents segs) {}).1 = streamResponse max_head max_body stream := by
  cases hfilter : (findSub CRLFCRLF stream).filter (· + 4 ≤ max_head) with
  | none => exact receive_no_head hflat hpos hfilter
  | some i =>
    obtain ⟨hi, hcap⟩ := Option.filter_eq_some_iff.mp hfilter
    have hcap' : i + 4 ≤ max_head := by simpa using hcap
    -- The head is complete after the pieces `pre`, which may contain the first bytes of the body.
    obtain ⟨pre, post, rfl, hbytes, hrest, hfind, -⟩ := recvHead_found_cut hflat hpos hi hcap'
    have hsplit : pre.flatten ++ post.flatten = stream := by rw [← List.flatten_append, hflat]
    have hin : i + 4 ≤ pre.flatten.length := findSub_add_length_le hfind
    obtain ⟨htake, hdrop⟩ := take_of_append_eq hsplit hin
    have hpost : ∀ seg ∈ post, seg ≠ [] := fun s hs => hpos s (List.mem_append_right _ hs)
    unfold receive streamResponse
    dsimp only
    rw [hbytes, hrest, hfind, hi]
    simp only [Option.filter_some, decide_eq_true hcap', if_true, htake]
    unfold receiveBody
    dsimp only
    split_ifs with hmal
    · rfl
    · rw [← hdrop]
      -- The body is read whole, unless its declared length ends inside the stream.
      refine recvBody_whole hpost ?_
      rintro ⟨v, hf, hv, hle, hlt⟩
      rw [hdrop] at hlt
      exact hno ⟨i, v, hi, hcap', by simpa using hmal, hf, hv, hle, hlt⟩

/-! ## Two ways of cutting that differ -/

/-- A response with a surplus, once its head is there. -/
theorem receive_of_head {pre post : List Bytes} {i v : ℕ} (hi : i + 4 ≤ max_head)
    (htake : pre.flatten.take (i + 4) = stream.take (i + 4)) (hfind : findSub CRLFCRLF pre.flatten = some i)
    (hbytes : (recvHead max_head (cutEvents segs) []).bytes = pre.flatten)
    (hrest : (recvHead max_head (cutEvents segs) []).rest = cutEvents post)
    (h : SurplusAt max_head max_body stream i v) :
    (receive max_head max_body (cutEvents segs) {}).1 =
      finishBody (headResponse (stream.take (i + 4))) max_body
        (recvBody (headResponse (stream.take (i + 4))).bodyDone max_body (cutEvents post)
          (pre.flatten.drop (i + 4))) := by
  obtain ⟨-, -, hmal, -⟩ := h
  unfold receive
  dsimp only
  rw [hbytes, hrest, hfind]
  simp only [Option.filter_some, decide_eq_true hi, if_true, htake]
  unfold receiveBody
  dsimp only
  rw [if_neg (by simp [hmal])]
  rfl

/-- A message that goes on after its body is complete exactly if there is a cut at the end of the
body. -/
theorem receive_surplus_iff {i v : ℕ} (hflat : segs.flatten = stream)
    (hpos : ∀ seg ∈ segs, seg ≠ []) (h : SurplusAt max_head max_body stream i v) :
    (receive max_head max_body (cutEvents segs) {}).1.message_complete = true ↔
      ∃ before after, segs = before ++ after ∧ before.flatten.length = i + 4 + v := by
  have hsurplus := h
  obtain ⟨hi, hcap, -, hf, hv, hle, hlt⟩ := h
  obtain ⟨pre, rest, rfl, hbytes, hrest, hfind, hbefore⟩ := recvHead_found_cut hflat hpos hi hcap
  have hsplit : pre.flatten ++ rest.flatten = stream := by rw [← List.flatten_append, hflat]
  have hin : i + 4 ≤ pre.flatten.length := findSub_add_length_le hfind
  obtain ⟨htake, hdrop⟩ := take_of_append_eq hsplit hin
  have hpost : ∀ seg ∈ rest, seg ≠ [] := fun s hs => hpos s (List.mem_append_right _ hs)
  rw [receive_of_head hcap htake hfind hbytes hrest hsurplus]
  generalize headResponse (stream.take (i + 4)) = r at hf hv
  obtain ⟨mid, post, rfl, hgot, herr, hwhile, hend⟩ :=
    recvBody_cut r.bodyDone max_body rest hpost (pre.flatten.drop (i + 4))
  -- The number of bytes that the loop for the body has seen, in terms of the whole.
  have hcount : ∀ p : List Bytes,
      (pre.flatten.drop (i + 4) ++ p.flatten).length + (i + 4) = (pre ++ p).flatten.length := by
    intro p
    simp only [List.flatten_append, List.length_append, List.length_drop]
    omega
  have hdone : ∀ n, r.bodyDone n = decide (v ≤ n) := by
    intro n
    simp [RawResponse.bodyDone, hf, hv]
  have hmid := hcount mid
  have hreached : i + 4 + v ≤ (pre ++ mid).flatten.length := by
    rcases hend with ⟨hlong | hd, -⟩ | ⟨rfl, -, -⟩
    · omega
    · rw [hdone, decide_eq_true_eq] at hd
      omega
    · rw [← hdrop, List.append_nil] at hlt
      omega
  have hcomplete : (finishBody r max_body (recvBody r.bodyDone max_body (cutEvents (mid ++ post))
      (pre.flatten.drop (i + 4)))).message_complete = true ↔
        (pre ++ mid).flatten.length = i + 4 + v := by
    unfold finishBody
    simp only [hf, hv, herr, hgot, Option.isNone_none, Bool.true_and, Bool.and_eq_true,
      Bool.not_eq_true', decide_eq_false_iff_not, not_lt, decide_eq_true_eq]
    omega
  have hrun : ∀ d s c, mid = d ++ s :: c → (pre ++ d).flatten.length ≠ i + 4 + v := by
    intro d s c hd
    have hwait := hwhile d s c hd
    have hd' := hcount d
    rw [hdone, decide_eq_false_iff_not] at hwait
    omega
  rw [hcomplete]
  constructor
  · intro hlen
    exact ⟨pre ++ mid, post, (List.append_assoc _ _ _).symm, hlen⟩
  · rintro ⟨p, t, hp, hlen⟩
    by_contra hne
    have hflat' : p.flatten ++ t.flatten = stream := by rw [← List.flatten_append, ← hp, hflat]
    rw [← List.append_assoc] at hp
    -- Otherwise the cut is inside of what was read, and a loop would have stopped there.
    rcases List.append_eq_append_iff.mp hp with ⟨c, rfl, -⟩ | ⟨c, hc, -⟩
    · rw [List.flatten_append, List.length_append] at hlen
      omega
    · cases c with
      | nil =>
        rw [List.append_nil] at hc
        exact hne (hc ▸ hlen)
      | cons s c =>
        rcases List.append_eq_append_iff.mp hc with ⟨d, rfl, hd⟩ | ⟨d, hd, hsc⟩
        · exact hrun d s c hd hlen
        · cases d with
          | nil =>
            rw [List.append_nil] at hd
            exact hrun [] s c hsc.symm (by rwa [List.append_nil, hd])
          | cons s' d =>
            have hnone := hbefore p s' d hd
            obtain ⟨htake', -⟩ := take_of_append_eq hflat' (le_refl p.flatten.length)
            rw [List.take_length] at htake'
            have hsome : findSub CRLFCRLF (stream.take p.flatten.length) = some i :=
              findSub_take hi (by rw [hlen]; exact Nat.le_add_right _ _)
            rw [htake', hsome] at hnone
            exact absurd hnone (by simp)


end Stream

/-- A stream cut into single bytes. -/
def bytewise (s : Bytes) : List Bytes := s.map fun c => [c]

/-- A stream cut into single bytes, but for the two bytes from `k` on, which come together. -/
def twoTogether (k : ℕ) (s : Bytes) : List Bytes :=
  bytewise (s.take k) ++ (s.drop k).take 2 :: bytewise (s.drop (k + 2))

@[simp]
theorem flatten_bytewise (s : Bytes) : (bytewise s).flatten = s := by
  unfold bytewise
  rw [← List.flatMap_def]
  simp

/-- Every stream can be cut byte by byte. -/
theorem cuts_bytewise (s : Bytes) : Cuts s (bytewise s) where
  flatten := flatten_bytewise s
  length_pos := by simp [bytewise]
  length_le := by simp [bytewise]

/-- Two bytes of a stream can come together. -/
theorem cuts_twoTogether {k : ℕ} {s : Bytes} (hk : k < s.length) : Cuts s (twoTogether k s) where
  flatten := by
    unfold twoTogether
    rw [List.flatten_append, List.flatten_cons, flatten_bytewise, flatten_bytewise, ← List.drop_drop,
      List.take_append_drop, List.take_append_drop]
  length_pos := by
    intro seg hseg
    unfold twoTogether at hseg
    rcases List.mem_append.mp hseg with hseg | hseg
    · exact (cuts_bytewise _).length_pos seg hseg
    · rcases List.mem_cons.mp hseg with rfl | hseg
      · rw [List.length_take, List.length_drop]
        omega
      · exact (cuts_bytewise _).length_pos seg hseg
  length_le := by
    intro seg hseg
    unfold twoTogether at hseg
    rcases List.mem_append.mp hseg with hseg | hseg
    · exact (cuts_bytewise _).length_le seg hseg
    · rcases List.mem_cons.mp hseg with rfl | hseg
      · rw [List.length_take]
        omega
      · exact (cuts_bytewise _).length_le seg hseg

/-- When two bytes arrive together, no cut is between them. -/
theorem twoTogether_not_between {k : ℕ} {s : Bytes} (hk : k + 1 < s.length)
    {before after : List Bytes} (h : twoTogether k s = before ++ after) :
    before.flatten.length ≠ k + 1 := by
  have hleft : (bytewise (s.take k)).flatten.length = k := by
    rw [flatten_bytewise, List.length_take]
    omega
  unfold twoTogether at h
  rcases List.append_eq_append_iff.mp h with ⟨c, rfl, hc⟩ | ⟨c, hc, -⟩
  · rw [List.flatten_append, List.length_append, hleft]
    cases c with
    | nil => simp
    | cons w c =>
      obtain ⟨rfl, -⟩ := List.cons.inj hc
      rw [List.flatten_cons, List.length_append, List.length_take, List.length_drop]
      omega
  · rw [hc, List.flatten_append, List.length_append] at hleft
    omega

/-! ## The exchange -/

/-- What was noted of the request does not matter to the receipt. -/
def RawResponse.emitted (r : RawResponse) (token_bearing : Bool) (request_bytes : ℕ) : RawResponse :=
  { r with request_sent := true, token_bearing, request_bytes }

theorem parseHead_emitted (r : RawResponse) (t : Bool) (n : ℕ) :
    parseHead (r.emitted t n) = (parseHead r).emitted t n := by
  have hbytes : (r.emitted t n).head_bytes = r.head_bytes := rfl
  unfold parseHead
  rw [hbytes]
  cases crlfLines r.head_bytes with
  | nil => rfl
  | cons line lines =>
    dsimp only
    cases parseStatusLine line with
    | none => rfl
    | some x =>
      dsimp only
      split_ifs <;> rfl

theorem classifyFraming_emitted (r : RawResponse) (t : Bool) (n : ℕ) :
    classifyFraming (r.emitted t n) = (classifyFraming r).emitted t n := by
  unfold classifyFraming
  have hcount : (r.emitted t n).count = r.count := rfl
  have hfirst : (r.emitted t n).first = r.first := rfl
  have hfields : (r.emitted t n).fields = r.fields := rfl
  simp only [hcount, hfirst, hfields]
  split_ifs
  · rfl
  · rfl
  · rfl
  · split <;> rfl

theorem finishBody_emitted (r : RawResponse) (max_body : ℕ) (b : Received) (t : Bool) (n : ℕ) :
    finishBody (r.emitted t n) max_body b = (finishBody r max_body b).emitted t n := by
  unfold finishBody
  have hframing : (r.emitted t n).framing = r.framing := rfl
  simp only [hframing]
  cases r.framing <;> rfl

/-- The receipt is the same whatever was noted of the request. -/
theorem receive_emitted (max_head max_body : ℕ) (recvs : List RecvEvent) (r : RawResponse) (t : Bool)
    (n : ℕ) :
    (receive max_head max_body recvs (r.emitted t n)).1 =
      (receive max_head max_body recvs r).1.emitted t n := by
  unfold receive
  dsimp only
  cases (findSub CRLFCRLF (recvHead max_head recvs []).bytes).filter (· + 4 ≤ max_head) with
  | none => rfl
  | some i =>
    dsimp only
    generalize (recvHead max_head recvs []).bytes.take (i + 4) = head
    have hhead : { r.emitted t n with head_complete := true, head_bytes := head } =
        RawResponse.emitted { r with head_complete := true, head_bytes := head } t n := rfl
    unfold receiveBody
    rw [hhead, parseHead_emitted]
    generalize parseHead { r with head_complete := true, head_bytes := head } = r₁
    have hmal : (r₁.emitted t n).head_malformed = r₁.head_malformed := rfl
    dsimp only
    rw [hmal]
    split_ifs
    · rfl
    · rw [classifyFraming_emitted, finishBody_emitted]
      rfl

/-- The request was built and all of it was sent. -/
def RequestSent (host_header target : Bytes) (headers : HeaderList) (net : Network) : Prop :=
  net.connect_error = none ∧ ∃ req token_bearing,
    buildRequest host_header target headers = .ok (req, token_bearing) ∧
      req.length ≤ (sendLoop req.length net.sends 0).1

section Exchange

variable {host_header target : Bytes} {headers : HeaderList} {max_head max_body : ℕ}

/-- After a whole request, the exchange is what the receive loops make of it. -/
theorem rawHttpGet_sent {connect_error : Option Bytes} {sends : List SendEvent}
    (h : RequestSent host_header target headers ⟨connect_error, sends, []⟩) :
    ∃ t n, ∀ recvs, rawHttpGet host_header target headers max_head max_body
      ⟨connect_error, sends, recvs⟩ =
        .ok (receive max_head max_body recvs (RawResponse.emitted {} t n)) := by
  obtain ⟨hconn, req, token_bearing, hbuild, hlen⟩ := h
  refine ⟨token_bearing, (sendLoop req.length sends 0).1, fun recvs => ?_⟩
  dsimp only at hconn hlen
  unfold rawHttpGet
  rw [hbuild]
  simp only [bind, Except.bind, pure, Except.pure, hconn, if_neg (Nat.not_lt.mpr hlen)]
  rfl

/-- Without a whole request, nothing is received. -/
theorem rawHttpGet_not_sent {connect_error : Option Bytes} {sends : List SendEvent}
    (h : ¬ RequestSent host_header target headers ⟨connect_error, sends, []⟩)
    {recvs₁ recvs₂ : List RecvEvent} {r₁ r₂ : RawResponse × List RecvEvent}
    (h₁ : rawHttpGet host_header target headers max_head max_body ⟨connect_error, sends, recvs₁⟩ =
      .ok r₁)
    (h₂ : rawHttpGet host_header target headers max_head max_body ⟨connect_error, sends, recvs₂⟩ =
      .ok r₂) : r₁.1 = r₂.1 := by
  unfold rawHttpGet at h₁ h₂
  cases hbuild : buildRequest host_header target headers with
  | error e =>
    rw [hbuild] at h₁
    exact absurd h₁ (by simp [bind, Except.bind])
  | ok msg =>
    rw [hbuild] at h₁ h₂
    simp only [bind, Except.bind, pure, Except.pure] at h₁ h₂
    cases hconn : connect_error with
    | some e =>
      simp only [hconn, Except.ok.injEq] at h₁ h₂
      rw [← h₁, ← h₂]
    | none =>
      -- Connected, with a request that was not sent whole: the exchange ends before any receive.
      have hshort : (sendLoop msg.1.length sends 0).1 < msg.1.length := by
        by_contra hlen
        exact h ⟨hconn, msg.1, msg.2, hbuild, Nat.le_of_not_lt hlen⟩
      simp only [hconn, if_pos hshort, Except.ok.injEq] at h₁ h₂
      rw [← h₁, ← h₂]

end Exchange

/-- What the receipt of an exchange consists of, and the decision that rests on it. -/
structure SameReceipt (r₁ r₂ : RawResponse) : Prop where
  head_complete : r₁.head_complete = r₂.head_complete
  head_malformed : r₁.head_malformed = r₂.head_malformed
  head_bytes : r₁.head_bytes = r₂.head_bytes
  fields : r₁.fields = r₂.fields
  framing : r₁.framing = r₂.framing
  body_octets : r₁.body_octets = r₂.body_octets
  body_truncated : r₁.body_truncated = r₂.body_truncated
  message_complete : r₁.message_complete = r₂.message_complete
  authority : ∀ proto expected requested,
    completionAuthority (viewReceipt r₁ requested) proto expected requested =
      completionAuthority (viewReceipt r₂ requested) proto expected requested

/-- An exchange whose receipt is the same for any two ways of cutting the response. -/
def CutIndependent (exchange : List RecvEvent → Except Bytes (RawResponse × List RecvEvent))
    (stream : Bytes) : Prop :=
  ∀ segs₁ segs₂, Cuts stream segs₁ → Cuts stream segs₂ → ∀ r₁ r₂,
    exchange (cutEvents segs₁) = .ok r₁ → exchange (cutEvents segs₂) = .ok r₂ → SameReceipt r₁.1 r₂.1

/-- The receipt does not depend on the segmentation of the response, unless the response goes on
after a body of declared length within the cap. -/
theorem rawHttpGet_cutIndependent_iff (host_header target : Bytes) (headers : HeaderList)
    (max_head max_body : ℕ) (connect_error : Option Bytes) (sends : List SendEvent) (stream : Bytes) :
    CutIndependent (fun recvs => rawHttpGet host_header target headers max_head max_body
        ⟨connect_error, sends, recvs⟩) stream ↔
      ¬ (RequestSent host_header target headers ⟨connect_error, sends, []⟩ ∧
        Surplus max_head max_body stream) := by
  constructor
  · -- Byte by byte the message is complete, and with a piece across the end of the body it is not.
    rintro hind ⟨hsent, i, v, hsurplus⟩
    obtain ⟨t, n, hget⟩ := rawHttpGet_sent hsent
    have hlen : i + 4 + v < stream.length := by
      have hlt := hsurplus.2.2.2.2.2.2
      rw [List.length_drop] at hlt
      omega
    have hk : i + 3 + v + 1 < stream.length := by omega
    have hsame := (hind (bytewise stream) (twoTogether (i + 3 + v) stream) (cuts_bytewise stream)
      (cuts_twoTogether (by omega)) _ _ (hget _) (hget _)).message_complete
    rw [receive_emitted, receive_emitted] at hsame
    have hone := (receive_surplus_iff (cuts_bytewise stream).flatten (cuts_bytewise stream).ne_nil
      hsurplus).mpr ⟨bytewise (stream.take (i + 4 + v)), bytewise (stream.drop (i + 4 + v)), by
        unfold bytewise
        rw [← List.map_append, List.take_append_drop], by
        rw [flatten_bytewise, List.length_take]
        omega⟩
    have htwo := (receive_surplus_iff (cuts_twoTogether (by omega)).flatten
      (cuts_twoTogether (by omega)).ne_nil hsurplus).mp (hsame.symm.trans hone)
    obtain ⟨before, after, hcut, hend⟩ := htwo
    exact twoTogether_not_between hk hcut (by omega)
  · intro hno segs₁ segs₂ hcut₁ hcut₂ r₁ r₂ h₁ h₂
    by_cases hsent : RequestSent host_header target headers ⟨connect_error, sends, []⟩
    · have hfree : ¬ Surplus max_head max_body stream := fun hs => hno ⟨hsent, hs⟩
      obtain ⟨t, n, hget⟩ := rawHttpGet_sent hsent
      have hr : ∀ segs, Cuts stream segs → ∀ r,
          rawHttpGet host_header target headers max_head max_body
            ⟨connect_error, sends, cutEvents segs⟩ = .ok r →
          r.1 = (streamResponse max_head max_body stream).emitted t n := by
        intro segs hcut r hr
        rw [hget] at hr
        rw [← Except.ok.inj hr, receive_emitted, receive_cut hcut.flatten hcut.ne_nil hfree]
      rw [hr segs₁ hcut₁ r₁ h₁, hr segs₂ hcut₂ r₂ h₂]
      exact ⟨rfl, rfl, rfl, rfl, rfl, rfl, rfl, rfl, fun _ _ _ => rfl⟩
    · rw [rawHttpGet_not_sent hsent h₁ h₂]
      exact ⟨rfl, rfl, rfl, rfl, rfl, rfl, rfl, rfl, fun _ _ _ => rfl⟩

/-- A response of the legacy convention with an empty body and one byte after it. -/
def surplusResponse : Bytes :=
  ascii "HTTP/1.1 200 OK" ++ CRLF ++ ascii "x-amz-rdma-reply: 200" ++ CRLF ++
    ascii "x-amz-rdma-bytes-transferred: 5" ++ CRLF ++ ascii "Content-Length: 0" ++ CRLF ++ CRLF ++
    ascii "x"

/-- Whether that byte comes with the head decides about the receipt. -/
theorem rawHttpGet_cut_decides :
    ¬ CutIndependent (fun recvs => rawHttpGet (ascii "h") (ascii "/b/o") [] 1000 10
      ⟨none, [.accepted 1000 (by decide)], recvs⟩) surplusResponse := by
  intro hind
  have hsent : RequestSent (ascii "h") (ascii "/b/o") [] ⟨none, [.accepted 1000 (by decide)], []⟩ :=
    ⟨rfl, _, _, rfl, by decide +kernel⟩
  obtain ⟨t, n, hget⟩ := rawHttpGet_sent hsent
  have hlength : surplusResponse.length = 95 := by decide +kernel
  have hone : Cuts surplusResponse [surplusResponse] :=
    ⟨by simp, by simp [hlength], by simp [hlength]⟩
  have htwo : Cuts surplusResponse [surplusResponse.take 94, surplusResponse.drop 94] :=
    ⟨by simp, by simp [hlength], by simp [hlength]⟩
  have hsame := (hind _ _ hone htwo _ _ (hget _) (hget _)).authority { token_encoding := .base64 } 5 5
  rw [receive_emitted, receive_emitted] at hsame
  have hdiffer : completionAuthority (viewReceipt
      (receive 1000 10 (cutEvents [surplusResponse]) {}).1 5) { token_encoding := .base64 } 5 5 ≠
      completionAuthority (viewReceipt (receive 1000 10
        (cutEvents [surplusResponse.take 94, surplusResponse.drop 94]) {}).1 5)
        { token_encoding := .base64 } 5 5 := by
    decide +kernel
  exact hdiffer hsame

end S3Rdma
