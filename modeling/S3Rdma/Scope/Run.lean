import S3Rdma.Scope.Log

/-!
# A run of the scope probe

`main` of `src/probe/scope_probe_main.cpp`, as the events that it logs. Everything the probe learns
from outside is in `Answers`: what CUDA, the SDK and the HTTP client return, and the bytes that are
found in the arena after a GET. The callbacks of a GET may run on any thread; a line is printed under
a lock, so their events come in some order between those of `main`.

A run that is not cut off logs one result, as its last event (`run_concludes`).
-/

namespace S3Rdma.Scope

open Probe (BufferMode)

/-! ## What the probe learns -/

/-- What a registration returns, with `errno` after it. -/
structure Registration where
  rc : ℤ
  errno : ℤ

/-- What a GET through the SDK does. -/
structure GetAnswer where
  rc : ℤ
  errno_after : ℤ
  /-- The events of its callbacks, with the index of the call. -/
  callbacks : List (ℤ × CallbackEvent)
  start_ms : Millis
  end_ms : Millis
  /-- What `read_span` finds afterwards. -/
  payload : Bytes
  lead : Bytes
  trail : Bytes

/-- What the HEAD request gives. -/
inductive HeadAnswer where
  | buildFailure (what : Bytes)
  | transportFailure (error : Bytes)
  /-- `Content-Length` may be absent, and `std::stoll` may throw on it. -/
  | response (status : ℤ) (content_length : Option (Option ℤ))

/-- What the request of case `m` gives. -/
structure ManualAnswer where
  /-- The request was built without an exception. -/
  built : Bool
  /-- The status, and whether there is a reply field. -/
  response : Option (ℤ × Bool)
  payload : Bytes
  lead : Bytes
  trail : Bytes

/-- Everything that a run learns from outside. -/
structure Answers where
  /-- `finish_protocol_options` found the credentials that it needs. -/
  proto_ok : Bool
  /-- `cudaDevAttrGPUDirectRDMAWritesOrdering`, if it can be queried. -/
  ordering : Option ℤ
  head : HeadAnswer
  registerA : Registration
  registerB : Registration
  /-- `cuMemObjGetMaxRequestCallbackSize`. -/
  capA : ℤ
  capB : ℤ
  getA : GetAnswer
  getB : GetAnswer
  token_rc : ℤ
  /-- The length of the descriptor, if there is one. -/
  desc_len : Option ℕ
  manual : ManualAnswer

/-! ## The parts of `main` -/

/-- `kGuardByte`. -/
def kGuardByte : UInt8 := 0xc3

/-- `read_visibility`. -/
def readVisibility (mode : BufferMode) (ordering : Option ℤ) : Visibility :=
  if mode = .host then { name := .host_na, trustworthy := true }
  else
    match ordering with
    | none => { name := .query_failed }
    | some val =>
      if val ≥ 200 then ⟨val, .all_devices, true⟩
      else if val ≥ 100 then ⟨val, .owner, true⟩
      else ⟨val, .none, false⟩

/-- `make_poison`. -/
def makePoison (len : ℕ) : Bytes := (List.range len).map fun i => UInt8.ofNat (i * 167 + 13)

/-- `HeadResult`. -/
structure HeadResult where
  size : ℤ := -1
  ok : Bool := false
  detail : Bytes := []

/-- `head_object`. -/
def headObject : HeadAnswer → HeadResult
  | .buildFailure what => { detail := ascii "HEAD request build failure: " ++ what }
  | .transportFailure error => { detail := ascii "HEAD transport failure: " ++ error }
  | .response status content_length =>
    if status ≠ 200 then { detail := ascii "HEAD status " ++ decimalInt status }
    else
      match content_length with
      | none => { detail := ascii "HEAD missing Content-Length" }
      | some none => { detail := ascii "HEAD malformed Content-Length" }
      | some (some n) =>
        if n ≤ 0 then { detail := ascii "HEAD non-positive Content-Length" }
        else { size := n, ok := true }

/-- `GetResult`. -/
structure GetResult where
  rc : ℤ
  errno_after : ℤ := 0
  callbacks : ℕ := 0
  start_ms : Millis
  end_ms : Millis

/-- The event begins a callback. -/
def CallbackEvent.isBegin : CallbackEvent → Bool
  | .begin _ _ _ => true
  | .requestError _ => false
  | .transportError _ => false
  | .response _ _ _ _ => false

/-- `issue_get`: a slot in front of the registration is refused without a call. -/
def issueGet (o : Options) (who : Who) (slot : Slot) (registration_origin : ℕ) (g : GetAnswer) :
    List Event × GetResult :=
  if slot.payload.offset < registration_origin then
    ([], { rc := -22, start_ms := g.start_ms, end_ms := g.end_ms })
  else
    (g.callbacks.map fun c => .callback who c.1 o.token_encoding c.2,
      { rc := g.rc, errno_after := g.errno_after,
        callbacks := g.callbacks.countP (·.2.isBegin), start_ms := g.start_ms, end_ms := g.end_ms })

/-- `SlotVerdict`. -/
structure SlotVerdict where
  verdict : Verdict
  detail : Bytes

/-- The decision of `verify_slot`. -/
def slotVerdict (o : Options) (vis : Visibility) (g : GetResult)
    (digest_match guards_intact : Bool) : SlotVerdict :=
  if g.callbacks ≠ 1 then
    ⟨.Inconclusive, ascii "callback count != 1 (split request, not decisive)"⟩
  else if g.rc < 0 then ⟨.Fail, ascii "cuObjGet rc<0"⟩
  else if !vis.trustworthy then
    ⟨.Inconclusive, ascii "gpu rdma write visibility not guaranteed; no flush wired"⟩
  else if !guards_intact then ⟨.Fail, ascii "guard bytes overwritten"⟩
  else if o.expect_sha = [] then
    ⟨.Inconclusive, ascii "no --expect-sha: landing not provable"⟩
  else if g.rc ≠ longLong o.xfer then ⟨.Fail, ascii "rc != xfer"⟩
  else if !digest_match then ⟨.Fail, ascii "payload digest mismatch"⟩
  else ⟨.Pass, ascii "ok"⟩

/-- `verify_slot`. -/
def verifySlot (P : Platform) (o : Options) (vis : Visibility) (who : Who) (slot : Slot)
    (a : GetAnswer) (g : GetResult) : List Event × SlotVerdict :=
  let digest := P.sha256 a.payload
  let digest_match := !o.expect_sha.isEmpty && hex digest == o.expect_sha
  let guards_intact := a.lead.all (· == kGuardByte) && a.trail.all (· == kGuardByte)
  ([.get who slot.payload.offset g.rc g.errno_after g.callbacks g.start_ms g.end_ms,
      .landed who digest digest_match guards_intact vis.name],
    slotVerdict o vis g digest_match guards_intact)

/-- `fold`: the first failure, or else the first slot that is not decisive. -/
def foldVerdicts (svs : List SlotVerdict) : SlotVerdict :=
  match svs.find? (·.verdict = .Fail) with
  | some s => ⟨.Fail, s.detail⟩
  | none =>
    match svs.find? (·.verdict = .Inconclusive) with
    | some s => ⟨.Inconclusive, s.detail⟩
    | none => ⟨.Pass, ascii "ok"⟩

/-- `callback_gate`: the error, if the limit of a callback is unknown or too small. -/
def callbackGate (cap : ℤ) (xfer : ℕ) : Option Bytes :=
  if cap ≤ 0 then
    some (ascii "per-callback max unknown (cap<=0); cannot guarantee single-callback GET")
  else if (xfer : ℤ) > cap then
    some (ascii "xfer exceeds per-callback max (would split into multiple callbacks)")
  else none

/-- `result`. -/
def result (v : Verdict) (detail : Bytes) : List Event := [.result v detail false]

/-- The event of a registration. -/
def registered (who : Who) (bytes : Option ℕ) (r : Registration) : Event :=
  .register who r.rc bytes r.errno

/-! ## The cases -/

section

variable (P : Platform) (o : Options) (a : Answers) (vis : Visibility)

/-- `serial_get`. -/
def serialGet (who : Who) (slot : Slot) (answer : GetAnswer) : List Event × SlotVerdict :=
  let issued := issueGet o who slot 0 answer
  let verified := verifySlot P o vis who slot answer issued.2
  (issued.1 ++ verified.1, verified.2)

/-- The slot of the cases `b0`, `i0`, `s0` and `si`. -/
def serialSlot (L : Layout) (arena_bytes : ℕ) : Option Slot :=
  if o.exp = .i0 ∨ o.exp = .si then interiorSlot L 0 arena_bytes else some (baseSlot L)

/-- The result of the cases `b0`, `i0`, `s0` and `si`: a landing is not decisive when concurrency
was asked for. -/
def serialResult (sv : SlotVerdict) : List Event :=
  if o.concurrent > 0 ∧ sv.verdict = .Pass then
    result .Inconclusive
      (ascii "serial landing ok; concurrency requested but not verified here (deferred)")
  else result sv.verdict sv.detail

/-- The cases `b0`, `i0`, `s0` and `si`; a second client issues the GET of `s0` and `si`. -/
def runSerial (L : Layout) (arena_bytes : ℕ) : List Event :=
  registered .A none a.registerA ::
    if a.registerA.rc ≠ 0 then result .Fail (ascii "arena registration failed")
    else
      .callbackMax a.capA ::
        match callbackGate a.capA o.xfer with
        | some err => result .EnvError err
        | none =>
          match serialSlot o L arena_bytes with
          | none => result .EnvError (ascii "interior slot out of arena")
          | some slot =>
            let got := if o.exp = .s0 ∨ o.exp = .si then serialGet P o vis .B slot a.getB
              else serialGet P o vis .A slot a.getA
            got.1 ++ serialResult o got.2

/-- The two GETs of the cases `r` and `p`, and their verdict; `origin` is where the registration of
the second client starts. -/
def bothGets (sa sb : Slot) (origin : ℕ) : List Event :=
  let issuedA := issueGet o .A sa 0 a.getA
  let issuedB := issueGet o .B sb origin a.getB
  let verifiedA := verifySlot P o vis .A sa a.getA issuedA.2
  let verifiedB := verifySlot P o vis .B sb a.getB issuedB.2
  let folded := foldVerdicts [verifiedA.2, verifiedB.2]
  issuedA.1 ++ issuedB.1 ++ verifiedA.1 ++ verifiedB.1 ++ result folded.verdict folded.detail

/-- Case `r`. -/
def runR (L : Layout) (arena_bytes : ℕ) : List Event :=
  registered .A none a.registerA :: registered .B none a.registerB ::
    if a.registerA.rc ≠ 0 ∨ a.registerB.rc ≠ 0 then
      result .Fail (ascii "double registration failed")
    else
      .callbackMax a.capA ::
        match callbackGate a.capA o.xfer with
        | some err => result .EnvError err
        | none =>
          match interiorSlot L 0 arena_bytes, interiorSlot L 1 arena_bytes with
          | some sa, some sb => bothGets P o a vis sa sb 0
          | _, _ => result .EnvError (ascii "interior slot out of arena")

/-- Case `p`. -/
def runP (L : Layout) (arena : Arena) : List Event :=
  registered .A (some arena.p_half) a.registerA ::
    registered .B (some (sub64 arena.arena_bytes arena.p_half)) a.registerB ::
    if a.registerA.rc ≠ 0 ∨ a.registerB.rc ≠ 0 then
      result .Fail (ascii "slice registration failed")
    else
      .callbackMax a.capA ::
        match callbackGate a.capA o.xfer with
        | some err => result .EnvError err
        | none =>
          .callbackMax a.capB ::
            match callbackGate a.capB o.xfer with
            | some err => result .EnvError err
            | none => bothGets P o a vis (pSlot L 0) (pSlot L arena.p_half) arena.p_half

/-- The verdict of case `m` after its request. -/
def manualVerdict (status : ℤ) (guards dmatch : Bool) : SlotVerdict :=
  if ¬ (status = 200 ∨ status = 206) then ⟨.Fail, ascii "manual GET status"⟩
  else if !vis.trustworthy then ⟨.Inconclusive, ascii "visibility not guaranteed"⟩
  else if !guards then ⟨.Fail, ascii "guard overwritten"⟩
  else if o.expect_sha = [] then ⟨.Inconclusive, ascii "no --expect-sha"⟩
  else if !dmatch then ⟨.Fail, ascii "digest mismatch"⟩
  else ⟨.Pass, ascii "ok"⟩

/-- The request of case `m`. -/
def manualGet : List Event :=
  if !a.manual.built then
    result .EnvError (ascii "manual request build failed before HTTP emission")
  else
    let status := (a.manual.response.map (·.1)).getD 0
    let digest := P.sha256 a.manual.payload
    let guards := a.manual.lead.all (· == kGuardByte) && a.manual.trail.all (· == kGuardByte)
    let dmatch := !o.expect_sha.isEmpty && hex digest == o.expect_sha
    let sv := manualVerdict o vis status guards dmatch
    [.manualGet status ((a.manual.response.map (·.2)).getD false),
      .landed .manual digest dmatch guards vis.name, .result sv.verdict sv.detail true]

/-- Case `m`: its result is a diagnostic only. -/
def runM (L : Layout) (arena_bytes : ℕ) : List Event :=
  registered .A none a.registerA ::
    if a.registerA.rc ≠ 0 then result .Fail (ascii "arena registration failed")
    else
      match interiorSlot L 0 arena_bytes with
      | none => result .EnvError (ascii "interior slot out of arena")
      | some slot =>
        .sliceToken a.token_rc slot.payload.offset (a.desc_len.getD 0) ::
          if a.token_rc = 0 ∧ a.desc_len.isSome then manualGet P o a vis
          else [.result .Inconclusive (ascii "slice token unavailable") true]

/-- The case that `--exp` names. -/
def runCase (L : Layout) (arena : Arena) : List Event :=
  match o.exp with
  | .b0 | .i0 | .s0 | .si => runSerial P o a vis L arena.arena_bytes
  | .r => runR P o a vis L arena.arena_bytes
  | .p => runP P o a vis L arena
  | .m => runM P o a vis L arena.arena_bytes

end

/-- `main` after the HEAD request, with the size of the GET that was chosen. -/
def runSized (P : Platform) (o : Options) (a : Answers) (vis : Visibility) : List Event :=
  match buildLayout o.xfer o.guard with
  | .error e => result .EnvError e
  | .ok L =>
    if o.expect_sha ≠ [] ∧ sha256Hex P (makePoison o.xfer) = o.expect_sha then
      result .EnvError (ascii "poison pattern collides with --expect-sha")
    else
      match planArena o.exp o.arena_bytes L with
      | .error e => result .EnvError e
      | .ok arena => .env o arena.arena_bytes o.xfer L.cell :: runCase P o a vis L arena

/-- `main`: the events that a run logs. -/
def run (P : Platform) (o : Options) (a : Answers) : List Event :=
  if !a.proto_ok then
    result .EnvError (ascii
      "--auth sigv4 needs AWS_ACCESS_KEY_ID and AWS_SECRET_ACCESS_KEY in the environment")
  else
    let vis := readVisibility o.mode a.ordering
    let head := headObject a.head
    [.visibility vis, .boundary, .head head.size head.detail] ++
      if !head.ok then result .EnvError head.detail
      else if head.size < o.xfer ∧ o.expect_sha ≠ [] then
        result .EnvError
          (ascii "object smaller than requested xfer; --expect-sha would not correspond")
      else
        -- without a digest the GET is clipped to the object
        let xfer := if head.size < o.xfer then head.size.toNat else o.xfer
        runSized P { o with xfer } a vis

/-! ## One result -/

/-- The event is neither the one of the HEAD request nor a result. -/
def Event.isInner : Event → Bool
  | .head _ _ => false
  | .result _ _ _ => false
  | _ => true

/-- The events end with a result, the only one. Its detail is made of words of the source, or it is
the one given. -/
def Concludes (head : Bytes) (es : List Event) : Prop :=
  ∃ before v detail diagnostic_only, es = before ++ [.result v detail diagnostic_only] ∧
    (∀ e ∈ before, e.isInner = true) ∧ (detail.all Utf8.isAscii = true ∨ detail = head)

section

variable {head : Bytes}

/-- A result alone concludes, if its detail is ASCII. -/
theorem concludes_result {detail : Bytes} (h : detail.all Utf8.isAscii = true) (v : Verdict)
    (diagnostic_only : Bool) : Concludes head [.result v detail diagnostic_only] :=
  ⟨[], v, detail, diagnostic_only, rfl, by simp, .inl h⟩

/-- A result with words of the source concludes. -/
theorem concludes_words {w : String} {cs : List Char} (hw : w = String.ofList cs)
    (h : (cs.map chr).all Utf8.isAscii = true) (v : Verdict) :
    Concludes head (result v (ascii w)) :=
  concludes_result (Utf8.ascii_literal hw h) v false

/-- Events that conclude still do with inner events in front. -/
theorem Concludes.append {before es : List Event} (h : Concludes head es)
    (hbefore : ∀ e ∈ before, e.isInner = true) : Concludes head (before ++ es) := by
  obtain ⟨more, v, detail, diagnostic_only, rfl, hmore, hdetail⟩ := h
  refine ⟨before ++ more, v, detail, diagnostic_only, by rw [List.append_assoc], fun e he => ?_,
    hdetail⟩
  rcases List.mem_append.mp he with he | he
  · exact hbefore e he
  · exact hmore e he

/-- Events that conclude still do with an inner event in front. -/
theorem Concludes.cons {e : Event} {es : List Event} (h : Concludes head es)
    (he : e.isInner = true) : Concludes head (e :: es) := by
  have hone : ∀ x ∈ [e], x.isInner = true := List.forall_mem_singleton.mpr he
  exact h.append hone

end

/-- The callbacks of a GET log inner events only. -/
theorem issueGet_inner (o : Options) (who : Who) (slot : Slot) (origin : ℕ) (g : GetAnswer) :
    ∀ e ∈ (issueGet o who slot origin g).1, e.isInner = true := by
  intro e he
  unfold issueGet at he
  split_ifs at he with hfront
  · cases he
  · obtain ⟨c, -, rfl⟩ := List.mem_map.mp he
    rfl

/-- The check of a slot logs neither, and its detail is made of words of the source. -/
theorem verifySlot_spec (P : Platform) (o : Options) (vis : Visibility) (who : Who) (slot : Slot)
    (a : GetAnswer) (g : GetResult) :
    (∀ e ∈ (verifySlot P o vis who slot a g).1, e.isInner = true) ∧
      (verifySlot P o vis who slot a g).2.detail.all Utf8.isAscii = true := by
  constructor
  · intro e he
    rcases List.mem_cons.mp he with rfl | he
    · rfl
    · rw [List.mem_singleton.mp he]
      rfl
  · unfold verifySlot slotVerdict
    dsimp only
    split_ifs <;> exact Utf8.ascii_literal rfl rfl

/-- The limit of a callback is refused with words of the source. -/
theorem ascii_callbackGate {cap : ℤ} {xfer : ℕ} {err : Bytes}
    (h : callbackGate cap xfer = some err) : err.all Utf8.isAscii = true := by
  unfold callbackGate at h
  split_ifs at h
  · obtain rfl := Option.some.inj h
    exact Utf8.ascii_literal rfl rfl
  · obtain rfl := Option.some.inj h
    exact Utf8.ascii_literal rfl rfl

/-- A layout is refused with words of the source. -/
theorem ascii_buildLayout {xfer guard : ℕ} {err : Bytes} (h : buildLayout xfer guard = .error err) :
    err.all Utf8.isAscii = true := by
  unfold buildLayout at h
  split at h
  · obtain rfl := Except.error.inj h
    exact Utf8.ascii_literal rfl rfl
  · split at h
    · obtain rfl := Except.error.inj h
      exact Utf8.ascii_literal rfl rfl
    · cases h

/-- The halves of case `p` are refused with words of the source. -/
theorem ascii_halveArena {L : Layout} {n : ℕ} {err : Bytes} (h : halveArena L n = .error err) :
    err.all Utf8.isAscii = true := by
  unfold halveArena at h
  split at h
  · obtain rfl := Except.error.inj h
    exact Utf8.ascii_literal rfl rfl
  · next two _ =>
    dsimp only at h
    generalize (if n < two then two else n) = arena_bytes at h
    split_ifs at h
    obtain rfl := Except.error.inj h
    exact Utf8.ascii_literal rfl rfl

/-- The arena of a case is refused with words of the source. -/
theorem ascii_planArena {exp : Case} {option : ℕ} {L : Layout} {err : Bytes}
    (h : planArena exp option L = .error err) : err.all Utf8.isAscii = true := by
  unfold planArena chooseArena at h
  dsimp only at h
  -- Only the message of each refusal matters, not the numbers that lead to it.
  generalize (arenaForSlots L _ : ℕ) = derived at h
  generalize (if option ≠ 0 then option else derived) = n at h
  split_ifs at h
  · obtain rfl := Except.error.inj h
    exact Utf8.ascii_literal rfl rfl
  · cases hhalve : halveArena L n with
    | error e =>
      rw [hhalve] at h
      obtain rfl := Except.error.inj h
      exact ascii_halveArena hhalve
    | ok arena =>
      rw [hhalve, Except.bind] at h
      split_ifs at h
      obtain rfl := Except.error.inj h
      exact Utf8.ascii_literal rfl rfl
  · obtain rfl := Except.error.inj h
    exact Utf8.ascii_literal rfl rfl
  · rw [Except.bind] at h
    split_ifs at h
    obtain rfl := Except.error.inj h
    exact Utf8.ascii_literal rfl rfl

/-- A folded detail is one of the slots', or a word of the source. -/
theorem ascii_foldVerdicts {svs : List SlotVerdict}
    (h : ∀ sv ∈ svs, sv.detail.all Utf8.isAscii = true) :
    (foldVerdicts svs).detail.all Utf8.isAscii = true := by
  unfold foldVerdicts
  split
  · next sv hsv => exact h sv (List.mem_of_find?_eq_some hsv)
  · split
    · next sv hsv => exact h sv (List.mem_of_find?_eq_some hsv)
    · exact Utf8.ascii_literal rfl rfl

section

variable {head : Bytes} (P : Platform) (o : Options) (a : Answers) (vis : Visibility)

/-- The GET of a serial case logs neither, and its detail is made of words of the source. -/
theorem serialGet_spec (who : Who) (slot : Slot) (answer : GetAnswer) :
    (∀ e ∈ (serialGet P o vis who slot answer).1, e.isInner = true) ∧
      (serialGet P o vis who slot answer).2.detail.all Utf8.isAscii = true := by
  refine ⟨fun e he => ?_, (verifySlot_spec P o vis who slot answer _).2⟩
  rcases List.mem_append.mp he with he | he
  · exact issueGet_inner o who slot 0 answer e he
  · exact (verifySlot_spec P o vis who slot answer _).1 e he

/-- The result of a serial case concludes its events. -/
theorem serialResult_concludes {sv : SlotVerdict} (h : sv.detail.all Utf8.isAscii = true) :
    Concludes head (serialResult o sv) := by
  unfold serialResult
  split_ifs
  · exact concludes_words rfl rfl _
  · exact concludes_result h _ _

/-- The two GETs end with a result. -/
theorem bothGets_concludes (sa sb : Slot) (origin : ℕ) :
    Concludes head (bothGets P o a vis sa sb origin) := by
  have hA := verifySlot_spec P o vis .A sa a.getA (issueGet o .A sa 0 a.getA).2
  have hB := verifySlot_spec P o vis .B sb a.getB (issueGet o .B sb origin a.getB).2
  unfold bothGets
  refine Concludes.append (concludes_result (ascii_foldVerdicts ?_) _ _) fun e he => ?_
  · simp only [List.forall_mem_cons]
    exact ⟨hA.2, hB.2, by simp⟩
  · rcases List.mem_append.mp he with he | he
    · rcases List.mem_append.mp he with he | he
      · rcases List.mem_append.mp he with he | he
        · exact issueGet_inner _ _ _ _ _ e he
        · exact issueGet_inner _ _ _ _ _ e he
      · exact hA.1 e he
    · exact hB.1 e he

/-- A serial case ends with a result. -/
theorem runSerial_concludes (L : Layout) (arena_bytes : ℕ) :
    Concludes head (runSerial P o a vis L arena_bytes) := by
  unfold runSerial
  refine Concludes.cons ?_ rfl
  split
  · exact concludes_words rfl rfl _
  · refine Concludes.cons ?_ rfl
    split
    · next err herr => exact concludes_result (ascii_callbackGate herr) _ _
    · split
      · exact concludes_words rfl rfl _
      · dsimp only
        split_ifs
        · exact (serialResult_concludes o (serialGet_spec P o vis _ _ _).2).append
            (serialGet_spec P o vis _ _ _).1
        · exact (serialResult_concludes o (serialGet_spec P o vis _ _ _).2).append
            (serialGet_spec P o vis _ _ _).1

/-- Case `r` ends with a result. -/
theorem runR_concludes (L : Layout) (arena_bytes : ℕ) :
    Concludes head (runR P o a vis L arena_bytes) := by
  unfold runR
  refine Concludes.cons (Concludes.cons ?_ rfl) rfl
  split
  · exact concludes_words rfl rfl _
  · refine Concludes.cons ?_ rfl
    split
    · next err herr => exact concludes_result (ascii_callbackGate herr) _ _
    · split
      · exact bothGets_concludes P o a vis _ _ 0
      · exact concludes_words rfl rfl _

/-- Case `p` ends with a result. -/
theorem runP_concludes (L : Layout) (arena : Arena) :
    Concludes head (runP P o a vis L arena) := by
  unfold runP
  refine Concludes.cons (Concludes.cons ?_ rfl) rfl
  split
  · exact concludes_words rfl rfl _
  · refine Concludes.cons ?_ rfl
    split
    · next err herr => exact concludes_result (ascii_callbackGate herr) _ _
    · refine Concludes.cons ?_ rfl
      split
      · next err herr => exact concludes_result (ascii_callbackGate herr) _ _
      · exact bothGets_concludes P o a vis _ _ _

/-- The request of case `m` ends with a result. -/
theorem manualGet_concludes : Concludes head (manualGet P o a vis) := by
  have hdetail : ∀ status guards dmatch,
      (manualVerdict o vis status guards dmatch).detail.all Utf8.isAscii = true := by
    intro status guards dmatch
    unfold manualVerdict
    split_ifs <;> exact Utf8.ascii_literal rfl rfl
  unfold manualGet
  split
  · exact concludes_words rfl rfl _
  · exact ((concludes_result (hdetail _ _ _) _ _).cons rfl).cons rfl

/-- Case `m` ends with a result. -/
theorem runM_concludes (L : Layout) (arena_bytes : ℕ) :
    Concludes head (runM P o a vis L arena_bytes) := by
  unfold runM
  refine Concludes.cons ?_ rfl
  split
  · exact concludes_words rfl rfl _
  · split
    · exact concludes_words rfl rfl _
    · refine Concludes.cons ?_ rfl
      split
      · exact manualGet_concludes P o a vis
      · exact concludes_result (Utf8.ascii_literal rfl rfl) _ _

/-- Every case ends with a result. -/
theorem runCase_concludes (L : Layout) (arena : Arena) :
    Concludes head (runCase P o a vis L arena) := by
  unfold runCase
  cases o.exp with
  | b0 | i0 | s0 | si => exact runSerial_concludes P o a vis L _
  | r => exact runR_concludes P o a vis L _
  | p => exact runP_concludes P o a vis L arena
  | m => exact runM_concludes P o a vis L _

/-- What follows the HEAD request ends with a result. -/
theorem runSized_concludes : Concludes head (runSized P o a vis) := by
  unfold runSized
  split
  · next err herr => exact concludes_result (ascii_buildLayout herr) _ _
  · split
    · exact concludes_words rfl rfl _
    · split
      · next err herr => exact concludes_result (ascii_planArena herr) _ _
      · exact (runCase_concludes P o a vis _ _).cons rfl

end

/-- A run logs one result, its last event. Before it, unless the options are refused, it logs the
visibility, the boundary and what the HEAD request gave. -/
theorem run_concludes (P : Platform) (o : Options) (a : Answers) :
    (∃ detail, run P o a = result .EnvError detail ∧ detail.all Utf8.isAscii = true) ∨
      ∃ vis rest, run P o a = [.visibility vis, .boundary,
          .head (headObject a.head).size (headObject a.head).detail] ++ rest ∧
        Concludes (headObject a.head).detail rest := by
  unfold run
  split
  · exact .inl ⟨_, rfl, Utf8.ascii_literal rfl rfl⟩
  · refine .inr ⟨_, _, rfl, ?_⟩
    split
    · exact ⟨[], _, _, _, rfl, by simp, .inr rfl⟩
    · split
      · exact concludes_words rfl rfl _
      · exact runSized_concludes P _ a _

end S3Rdma.Scope
