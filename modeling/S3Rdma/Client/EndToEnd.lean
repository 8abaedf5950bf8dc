import S3Rdma.Client.Callback
import S3Rdma.Client.Dump

/-!
# A run of the client against the server

`Client.Dump` takes what HEADs and GETs return, and what GETs leave in the buffer, as given. Here
they come from the server's handler: a `Session` sends each request of the client to a server, by a
way on which requests and responses can be lost (`Passage`), and puts the RDMA writes of the server
into the client's buffer. The SDK between `get_registered` and the callback is a parameter
(`SdkGet`), of which the results use that it calls the callback once and returns its value.

When a response is lost, the server may still be writing, and what it writes then lands under a later
GET, since the warm-up goes on with the same buffer. `Session.lands` says what lands during a GET,
and `Session.OnTime` that from some GET on it is what this GET has caused. Then, whatever is lost or
refused on the way, a run that ends with exit status 0 and a dump has dumped the last object as the
server stores it, as far as the GET asked for it: `runClient_dump_sound`. One GET that does not
return an error leaves its window at the start of the buffer (`Session.get_sound`), a GET that does
ends the run, and a failed GET of the warm-up is overwritten by a later one.
-/

namespace S3Rdma.Client

open Server (FdEntry Write landedAt Landed getHandler handleGet objectFile requestWindow remoteBase
  PlainRequest)

/-! ## The way to the server -/

/-- What becomes of a request: it is lost, the HTTP library answers it without the handler, the
response is lost, or the response arrives. -/
inductive Passage where
  | lost
  | turnedAway (status : ℕ) (headers : HeaderList) (h : status ≠ 200 ∧ status ≠ 206)
  | unanswered
  | answered

namespace Passage

variable (p : Passage) (e : Endpoint)

/-- What the client sees. -/
def outcome (g : HttpCall) : HttpOutcome :=
  match p with
  | .lost | .unanswered => .failed
  | .turnedAway status headers _ => .response status headers
  | .answered => e.answer g

/-- What the server writes. -/
def writes (g : HttpCall) : List Write :=
  match p with
  | .lost | .turnedAway .. => []
  | .unanswered | .answered => e.writes g

/-- A response of success was given by the handler. -/
theorem outcome_success {g : HttpCall} {status : ℕ} {headers : HeaderList}
    (h : p.outcome e g = .response status headers) (hstatus : status = 200 ∨ status = 206) :
    p = .answered ∧ e.answer g = .response status headers := by
  cases p with
  | lost => cases h
  | unanswered => cases h
  | answered => exact ⟨rfl, h⟩
  | turnedAway status' headers' hs =>
    obtain ⟨rfl, -⟩ := HttpOutcome.response.inj h
    omega

/-- The way relays the handler's responses of success, and no others. -/
theorem relays : e.Relays (p.outcome e) := fun _ _ _ h hstatus =>
  (p.outcome_success e h hstatus).2

end Passage

/-- A buffer at an address after some writes. -/
def place (base : ℕ) (ws : List Write) (buf : Bytes) : Bytes :=
  buf.mapIdx fun i b => (landedAt ws ((base + i) % 2^64)).getD b

/-- Writes leave the length of the buffer as it is. -/
@[simp] theorem length_place (base : ℕ) (ws : List Write) (buf : Bytes) :
    (place base ws buf).length = buf.length :=
  List.length_mapIdx

/-- A window of a file that has landed stands at the start of a buffer that is large enough. -/
theorem place_take {file : Server.File} {offset base n : ℕ} {ws : List Write}
    (h : Landed file offset base n ws) {buf : Bytes} (hn : n ≤ buf.length) :
    (place base ws buf).take n = file.slice offset n := by
  apply List.ext_getElem?
  intro p
  by_cases hp : p < n
  · obtain ⟨b, hb, hland⟩ := h.bytes p hp
    obtain ⟨b', hb'⟩ : ∃ b', buf[p]? = some b' := ⟨_, List.getElem?_eq_getElem (by omega)⟩
    rw [List.getElem?_take_of_lt hp, place, List.getElem?_mapIdx, hb', Server.File.slice_getElem? hp,
      hb, Option.map_some, hland, Option.getD_some]
  · have hlen : (file.slice offset n).length ≤ p := by
      unfold Server.File.slice
      rw [List.length_take]
      omega
    rw [List.getElem?_take_eq_none (by omega), List.getElem?_eq_none hlen]

/-! ## The SDK -/

/-- What `cuObjGet` does with a GET: it returns, throws, or calls the callback with a descriptor and
a size and goes on with what the callback has returned. -/
inductive SdkGet where
  | returns (n : ℤ)
  | throws
  | callback (desc : Bytes) (size : ℕ) (next : ℤ → SdkGet)

namespace SdkGet

/-- `get_registered` from the `k`-th callback on: what it returns, and the RDMA writes that the
callbacks cause. -/
def run (callback : ℕ → Bytes → ℕ → ℤ × List Write) : SdkGet → ℕ → ℤ × List Write
  | .returns n, _ => (n, [])
  | .throws, _ => (-1, [])
  | .callback desc size next, k =>
    let called := callback k desc size
    let rest := (next called.1).run callback (k + 1)
    (rest.1, called.2 ++ rest.2)

/-- The SDK fails by itself, or calls the callback once for all of a GET, with a descriptor of the
buffer, and returns what the callback returns. -/
def Single (base size : ℕ) : SdkGet → Prop
  | .returns n => n < 0
  | .throws => True
  | .callback desc size' next =>
    chr ':' ∈ desc ∧ parseRdmaRemoteAddr desc = base ∧ size' = size ∧ next = .returns

variable {callback : ℕ → Bytes → ℕ → ℤ × List Write} {base size : ℕ} {sdk : SdkGet}

/-- A GET that makes one callback and returns its value is the callback. -/
theorem run_callback_returns (desc : Bytes) (k : ℕ) :
    (SdkGet.callback desc size .returns).run callback k = callback k desc size := by
  simp [run]

/-- A GET by one callback fails without it, or is the callback. -/
theorem Single.run_eq (h : sdk.Single base size) (callback : ℕ → Bytes → ℕ → ℤ × List Write) :
    (sdk.run callback 0).1 < 0 ∧ (sdk.run callback 0).2 = [] ∨
      ∃ desc, chr ':' ∈ desc ∧ parseRdmaRemoteAddr desc = base ∧
        sdk.run callback 0 = callback 0 desc size := by
  cases sdk with
  | returns n => exact .inl ⟨h, rfl⟩
  | throws => exact .inl ⟨show (-1 : ℤ) < 0 by decide, rfl⟩
  | callback desc size' next =>
    obtain ⟨hcolon, haddress, rfl, rfl⟩ := h
    exact .inr ⟨desc, hcolon, haddress, run_callback_returns desc 0⟩

end SdkGet

/-! ## Sessions -/

/-- What stands between the client and the server and may change requests and responses. The RDMA
writes go past it. -/
structure Proxy where
  request : HttpCall → HttpCall
  response : HttpOutcome → HttpOutcome

/-- No proxy. -/
def Proxy.none : Proxy := ⟨id, id⟩

/-- The client of a run and what its requests meet. GETs are numbered as in `Transport`, and the
callbacks of a GET from 0 on. -/
structure Session where
  P : Platform
  lookup : FieldLookup
  host : Bytes
  port : ℤ
  bucket : Bytes
  proto : ProtocolOptions
  /-- The address of the registered buffer. -/
  base : ℕ
  sdk : ℕ → Get → SdkGet
  now : ℕ → ℕ → ℤ
  server : ℕ → ℕ → Endpoint
  passage : ℕ → ℕ → Passage
  /-- The writes that land during a GET, when it causes some. -/
  lands : ℕ → List Write → List Write
  /-- Only a request whose response was lost leaves writes for later. -/
  lands_eq : ∀ call, (∀ earlier k, earlier ≤ call → passage earlier k ≠ .unanswered) →
    ∀ ws, lands call ws = ws
  headNow : Bytes → ℤ
  headServer : Bytes → Endpoint
  headPassage : Bytes → Passage

namespace Session

variable (s : Session)

/-- The path of an object. -/
def path (key : Bytes) : Bytes := ascii "/" ++ s.bucket ++ ascii "/" ++ key

/-- `head_size` for an object, through a proxy. -/
def headBy (w : Proxy) (key : Bytes) : ℤ :=
  headSize s.P s.lookup s.host s.port (s.path key) s.proto (s.headNow key)
    fun q => w.response ((s.headPassage key).outcome (s.headServer key) (w.request q))

/-- `head_size` for an object. -/
def head : Bytes → ℤ := s.headBy .none

/-- The context of `get_registered`. -/
def context (g : Get) : GetContext where
  host := s.host
  port := s.port
  path := s.path g.object
  range := g.range
  proto := some s.proto

/-- The `k`-th callback of a GET through a proxy: what it returns, and the RDMA writes that it
causes. -/
def callbackBy (w : Proxy) (call : ℕ) (g : Get) (k : ℕ) (desc : Bytes) (size : ℕ) :
    ℤ × List Write :=
  (getCallback s.P s.lookup (some (s.context g)) (some desc) size (s.now call k)
      fun q => w.response ((s.passage call k).outcome (s.server call k) (w.request q)),
    match callbackRequest s.P (s.context g) s.proto desc (s.now call k) with
    | .error _ => []
    | .ok q => (s.passage call k).writes (s.server call k) (w.request q))

/-- What `get_registered` returns through a proxy, and the buffer after it. -/
def transportBy (w : Proxy) : Transport := fun call g buf =>
  let done := (s.sdk call g).run (s.callbackBy w call g) 0
  (done.1, place s.base (s.lands call done.2) buf)

/-- What `get_registered` returns, and the buffer after it. -/
def transport : Transport := s.transportBy .none

/-- From the `first` GET on, the writes that a GET causes land during it, and no others do. -/
def OnTime (first : ℕ) : Prop := ∀ call, first ≤ call → ∀ ws, s.lands call ws = ws

/-- A server that has the objects as they are, where it finds them, and whose HTTP library decodes
their paths. -/
structure Stores (content : Bytes → Bytes) (keys : List Bytes) (e : Endpoint) : Prop where
  decodes : ∀ key ∈ keys, e.Decodes s.proto (s.path key)
  file : ∀ key ∈ keys, ∀ entry,
    e.getFd (objectFile e.data_dir (parseObjectPath (s.path key))) = some entry →
      entry.file.bytes = content key ∧ entry.size = (content key).length

/-- The objects do not change during the run, the SDK calls the callback once for a GET, with a
descriptor of the buffer, and a write that returns a count is whole. -/
structure Faithful (content : Bytes → Bytes) (keys : List Bytes) : Prop where
  sdk : ∀ call g, (s.sdk call g).Single s.base g.size
  stores : ∀ call k, s.Stores content keys (s.server call k)
  whole : ∀ call k, (s.server call k).env.Whole
  headStores : ∀ key, s.Stores content keys (s.headServer key)

variable {s} {content : Bytes → Bytes} {keys : List Bytes}

/-- The handler answers a HEAD with the size of the object. -/
theorem answer_headRequest {e : Endpoint} {key : Bytes} {now : ℤ} {g : HttpCall}
    (hdec : e.Decodes s.proto (s.path key))
    (hg : headRequest s.P s.host s.port (s.path key) s.proto now = .ok g) :
    e.answer g =
      if (parseObjectPath (s.path key)).valid then
        match e.getFd (objectFile e.data_dir (parseObjectPath (s.path key))) with
        | none => .response 404 []
        | some entry => .response 200 [(ascii "Content-Length", decimal entry.size)]
      else .response 400 [] := by
  obtain ⟨own, -, hg⟩ := exists_of_bind_eq_ok hg
  obtain rfl := Except.ok.inj hg
  set g : HttpCall := ⟨ascii "HEAD", controlPlaneTarget s.proto (s.path key), own⟩
  have hpath : (e.request g).path = s.path key := hdec
  have hmethod : (e.request g).method = ascii "HEAD" := rfl
  unfold Endpoint.answer getHandler
  rw [hpath, hmethod]
  by_cases hvalid : (parseObjectPath (s.path key)).valid = true
  · simp only [hvalid, Bool.not_true, Bool.false_eq_true, if_false, if_true]
    cases e.getFd (objectFile e.data_dir (parseObjectPath (s.path key))) <;> rfl
  · simp only [hvalid, Bool.not_false, Bool.false_eq_true, if_true, if_false]
    rfl

/-- `head_size` reads the size from the handler's answer. -/
theorem headSize_answered {key : Bytes} {g : HttpCall}
    (hg : headRequest s.P s.host s.port (s.path key) s.proto (s.headNow key) = .ok g) {n : ℕ}
    (hn : n < 2^63)
    (h : (s.headPassage key).outcome (s.headServer key) g =
      .response 200 [(ascii "Content-Length", decimal n)]) :
    s.head key = n := by
  have hname : lower (ascii "Content-Length") = ascii "content-length" := by decide
  have hvalue : s.lookup.value [(ascii "Content-Length", decimal n)] (ascii "content-length") =
      some (decimal n) := by
    refine s.lookup.value_of_singleton ?_
    rw [valuesOf_cons, if_pos hname]
    rfl
  unfold head headBy headSize Proxy.none
  simp only [hg, id_eq, h, ne_eq, not_true_eq_false, if_false, hvalue, stoll_decimal hn]

/-- A size that `head_size` returns is that of the object. -/
theorem head_sound (hs : s.Faithful content keys) {key : Bytes} (hkey : key ∈ keys)
    (h : 0 < s.head key) :
    s.head key = (content key).length := by
  have h0 := h
  unfold head headBy headSize Proxy.none at h
  cases hg : headRequest s.P s.host s.port (s.path key) s.proto (s.headNow key) with
  | error msg => simp only [hg] at h; exact absurd h (by decide)
  | ok g =>
    simp only [hg, id_eq] at h
    cases hres : (s.headPassage key).outcome (s.headServer key) g with
    | failed => simp only [hres] at h; exact absurd h (by decide)
    | response status headers =>
      simp only [hres] at h
      by_cases hstatus : status ≠ 200
      · rw [if_pos hstatus] at h
        exact absurd h (by decide)
      · obtain rfl : status = 200 := not_not.mp hstatus
        obtain ⟨-, hanswer⟩ := (s.headPassage key).outcome_success _ hres (.inl rfl)
        rw [answer_headRequest ((hs.headStores key).decodes key hkey) hg] at hanswer
        -- Only an object that is found is answered with 200.
        split_ifs at hanswer
        · cases hfd : (s.headServer key).getFd (objectFile (s.headServer key).data_dir
              (parseObjectPath (s.path key))) with
          | none => simp [hfd] at hanswer
          | some entry =>
            simp only [hfd, HttpOutcome.response.injEq, true_and] at hanswer
            rw [← ((hs.headStores key).file key hkey entry hfd).2]
            exact headSize_answered hg entry.size_lt (by rw [hres, hanswer])
        · exact absurd (HttpOutcome.response.inj hanswer).1 (by decide)

/-- A GET of an object that is not empty asks for at least one byte. -/
theorem xferSize_pos (range_size : ℕ) {obj : ObjDesc} (hpos : 0 < obj.size) :
    0 < xferSize range_size obj := by
  unfold xferSize
  split_ifs
  · omega
  · exact hpos

/-- The range header of a GET, with `--range-size`. -/
theorem range_getOf {range_size : ℕ} (hr : 0 < range_size) (obj : ObjDesc) :
    (getOf range_size obj).range = plainRange 0 (xferSize range_size obj - 1) := by
  unfold getOf plainRange
  rw [if_pos hr]
  rfl

/-- The window that the server makes of the range header of a GET. -/
theorem requestWindow_getOf (range_size : ℕ) {obj : ObjDesc} (hpos : 0 < obj.size)
    (hsize : obj.size < 2^63) :
    ∃ is_range, requestWindow (getOf range_size obj).range obj.size =
      some (0, xferSize range_size obj, is_range) := by
  have hle := xferSize_le range_size obj
  by_cases hr : range_size > 0
  · have hxfer := xferSize_pos range_size hpos
    obtain ⟨is_range, hwin, -⟩ := (PlainRequest.range (Nat.zero_le (xferSize range_size obj - 1))
      (by omega)).requestWindow_eq hsize
    rw [show xferSize range_size obj - 1 - 0 + 1 = xferSize range_size obj by omega] at hwin
    exact ⟨is_range, by rw [range_getOf hr, hwin]⟩
  · have hxfer : xferSize range_size obj = obj.size := if_neg hr
    have hrange : (getOf range_size obj).range = [] := if_neg hr
    rw [hrange, hxfer]
    exact ⟨false, rfl⟩

/-- A GET leaves the length of the buffer. -/
theorem length_transportBy (w : Proxy) (call : ℕ) (g : Get) (buf : Bytes) :
    (s.transportBy w call g buf).2.length = buf.length :=
  length_place _ _ _

/-- A GET by one callback that does not return an error is what its callback is, and the writes of
the callback land if they do so in time. -/
theorem transportBy_nonneg {w : Proxy} {call : ℕ} {g : Get} {buf : Bytes}
    (hsdk : (s.sdk call g).Single s.base g.size) (hlands : ∀ ws, s.lands call ws = ws)
    (h : 0 ≤ (s.transportBy w call g buf).1) :
    ∃ desc, chr ':' ∈ desc ∧ parseRdmaRemoteAddr desc = s.base ∧
      0 ≤ (s.callbackBy w call g 0 desc g.size).1 ∧
      (s.transportBy w call g buf).2 =
        place s.base (s.callbackBy w call g 0 desc g.size).2 buf := by
  unfold transportBy at h ⊢
  rcases hsdk.run_eq (s.callbackBy w call g) with ⟨hneg, -⟩ | ⟨desc, hcolon, haddr, hrun⟩
  · exact absurd h (not_le.mpr hneg)
  · simp only [hrun, hlands] at h ⊢
    exact ⟨desc, hcolon, haddr, h, rfl⟩

/-- A GET that does not return an error has put the bytes that it asked for at the start of the
buffer. -/
theorem get_sound (hs : s.Faithful content keys) {call range_size : ℕ}
    (hlands : ∀ ws, s.lands call ws = ws) {key : Bytes} (hkey : key ∈ keys) {buf : Bytes}
    (hpos : content key ≠ []) (hfits : xferSize range_size (describe content key) ≤ buf.length)
    (h : 0 ≤ (s.transport call (getOf range_size (describe content key)) buf).1) :
    (s.transport call (getOf range_size (describe content key)) buf).2.take
        (xferSize range_size (describe content key)) = delivered content range_size key := by
  have hproto : (s.context (getOf range_size (describe content key))).proto = some s.proto := rfl
  have hdec : (s.server call 0).Decodes s.proto
      (s.context (getOf range_size (describe content key))).path :=
    (hs.stores call 0).decodes key hkey
  obtain ⟨desc, hcolon, haddress, hcalled, hbuf⟩ := transportBy_nonneg (hs.sdk call _) hlands h
  obtain ⟨g, entry, offset, length, is_range, status, headers, hg, hhttp, hresult, -, hentry, hwin,
    hlanded⟩ := getCallback_landed hproto hcolon hdec (hs.whole call 0)
      ((s.passage call 0).relays _) hcalled
  rw [haddress] at hlanded
  obtain ⟨hbytes, hsize⟩ := (hs.stores call 0).file key hkey entry hentry
  -- The window is the start of the object.
  have hobj : (describe content key).size = entry.size := hsize.symm
  obtain ⟨is_range', hwin'⟩ := requestWindow_getOf range_size
    (show 0 < (describe content key).size from List.length_pos_iff.mpr hpos) (hobj ▸ entry.size_lt)
  rw [hobj] at hwin'
  obtain ⟨rfl, rfl, -⟩ : offset = 0 ∧ length = xferSize range_size (describe content key) ∧
      is_range = is_range' := by simpa using Option.some.inj (hwin.symm.trans hwin')
  -- The response arrived, so the writes are those of the server.
  obtain ⟨hstatus, -⟩ := callbackResult_nonneg (hcalled.trans_eq hresult)
  obtain ⟨hpassage, -⟩ := (s.passage call 0).outcome_success _ hhttp hstatus
  have hwrites : (s.callbackBy .none call (getOf range_size (describe content key)) 0 desc
      (getOf range_size (describe content key)).size).2 = (s.server call 0).writes g := by
    unfold callbackBy
    simp only [hg, hpassage, Passage.writes]
    rfl
  rw [hwrites] at hbuf
  rw [show s.transport call (getOf range_size (describe content key)) buf =
    s.transportBy .none call (getOf range_size (describe content key)) buf from rfl, hbuf,
    place_take hlanded hfits]
  unfold Server.File.slice delivered
  rw [hbytes, List.drop_zero]

end Session

/-! ## The run -/

section Run

variable {s : Session} {content : Bytes → Bytes} {fresh : ℕ → Bytes}

/-- Where HEADs give the sizes of the objects or fail, the loop describes the objects, and its
maximum bounds their sizes. -/
theorem discoverLoop_some {head : Bytes → ℤ} {keys : List Bytes}
    (hhead : ∀ key ∈ keys, 0 < head key → head key = (content key).length)
    {objs objs' : List ObjDesc} {max_size m : ℕ}
    (h : discoverLoop head keys objs max_size = some (objs', m)) :
    objs' = objs ++ keys.map (describe content) ∧ max_size ≤ m ∧
      ∀ key ∈ keys, content key ≠ [] ∧ (content key).length ≤ m := by
  induction keys generalizing objs max_size with
  | nil =>
    simp only [discoverLoop, Option.some.injEq, Prod.mk.injEq] at h
    simp [h.1, h.2]
  | cons key keys ih =>
    rw [discoverLoop] at h
    by_cases hle : head key ≤ 0
    · rw [if_pos hle] at h
      cases h
    · rw [if_neg hle, hhead key List.mem_cons_self (not_le.mp hle), Int.toNat_natCast] at h
      obtain ⟨hobjs, hmax, hall⟩ := ih (fun k hk => hhead k (List.mem_cons_of_mem _ hk)) h
      refine ⟨by simpa [describe] using hobjs, (le_max_left _ _).trans hmax, ?_⟩
      intro k hk
      rcases List.mem_cons.mp hk with rfl | hk
      · refine ⟨fun hnil => ?_, (le_max_right _ _).trans hmax⟩
        have hpos := hhead k List.mem_cons_self (not_le.mp hle)
        rw [hnil] at hpos
        exact hle hpos.le
      · exact hall k hk

/-- The loop asks for the sizes of its keys only. -/
theorem discoverLoop_congr {head head' : Bytes → ℤ} {keys : List Bytes}
    (h : ∀ key ∈ keys, head key = head' key) (objs : List ObjDesc) (max_size : ℕ) :
    discoverLoop head keys objs max_size = discoverLoop head' keys objs max_size := by
  induction keys generalizing objs max_size with
  | nil => rfl
  | cons key keys ih =>
    rw [discoverLoop, discoverLoop, h key List.mem_cons_self,
      ih fun k hk => h k (List.mem_cons_of_mem _ hk)]

/-- What the GETs of a transport do: they leave the length of the buffer, and after the warm-up one
that does not return an error has left `got` at its start. -/
structure Fetches (transport : Transport) (content : Bytes → Bytes) (range_size : ℕ)
    (keys : List Bytes) (got : Bytes → Bytes → Prop) : Prop where
  length : ∀ call g buf, (transport call g buf).2.length = buf.length
  bytes : ∀ call, keys.length ≤ call → ∀ key ∈ keys, ∀ buf, content key ≠ [] →
    xferSize range_size (describe content key) ≤ buf.length →
    0 ≤ (transport call (getOf range_size (describe content key)) buf).1 →
    got key ((transport call (getOf range_size (describe content key)) buf).2.take
      (xferSize range_size (describe content key)))

/-- The key of an iteration is one of the keys. -/
theorem getD_mod_mem {keys : List Bytes} (hne : keys ≠ []) (iter : ℕ) :
    keys.getD (iter % keys.length) [] ∈ keys := by
  have hlt : iter % keys.length < keys.length := Nat.mod_lt _ (List.length_pos_iff.mpr hne)
  rw [List.getD_eq_getElem _ _ hlt]
  exact List.getElem_mem hlt

/-- After `iter` iterations that did not fail, the buffer has its length and, once there was a GET,
starts with what the last one has got. -/
structure LastGet (content : Bytes → Bytes) (range_size : ℕ) (keys : List Bytes)
    (got : Bytes → Bytes → Prop) (size iter : ℕ) (r : ThreadResult) (buf : Bytes) : Prop where
  iters : r.iters = iter
  length : buf.length = size
  bytes : 0 < iter → got (keys.getD ((iter - 1) % keys.length) [])
    (buf.take (xferSize range_size (describe content (keys.getD ((iter - 1) % keys.length) []))))

namespace Fetches

variable {transport : Transport} {range_size : ℕ} {keys : List Bytes} {got : Bytes → Bytes → Prop}

/-- The worker keeps what the last GET has got, unless it fails. -/
theorem worker_lastGet (hf : Fetches transport content range_size keys got) {size : ℕ}
    (hne : keys ≠ [])
    (hkeys : ∀ key ∈ keys, content key ≠ [] ∧ (content key).length ≤ size) (n : ℕ)
    {iter : ℕ} {r : ThreadResult} {buf : Bytes}
    (h : LastGet content range_size keys got size iter r buf)
    (hok : (worker transport range_size (keys.map (describe content)) n iter r buf).1.ok = true) :
    LastGet content range_size keys got size (iter + n)
      (worker transport range_size (keys.map (describe content)) n iter r buf).1
      (worker transport range_size (keys.map (describe content)) n iter r buf).2 := by
  induction n generalizing iter r buf with
  | zero => exact h
  | succ n ih =>
    obtain ⟨hpos, hfits⟩ := hkeys _ (getD_mod_mem hne iter)
    rw [worker, objAt_map _ hne] at hok ⊢
    by_cases hneg : (transport ((keys.map (describe content)).length + iter)
        (getOf range_size (describe content (keys.getD (iter % keys.length) []))) buf).1 < 0
    · simp only [if_pos hneg] at hok
      exact absurd hok (by decide)
    · simp only [if_neg hneg] at hok ⊢
      have hxfer := xferSize_le range_size (describe content (keys.getD (iter % keys.length) []))
      rw [Nat.add_comm n 1, ← Nat.add_assoc]
      refine ih ⟨rfl, (hf.length _ _ _).trans h.length, fun _ => ?_⟩ hok
      rw [Nat.add_sub_cancel]
      refine hf.bytes _ (by simp) _ (getD_mod_mem hne iter) _ hpos ?_ (not_lt.mp hneg)
      rw [h.length]
      exact hxfer.trans hfits

/-- What a run with exit status 0 dumps: as many bytes as the last object has, and first of all what
the last GET has got. -/
theorem dump_sound {head : Bytes → ℤ} {args : Args}
    (hf : Fetches transport content args.range_size args.objects got)
    (hhead : ∀ key ∈ args.objects, 0 < head key → head key = (content key).length)
    (hfresh : ∀ n, (fresh n).length = n) {iterations : ℕ} (hkeys : args.objects ≠ []) {file : Bytes}
    (h : runClient head transport fresh args iterations = (0, some file)) :
    file.length = (content (args.lastKey iterations)).length ∧
      got (args.lastKey iterations)
        (file.take (xferSize args.range_size (describe content (args.lastKey iterations)))) := by
  unfold runClient at h
  cases hdisc : discoverObjects head args.objects with
  | none => simp [hdisc] at h
  | some found =>
    obtain ⟨objs, m⟩ := found
    obtain ⟨hobjs, -, hall⟩ := discoverLoop_some hhead hdisc
    rw [List.nil_append] at hobjs
    subst hobjs
    simp only [hdisc] at h
    set buf := warmUp transport args.range_size (args.objects.map (describe content)) 0 (fresh m)
    have hbuf : buf.length = m := (length_warmUp (fun _ _ => hf.length _) _).trans (hfresh m)
    by_cases hok : (worker transport args.range_size (args.objects.map (describe content))
        iterations 0 {} buf).1.ok = true
    · -- There was a GET, since without one no byte is counted.
      have hiter : 0 < iterations := by
        by_contra hzero
        obtain rfl : iterations = 0 := by omega
        simp [worker, dump] at h
      have hinit : LastGet content args.range_size args.objects got m 0 {} buf :=
        ⟨rfl, hbuf, fun h0 => absurd h0 (lt_irrefl 0)⟩
      have hlast := hf.worker_lastGet hkeys hall iterations hinit hok
      rw [Nat.zero_add] at hlast
      simp only [hok, Bool.not_true, Bool.false_eq_true, if_false, Prod.mk.injEq, true_and, dump,
        Option.ite_none_right_eq_some, Option.some.injEq] at h
      obtain ⟨-, rfl⟩ := h
      have hbytes := hlast.bytes hiter
      have hlength := hlast.length
      have hfits : (content (args.lastKey iterations)).length ≤ m :=
        (hall _ (getD_mod_mem hkeys (iterations - 1))).2
      have hxfer : xferSize args.range_size (describe content (args.lastKey iterations)) ≤
          (content (args.lastKey iterations)).length := xferSize_le _ _
      rw [hlast.iters, objAt_map _ hkeys]
      generalize (worker transport args.range_size (args.objects.map (describe content))
        iterations 0 {} buf).2 = last at hbytes hlength ⊢
      change (last.take (content (args.lastKey iterations)).length).length = _ ∧
        got (args.lastKey iterations) ((last.take (content (args.lastKey iterations)).length).take _)
      rw [List.take_take, Nat.min_eq_left hxfer, List.length_take]
      exact ⟨by omega, hbytes⟩
    · simp [hok] at h

end Fetches

/-- A dump of the size of an object that starts with what a GET without `--range-size` delivers is
the object. -/
theorem eq_of_take_eq_delivered {range_size : ℕ} (hr : range_size = 0) {key file : Bytes}
    (hlength : file.length = (content key).length)
    (h : file.take (xferSize range_size (describe content key)) = delivered content range_size key) :
    file = content key := by
  have hxfer : xferSize range_size (describe content key) = (content key).length := by
    rw [hr]
    rfl
  rw [delivered, hxfer, List.take_length, ← hlength, List.take_length] at h
  exact h

/-- A run with exit status 0 that writes a dump has dumped the last object that it fetched: all of
it without `--range-size`, and otherwise its first bytes, followed by what the buffer held. Responses
may be lost, in the warm-up too, as long as no write of the warm-up lands after it. -/
theorem runClient_dump_sound {args : Args} (hs : s.Faithful content args.objects)
    (hlate : s.OnTime args.objects.length) (hfresh : ∀ n, (fresh n).length = n) {iterations : ℕ}
    (hkeys : args.objects ≠ []) {file : Bytes}
    (h : runClient s.head s.transport fresh args iterations = (0, some file)) :
    file.length = (content (args.lastKey iterations)).length ∧
      delivered content args.range_size (args.lastKey iterations) <+: file ∧
      (args.range_size = 0 → file = content (args.lastKey iterations)) := by
  have hf : Fetches s.transport content args.range_size args.objects
      fun key bytes => bytes = delivered content args.range_size key :=
    ⟨Session.length_transportBy .none,
      fun call hcall _ hkey _ => Session.get_sound hs (hlate call hcall) hkey⟩
  obtain ⟨hlength, hbytes⟩ :=
    hf.dump_sound (fun key => Session.head_sound hs) hfresh hkeys h
  exact ⟨hlength, hbytes ▸ List.take_prefix _ _, fun hr => eq_of_take_eq_delivered hr hlength hbytes⟩

end Run

/-- An SDK that calls the callback once for a GET. -/
def oneCallback (_ : ℕ) (g : Get) : SdkGet := .callback (ascii "1000:0") g.size .returns

/-- A session with a server that has three bytes under every name. -/
def threeBytesSession (enc : TokenEncoding) (decode : Bytes → Bytes) : Session where
  P := examplePlatform
  lookup := firstValue
  host := ascii "h"
  port := 8080
  bucket := ascii "b"
  proto := { token_encoding := enc }
  base := 4096
  sdk := oneCallback
  now _ _ := 0
  server _ _ := threeBytesEndpoint decode
  passage _ _ := .answered
  lands _ ws := ws
  lands_eq _ _ _ := rfl
  headNow _ := 0
  headServer _ := threeBytesEndpoint decode
  headPassage _ := .answered

/-- The descriptors of `oneCallback` are those of the buffer of `threeBytesSession`. -/
theorem oneCallback_single (call : ℕ) (g : Get) : (oneCallback call g).Single 4096 g.size :=
  ⟨by decide, by decide, rfl, rfl⟩

/-- The server of three bytes has the objects of every session whose targets it decodes. -/
theorem threeBytesEndpoint_stores {s : Session} {decode : Bytes → Bytes} {keys : List Bytes}
    (h : ∀ path, decode (controlPlaneTarget s.proto path) = path) :
    s.Stores threeBytesContent keys (threeBytesEndpoint decode) where
  decodes _ _ := h _
  file key _ entry h := by
    obtain rfl := Option.some.inj h
    exact ⟨rfl, rfl⟩

/-- The session `threeBytesSession` is faithful. -/
theorem threeBytesSession_faithful {enc : TokenEncoding} {decode : Bytes → Bytes} {keys : List Bytes}
    (h : ∀ path, decode (controlPlaneTarget { token_encoding := enc } path) = path) :
    (threeBytesSession enc decode).Faithful threeBytesContent keys where
  sdk := oneCallback_single
  stores _ _ := threeBytesEndpoint_stores h
  whole _ _ := threeBytesEndpoint_whole decode
  headStores _ := threeBytesEndpoint_stores h

/-- The response to the first GET is lost and nothing lands during it; `strays` land after the writes
of the second GET. -/
def unansweredSession (strays : List Write) : Session :=
  { threeBytesSession .verbatim percentDecode with
    passage := fun call _ => if call = 0 then .unanswered else .answered
    lands := fun call ws => if call = 0 then [] else if call = 1 then ws ++ strays else ws
    lands_eq := fun _ h => absurd rfl (h 0 0 (Nat.zero_le _)) }

/-- A run of one iteration with verbatim tokens, after a warm-up whose response was lost and of which
nothing lands later. -/
theorem runClient_dump_sound_unanswered :
    runClient (unansweredSession []).head (unansweredSession []).transport (List.replicate · 9)
        { objects := [ascii "k"], out := ascii "dump.bin" } 1 = (0, some [5, 6, 7]) ∧
    delivered threeBytesContent 0 (ascii "k") <+: [5, 6, 7] := by
  have hrun : runClient (unansweredSession []).head (unansweredSession []).transport
      (List.replicate · 9) { objects := [ascii "k"], out := ascii "dump.bin" } 1 =
      (0, some [5, 6, 7]) := by decide +kernel
  have hs : (unansweredSession []).Faithful threeBytesContent [ascii "k"] :=
    { sdk := oneCallback_single
      stores := fun _ _ => threeBytesEndpoint_stores percentDecode_uriEncode
      whole := fun _ _ => threeBytesEndpoint_whole percentDecode
      headStores := fun _ => threeBytesEndpoint_stores percentDecode_uriEncode }
  have hlate : (unansweredSession []).OnTime 1 := by
    intro call hcall ws
    change (if call = 0 then [] else if call = 1 then ws ++ [] else ws) = ws
    rw [if_neg (by omega), List.append_nil, ite_self]
  exact ⟨hrun, (runClient_dump_sound hs hlate (fun _ => List.length_replicate) (by decide) hrun).2.1⟩

/-- A write of the warm-up that lands during the last GET is in the dump. -/
example : runClient (unansweredSession [⟨4096, [1], 1, 1⟩]).head
    (unansweredSession [⟨4096, [1], 1, 1⟩]).transport (List.replicate · 9)
    { objects := [ascii "k"], out := ascii "dump.bin" } 1 = (0, some [1, 6, 7]) := by decide +kernel

/-! ## A run in which nothing fails -/

/-- A server without direct I/O whose reads progress and whose writes are whole. -/
structure Endpoint.Works (e : Endpoint) : Prop where
  buffered : e.cfg.direct_io = false
  chunk_pos : 0 < e.cfg.chunk_size
  preads : ∀ k, ∀ o ∈ e.env.preads k, o.Progress
  spawns : ∀ k, e.env.spawns k = true
  writes : ∀ k piece, e.env.rdma k piece = .returned piece piece

/-- A server that works serves every window of a file that has not changed. -/
theorem Endpoint.Works.handleGet_eq {e : Endpoint} (he : e.Works) {entry : FdEntry}
    (hentry : entry.size = entry.file.bytes.length) {range token : Bytes} {offset length : ℕ}
    {is_range : Bool} (hwin : requestWindow range entry.size = some (offset, length, is_range))
    (hbase : remoteBase token ≠ 0) :
    (handleGet e.cfg (some entry) range token e.slot e.env).1 =
      .returned (if is_range then 206 else 200) (some length) := by
  obtain ⟨hrun, -⟩ := Server.handleGet_writes e.cfg entry e.slot e.env he.chunk_pos hwin hbase
  have hle := Server.requestWindow_le entry.size_lt hwin
  rw [hentry] at hle
  have hread := Server.Job.readOk_of_buffered
    (j := .ofRequest e.cfg entry token e.env he.chunk_pos hwin) he.buffered he.preads hle
  rw [hrun, Server.Job.run_whole hread he.spawns fun k _ => he.writes k _]
  rfl

/-- The answer of the handler to a GET that `handle_get` has served. -/
theorem Endpoint.answer_served {e : Endpoint} {g : HttpCall} {path token range : Bytes}
    (hr : e.request g = ⟨ascii "GET", path, token, range⟩) (hvalid : (parseObjectPath path).valid)
    (ht : token ≠ []) {status length : ℕ}
    (hget : (handleGet e.cfg (e.getFd (objectFile e.data_dir (parseObjectPath path))) range token
      e.slot e.env).1 = .returned status (some length)) (hstatus : status = 200 ∨ status = 206) :
    e.answer g = .response status (Server.getAnswer token status length).headers := by
  have hhead : ascii "GET" ≠ ascii "HEAD" := by decide
  unfold Endpoint.answer getHandler
  simp only [hr, hvalid, Bool.not_true, Bool.false_eq_true, if_false, if_neg hhead, if_neg ht, hget,
    Option.getD_some]
  unfold Server.getAnswer
  rw [if_pos hstatus]
  rfl

/-- The callback accepts the answer to a GET of as many bytes as it asked for. -/
theorem callbackResult_getAnswer (L : FieldLookup) {proto : ProtocolOptions} {token : Bytes}
    (hcolon : chr ':' ∈ token ↔ proto.token_encoding = .verbatim) {status n : ℕ}
    (hstatus : status = 200 ∨ status = 206) (hn : n < 2^63) :
    callbackResult L proto n status (Server.getAnswer token status n).headers = n := by
  have hnot : ¬ (status ≠ 200 ∧ status ≠ 206) := by omega
  unfold callbackResult
  rw [if_neg hnot]
  cases henc : proto.token_encoding with
  | base64 => exact if_pos hn
  | verbatim =>
    -- The reply code of a token with a colon is the status.
    have hreply : L.value (Server.getAnswer token status n).headers kHdrRdmaReply =
        some (decimal status) := by
      refine L.value_of_singleton ?_
      unfold Server.getAnswer
      rw [if_pos hstatus, if_pos (hcolon.mpr henc)]
      rfl
    have hcode : parseRdmaReply (some (decimal status)) = .code status := by
      rcases hstatus with rfl | rfl <;> decide
    have hcount := parseRdmaBytesTransferred_decimal (le_refl n) hn
    simp only [hreply, hcode, L.value_getAnswer hstatus, hcount, ne_eq, not_true_eq_false, if_false]
    rw [if_neg (by omega)]

namespace Session

variable {s : Session} {content : Bytes → Bytes} {fresh : ℕ → Bytes}

/-- Nothing is lost, the SDK calls the callback, every request can be built, and every server has the
objects and works. -/
structure Working (s : Session) (content : Bytes → Bytes) (keys : List Bytes) : Prop extends
    s.Faithful content keys where
  built : ∀ call g, ∃ desc q, s.sdk call g = .callback desc g.size .returns ∧
    callbackRequest s.P (s.context g) s.proto desc (s.now call 0) = .ok q
  answered : ∀ call k, s.passage call k = .answered
  works : ∀ call k, (s.server call k).Works
  base_ne : s.base ≠ 0
  valid : ∀ key ∈ keys, (parseObjectPath (s.path key)).valid = true
  found : ∀ call k, ∀ key ∈ keys, ∃ entry, (s.server call k).getFd
    (objectFile (s.server call k).data_dir (parseObjectPath (s.path key))) = some entry
  headBuilt : ∀ key, ∃ r,
    headRequest s.P s.host s.port (s.path key) s.proto (s.headNow key) = .ok r
  headAnswered : ∀ key, s.headPassage key = .answered
  headFound : ∀ key ∈ keys, ∃ entry, (s.headServer key).getFd
    (objectFile (s.headServer key).data_dir (parseObjectPath (s.path key))) = some entry

variable {keys : List Bytes}

/-- Every HEAD of a working session gives the size of the object. -/
theorem Working.head_eq (hw : s.Working content keys) {key : Bytes} (hkey : key ∈ keys) :
    s.head key = (content key).length := by
  obtain ⟨g, hg⟩ := hw.headBuilt key
  obtain ⟨entry, hentry⟩ := hw.headFound key hkey
  rw [← ((hw.headStores key).file key hkey entry hentry).2]
  refine headSize_answered hg entry.size_lt ?_
  rw [hw.headAnswered key]
  change (s.headServer key).answer g = _
  rw [answer_headRequest ((hw.headStores key).decodes key hkey) hg, if_pos (hw.valid key hkey), hentry]

/-- Every GET returns the number of bytes that it asked for. -/
theorem Working.get_eq (hw : s.Working content keys) {key : Bytes} (hkey : key ∈ keys)
    (hpos : content key ≠ []) (call range_size : ℕ) (buf : Bytes) :
    (s.transport call (getOf range_size (describe content key)) buf).1 =
      xferSize range_size (describe content key) := by
  obtain ⟨desc, g, hsdk, hg⟩ := hw.built call (getOf range_size (describe content key))
  obtain ⟨hdesc, haddress, -⟩ :=
    show SdkGet.Single s.base _ (.callback desc _ .returns) from hsdk ▸ hw.sdk call _
  obtain ⟨entry, hentry⟩ := hw.found call 0 key hkey
  obtain ⟨hbytes, hsize⟩ := (hw.stores call 0).file key hkey entry hentry
  have hobj : (describe content key).size = entry.size := hsize.symm
  obtain ⟨is_range, hwin⟩ := requestWindow_getOf range_size
    (show 0 < (describe content key).size from List.length_pos_iff.mpr hpos) (hobj ▸ entry.size_lt)
  rw [hobj] at hwin
  have hreceived := callbackRequest_received hg hdesc
    (show (s.server call 0).Decodes s.proto (s.context (getOf range_size (describe content key))).path
      from (hw.stores call 0).decodes key hkey)
  obtain ⟨htoken, hcolon⟩ := Server.encodeRdmaToken_colon hdesc s.proto.token_encoding
  have hbase : remoteBase (encodeRdmaToken desc s.proto.token_encoding) ≠ 0 := by
    rw [remoteBase_encodeRdmaToken hdesc, haddress]
    exact hw.base_ne
  have hget := (hw.works call 0).handleGet_eq (by rw [hsize, hbytes]) hwin hbase
  have hstatus : (if is_range then 206 else 200) = 200 ∨ (if is_range then 206 else 200) = 206 := by
    cases is_range <;> decide
  have hanswer := Endpoint.answer_served hreceived (hw.valid key hkey) htoken
    (by rw [show (s.context (getOf range_size (describe content key))).path = s.path key from rfl,
      hentry]; exact hget) hstatus
  have hlt : xferSize range_size (describe content key) < 2^63 :=
    (xferSize_le range_size (describe content key)).trans_lt (hobj ▸ entry.size_lt)
  unfold transport transportBy
  rw [hsdk, SdkGet.run_callback_returns]
  unfold callbackBy getCallback Proxy.none
  simp only [show (s.context (getOf range_size (describe content key))).proto = some s.proto from rfl,
    hg, hw.answered call, Passage.outcome, id_eq, hanswer]
  exact callbackResult_getAnswer s.lookup hcolon hstatus hlt

/-- The worker does not fail, and counts every byte that it asked for. -/
theorem Working.worker_ok (hw : s.Working content keys) (hne : keys ≠ [])
    (hpos : ∀ key ∈ keys, content key ≠ []) (range_size n iter : ℕ) {r : ThreadResult}
    (buf : Bytes) (hok : r.ok = true) :
    (worker s.transport range_size (keys.map (describe content)) n iter r buf).1.ok = true ∧
      r.total_bytes + n ≤
        (worker s.transport range_size (keys.map (describe content)) n iter r buf).1.total_bytes := by
  induction n generalizing iter r buf with
  | zero => exact ⟨hok, by simp [worker]⟩
  | succ n ih =>
    have hmem := getD_mod_mem hne iter
    have hxfer : 0 < xferSize range_size (describe content (keys.getD (iter % keys.length) [])) :=
      xferSize_pos range_size (List.length_pos_iff.mpr (hpos _ hmem))
    rw [worker, objAt_map _ hne]
    simp only [hw.get_eq hmem (hpos _ hmem)]
    rw [if_neg (by omega)]
    refine And.imp_right (fun htotal => le_trans ?_ htotal) (ih _ _ ?_)
    · dsimp only
      push_cast
      omega
    · exact hok

end Session

/-- When nothing fails and no object is empty, the run exits with 0 and writes a dump, with either
encoding of the token. -/
theorem runClient_completes {s : Session} {content : Bytes → Bytes} {fresh : ℕ → Bytes} {args : Args}
    (hw : s.Working content args.objects) (hkeys : args.objects ≠ [])
    (hpos : ∀ key ∈ args.objects, content key ≠ []) (hout : args.out ≠ []) {iterations : ℕ}
    (hiter : 1 ≤ iterations) :
    ∃ file, runClient s.head s.transport fresh args iterations = (0, some file) := by
  obtain ⟨m, hdisc, -⟩ := discoverLoop_eq (fun key => rfl) hpos [] 0
  rw [← discoverLoop_congr fun key => hw.head_eq] at hdisc
  unfold runClient discoverObjects
  rw [hdisc, List.nil_append]
  dsimp only
  obtain ⟨hok, htotal⟩ := hw.worker_ok hkeys hpos args.range_size iterations
    0 (warmUp s.transport args.range_size (args.objects.map (describe content)) 0 (fresh m))
    (r := {}) rfl
  have htotal' : 0 < (worker s.transport args.range_size (args.objects.map (describe content))
      iterations 0 {} (warmUp s.transport args.range_size (args.objects.map (describe content)) 0
        (fresh m))).1.total_bytes := lt_of_lt_of_le (by dsimp only; omega) htotal
  rw [hok, Bool.not_true, if_neg (by decide), dump, if_pos ⟨hout, htotal'⟩]
  exact ⟨_, rfl⟩

/-- The session with the server of three bytes, with tokens in Base64. -/
theorem runClient_completes_three_bytes :
    ∃ file, runClient (threeBytesSession .base64 id).head (threeBytesSession .base64 id).transport
      (List.replicate · 9) { objects := [ascii "k"], out := ascii "dump.bin" } 2 =
        (0, some file) := by
  have hworking : (threeBytesSession .base64 id).Working threeBytesContent [ascii "k"] :=
    { threeBytesSession_faithful fun _ => rfl with
      built := fun _ _ => ⟨_, _, rfl, rfl⟩
      answered := fun _ _ => rfl
      works := fun _ _ =>
        { buffered := rfl
          chunk_pos := show 0 < 4096 by decide
          preads := fun _ _ ho => absurd ho List.not_mem_nil
          spawns := fun _ => rfl
          writes := fun _ _ => rfl }
      base_ne := by decide
      valid := by decide
      found := fun _ _ _ _ => ⟨_, rfl⟩
      headBuilt := fun _ => ⟨_, rfl⟩
      headAnswered := fun _ => rfl
      headFound := fun _ _ => ⟨_, rfl⟩ }
  exact runClient_completes hworking (by decide) (by decide) (by decide) (by decide)

end S3Rdma.Client
