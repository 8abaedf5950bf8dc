import S3Rdma.Signing.Verifier

/-!
# The canonical request binds the request

A canonical request is a text of lines: the method, the encoded path, the query, one line for each
entry of the signer's map, an empty line, the names and the payload hash. No line contains a line
end when the request can be sent (`lineFree_of_mem_canonicalLines`), so the text gives the lines
back, and the lines give the method, the path and the map back: an encoded path decodes to the path,
and a name contains no colon. So two requests with one canonical form agree in everything that is
signed (`canonicalRequest_binds`).
-/

namespace S3Rdma

/-- The lines of a canonical request. -/
def canonicalLines (req : SigV4Request) (hdrs : HeaderList) : List Bytes :=
  [req.method, uriEncode req.path true, req.query] ++ hdrs.map (fun h => h.1 ++ chr ':' :: h.2) ++
    [[], signedHeaders hdrs, req.payload_hash]

/-- A canonical request is its lines, joined. -/
theorem canonicalRequest_eq_lines (req : SigV4Request) (hdrs : HeaderList) :
    canonicalRequest req hdrs = [LF].intercalate (canonicalLines req hdrs) := by
  have hhead : ∀ l more, more ≠ [] → [LF].intercalate (l :: more) = l ++ LF :: [LF].intercalate more := by
    intro l more hmore
    obtain ⟨l', more, rfl⟩ := List.exists_cons_of_ne_nil hmore
    rw [List.intercalate_cons_cons]
    simp
  have hmap : ∀ tail, tail ≠ [] →
      [LF].intercalate (hdrs.map (fun h => h.1 ++ chr ':' :: h.2) ++ tail) =
        canonicalHeaders hdrs ++ [LF].intercalate tail := by
    intro tail htail
    unfold canonicalHeaders
    induction hdrs with
    | nil => rfl
    | cons h hdrs ih =>
      rw [List.map_cons, List.cons_append, hhead _ _ (by simp [htail]), ih, List.flatMap_cons]
      simp
  have hlines : canonicalLines req hdrs = req.method :: uriEncode req.path true :: req.query ::
      (hdrs.map (fun h => h.1 ++ chr ':' :: h.2) ++ [[], signedHeaders hdrs, req.payload_hash]) := by
    simp [canonicalLines]
  rw [hlines, hhead _ _ (by simp), hhead _ _ (by simp), hhead _ _ (by simp), hmap _ (by simp),
    hhead _ _ (by simp), hhead _ _ (by simp), List.intercalate_singleton]
  simp [canonicalRequest]

/-- A name and a value are read back from their line. -/
theorem line_injective {n n' v v' : Bytes} (hn : chr ':' ∉ n) (hn' : chr ':' ∉ n')
    (h : n ++ chr ':' :: v = n' ++ chr ':' :: v') : n = n' ∧ v = v' := by
  have hlen : n.length = n'.length := by
    have hidx := congrArg (List.idxOf? (chr ':')) h
    rw [idxOf?_append_cons hn, idxOf?_append_cons hn'] at hidx
    exact Option.some.inj hidx
  obtain ⟨hname, hrest⟩ := List.append_inj h hlen
  exact ⟨hname, (List.cons.inj hrest).2⟩

/-- The entries of a map are read back from their lines. -/
theorem lines_injective {hdrs hdrs' : HeaderList} (hn : ∀ e ∈ hdrs, chr ':' ∉ e.1)
    (hn' : ∀ e ∈ hdrs', chr ':' ∉ e.1)
    (h : hdrs.map (fun e => e.1 ++ chr ':' :: e.2) = hdrs'.map (fun e => e.1 ++ chr ':' :: e.2)) :
    hdrs = hdrs' := by
  induction hdrs generalizing hdrs' with
  | nil => exact (List.map_eq_nil_iff.mp h.symm).symm
  | cons e hdrs ih =>
    cases hdrs' with
    | nil => exact absurd h (by simp)
    | cons e' hdrs' =>
      rw [List.map_cons, List.map_cons, List.cons.injEq] at h
      obtain ⟨hname, hvalue⟩ :=
        line_injective (hn e List.mem_cons_self) (hn' e' List.mem_cons_self) h.1
      rw [Prod.ext hname hvalue, ih (fun e he => hn e (List.mem_cons_of_mem _ he))
        (fun e he => hn' e (List.mem_cons_of_mem _ he)) h.2]

/-- The method, the path and the map are read back from the lines. -/
theorem canonicalLines_injective {req req' : SigV4Request} {hdrs hdrs' : HeaderList}
    (hn : ∀ e ∈ hdrs, chr ':' ∉ e.1) (hn' : ∀ e ∈ hdrs', chr ':' ∉ e.1)
    (h : canonicalLines req hdrs = canonicalLines req' hdrs') :
    req.method = req'.method ∧ req.path = req'.path ∧ hdrs = hdrs' := by
  unfold canonicalLines at h
  have hlen := congrArg List.length h
  simp only [List.length_append, List.length_map, List.length_cons, List.length_nil] at hlen
  obtain ⟨hfront, -⟩ := List.append_inj h (by simp; omega)
  obtain ⟨hfirst, hmap⟩ := List.append_inj hfront rfl
  simp only [List.cons.injEq, and_true] at hfirst
  exact ⟨hfirst.1, uriEncode_injective hfirst.2.1, lines_injective hn hn' hmap⟩

/-! ## The lines of a request that can be sent -/

/-- A byte of a canonical value is a byte of the value or a space. -/
theorem mem_canonicalValue {v : Bytes} {c : UInt8} (h : c ∈ canonicalValue v) : c ∈ v ∨ c = SP := by
  -- By induction on the value, for any state of the loop: it copies a byte or inserts a space.
  have hfold : ∀ (w : Bytes) (s : CanonicalState), c ∈ (w.foldl canonicalStep s).out →
      c ∈ s.out ∨ c ∈ w ∨ c = SP := by
    intro w
    induction w with
    | nil => exact fun s hs => .inl hs
    | cons d w ih =>
      intro s hs
      rcases ih _ hs with hout | hw | hsp
      · by_cases hd : isBlank d = true
        · rw [canonicalStep_blank hd] at hout
          exact .inl hout
        · rw [canonicalStep_text hd, List.mem_append, List.mem_singleton] at hout
          rcases hout with hout | rfl
          · split_ifs at hout
            · rcases List.mem_append.mp hout with hout | hout
              · exact .inl hout
              · exact .inr (.inr (List.mem_singleton.mp hout))
            · exact .inl hout
          · exact .inr (.inl List.mem_cons_self)
      · exact .inr (.inl (List.mem_cons_of_mem _ hw))
      · exact .inr (.inr hsp)
  rcases hfold v {} h with hout | hw
  · exact absurd hout (by simp)
  · exact hw

/-- A value that can be sent has no line end in its canonical form. -/
theorem LF_not_mem_canonicalValue {v : Bytes} (h : validFieldValue v = true) :
    LF ∉ canonicalValue v := by
  intro hmem
  rcases mem_canonicalValue hmem with hv | hsp
  · exact absurd (List.all_eq_true.mp h LF hv) (by decide)
  · exact absurd hsp (by decide)

/-- The value of the authorization: it depends on the request through its canonical form and its
date only. -/
def signAuthorization (P : Platform) (access_key secret_key region service amz_date names
    canonical_request : Bytes) : Except Bytes Bytes := do
  let date := amz_date.take 8
  let scope := date ++ [chr '/'] ++ region ++ [chr '/'] ++ service ++ ascii "/aws4_request"
  let string_to_sign := ascii "AWS4-HMAC-SHA256" ++ [LF] ++ amz_date ++ [LF] ++ scope ++ [LF] ++
    sha256Hex P canonical_request
  let k ← hmacSha256 P (ascii "AWS4" ++ secret_key) date
  let k ← hmacSha256 P k region
  let k ← hmacSha256 P k service
  let k ← hmacSha256 P k (ascii "aws4_request")
  let signature := hex (← hmacSha256 P k string_to_sign)
  return ascii "AWS4-HMAC-SHA256 Credential=" ++ access_key ++ [chr '/'] ++ scope ++
    ascii ", SignedHeaders=" ++ names ++ ascii ", Signature=" ++ signature

/-- What the signer hashes, and what it sends. -/
theorem sigv4Sign_authorization {P : Platform} {req : SigV4Request} {cred : SigV4Credentials}
    {region service amz_date : Bytes} {r : SigV4Result}
    (h : sigv4Sign P req cred region service amz_date = .ok r) :
    ∃ hdrs auth, addHeaders (managedHeaders req cred amz_date) req.headers = .ok hdrs ∧
      r.canonical_request = canonicalRequest req hdrs ∧
      r.headers = managedFields req cred amz_date ++ [(ascii "Authorization", auth)] ∧
      signAuthorization P cred.access_key cred.secret_key region service amz_date (signedHeaders hdrs)
        r.canonical_request = .ok auth := by
  unfold sigv4Sign at h
  obtain ⟨hdrs, hadd, h⟩ := exists_of_bind_eq_ok h
  obtain ⟨k₁, h₁, h⟩ := exists_of_bind_eq_ok h
  obtain ⟨k₂, h₂, h⟩ := exists_of_bind_eq_ok h
  obtain ⟨k₃, h₃, h⟩ := exists_of_bind_eq_ok h
  obtain ⟨k₄, h₄, h⟩ := exists_of_bind_eq_ok h
  obtain ⟨mac, h₅, h⟩ := exists_of_bind_eq_ok h
  obtain rfl := Except.ok.inj h
  refine ⟨hdrs, _, hadd, rfl, rfl, ?_⟩
  simp only [signAuthorization, bind, Except.bind, h₁, h₂, h₃, h₄, h₅]
  rfl

/-- The names under which something is signed in a request of the control plane. -/
def controlPlaneNames : List Bytes :=
  [ascii "host", ascii "x-amz-content-sha256", ascii "x-amz-date", ascii "x-amz-security-token",
    kHdrRdmaToken, ascii "range"]

/-- A request of the control plane that was signed and whose host and fields can be sent. -/
structure SignedRequest (P : Platform) where
  options : ProtocolOptions
  method : Bytes
  host_header : Bytes
  path : Bytes
  range : Bytes
  token : Bytes
  now : ℤ
  /-- What the signer returned. -/
  result : SigV4Result
  /-- What `control_plane_headers` returned. -/
  headers : HeaderList
  auth : options.auth = .sigV4
  method_mem : method = ascii "GET" ∨ method = ascii "HEAD"
  signed : sigv4Sign P (controlPlaneRequest method host_header path range token) options.credentials
    options.region (ascii "s3") (sigv4AmzDate P now) = .ok result
  built : controlPlaneHeaders P options method host_header path range token now = .ok headers
  accepted : ∃ target msg, buildRequest host_header target headers = .ok msg

namespace SignedRequest

variable {P : Platform} (a : SignedRequest P)

/-- What is signed. -/
def req : SigV4Request := controlPlaneRequest a.method a.host_header a.path a.range a.token

/-- The date of the request. -/
def amzDate : Bytes := sigv4AmzDate P a.now

/-- The fields as they are sent. -/
def fields : HeaderList := (ascii "Host", a.host_header) :: a.headers

/-- The canonical values of a lower-case name, joined; nothing if there is no field of that name. -/
def canonicalAt (n : Bytes) : Option Bytes := joined ((valuesOf a.fields n).map canonicalValue)

/-- The map of the signer, and what is sent. -/
theorem exists_map : ∃ hdrs auth,
    addHeaders (managedHeaders a.req a.options.credentials a.amzDate) a.req.headers = .ok hdrs ∧
      a.result.canonical_request = canonicalRequest a.req hdrs ∧
      a.headers = a.req.headers ++ (managedFields a.req a.options.credentials a.amzDate ++
        [(ascii "Authorization", auth)]) ∧
      signAuthorization P a.options.credentials.access_key a.options.credentials.secret_key
        a.options.region (ascii "s3") a.amzDate (signedHeaders hdrs) a.result.canonical_request =
          .ok auth := by
  obtain ⟨hdrs, auth, hadd, hcanonical, hheaders, hauth⟩ := sigv4Sign_authorization a.signed
  refine ⟨hdrs, auth, hadd, hcanonical, ?_, hauth⟩
  have hbuilt := a.built
  unfold controlPlaneHeaders at hbuilt
  rw [a.auth] at hbuilt
  obtain ⟨r, hsigned, hbuilt⟩ := exists_of_bind_eq_ok hbuilt
  obtain rfl := Except.ok.inj (hsigned.symm.trans a.signed)
  rw [← Except.ok.inj hbuilt, hheaders]
  rfl

/-- The host and the values of all fields can be sent. -/
theorem valid : validFieldValue a.host_header = true ∧
    ∀ f ∈ a.headers, validFieldValue f.2 = true := by
  obtain ⟨target, ⟨msg, token_bearing⟩, hbuild⟩ := a.accepted
  refine ⟨?_, fun f hf => ((readMessage_buildRequest hbuild).2 f hf).1.value_valid⟩
  unfold buildRequest at hbuild
  split_ifs at hbuild with h₁ h₂ h₃
  simp only [Bool.or_eq_true, not_or, Bool.not_eq_true, Bool.not_eq_false'] at h₃
  exact h₃.1.2

/-- The signer starts with its own fields, the host in canonical form. -/
theorem managedHeaders_req : managedHeaders a.req a.options.credentials a.amzDate =
    (ascii "host", canonicalValue a.host_header) ::
      managedFields a.req a.options.credentials a.amzDate := by
  unfold managedHeaders managedFields
  dsimp only
  split_ifs <;> rfl

/-- The names that the signer starts with. -/
theorem name_mem_managedHeaders {e : Bytes × Bytes}
    (he : e ∈ managedHeaders a.req a.options.credentials a.amzDate) :
    e.1 ∈ controlPlaneNames ∧ e.1 ∈ managedNames := by
  rw [managedHeaders_req, managedFields] at he
  split_ifs at he <;>
    simp only [List.mem_append, List.mem_cons, List.not_mem_nil, or_false] at he
  · rcases he with rfl | rfl | rfl <;> simp [controlPlaneNames, managedNames]
  · rcases he with rfl | (rfl | rfl) | rfl <;> simp [controlPlaneNames, managedNames]

/-- The signer's own values contain no line end. -/
theorem LF_not_mem_managedHeaders {e : Bytes × Bytes}
    (he : e ∈ managedHeaders a.req a.options.credentials a.amzDate) : LF ∉ e.2 := by
  obtain ⟨hhost, hvalid⟩ := a.valid
  obtain ⟨hdrs, auth, -, -, hheaders, -⟩ := a.exists_map
  rw [managedHeaders_req] at he
  rcases List.mem_cons.mp he with rfl | he
  · exact LF_not_mem_canonicalValue hhost
  · have hmem : e ∈ a.headers := by
      rw [hheaders]
      exact List.mem_append_right _ (List.mem_append_left _ he)
    intro hlf
    exact absurd (List.all_eq_true.mp (hvalid e hmem) LF hlf) (by decide)

/-- The caller's fields have two names. -/
theorem lower_mem_ownHeaders {h : Bytes × Bytes} (hh : h ∈ a.req.headers) :
    lower h.1 ∈ controlPlaneNames := by
  have h₁ : lower kHdrRdmaToken ∈ controlPlaneNames := by decide
  have h₂ : lower (ascii "Range") ∈ controlPlaneNames := by decide
  change h ∈ ownHeaders a.range a.token at hh
  unfold ownHeaders at hh
  split_ifs at hh <;> simp only [List.mem_append, List.mem_cons, List.not_mem_nil, or_false, false_or]
    at hh
  · rw [hh]
    exact h₂
  · rw [hh]
    exact h₁
  · rcases hh with rfl | rfl
    · exact h₁
    · exact h₂

/-- The entries of the signer's map: their names are known, and their values have no line end. -/
theorem map_entry {hdrs : HeaderList}
    (hadd : addHeaders (managedHeaders a.req a.options.credentials a.amzDate) a.req.headers = .ok hdrs)
    {e : Bytes × Bytes} (he : e ∈ hdrs) : e.1 ∈ controlPlaneNames ∧ LF ∉ e.2 := by
  obtain ⟨hsorted, -, hlookup⟩ := addHeaders_spec sorted_managedHeaders hadd
  obtain ⟨hdrs', auth, -, -, hheaders, -⟩ := a.exists_map
  have hvalue := hsorted.lookup_of_mem he
  rw [hlookup] at hvalue
  -- The value consists of parts, and there is a part.
  obtain ⟨v, vs, hparts⟩ : ∃ v vs,
      ((managedHeaders a.req a.options.credentials a.amzDate).lookup e.1).toList ++
        (valuesOf a.req.headers e.1).map canonicalValue = v :: vs := by
    apply List.exists_cons_of_ne_nil
    intro hnil
    rw [hnil] at hvalue
    exact absurd hvalue (by simp [joined])
  have hpart : ∀ part ∈ v :: vs, e.1 ∈ controlPlaneNames ∧ LF ∉ part := by
    intro part hpart
    rw [← hparts, List.mem_append, Option.mem_toList] at hpart
    rcases hpart with hpart | hpart
    · obtain ⟨l₁, l₂, hl, -⟩ := List.lookup_eq_some_iff.mp hpart
      have hmem : (e.1, part) ∈ managedHeaders a.req a.options.credentials a.amzDate := by
        rw [hl]
        simp
      exact ⟨(a.name_mem_managedHeaders hmem).1, a.LF_not_mem_managedHeaders hmem⟩
    · obtain ⟨w, hw, rfl⟩ := List.mem_map.mp hpart
      unfold valuesOf at hw
      obtain ⟨f, hf, rfl⟩ := List.mem_map.mp hw
      obtain ⟨hf, hname⟩ := List.mem_filter.mp hf
      have hmem : f ∈ a.headers := by
        rw [hheaders]
        exact List.mem_append_left _ hf
      refine ⟨?_, LF_not_mem_canonicalValue (a.valid.2 f hmem)⟩
      rw [← beq_iff_eq.mp hname]
      exact a.lower_mem_ownHeaders hf
  refine ⟨(hpart v List.mem_cons_self).1, fun hlf => ?_⟩
  rw [hparts] at hvalue
  rw [← Option.some.inj hvalue] at hlf
  rcases mem_intercalate hlf with hcomma | ⟨part, hmem, hlf⟩
  · exact absurd hcomma (by decide)
  · exact (hpart part hmem).2 hlf

/-- No line of the canonical request contains a line end. -/
theorem LF_not_mem_lines {hdrs : HeaderList}
    (hadd : addHeaders (managedHeaders a.req a.options.credentials a.amzDate) a.req.headers = .ok hdrs)
    {line : Bytes} (hline : line ∈ canonicalLines a.req hdrs) : LF ∉ line := by
  -- Names are from a fixed list, the path is percent-encoded, and the method is one of two words.
  have hnames : ∀ n ∈ controlPlaneNames, LF ∉ n ∧ n ≠ [] := by decide +kernel
  have hpath : LF ∉ uriEncode a.path true := by
    have hbyte : ∀ c : UInt8, LF ∉ uriEncodeByte true c := by
      rw [forall_byte_iff]
      decide +kernel
    intro hlf
    obtain ⟨c, -, hc⟩ := List.mem_flatMap.mp hlf
    exact hbyte c hc
  have hmethod : LF ∉ a.method := by
    rcases a.method_mem with h | h <;> rw [h] <;> decide
  unfold canonicalLines at hline
  simp only [List.mem_append, List.mem_cons, List.mem_map, List.not_mem_nil, or_false] at hline
  rcases hline with (hfirst | ⟨e, he, rfl⟩) | hlast
  · rcases hfirst with rfl | rfl | rfl
    · exact hmethod
    · exact hpath
    · exact List.not_mem_nil
  · obtain ⟨hname, hvalue⟩ := a.map_entry hadd he
    simp only [List.mem_append, List.mem_cons, not_or]
    exact ⟨(hnames _ hname).1, by decide, hvalue⟩
  · rcases hlast with rfl | rfl | rfl
    · exact List.not_mem_nil
    · rw [signedHeaders_eq fun e he => (hnames _ (a.map_entry hadd he).1).2]
      intro hlf
      rcases mem_intercalate hlf with hsemi | ⟨n, hn, hlf⟩
      · exact absurd hsemi (by decide)
      · obtain ⟨e, he, rfl⟩ := List.mem_map.mp hn
        exact (hnames _ (a.map_entry hadd he).1).1 hlf
    · show LF ∉ kUnsignedPayload
      decide

/-- The values of a name among the fields that are sent. -/
theorem valuesOf_fields {auth : Bytes}
    (hheaders : a.headers = a.req.headers ++ (managedFields a.req a.options.credentials a.amzDate ++
      [(ascii "Authorization", auth)])) (n : Bytes) :
    valuesOf a.fields n = valuesOf [(ascii "Host", a.host_header)] n ++ (valuesOf a.req.headers n ++
      (valuesOf (managedFields a.req a.options.credentials a.amzDate) n ++
        valuesOf [(ascii "Authorization", auth)] n)) := by
  rw [← valuesOf_append, ← valuesOf_append, ← valuesOf_append, fields, hheaders]
  rfl

section Map

variable {hdrs : HeaderList} (hadd : addHeaders
  (managedHeaders a.req a.options.credentials a.amzDate) a.req.headers = .ok hdrs)
include hadd

/-- The caller sends no field under a name that is the signer's. -/
theorem valuesOf_own_eq_nil {n : Bytes} (hn : n ∈ managedNames) : valuesOf a.req.headers n = [] := by
  have hnot := (addHeaders_spec sorted_managedHeaders hadd).not_managed
  by_contra hne
  obtain ⟨f, hf, rfl⟩ := List.mem_map.mp (valuesOf_ne_nil_iff.mp hne)
  exact hnot f hf hn

/-- The fields of a name that is the signer's. -/
theorem canonicalAt_managed {n : Bytes} (hn : n ∈ managedNames) (hauth : n ≠ ascii "authorization") :
    a.canonicalAt n = joined (valuesOf (((ascii "Host", a.host_header) ::
      managedFields a.req a.options.credentials a.amzDate).map canonicalField) n) := by
  obtain ⟨-, auth, -, -, hheaders, -⟩ := a.exists_map
  have hnone : valuesOf [(ascii "Authorization", auth)] n = [] := by
    rw [valuesOf_cons, lower_authorization, if_neg (Ne.symm hauth)]
    rfl
  rw [canonicalAt, a.valuesOf_fields hheaders, a.valuesOf_own_eq_nil hadd hn, hnone,
    List.nil_append, List.append_nil, ← valuesOf_append, valuesOf_map_canonicalField]
  rfl

/-- The fields of another name are what the signer's map holds under it. -/
theorem canonicalAt_other {n : Bytes} (hn : n ∉ managedNames) : a.canonicalAt n = hdrs.lookup n := by
  have hlower : lower (ascii "Authorization") ∈ managedNames := by decide
  obtain ⟨-, auth, -, -, hheaders, -⟩ := a.exists_map
  -- No field that the signer adds has such a name, so what is sent under it is the caller's.
  have hnil : ∀ hs : HeaderList, (∀ h ∈ hs, lower h.1 ∈ managedNames) → valuesOf hs n = [] := by
    intro hs hmanaged
    by_contra hne
    obtain ⟨f, hf, rfl⟩ := List.mem_map.mp (valuesOf_ne_nil_iff.mp hne)
    exact hn (hmanaged f hf)
  have hwire : ∀ h ∈ (ascii "Host", a.req.host) ::
      managedFields a.req a.options.credentials a.amzDate, lower h.1 ∈ managedNames :=
    fun h hh => lower_mem_managedNames _ (name_mem_managedWireNames hh)
  have hhost : valuesOf [(ascii "Host", a.host_header)] n = [] := hnil _ fun h hh =>
    hwire h (List.mem_singleton.mp hh ▸ List.mem_cons_self)
  have hown : valuesOf (managedFields a.req a.options.credentials a.amzDate) n = [] :=
    hnil _ fun h hh => hwire h (List.mem_cons_of_mem _ hh)
  have hauth : valuesOf [(ascii "Authorization", auth)] n = [] := hnil _ fun h hh => by
    rw [List.mem_singleton.mp hh]
    exact hlower
  have hmap : (managedHeaders a.req a.options.credentials a.amzDate).lookup n = none := by
    rw [List.lookup_eq_none_iff]
    intro e he
    rw [bne_iff_ne]
    rintro rfl
    exact hn (a.name_mem_managedHeaders he).2
  rw [canonicalAt, a.valuesOf_fields hheaders, hhost, hown, hauth,
    (addHeaders_spec sorted_managedHeaders hadd).lookup, hmap]
  simp

/-- What the signer's map holds under its own names. -/
theorem lookup_managed {n : Bytes} (hn : n ∈ managedNames) :
    hdrs.lookup n = (managedHeaders a.req a.options.credentials a.amzDate).lookup n := by
  rw [(addHeaders_spec sorted_managedHeaders hadd).lookup, a.valuesOf_own_eq_nil hadd hn,
    List.map_nil, List.append_nil, joined_toList]

/-- The canonical value of the authorization field is that of the one field of this name. -/
theorem canonicalAt_authorization {auth : Bytes}
    (hheaders : a.headers = a.req.headers ++ (managedFields a.req a.options.credentials a.amzDate ++
      [(ascii "Authorization", auth)])) :
    a.canonicalAt (ascii "authorization") = some (canonicalValue auth) := by
  have hown : valuesOf a.req.headers (ascii "authorization") = [] :=
    a.valuesOf_own_eq_nil hadd (by decide)
  have hnames : ∀ n ∈ managedWireNames, lower n ≠ ascii "authorization" := by decide
  have hnil : ∀ hs : HeaderList, (∀ h ∈ hs, h.1 ∈ managedWireNames) →
      valuesOf hs (ascii "authorization") = [] := by
    intro hs hwire
    by_contra hne
    obtain ⟨f, hf, heq⟩ := List.mem_map.mp (valuesOf_ne_nil_iff.mp hne)
    exact hnames _ (hwire f hf) heq
  have hhost : valuesOf [(ascii "Host", a.host_header)] (ascii "authorization") = [] := by
    refine hnil _ fun h hh => ?_
    rw [List.mem_singleton.mp hh]
    simp [managedWireNames]
  have hmanaged : valuesOf (managedFields a.req a.options.credentials a.amzDate)
      (ascii "authorization") = [] :=
    hnil _ fun h hh => name_mem_managedWireNames (List.mem_cons_of_mem _ hh)
  rw [canonicalAt, a.valuesOf_fields hheaders, hhost, hown, hmanaged, valuesOf_cons,
    lower_authorization, if_pos rfl]
  show joined [canonicalValue auth] = _
  rw [joined, List.intercalate_singleton]

end Map

/-- Requests with the same map have the same own fields of the signer, up to the canonical form of
the host. -/
theorem managed_eq {a b : SignedRequest P} {hdrs : HeaderList}
    (ha : addHeaders (managedHeaders a.req a.options.credentials a.amzDate) a.req.headers = .ok hdrs)
    (hb : addHeaders (managedHeaders b.req b.options.credentials b.amzDate) b.req.headers = .ok hdrs) :
    canonicalValue a.host_header = canonicalValue b.host_header ∧ a.amzDate = b.amzDate ∧
      a.options.credentials.session_token = b.options.credentials.session_token := by
  have hsame : ∀ n ∈ managedNames,
      (managedHeaders a.req a.options.credentials a.amzDate).lookup n =
        (managedHeaders b.req b.options.credentials b.amzDate).lookup n := by
    intro n hn
    rw [← a.lookup_managed ha hn, b.lookup_managed hb hn]
  have hhost := hsame (ascii "host") (by decide)
  have hdate := hsame (ascii "x-amz-date") (by decide)
  have htoken := hsame (ascii "x-amz-security-token") (by decide)
  rw [managedHeaders_req, managedHeaders_req] at hhost hdate htoken
  refine ⟨Option.some.inj hhost, Option.some.inj hdate, ?_⟩
  -- Without a session token there is no entry.
  unfold managedFields at htoken
  by_cases h₁ : a.options.credentials.session_token = [] <;>
    by_cases h₂ : b.options.credentials.session_token = []
  · rw [h₁, h₂]
  · rw [if_pos h₁, if_neg h₂] at htoken
    exact absurd htoken nofun
  · rw [if_neg h₁, if_pos h₂] at htoken
    exact absurd htoken nofun
  · rw [if_neg h₁, if_neg h₂] at htoken
    exact Option.some.inj htoken

end SignedRequest

/-- The canonical request binds the request: two requests that are signed over the same text agree
in the method, the path, the canonical host, the date, and for every name in the presence and in the
canonical value of its fields. The authorization is not part of the text; its value agrees when the
keys and the region do. -/
theorem canonicalRequest_binds {P : Platform} (a b : SignedRequest P)
    (h : a.result.canonical_request = b.result.canonical_request) :
    a.method = b.method ∧ a.path = b.path ∧
      canonicalValue a.host_header = canonicalValue b.host_header ∧
      sigv4AmzDate P a.now = sigv4AmzDate P b.now ∧
      ∀ n, (a.canonicalAt n).isSome = (b.canonicalAt n).isSome ∧
        (n ≠ ascii "authorization" ∨
          (a.options.credentials.access_key = b.options.credentials.access_key ∧
            a.options.credentials.secret_key = b.options.credentials.secret_key ∧
            a.options.region = b.options.region) → a.canonicalAt n = b.canonicalAt n) := by
  obtain ⟨hdrs, auth, hadd, hcanonical, hheaders, hauth⟩ := a.exists_map
  obtain ⟨hdrs', auth', hadd', hcanonical', hheaders', hauth'⟩ := b.exists_map
  -- The text is its lines joined by LF, and no line contains one: equal texts, equal lines.
  have hlines : canonicalLines a.req hdrs = canonicalLines b.req hdrs' := by
    have htext := h
    rw [hcanonical, hcanonical', canonicalRequest_eq_lines, canonicalRequest_eq_lines] at htext
    have hsplit := congrArg (List.splitOn LF) htext
    rwa [List.splitOn_intercalate LF (fun line hl => a.LF_not_mem_lines hadd hl)
        (by simp [canonicalLines]),
      List.splitOn_intercalate LF (fun line hl => b.LF_not_mem_lines hadd' hl)
        (by simp [canonicalLines])] at hsplit
  -- A header line is cut at its first colon, which is not in the name.
  have hcolon : ∀ n ∈ controlPlaneNames, chr ':' ∉ n := by decide +kernel
  obtain ⟨hmethod, hpath, rfl⟩ := canonicalLines_injective
    (fun e he => hcolon _ (a.map_entry hadd he).1) (fun e he => hcolon _ (b.map_entry hadd' he).1)
    hlines
  obtain ⟨hhost, hdate, htoken⟩ := SignedRequest.managed_eq hadd hadd'
  -- Equal maps: the signer's own names by the fields it adds, the others by the map itself.
  have hfields : ∀ n, n ≠ ascii "authorization" → a.canonicalAt n = b.canonicalAt n := by
    intro n hne
    by_cases hn : n ∈ managedNames
    · have hmap : ((ascii "Host", a.host_header) ::
          managedFields a.req a.options.credentials a.amzDate).map canonicalField =
          ((ascii "Host", b.host_header) ::
            managedFields b.req b.options.credentials b.amzDate).map canonicalField := by
        unfold managedFields canonicalField
        rw [htoken, hdate, List.map_cons, List.map_cons, hhost]
        rfl
      rw [a.canonicalAt_managed hadd hn hne, b.canonicalAt_managed hadd' hn hne, hmap]
    · rw [a.canonicalAt_other hadd hn, b.canonicalAt_other hadd' hn]
  -- The signature is a function of the text, the keys, the region and the date.
  have hsent := a.canonicalAt_authorization hadd hheaders
  have hsent' := b.canonicalAt_authorization hadd' hheaders'
  refine ⟨hmethod, hpath, hhost, hdate, fun n => ⟨?_, ?_⟩⟩
  · by_cases hne : n = ascii "authorization"
    · rw [hne, hsent, hsent']
      rfl
    · rw [hfields n hne]
  · rintro (hne | ⟨haccess, hsecret, hregion⟩)
    · exact hfields n hne
    · by_cases hne : n = ascii "authorization"
      · rw [haccess, hsecret, hregion, hdate, h] at hauth
        rw [hne, hsent, hsent', Except.ok.inj (hauth.symm.trans hauth')]
      · exact hfields n hne

/-- Sign a request and try to build its message. -/
def SignedRequest.sign? (P : Platform) (o : ProtocolOptions)
    (method host_header path range token : Bytes) (now : ℤ) : Option (SignedRequest P) :=
  if hauth : o.auth = .sigV4 then
    if hmethod : method = ascii "GET" ∨ method = ascii "HEAD" then
      match hsigned : sigv4Sign P (controlPlaneRequest method host_header path range token)
          o.credentials o.region (ascii "s3") (sigv4AmzDate P now),
        hbuilt : controlPlaneHeaders P o method host_header path range token now with
      | .ok result, .ok headers =>
        match hmsg : buildRequest host_header (uriEncode path true) headers with
        | .ok msg => some ⟨o, method, host_header, path, range, token, now, result, headers, hauth,
            hmethod, hsigned, hbuilt, _, msg, hmsg⟩
        | .error _ => none
      | _, _ => none
    else none
  else none

/-- Two requests that differ in the blanks of the token and of the host only. -/
def looseRequest : Option (SignedRequest examplePlatform) :=
  SignedRequest.sign? examplePlatform exampleOptions (ascii "HEAD") (ascii "h" ++ [HT]) (ascii "/b/a k")
    (ascii "bytes=0-1") (ascii " 7f  0a") 1369353600

def tightRequest : Option (SignedRequest examplePlatform) :=
  SignedRequest.sign? examplePlatform exampleOptions (ascii "HEAD") (ascii "h") (ascii "/b/a k")
    (ascii "bytes=0-1") (ascii "7f 0a") 1369353600

/-- The loose and the tight request have the same canonical form, so that their tokens agree but for
the blanks. -/
theorem canonicalRequest_binds_blanks :
    ∃ a ∈ looseRequest, ∃ b ∈ tightRequest, a.token ≠ b.token ∧
      a.canonicalAt kHdrRdmaToken = b.canonicalAt kHdrRdmaToken := by
  obtain ⟨hloose, htight, hsame, hne⟩ : looseRequest.isSome = true ∧ tightRequest.isSome = true ∧
      looseRequest.map (fun a => a.result.canonical_request) =
        tightRequest.map (fun b => b.result.canonical_request) ∧
      looseRequest.map (fun a => a.token) ≠ tightRequest.map (fun b => b.token) := by
    decide +kernel
  obtain ⟨a, ha⟩ := Option.isSome_iff_exists.mp hloose
  obtain ⟨b, hb⟩ := Option.isSome_iff_exists.mp htight
  rw [ha, hb] at hsame hne
  refine ⟨a, ha, b, hb, fun heq => hne (congrArg some heq), ?_⟩
  exact ((canonicalRequest_binds a b (Option.some.inj hsame)).2.2.2.2 kHdrRdmaToken).2
    (.inl (by decide +kernel))

end S3Rdma
