import S3Rdma.Common.Protocol
import S3Rdma.Http.Head
import S3Rdma.Lib.Words

/-!
# The canonical form of a request

What the signer computes, said without its loops. `canonical_value` joins the words of a value
(`canonicalValue_eq_collapse`), so the blanks around the value do not matter to it. The map of
canonical headers is sorted, and has under each name the canonical values of all fields of that
name, joined in wire order (`signer_lookup`).
-/

namespace S3Rdma

/-! ## Field values -/

/-- A blank is noted if there is a word before it. -/
theorem canonicalStep_blank {c : UInt8} (hc : isBlank c = true) (out : Bytes) (p : Bool) :
    canonicalStep ⟨out, p⟩ c = ⟨out, !out.isEmpty⟩ := by
  have hblank : c = SP ∨ c = HT := by simpa [isBlank] using hc
  rw [canonicalStep, if_pos hblank]

/-- Any other byte is appended, behind a space if one is pending. -/
theorem canonicalStep_text {c : UInt8} (hc : ¬ isBlank c = true) (out : Bytes) (p : Bool) :
    canonicalStep ⟨out, p⟩ c = ⟨(if p then out ++ [SP] else out) ++ [c], false⟩ := by
  have hblank : ¬ (c = SP ∨ c = HT) := by simpa [isBlank] using hc
  rw [canonicalStep, if_neg hblank]

/-- A run of the loop from the middle of a text: the first piece goes on with the word it is in, or
is appended as a new word when a blank is pending. -/
theorem foldl_canonicalStep {v w : Bytes} {ws : List Bytes} (h : v.splitOnP isBlank = w :: ws)
    (out : Bytes) :
    (v.foldl canonicalStep ⟨out, false⟩).out = ws.foldl (appendWord SP) (out ++ w) ∧
      (out ≠ [] →
        (v.foldl canonicalStep ⟨out, true⟩).out = (w :: ws).foldl (appendWord SP) out) := by
  induction v generalizing w ws out with
  | nil =>
    rw [List.splitOnP_nil, List.cons.injEq] at h
    obtain ⟨rfl, rfl⟩ := h
    exact ⟨by simp, fun _ => by simp⟩
  | cons c v ih =>
    obtain ⟨w', ws', hv⟩ := List.exists_cons_of_ne_nil (List.splitOnP_ne_nil isBlank v)
    rw [List.splitOnP_cons_eq_if_modifyHead, hv] at h
    have hfold : ∀ p, (c :: v).foldl canonicalStep ⟨out, p⟩ =
        v.foldl canonicalStep (canonicalStep ⟨out, p⟩ c) := fun p => rfl
    rw [hfold, hfold]
    by_cases hc : isBlank c = true
    · rw [if_pos hc, List.cons.injEq] at h
      obtain ⟨rfl, rfl⟩ := h
      rw [canonicalStep_blank hc, canonicalStep_blank hc, List.append_nil]
      by_cases hout : out = []
      · -- Nothing is pending at the start.
        subst hout
        refine ⟨?_, fun hne => absurd rfl hne⟩
        rw [List.foldl_cons, appendWord_nil_left]
        exact (ih hv []).1
      · have hpending : (!out.isEmpty) = true := by simpa using hout
        rw [hpending]
        refine ⟨(ih hv out).2 hout, fun _ => ?_⟩
        rw [List.foldl_cons, appendWord_nil_right]
        exact (ih hv out).2 hout
    · rw [if_neg hc, List.modifyHead_cons, List.cons.injEq] at h
      obtain ⟨rfl, rfl⟩ := h
      rw [canonicalStep_text hc, canonicalStep_text hc, if_neg Bool.false_ne_true, if_pos rfl]
      constructor
      · rw [(ih hv (out ++ [c])).1, List.append_assoc, List.singleton_append]
      · intro hne
        rw [(ih hv (out ++ [SP] ++ [c])).1, List.foldl_cons, appendWord_cons hne,
          List.append_assoc (out ++ [SP]), List.singleton_append]

/-- `canonical_value` joins the words of a value with single spaces. -/
theorem canonicalValue_eq_collapse (v : Bytes) : canonicalValue v = collapse isBlank SP v := by
  obtain ⟨w, ws, hv⟩ := List.exists_cons_of_ne_nil (List.splitOnP_ne_nil isBlank v)
  calc canonicalValue v = ws.foldl (appendWord SP) ([] ++ w) := (foldl_canonicalStep hv []).1
    _ = (w :: ws).foldl (appendWord SP) [] := by
      rw [List.foldl_cons, appendWord_nil_left, List.nil_append]
    _ = collapse isBlank SP v := by
      rw [foldl_appendWord, collapse, words, hv]
      simp

/-- A value without blanks is canonical. -/
theorem canonicalValue_of_blankFree {v : Bytes} (h : ∀ c ∈ v, isBlank c = false) :
    canonicalValue v = v := by
  rw [canonicalValue_eq_collapse, collapse, words, List.splitOnP_eq_singleton h]
  by_cases hv : v = []
  · simp [hv]
  · simp [hv]

/-- Blanks change no more than what is pending. -/
theorem foldl_canonicalStep_blanks {bs : Bytes} (h : ∀ c ∈ bs, isBlank c = true)
    (s : CanonicalState) : (bs.foldl canonicalStep s).out = s.out := by
  induction bs generalizing s with
  | nil => rfl
  | cons c bs ih =>
    have hstep := canonicalStep_blank (h c List.mem_cons_self) s.out s.pending_space
    rw [List.foldl_cons, ih fun d hd => h d (List.mem_cons_of_mem _ hd), hstep]

/-- The blanks around a value do not matter. -/
theorem canonicalValue_trimBlanks (v : Bytes) : canonicalValue (trimBlanks v) = canonicalValue v := by
  have hright : ∀ w : Bytes, canonicalValue (w.rdropWhile isBlank) = canonicalValue w := by
    intro w
    have hsplit : w.rdropWhile isBlank ++ w.rtakeWhile isBlank = w := List.rdropWhile_append_rtakeWhile
    calc canonicalValue (w.rdropWhile isBlank)
        = ((w.rtakeWhile isBlank).foldl canonicalStep
            ((w.rdropWhile isBlank).foldl canonicalStep {})).out :=
          (foldl_canonicalStep_blanks (fun _ hc => List.mem_rtakeWhile_imp hc) _).symm
      _ = canonicalValue w := by rw [← List.foldl_append, hsplit]; rfl
  have hleft : ∀ w : Bytes, canonicalValue (w.dropWhile isBlank) = canonicalValue w := by
    intro w
    induction w with
    | nil => rfl
    | cons c w ih =>
      by_cases hc : isBlank c = true
      · rw [List.dropWhile_cons_of_pos hc, ih]
        show _ = (w.foldl canonicalStep (canonicalStep {} c)).out
        rw [canonicalStep_blank hc]
        rfl
      · rw [List.dropWhile_cons_of_neg hc]
  rw [trimBlanks, hright, hleft]

/-! ## The map of canonical headers -/

/-- The values of a name in one: joined with commas, if there are any. -/
def joined : List Bytes → Option Bytes
  | [] => none
  | v :: vs => some ([chr ','].intercalate (v :: vs))

@[simp]
theorem joined_toList (o : Option Bytes) : joined o.toList = o := by
  cases o with
  | none => rfl
  | some v => rw [Option.toList_some, joined, List.intercalate_singleton]

/-- Two values that are joined already count as two. -/
theorem joined_joinValues (w v : Bytes) (vs : List Bytes) :
    joined (joinValues w v :: vs) = joined (w :: v :: vs) := by
  show some _ = some _
  rw [List.intercalate_cons_cons]
  cases vs with
  | nil => simp [joinValues]
  | cons v' vs =>
    rw [List.intercalate_cons_cons, List.intercalate_cons_cons]
    simp [joinValues]

theorem lower_lower (s : Bytes) : lower (lower s) = lower s := by
  have hbyte : ∀ c : UInt8, lowerByte (lowerByte c) = lowerByte c := by
    rw [forall_byte_iff]
    decide +kernel
  unfold lower
  rw [List.map_map]
  exact List.map_congr_left fun c _ => hbyte c

/-- A field in its canonical form. -/
def canonicalField (h : Bytes × Bytes) : Bytes × Bytes := (lower h.1, canonicalValue h.2)

theorem valuesOf_map_canonicalField (hs : HeaderList) (n : Bytes) :
    valuesOf (hs.map canonicalField) n = (valuesOf hs n).map canonicalValue := by
  unfold valuesOf
  rw [List.filter_map, List.map_map, List.map_map]
  have hname : ((fun f : Bytes × Bytes => lower f.1 == n) ∘ canonicalField) =
      fun f => lower f.1 == n := by
    funext f
    rw [Function.comp_apply, canonicalField, lower_lower]
  rw [hname]
  rfl

/-- A map of names in lower case gives for each name the one value of it, if there is one. -/
theorem toList_lookup {m : HeaderList} (hsorted : OrdMap.Sorted m)
    (hlower : ∀ e ∈ m, lower e.1 = e.1) (n : Bytes) : (m.lookup n).toList = valuesOf m n := by
  induction m with
  | nil => rfl
  | cons e m ih =>
    obtain ⟨hhead, htail⟩ := List.pairwise_cons.mp hsorted
    rw [valuesOf_cons, hlower e List.mem_cons_self]
    have hih := ih htail fun e' he' => hlower e' (List.mem_cons_of_mem _ he')
    by_cases hn : e.1 = n
    · -- The names behind it are greater.
      subst hn
      rw [if_pos rfl, ← hih, OrdMap.lookup_eq_none_of_lt hhead, List.lookup_cons_self]
      rfl
    · rw [if_neg hn, OrdMap.lookup_cons_of_ne (Ne.symm hn), hih]

/-- The map after the caller's fields. -/
structure AddedHeaders (hdrs hs hdrs' : HeaderList) : Prop where
  sorted : OrdMap.Sorted hdrs'
  not_managed : ∀ h ∈ hs, lower h.1 ∉ managedNames
  /-- The values of a name are added to the one that was there, in wire order. -/
  lookup : ∀ n, hdrs'.lookup n = joined ((hdrs.lookup n).toList ++ (valuesOf hs n).map canonicalValue)

/-- What the loop over the caller's fields does to the map. -/
theorem addHeaders_spec {hdrs hs hdrs' : HeaderList} (hsorted : OrdMap.Sorted hdrs)
    (h : addHeaders hdrs hs = .ok hdrs') : AddedHeaders hdrs hs hdrs' := by
  induction hs generalizing hdrs with
  | nil =>
    obtain rfl := Except.ok.inj h
    refine ⟨hsorted, by simp, fun n => ?_⟩
    simp [valuesOf]
  | cons f hs ih =>
    unfold addHeaders at h
    split_ifs at h with hmanaged
    obtain ⟨hs', hnot, hlookup⟩ := ih (hsorted.upsert _ _ _) h
    refine ⟨hs', ?_, fun n => ?_⟩
    · intro g hg
      rcases List.mem_cons.mp hg with rfl | hg
      · exact hmanaged
      · exact hnot g hg
    · rw [hlookup, OrdMap.lookup_upsert hsorted, valuesOf_cons]
      by_cases hn : lower f.1 = n
      · -- One more value under this name.
        rw [if_pos hn.symm, if_pos hn, hn]
        cases hdrs.lookup n with
        | none => rfl
        | some w => exact joined_joinValues w (canonicalValue f.2) _
      · rw [if_neg (Ne.symm hn), if_neg hn]

/-- The fields that the signer writes and signs. -/
def managedFields (req : SigV4Request) (cred : SigV4Credentials) (amz_date : Bytes) : HeaderList :=
  [(ascii "x-amz-content-sha256", req.payload_hash), (ascii "x-amz-date", amz_date)] ++
    (if cred.session_token = [] then [] else [(ascii "x-amz-security-token", cred.session_token)])

/-- The signer's own values need no canonical form. -/
structure BlankFree (req : SigV4Request) (cred : SigV4Credentials) (amz_date : Bytes) : Prop where
  payload_hash : ∀ c ∈ req.payload_hash, isBlank c = false
  amz_date : ∀ c ∈ amz_date, isBlank c = false
  session_token : ∀ c ∈ cred.session_token, isBlank c = false

section Signer

variable {req : SigV4Request} {cred : SigV4Credentials} {amz_date : Bytes}

/-- The map that the signer starts with is sorted. -/
theorem sorted_managedHeaders : OrdMap.Sorted (managedHeaders req cred amz_date) := by
  have hbase : OrdMap.Sorted [(ascii "host", canonicalValue req.host),
      (ascii "x-amz-content-sha256", req.payload_hash), (ascii "x-amz-date", amz_date)] := by
    unfold OrdMap.Sorted
    simp only [List.pairwise_cons, List.mem_cons, List.not_mem_nil, or_false, forall_eq_or_imp,
      forall_eq, IsEmpty.forall_iff, implies_true, List.Pairwise.nil, and_true]
    decide
  unfold managedHeaders
  dsimp only
  split_ifs
  · exact hbase
  · exact hbase.upsert _ _ _

/-- The map that the signer starts with holds its own fields in their canonical form. -/
theorem managedHeaders_eq (hb : BlankFree req cred amz_date) :
    managedHeaders req cred amz_date =
      ((ascii "Host", req.host) :: managedFields req cred amz_date).map canonicalField := by
  have hpayload := canonicalValue_of_blankFree hb.payload_hash
  have hdate := canonicalValue_of_blankFree hb.amz_date
  have htoken := canonicalValue_of_blankFree hb.session_token
  unfold managedHeaders managedFields canonicalField
  dsimp only
  split_ifs
  · simp only [List.append_nil, List.map_cons, List.map_nil, hpayload, hdate]
    rfl
  · simp only [List.cons_append, List.nil_append, List.map_cons, List.map_nil, hpayload, hdate, htoken]
    rfl

/-- The fields of a request that are signed, in wire order. -/
def signedFields (req : SigV4Request) (cred : SigV4Credentials) (amz_date : Bytes) : HeaderList :=
  (ascii "Host", req.host) :: (req.headers ++ managedFields req cred amz_date)

/-- The names under which the signer writes its own fields. -/
def managedWireNames : List Bytes :=
  [ascii "Host", ascii "x-amz-content-sha256", ascii "x-amz-date", ascii "x-amz-security-token"]

theorem name_mem_managedWireNames {h : Bytes × Bytes}
    (hh : h ∈ (ascii "Host", req.host) :: managedFields req cred amz_date) :
    h.1 ∈ managedWireNames := by
  unfold managedWireNames
  unfold managedFields at hh
  split_ifs at hh <;> simp only [List.mem_cons, List.mem_append, List.not_mem_nil, or_false] at hh
  · rcases hh with rfl | rfl | rfl <;> simp
  · rcases hh with rfl | (rfl | rfl) | rfl <;> simp

/-- The caller may not use the names of the signer's own fields. -/
theorem lower_mem_managedNames : ∀ n ∈ managedWireNames, lower n ∈ managedNames := by
  decide

/-- The signer's map is sorted, and holds under each name the canonical values of all signed fields
of that name, in wire order. -/
theorem signer_lookup (hb : BlankFree req cred amz_date) {hdrs : HeaderList}
    (h : addHeaders (managedHeaders req cred amz_date) req.headers = .ok hdrs) :
    OrdMap.Sorted hdrs ∧ ∀ n, hdrs.lookup n =
      joined ((valuesOf (signedFields req cred amz_date) n).map canonicalValue) := by
  obtain ⟨hsorted, hnot, hlookup⟩ := addHeaders_spec sorted_managedHeaders h
  refine ⟨hsorted, fun n => ?_⟩
  have hlower : ∀ e ∈ managedHeaders req cred amz_date, lower e.1 = e.1 := by
    rw [managedHeaders_eq hb]
    intro e he
    obtain ⟨f, -, rfl⟩ := List.mem_map.mp he
    exact lower_lower f.1
  rw [hlookup, toList_lookup sorted_managedHeaders hlower, managedHeaders_eq hb,
    valuesOf_map_canonicalField, ← List.map_append, ← valuesOf_append]
  -- A name is either managed or the caller's, so the order of the two does not matter.
  by_cases hn : valuesOf req.headers n = []
  · simp only [signedFields, valuesOf_append, valuesOf_cons, List.cons_append, hn, List.append_nil,
      List.nil_append]
  · have hown : valuesOf ((ascii "Host", req.host) :: managedFields req cred amz_date) n = [] := by
      by_contra hne
      obtain ⟨f, hf, hfn⟩ := List.mem_map.mp (valuesOf_ne_nil_iff.mp hne)
      obtain ⟨g, hg, hgn⟩ := List.mem_map.mp (valuesOf_ne_nil_iff.mp hn)
      have hmanaged := lower_mem_managedNames f.1 (name_mem_managedWireNames hf)
      rw [hfn, ← hgn] at hmanaged
      exact hnot g hg hmanaged
    rw [valuesOf_append, hown, List.nil_append]
    rw [valuesOf_cons] at hown
    split_ifs at hown with hhost
    rw [signedFields, valuesOf_cons, if_neg hhost, valuesOf_append, hown, List.append_nil]

/-- The names of the map are those of the signed fields. -/
theorem signer_mem_keys (hb : BlankFree req cred amz_date) {hdrs : HeaderList}
    (h : addHeaders (managedHeaders req cred amz_date) req.headers = .ok hdrs) (n : Bytes) :
    n ∈ hdrs.map Prod.fst ↔ n ∈ (signedFields req cred amz_date).map fun f => lower f.1 := by
  obtain ⟨hsorted, hlookup⟩ := signer_lookup hb h
  rw [← valuesOf_ne_nil_iff]
  constructor
  · intro hn
    obtain ⟨e, he, rfl⟩ := List.mem_map.mp hn
    have hvalue := hsorted.lookup_of_mem he
    rw [hlookup] at hvalue
    intro hnil
    rw [hnil] at hvalue
    exact absurd hvalue (by simp [joined])
  · intro hn
    obtain ⟨v, vs, hv⟩ := List.exists_cons_of_ne_nil hn
    have hvalue := hlookup n
    rw [hv, List.map_cons, joined] at hvalue
    obtain ⟨l₁, l₂, rfl, -⟩ := List.lookup_eq_some_iff.mp hvalue
    simp

/-- Each entry of the map is the canonical form of the signed fields of its name. -/
theorem signer_entry (hb : BlankFree req cred amz_date) {hdrs : HeaderList}
    (h : addHeaders (managedHeaders req cred amz_date) req.headers = .ok hdrs)
    {e : Bytes × Bytes} (he : e ∈ hdrs) :
    e.2 = [chr ','].intercalate ((valuesOf (signedFields req cred amz_date) e.1).map
      canonicalValue) := by
  obtain ⟨hsorted, hlookup⟩ := signer_lookup hb h
  have hvalue := hsorted.lookup_of_mem he
  rw [hlookup] at hvalue
  cases hvs : (valuesOf (signedFields req cred amz_date) e.1).map canonicalValue with
  | nil =>
    rw [hvs] at hvalue
    exact absurd hvalue (by simp [joined])
  | cons v vs =>
    rw [hvs, joined] at hvalue
    exact (Option.some.inj hvalue).symm

end Signer

/-- The names of a map, none of them empty, are separated by semicolons. -/
theorem signedHeaders_eq {hdrs : HeaderList} (h : ∀ e ∈ hdrs, e.1 ≠ []) :
    signedHeaders hdrs = [chr ';'].intercalate (hdrs.map Prod.fst) := by
  have hfold : ∀ s, hdrs.foldl (fun s h => (if s = [] then s else s ++ [chr ';']) ++ h.1) s =
      (hdrs.map Prod.fst).foldl (appendWord (chr ';')) s := by
    intro s
    rw [List.foldl_map]
    refine List.foldl_ext _ _ s fun s e he => ?_
    obtain ⟨c, cs, hc⟩ := List.exists_cons_of_ne_nil (h e he)
    by_cases hs : s = []
    · rw [if_pos hs, hs, appendWord_nil_left, List.nil_append]
    · rw [if_neg hs, hc, appendWord_cons hs]
  have hfilter : (hdrs.map Prod.fst).filter (· ≠ []) = hdrs.map Prod.fst := by
    rw [List.filter_eq_self]
    intro n hn
    obtain ⟨e, he, rfl⟩ := List.mem_map.mp hn
    simpa using h e he
  unfold signedHeaders
  rw [hfold, foldl_appendWord, List.filter_cons_of_neg (by simp), hfilter]

end S3Rdma
