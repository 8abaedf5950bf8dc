import S3Rdma.Verify.Manifest

/-!
# Preflight closure

`validate_closure` of `src/common/verify/manifest.cpp`: the gate before a verified run. It goes
through the requested spans and stops at the first that could not be checked. What it accepts for a
span is `Covered`, whatever the manifest is (`closureSpan_eq_none_iff`). In a manifest that the
parser returned all digests are valid and no prefix is longer than its object, so that most of
`Covered` is true of it from the start (`covered_iff_of_wellFormed`).
-/

namespace S3Rdma.Verify

/-- `RequestedSpan`. -/
structure RequestedSpan where
  key : Bytes
  offset : ℕ := 0
  size : ℕ := 0
deriving DecidableEq

/-- `ClosureStatus`. -/
structure ClosureStatus where
  ok : Bool := false
  error : Bytes := []
deriving DecidableEq

section Closure

variable (manifest : Manifest) (head_sizes : List (Bytes × ℕ))

/-- The body of the loop of `validate_closure`: the error, if there is one. -/
def closureSpan (span : RequestedSpan) : Option Bytes :=
  match manifest.by_key.lookup span.key with
  | none => some (ascii "key " ++ quoted span.key ++ ascii " absent from the manifest")
  | some entry =>
    match head_sizes.lookup span.key with
    | none => some (ascii "key " ++ quoted span.key ++ ascii " absent from the HEAD results")
    | some head_size =>
      if entry.size ≠ head_size then
        some (ascii "size mismatch for key " ++ quoted span.key ++ ascii ": manifest " ++
          decimal entry.size ++ ascii " vs HEAD " ++ decimal head_size)
      else if span.offset ≠ 0 then
        some (ascii "unsupported span for key " ++ quoted span.key ++
          ascii ": only full-object and prefix spans are verifiable")
      else if span.size > entry.size then
        some (ascii "requested span " ++ decimal span.size ++ ascii " for key " ++
          quoted span.key ++ ascii " exceeds object size " ++ decimal entry.size)
      else if span.size = 0 then
        if !isLowerHex64 entry.full_sha256 then
          some (ascii "full digest for key " ++ quoted span.key ++ ascii " is not a valid SHA256")
        else none
      else
        match entry.prefix_sha256.lookup span.size with
        | none =>
          some (ascii "no prefix digest for key " ++ quoted span.key ++ ascii " at length " ++
            decimal span.size)
        | some digest =>
          if !isLowerHex64 digest then
            some (ascii "prefix digest for key " ++ quoted span.key ++ ascii " at length " ++
              decimal span.size ++ ascii " is not a valid SHA256")
          else none

/-- The loop of `validate_closure`. -/
def closureSpans : List RequestedSpan → ClosureStatus
  | [] => { ok := true }
  | span :: spans =>
    match closureSpan manifest head_sizes span with
    | some message => { error := message }
    | none => closureSpans spans

/-- `validate_closure`. -/
def validateClosure (spans : List RequestedSpan) : ClosureStatus :=
  if spans = [] then
    { error := ascii "no requested spans: a verified run must check at least one span" }
  else closureSpans manifest head_sizes spans

/-! ## What is accepted -/

/-- The digest that a span is checked with. -/
def ManifestEntry.digestFor (entry : ManifestEntry) (size : ℕ) : Option Bytes :=
  if size = 0 then some entry.full_sha256 else entry.prefix_sha256.lookup size

/-- The span starts at 0, the manifest and the HEAD results agree on the size of its object, it is
no longer than that, and there is a valid digest for it. -/
def Covered (span : RequestedSpan) : Prop :=
  span.offset = 0 ∧ ∃ entry, manifest.by_key.lookup span.key = some entry ∧
    head_sizes.lookup span.key = some entry.size ∧ span.size ≤ entry.size ∧
    ∃ digest, entry.digestFor span.size = some digest ∧ IsDigest digest

variable {manifest head_sizes}

/-- A span passes exactly if it is covered. -/
theorem closureSpan_eq_none_iff {span : RequestedSpan} :
    closureSpan manifest head_sizes span = none ↔ Covered manifest head_sizes span := by
  unfold closureSpan Covered ManifestEntry.digestFor
  cases hentry : manifest.by_key.lookup span.key with
  | none => simp
  | some entry =>
    cases hhead : head_sizes.lookup span.key with
    | none => simp
    | some head_size =>
      dsimp only
      by_cases hsize : entry.size = head_size
      · subst hsize
        by_cases hoffset : span.offset = 0
        · by_cases hle : span.size ≤ entry.size
          · have hlt : ¬ entry.size < span.size := not_lt.mpr hle
            by_cases hzero : span.size = 0
            · simp [hoffset, hzero, ← isLowerHex64_iff]
            · cases hdigest : entry.prefix_sha256.lookup span.size with
              | none => simp [hoffset, hlt, hzero, hdigest]
              | some digest => simp [hoffset, hle, hlt, hzero, hdigest, ← isLowerHex64_iff]
          · simp [hoffset, hle, not_le.mp hle]
        · simp [hoffset]
      · simp [hsize, Ne.symm hsize]

/-- The loop accepts exactly if every span passes. -/
theorem closureSpans_ok_iff {spans : List RequestedSpan} :
    (closureSpans manifest head_sizes spans).ok = true ↔
      ∀ span ∈ spans, Covered manifest head_sizes span := by
  induction spans with
  | nil => simp [closureSpans]
  | cons span spans ih =>
    rw [List.forall_mem_cons, ← closureSpan_eq_none_iff, ← ih, closureSpans]
    cases closureSpan manifest head_sizes span with
    | none => simp
    | some message => simp

/-- The gate opens exactly for a nonempty list of covered spans. -/
theorem validateClosure_ok_iff {spans : List RequestedSpan} :
    (validateClosure manifest head_sizes spans).ok = true ↔
      spans ≠ [] ∧ ∀ span ∈ spans, Covered manifest head_sizes span := by
  unfold validateClosure
  split_ifs with hnil
  · simp [hnil]
  · rw [closureSpans_ok_iff, and_iff_right hnil]

end Closure

/-! ## Manifests from the parser -/

/-- An entry as the parser makes them: all digests are valid, and no prefix is longer than the
object. -/
structure ManifestEntry.WellFormed (e : ManifestEntry) : Prop where
  full : IsDigest e.full_sha256
  prefixes : ∀ p ∈ e.prefix_sha256, p.1 ≤ e.size ∧ IsDigest p.2

/-- The entry of a record is well formed. -/
theorem IsRecord.wellFormed {line : Bytes} {e : ManifestEntry} (h : IsRecord line e) :
    e.WellFormed := by
  obtain ⟨size_str, tokens, -, -, -, hdigest, htokens, -, -, hperm⟩ := h
  refine ⟨hdigest, fun p hp => ?_⟩
  obtain ⟨t, ht, rfl⟩ := List.mem_map.mp (hperm.mem_iff.mp hp)
  exact (htokens t ht).2

/-- All entries of lines that are read are well formed. -/
theorem Reads.wellFormed {lines : List Bytes} {es : List ManifestEntry} (h : Reads lines es) :
    ∀ e ∈ es, e.WellFormed := by
  induction h with
  | nil => simp
  | skip _ _ ih => exact ih
  | record _ hrecord _ ih => exact List.forall_mem_cons.mpr ⟨hrecord.wellFormed, ih⟩

/-- In a well-formed entry a digest for a prefix is there exactly if its length is, and is then
valid. -/
theorem covered_iff_of_wellFormed {manifest : Manifest} {head_sizes : List (Bytes × ℕ)}
    (h : ∀ key e, manifest.by_key.lookup key = some e → e.WellFormed) {span : RequestedSpan} :
    Covered manifest head_sizes span ↔
      span.offset = 0 ∧ ∃ entry, manifest.by_key.lookup span.key = some entry ∧
        head_sizes.lookup span.key = some entry.size ∧
        (span.size = 0 ∨ span.size ∈ entry.prefix_sha256.map Prod.fst) := by
  unfold Covered
  refine and_congr_right fun _ => exists_congr fun entry => and_congr_right fun hentry =>
    and_congr_right fun _ => ?_
  have hwell := h span.key entry hentry
  unfold ManifestEntry.digestFor
  by_cases hzero : span.size = 0
  · rw [if_pos hzero]
    exact iff_of_true ⟨by omega, entry.full_sha256, rfl, hwell.full⟩ (.inl hzero)
  · rw [if_neg hzero, or_iff_right hzero]
    constructor
    · rintro ⟨-, digest, hdigest, -⟩
      exact List.mem_map_of_mem (OrdMap.mem_of_lookup_eq_some hdigest)
    · intro hlength
      obtain ⟨digest, hdigest⟩ := OrdMap.exists_lookup_of_mem_keys hlength
      obtain ⟨hle, hvalid⟩ := hwell.prefixes _ (OrdMap.mem_of_lookup_eq_some hdigest)
      exact ⟨hle, digest, hdigest, hvalid⟩

/-- The entries of a manifest that the parser returned are well formed. -/
theorem parseManifest_wellFormed {lines : List Bytes} {bad : Bool}
    (hok : (parseManifest lines bad).2.ok = true) (key : Bytes) (e : ManifestEntry)
    (he : (parseManifest lines bad).1.by_key.lookup key = some e) : e.WellFormed := by
  obtain ⟨es, hreads, -, hperm⟩ := parseManifest_of_ok hok
  obtain ⟨e', he', heq⟩ :=
    List.mem_map.mp (hperm.mem_iff.mp (OrdMap.mem_of_lookup_eq_some he))
  obtain rfl : e' = e := (Prod.mk.inj heq).2
  exact hreads.wellFormed e' he'

/-- The gate does not fail open. Whatever the manifest is, it opens only for a nonempty list of
spans that start at 0, lie in an object on whose size the manifest and the HEAD results agree, and
have a valid digest. For a manifest from the parser it opens exactly if the spans are full objects
or have a prefix digest, and the sizes agree. -/
theorem validateClosure_exact :
    (∀ (manifest : Manifest) (head_sizes : List (Bytes × ℕ)) (spans : List RequestedSpan),
      (validateClosure manifest head_sizes spans).ok = true →
        spans ≠ [] ∧ ∀ span ∈ spans, span.offset = 0 ∧
          ∃ entry head_size, manifest.by_key.lookup span.key = some entry ∧
            head_sizes.lookup span.key = some head_size ∧ entry.size = head_size ∧
            span.size ≤ entry.size ∧
            (span.size = 0 → IsDigest entry.full_sha256) ∧
            (span.size ≠ 0 → ∃ digest, entry.prefix_sha256.lookup span.size = some digest ∧
              IsDigest digest)) ∧
    (∀ (lines : List Bytes) (bad : Bool), (parseManifest lines bad).2.ok = true →
      ∀ (head_sizes : List (Bytes × ℕ)) (spans : List RequestedSpan),
        (validateClosure (parseManifest lines bad).1 head_sizes spans).ok = true ↔
          spans ≠ [] ∧ ∀ span ∈ spans, span.offset = 0 ∧
            ∃ entry, (parseManifest lines bad).1.by_key.lookup span.key = some entry ∧
              head_sizes.lookup span.key = some entry.size ∧
              (span.size = 0 ∨ span.size ∈ entry.prefix_sha256.map Prod.fst)) := by
  constructor
  · intro manifest head_sizes spans hok
    obtain ⟨hne, hall⟩ := validateClosure_ok_iff.mp hok
    refine ⟨hne, fun span hspan => ?_⟩
    obtain ⟨hoffset, entry, hentry, hhead, hle, digest, hdigest, hvalid⟩ := hall span hspan
    refine ⟨hoffset, entry, entry.size, hentry, hhead, rfl, hle, fun hzero => ?_, fun hzero => ?_⟩
    · rw [ManifestEntry.digestFor, if_pos hzero] at hdigest
      rw [Option.some.inj hdigest]
      exact hvalid
    · rw [ManifestEntry.digestFor, if_neg hzero] at hdigest
      exact ⟨digest, hdigest, hvalid⟩
  · intro lines bad hok head_sizes spans
    -- The parser has checked the digests and the prefix lengths already.
    rw [validateClosure_ok_iff]
    refine and_congr_right fun _ => forall₂_congr fun span _ => ?_
    exact covered_iff_of_wellFormed (parseManifest_wellFormed hok)

end S3Rdma.Verify
