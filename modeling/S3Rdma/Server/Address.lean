import S3Rdma.Server.Direct

/-!
# What the address of a descriptor is read as

A DC_V1 descriptor starts with the address of the client's buffer, in hexadecimal and up to the
first colon; `StrictAddr` is that form. `parse_rdma_remote_addr` gives the text before the colon to
`std::stoull` in base 16, whose grammar has white space, signs, a `0x` and an unread rest
(`LooseHex`, `parseRdmaRemoteAddr_eq_iff`). So a descriptor is read strictly unless its first field
is loose and still denotes a number other than `0`: `parseRdmaRemoteAddr_strict_iff`.
-/

namespace S3Rdma.Server

/-- The text before the first colon of a descriptor. -/
def AddressField (descr field : Bytes) : Prop :=
  chr ':' ∉ field ∧ ∃ rest, descr = field ++ chr ':' :: rest

/-- The text is a hexadecimal number and nothing else. -/
def HexOnly (s : Bytes) (v : ℕ) : Prop := s ≠ [] ∧ s.all isHexDigit = true ∧ hexValue s = v

/-- The first field of the descriptor is a hexadecimal number of 64 bits and nothing else. -/
def StrictAddr (descr : Bytes) (v : ℕ) : Prop :=
  ∃ field, AddressField descr field ∧ HexOnly field v ∧ v < 2^64

/-- A descriptor has one first field. -/
theorem AddressField.unique {descr field field' : Bytes} (h : AddressField descr field)
    (h' : AddressField descr field') : field = field' := by
  obtain ⟨hnot, rest, hdescr⟩ := h
  obtain ⟨hnot', rest', hdescr'⟩ := h'
  have hlength := congrArg (List.idxOf? (chr ':')) (hdescr.symm.trans hdescr')
  rw [idxOf?_append_cons hnot, idxOf?_append_cons hnot', Option.some.injEq] at hlength
  exact (List.append_inj (hdescr.symm.trans hdescr') hlength).1

/-- A hexadecimal number of 64 bits is read as what it denotes. -/
theorem HexOnly.loose {s : Bytes} {v : ℕ} (h : HexOnly s v) (hv : v < 2^64) : LooseHex s v := by
  obtain ⟨hne, hdig, rfl⟩ := h
  exact ⟨[], [], [], s, [], by simp, by simp, .inl rfl, .inl rfl,
    ⟨hne, List.all_eq_true.mp hdig⟩, by simp, hv, rfl⟩

/-- A number whose text is read and consists of digits is what the digits denote. -/
theorem hexOnly_of_loose {s : Bytes} {v : ℕ} (h : LooseHex s v)
    (hdig : s.all isHexDigit = true) : HexOnly s v ∧ v < 2^64 := by
  have hall : ∀ c ∈ s, isHexDigit c = true := List.all_eq_true.mp hdig
  obtain ⟨blanks, sign, mark, digits, tail, rfl, hblanks, hsign, hmark, ⟨hne, -⟩, htail, hlt,
    hval⟩ := h
  -- Whatever stands around the digits is not a digit, so there is nothing around them.
  have hblanks' : blanks = [] := by
    refine List.eq_nil_iff_forall_not_mem.mpr fun c hc => ?_
    have hspace := hblanks c hc
    have hhex := hall c (by simp [hc])
    obtain ⟨d, hd⟩ := Option.isSome_iff_exists.mp hhex
    rw [(not_space_of_digitIn hd).1] at hspace
    cases hspace
  have hsign' : sign = [] := by
    rcases hsign with rfl | rfl | rfl
    · rfl
    · exact absurd (hall (chr '+') (by simp)) (by decide)
    · exact absurd (hall (chr '-') (by simp)) (by decide)
  have hmark' : mark = [] := by
    rcases hmark with rfl | rfl | rfl
    · rfl
    · exact absurd (hall (chr 'x') (by simp [ascii, chr])) (by decide)
    · exact absurd (hall (chr 'X') (by simp [ascii, chr])) (by decide)
  have htail' : tail = [] := by
    cases tail with
    | nil => rfl
    | cons t tail =>
      have ht := htail t rfl
      rw [hall t (by simp)] at ht
      cases ht
  subst hblanks' hsign' hmark' htail'
  rw [if_neg (by simp)] at hval
  simp only [List.nil_append, List.append_nil] at hdig ⊢
  exact ⟨⟨hne, hdig, hval.symm⟩, hval ▸ hlt⟩

/-- `parse_rdma_remote_addr` gives the first field to `std::stoull`. -/
theorem AddressField.parse_eq {descr field : Bytes} (h : AddressField descr field) :
    parseRdmaRemoteAddr descr = ((stoull 16 field).map Prod.fst).getD 0 := by
  obtain ⟨hnot, rest, rfl⟩ := h
  unfold parseRdmaRemoteAddr
  rw [idxOf?_append_cons hnot]
  simp only [List.take_left]
  split_ifs with hnil
  · rw [List.length_eq_zero_iff.mp hnil]
    rfl
  · cases stoull 16 field with
    | none => rfl
    | some r => rfl

/-- Without a colon there is no address. -/
theorem exists_addressField {descr : Bytes} (h : parseRdmaRemoteAddr descr ≠ 0) :
    ∃ field, AddressField descr field := by
  cases hcolon : descr.idxOf? (chr ':') with
  | none =>
    unfold parseRdmaRemoteAddr at h
    rw [hcolon] at h
    exact absurd rfl h
  | some colon =>
    obtain ⟨hdescr, hnot⟩ := eq_of_idxOf?_eq_some hcolon
    exact ⟨_, hnot, _, hdescr⟩

/-- The address is `v` other than `0` exactly if the first field is what `std::stoull` reads as
`v`. -/
theorem parseRdmaRemoteAddr_eq_iff {descr : Bytes} {v : ℕ} (hv : v ≠ 0) :
    parseRdmaRemoteAddr descr = v ↔ ∃ field, AddressField descr field ∧ LooseHex field v := by
  constructor
  · rintro rfl
    obtain ⟨field, hfield⟩ := exists_addressField hv
    refine ⟨field, hfield, (stoull_sixteen_iff hv).mp ?_⟩
    rw [hfield.parse_eq] at hv ⊢
    cases hread : stoull 16 field with
    | none => exact absurd (by rw [hread]; rfl) hv
    | some r => exact ⟨r.2, rfl⟩
  · rintro ⟨field, hfield, hloose⟩
    obtain ⟨pos, hread⟩ := (stoull_sixteen_iff hv).mpr hloose
    rw [hfield.parse_eq, hread]
    rfl

/-- The address of a descriptor is read as its format says: it is `v` other than `0` exactly if the
first field is hexadecimal and denotes `v`; every other descriptor has the address `0`, and
`handle_get` answers 500 to it without a write. -/
structure AddressReadStrictly (descr : Bytes) : Prop where
  read_iff : ∀ v, v ≠ 0 → (parseRdmaRemoteAddr descr = v ↔ StrictAddr descr v)
  zero : (¬ ∃ v, v ≠ 0 ∧ StrictAddr descr v) → parseRdmaRemoteAddr descr = 0
  refused : (¬ ∃ v, v ≠ 0 ∧ StrictAddr descr v) →
    ∀ (cfg : Config) (e : FdEntry) (range_hdr rdma_token_b64 : Bytes) (slot : Staging) (env : Env)
      (w : ℕ × ℕ × Bool), rdmaDescr rdma_token_b64 = descr →
      requestWindow range_hdr e.size = some w →
        handleGet cfg (some e) range_hdr rdma_token_b64 slot env = (.returned 500 none, [])

/-- The address of a descriptor is read as its format says exactly if its first field is not a
loose one that denotes a number other than `0`. -/
theorem parseRdmaRemoteAddr_strict_iff (descr : Bytes) :
    AddressReadStrictly descr ↔
      ∀ field v, AddressField descr field → LooseHex field v → v ≠ 0 →
        field.all isHexDigit = true := by
  constructor
  · intro h field v hfield hloose hv
    have hread := (parseRdmaRemoteAddr_eq_iff hv).mpr ⟨field, hfield, hloose⟩
    obtain ⟨field', hfield', hhex, -⟩ := (h.read_iff v hv).mp hread
    rw [hfield.unique hfield']
    exact hhex.2.1
  · intro h
    -- A loose field of digits only is a strict one, and every strict field is loose.
    have hread : ∀ v, v ≠ 0 → (parseRdmaRemoteAddr descr = v ↔ StrictAddr descr v) := by
      intro v hv
      rw [parseRdmaRemoteAddr_eq_iff hv]
      constructor
      · rintro ⟨field, hfield, hloose⟩
        exact ⟨field, hfield, hexOnly_of_loose hloose (h field v hfield hloose hv)⟩
      · rintro ⟨field, hfield, hhex, hlt⟩
        exact ⟨field, hfield, hhex.loose hlt⟩
    have hzero : (¬ ∃ v, v ≠ 0 ∧ StrictAddr descr v) → parseRdmaRemoteAddr descr = 0 := by
      intro hnone
      by_contra hne
      exact hnone ⟨_, hne, (hread _ hne).mp rfl⟩
    refine ⟨hread, hzero, fun hnone cfg e range_hdr token slot env w hdescr hwin => ?_⟩
    have hbase : remoteBase token = 0 := by
      unfold remoteBase
      rw [hdescr]
      exact hzero hnone
    exact handleGet_no_address hwin hbase

/-- A field with a dash in front and letters behind it is no hexadecimal number, and yet it is read
as an address. -/
theorem parseRdmaRemoteAddr_loose :
    parseRdmaRemoteAddr (ascii "-10zz:40") = 2^64 - 16 ∧
      (¬ ∃ v, StrictAddr (ascii "-10zz:40") v) ∧ ¬ AddressReadStrictly (ascii "-10zz:40") := by
  have hparse : parseRdmaRemoteAddr (ascii "-10zz:40") = 2^64 - 16 := by decide +kernel
  have hnot : ¬ ∃ v, StrictAddr (ascii "-10zz:40") v := by
    rintro ⟨v, field, hfield, hhex, -⟩
    have hfirst : AddressField (ascii "-10zz:40") (ascii "-10zz") := ⟨by decide, ascii "40", rfl⟩
    rw [← hfirst.unique hfield] at hhex
    exact absurd hhex.2.1 (by decide)
  refine ⟨hparse, hnot, fun h => hnot ⟨2^64 - 16, ?_⟩⟩
  exact (h.read_iff _ (by decide)).mp hparse

end S3Rdma.Server
