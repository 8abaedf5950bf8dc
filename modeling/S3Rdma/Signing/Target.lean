import S3Rdma.Common.Protocol
import S3Rdma.Http.Request

/-!
# The request target

A path is sent as the signer encodes it, except under the legacy pair of options. What is said here
of an encoded path is said byte by byte: a byte passes or becomes an escape, in either case of bytes
that a target may have (`uriEncodeByte_bytes`), and a reader finds it again
(`percentDecode_uriEncode`). So the target is accepted, has no query and as many segments as the
path, and denotes that path and no other (`controlPlaneTarget_faithful`).
-/

namespace S3Rdma

/-! ## Decoding -/

/-- The byte of an escape. -/
def escaped (c d e : UInt8) : Option UInt8 :=
  if c = chr '%' then
    match digitIn 16 d, digitIn 16 e with
    | some x, some y => some (UInt8.ofNat (16 * x + y))
    | _, _ => none
  else none

/-- A text without its escapes. -/
def percentDecode : Bytes → Bytes
  | c :: d :: e :: s =>
    match escaped c d e with
    | some b => b :: percentDecode s
    | none => c :: percentDecode (d :: e :: s)
  | s => s

theorem percentDecode_cons_of_ne {c : UInt8} (h : c ≠ chr '%') (s : Bytes) :
    percentDecode (c :: s) = c :: percentDecode s := by
  match s with
  | [] => rfl
  | [d] => rfl
  | d :: e :: s =>
    have hnone : escaped c d e = none := if_neg h
    rw [percentDecode, hnone]

/-- The escape of a byte is read as that byte. -/
theorem escaped_upperHex (c : UInt8) :
    escaped (chr '%') (upperHex (c.toNat / 16)) (upperHex (c.toNat % 16)) = some c := by
  revert c
  rw [forall_byte_iff]
  decide +kernel

/-- The bytes that pass are no percent sign. -/
theorem ne_percent_of_isUnreserved (c : UInt8) : isUnreserved true c = true → c ≠ chr '%' := by
  revert c
  rw [forall_byte_iff]
  decide +kernel

/-- An encoded path is decoded to the path. -/
theorem percentDecode_uriEncode (s : Bytes) : percentDecode (uriEncode s true) = s := by
  induction s with
  | nil => rfl
  | cons c s ih =>
    have hcons : uriEncode (c :: s) true = uriEncodeByte true c ++ uriEncode s true := rfl
    rw [hcons, uriEncodeByte]
    split_ifs with hc
    · rw [List.singleton_append, percentDecode_cons_of_ne (ne_percent_of_isUnreserved c hc), ih]
    · simp only [List.cons_append, List.nil_append]
      rw [percentDecode, escaped_upperHex, ih]

/-! ## The bytes of an encoded path -/

/-- A byte is encoded by bytes of a target, none of them a question mark, and by a slash exactly if
it is one. -/
theorem uriEncodeByte_bytes (c : UInt8) :
    (uriEncodeByte true c).all isPcharOrDelim = true ∧ chr '?' ∉ uriEncodeByte true c ∧
      (uriEncodeByte true c).count (chr '/') = [c].count (chr '/') := by
  revert c
  rw [forall_byte_iff]
  decide +kernel

/-- An encoded path consists of bytes of a target. -/
theorem isPcharOrDelim_of_mem_uriEncode {s : Bytes} {c : UInt8} (h : c ∈ uriEncode s true) :
    isPcharOrDelim c = true := by
  obtain ⟨d, -, hd⟩ := List.mem_flatMap.mp h
  exact List.all_eq_true.mp (uriEncodeByte_bytes d).1 c hd

/-- An encoded path has no query. -/
theorem question_not_mem_uriEncode (s : Bytes) : chr '?' ∉ uriEncode s true := by
  intro hmem
  obtain ⟨c, -, hc⟩ := List.mem_flatMap.mp hmem
  exact (uriEncodeByte_bytes c).2.1 hc

/-- An encoded path has the slashes of the path. -/
theorem count_slash_uriEncode (s : Bytes) :
    (uriEncode s true).count (chr '/') = s.count (chr '/') := by
  induction s with
  | nil => rfl
  | cons c s ih =>
    have hcons : uriEncode (c :: s) true = uriEncodeByte true c ++ uriEncode s true := rfl
    calc (uriEncode (c :: s) true).count (chr '/')
        = (uriEncodeByte true c).count (chr '/') + (uriEncode s true).count (chr '/') := by
          rw [hcons, List.count_append]
      _ = [c].count (chr '/') + s.count (chr '/') := by rw [(uriEncodeByte_bytes c).2.2, ih]
      _ = (c :: s).count (chr '/') := by rw [← List.count_append, List.singleton_append]

/-- A path that starts with a slash is encoded to one that does. -/
theorem head?_uriEncode {s : Bytes} (h : s.head? = some (chr '/')) :
    (uriEncode s true).head? = some (chr '/') := by
  obtain ⟨rest, rfl⟩ := List.head?_eq_some_iff.mp h
  rfl

/-- Paths that are encoded to the same text are the same. -/
theorem uriEncode_injective {s t : Bytes} (h : uriEncode s true = uriEncode t true) : s = t := by
  rw [← percentDecode_uriEncode s, h, percentDecode_uriEncode]

/-! ## The target -/

/-- The options under which the path is sent raw. -/
def ProtocolOptions.Legacy (o : ProtocolOptions) : Prop :=
  o.token_encoding = .base64 ∧ o.auth = .none

theorem controlPlaneTarget_eq {o : ProtocolOptions} (h : ¬ o.Legacy) (raw_path : Bytes) :
    controlPlaneTarget o raw_path = uriEncode raw_path true := if_neg h

/-- The target of a path, but for the legacy pair of options, is one that `build_request` accepts:
every request that is accepted with the target `/` is accepted with it. It has no question mark and
as many slashes as the path, it is decoded to the path, and no other path has the same target. -/
theorem controlPlaneTarget_faithful (o : ProtocolOptions) (raw_path : Bytes) (ho : ¬ o.Legacy)
    (hpath : raw_path.head? = some (chr '/')) :
    (∀ (host_header : Bytes) (headers : HeaderList),
      (∃ m, buildRequest host_header (ascii "/") headers = .ok m) →
        ∃ m, buildRequest host_header (controlPlaneTarget o raw_path) headers = .ok m) ∧
      chr '?' ∉ controlPlaneTarget o raw_path ∧
      (controlPlaneTarget o raw_path).count (chr '/') = raw_path.count (chr '/') ∧
      percentDecode (controlPlaneTarget o raw_path) = raw_path ∧
      ∀ (o' : ProtocolOptions) (raw_path' : Bytes), ¬ o'.Legacy →
        controlPlaneTarget o' raw_path' = controlPlaneTarget o raw_path → raw_path' = raw_path := by
  rw [controlPlaneTarget_eq ho]
  refine ⟨fun host_header headers haccept => ?_, question_not_mem_uriEncode raw_path,
    count_slash_uriEncode raw_path, percentDecode_uriEncode raw_path, fun o' raw_path' ho' heq => ?_⟩
  · have hok := buildRequest_ok_iff.mp haccept
    exact buildRequest_ok_iff.mpr { hok with
      target_origin := head?_uriEncode hpath
      target_bytes := fun c hc => isPcharOrDelim_of_mem_uriEncode hc }
  · rw [controlPlaneTarget_eq ho'] at heq
    exact uriEncode_injective heq

/-- The options of a gateway that is sent signed requests. -/
def gatewayOptions : ProtocolOptions := { token_encoding := .verbatim, auth := .sigV4 }

theorem controlPlaneTarget_faithful_query :
    controlPlaneTarget gatewayOptions (ascii "/b/a?x=1") = ascii "/b/a%3Fx%3D1" ∧
      percentDecode (controlPlaneTarget gatewayOptions (ascii "/b/a?x=1")) = ascii "/b/a?x=1" := by
  have ho : ¬ gatewayOptions.Legacy := fun h => absurd h.1 (by decide)
  exact ⟨rfl, (controlPlaneTarget_faithful gatewayOptions (ascii "/b/a?x=1") ho rfl).2.2.2.1⟩

end S3Rdma
