import S3Rdma.Common.Protocol
import S3Rdma.Lib.Word

/-!
# The rig probe's command line and geometry

`parse_args` and `validate_geometry` of `src/probe/rig_probe_main.cpp`, with `parse_protocol_flag`
of `src/common/s3_protocol.hpp`. A flag that takes a value is one of `valueFlag`; whatever is not a
flag, and a flag whose value is missing or not valid, makes the whole command line invalid.

A `size_t` is a number below `2^64`: `parse_size` and the checked operations refuse what would not
fit, and the cells (`makeCell`) are computed with wrap-around, as the source computes them.
-/

namespace S3Rdma.Probe

/-- `BufferMode`. -/
inductive BufferMode where
  | host
  | gpu
deriving DecidableEq

/-- The completion class that the operator declares with `--class`. -/
inductive NegClass where
  | knownComplete
  | unknown
  | noEmission
deriving DecidableEq

/-- What the guard injects, chosen with `--guard-mode`. -/
inductive GuardMode where
  | retryable
  | enotsup
deriving DecidableEq

/-- `Options`, with the global `g_base_offset_api`. -/
structure Options where
  exp : Bytes := []
  host : Bytes := ascii "127.0.0.1"
  bucket : Bytes := []
  object : Bytes := []
  mode : BufferMode := .gpu
  expect_sha : Bytes := []
  label : Bytes := ascii "diag"
  objects : List Bytes := []
  port : ℕ := 8080
  slot_bytes : ℕ := 8 * 1024 * 1024
  guard : ℕ := 64 * 1024
  slots : ℕ := 16
  range_start : ℕ := 0
  /-- The last byte, included. -/
  range_end : ℕ := 0
  range_given : Bool := false
  expected_bytes : ℕ := 0
  expected_given : Bool := false
  neg_class : NegClass := .knownComplete
  guard_mode : GuardMode := .retryable
  iterations : ℕ := 20
  deadline_s : ℕ := 60
  abrupt : Bool := false
  child : Bool := false
  base_offset_api : Bool := false
  proto : ProtocolOptions := {}

/-! ## The values of flags -/

/-- The loop of `parse_size`. -/
def sizeDigits : Bytes → ℕ → Option ℕ
  | [], value => some value
  | c :: cs, value =>
    if !isDigit c then none
    else if value > (2^64 - 1 - decimalDigit c) / 10 then none
    else sizeDigits cs (value * 10 + decimalDigit c)

/-- `parse_size`. -/
def parseSize (s : Bytes) : Option ℕ := if s = [] then none else sizeDigits s 0

/-- `is_lower_hex_64`. -/
def isLowerHex64 (s : Bytes) : Bool :=
  s.length = 64 && s.all fun c => isDigit c || (chr 'a' ≤ c && c ≤ chr 'f')

/-- A size between one and a bound. -/
def parseUpTo (bound : ℕ) (v : Bytes) : Option ℕ := (parseSize v).filter fun n => 0 < n && n ≤ bound

/-- The value of `--server`. -/
def parseServer (v : Bytes) : Option (Bytes × ℕ) := do
  let c ← v.idxOf? (chr ':')
  if c = 0 then none
  let n ← parseUpTo 65535 (v.drop (c + 1))
  return (v.take c, n)

/-- The value of `--range`. -/
def parseWindow (v : Bytes) : Option (ℕ × ℕ) := do
  let d ← v.idxOf? (chr '-')
  let first ← parseSize (v.take d)
  let last ← parseSize (v.drop (d + 1))
  if last < first then none
  return (first, last)

/-- The value of `--objects`. -/
def parseObjects (v : Bytes) : Option (List Bytes) :=
  let items := v.splitOn (chr ',')
  if items.any List.isEmpty then none else some items

/-- The value of a flag that has one of some names. -/
def parseName {α : Type} (names : List (Bytes × α)) (v : Bytes) : Option α := names.lookup v

/-- `parse_token_encoding`. -/
def parseTokenEncoding (s : Bytes) : Option TokenEncoding :=
  parseName [(ascii "verbatim", .verbatim), (ascii "base64", .base64)] s

/-- `parse_auth_mode`. -/
def parseAuthMode (s : Bytes) : Option AuthMode :=
  parseName [(ascii "none", .none), (ascii "sigv4", .sigV4)] s

/-- A value that `parse_protocol_flag` looks at. -/
def protocolValue (v : Bytes) : Option Bytes :=
  if v.head?.all (· == chr '-') then none else some v

/-- What a flag that takes a value does with it, for each such flag; the last three are those of
`parse_protocol_flag`. -/
def valueFlags : List (Bytes × (Bytes → Options → Option Options)) := [
  (ascii "--exp", fun v o => some { o with exp := v }),
  (ascii "--server", fun v o => (parseServer v).map fun s => { o with host := s.1, port := s.2 }),
  (ascii "--bucket", fun v o => some { o with bucket := v }),
  (ascii "--object", fun v o => some { o with object := v }),
  (ascii "--objects", fun v o => (parseObjects v).map fun l => { o with objects := o.objects ++ l }),
  (ascii "--mode", fun v o =>
    (parseName [(ascii "host", .host), (ascii "gpu", .gpu)] v).map fun m => { o with mode := m }),
  (ascii "--slot-bytes", fun v o => (parseSize v).map fun n => { o with slot_bytes := n }),
  (ascii "--slots", fun v o => (parseSize v).map fun n => { o with slots := n }),
  (ascii "--guard", fun v o => (parseSize v).map fun n => { o with guard := n }),
  (ascii "--landing-api", fun v o =>
    (parseName [(ascii "base-offset", true), (ascii "pointer", false)] v).map fun b =>
      { o with base_offset_api := b }),
  (ascii "--range", fun v o => (parseWindow v).map fun w =>
    { o with range_start := w.1, range_end := w.2, range_given := true }),
  (ascii "--expected-bytes", fun v o => (parseSize v).map fun n =>
    { o with expected_bytes := n, expected_given := true }),
  (ascii "--case", fun v o => some { o with label := v }),
  (ascii "--class", fun v o =>
    (parseName [(ascii "known-complete", .knownComplete), (ascii "unknown", .unknown),
      (ascii "no-emission", .noEmission)] v).map fun c => { o with neg_class := c }),
  (ascii "--expect-sha", fun v o => if isLowerHex64 v then some { o with expect_sha := v } else none),
  (ascii "--guard-mode", fun v o =>
    (parseName [(ascii "retryable", .retryable), (ascii "enotsup", .enotsup)] v).map fun m =>
      { o with guard_mode := m }),
  (ascii "--iterations", fun v o => (parseUpTo 100000 v).map fun n => { o with iterations := n }),
  (ascii "--deadline-s", fun v o => (parseUpTo 3600 v).map fun n => { o with deadline_s := n }),
  (ascii "--token-encoding", fun v o => (protocolValue v).bind fun v =>
    (parseTokenEncoding v).map fun t => { o with proto := { o.proto with token_encoding := t } }),
  (ascii "--auth", fun v o => (protocolValue v).bind fun v =>
    (parseAuthMode v).map fun a => { o with proto := { o.proto with auth := a } }),
  (ascii "--region", fun v o => (protocolValue v).map fun v =>
    { o with proto := { o.proto with region := v } })]

/-- The flags without a value; the last one is that of `parse_protocol_flag`. -/
def plainFlags : List (Bytes × (Options → Options)) := [
  (ascii "--abrupt", fun o => { o with abrupt := true }),
  (ascii "--child", fun o => { o with child := true }),
  (ascii "--gateway", fun o =>
    { o with proto := { o.proto with token_encoding := .verbatim, auth := .sigV4 } })]

/-- The loop of `parse_args`. -/
def parseFlags : List Bytes → Options → Option Options
  | [], o => some o
  | [a], o => (plainFlags.lookup a).map fun set => set o
  | a :: v :: rest, o =>
    match valueFlags.lookup a, plainFlags.lookup a with
    | some set, _ => (set v o).bind (parseFlags rest)
    | none, some set => parseFlags (v :: rest) (set o)
    | none, none => none

/-- `parse_args`, of the arguments after the program's name. -/
def parseArgs (args : List Bytes) : Option Options := do
  let o ← parseFlags args {}
  if o.exp = [] then none
  if o.exp ≠ ascii "attr" ∧ o.exp ≠ ascii "reg" ∧ o.bucket = [] then none
  let needs_object := o.exp = ascii "diag" ∨ o.exp = ascii "rt-guard" ∨ o.exp = ascii "exit" ∨
    (o.exp = ascii "c" ∧ o.objects = [])
  if needs_object ∧ o.object = [] then none
  return o

/-! ## The geometry -/

/-- `checked_add`. -/
def checkedAdd (a b : ℕ) : Option ℕ := if a > 2^64 - 1 - b then none else some (a + b)

/-- `checked_mul`. -/
def checkedMul (a b : ℕ) : Option ℕ := if a ≠ 0 ∧ b > (2^64 - 1) / a then none else some (a * b)

/-- `kMaxReg`. -/
def kMaxReg : ℕ := 4 * 1024 * 1024 * 1024 - 64 * 1024

/-- `kSsizeMax`. -/
def kSsizeMax : ℕ := 2^63 - 1

/-- `Geometry`. -/
structure Geometry where
  cell : ℕ
  arena : ℕ
  expected : ℕ
deriving DecidableEq

/-- The first byte of the request. -/
def Options.windowStart (o : Options) : ℕ := if o.range_given then o.range_start else 0

/-- The last byte of the request. -/
def Options.windowEnd (o : Options) : ℕ := if o.range_given then o.range_end else o.slot_bytes - 1

/-- The sizes of a cell and of the arena, if they fit. -/
def cellAndArena (o : Options) (slots : ℕ) : Option (ℕ × ℕ) := do
  let two_guard ← checkedMul o.guard 2
  let cell ← checkedAdd o.slot_bytes two_guard
  let arena ← checkedMul cell slots
  if arena > kMaxReg then none
  return (cell, arena)

/-- The length of the request, if it fits in a slot. -/
def windowLength (o : Options) : Option ℕ :=
  if o.windowEnd < o.windowStart then none
  else (checkedAdd (o.windowEnd - o.windowStart) 1).filter (· ≤ o.slot_bytes)

/-- The expected length of the landing, of a request of a length. -/
def Options.expected (o : Options) (len : ℕ) : ℕ :=
  if o.expected_given then o.expected_bytes else len

/-- `validate_geometry`. -/
def validateGeometry (o : Options) (slots : ℕ) : Except Bytes Geometry :=
  if o.slot_bytes = 0 ∨ o.slot_bytes > kSsizeMax then .error (ascii "S must be 1..SSIZE_MAX")
  else if o.guard = 0 then .error (ascii "guard must be > 0")
  else if slots = 0 ∨ slots > 256 then .error (ascii "W must be 1..256")
  else
    match cellAndArena o slots with
    | none => .error (ascii "W*(S+2G) overflows or exceeds CUOBJ_MAX_MEMORY_REG_SIZE")
    | some (cell, arena) =>
      match windowLength o with
      | none => .error (ascii "request range longer than S")
      | some len =>
        if o.expected len > len then .error (ascii "--expected-bytes exceeds the request length")
        else if o.exp = ascii "c" ∧ o.objects = [] ∧ checkedMul o.slot_bytes slots = none then
          .error (ascii "W*S overflows")
        else .ok ⟨cell, arena, o.expected len⟩

/-- `Cell`: a guard, the payload, a guard. -/
structure Cell where
  base : ℕ
  payload : ℕ
  guard : ℕ
  size : ℕ
deriving DecidableEq

/-- `make_cell`. -/
def makeCell (index guard payload : ℕ) : Cell :=
  let size := add64 (add64 guard payload) guard
  let base := index * size % 2^64
  ⟨base, add64 base guard, guard, size⟩

/-! ## What an accepted geometry says -/

/-- A checked sum is the sum. -/
theorem checkedAdd_eq_some {a b n : ℕ} (h : checkedAdd a b = some n) : n = a + b := by
  unfold checkedAdd at h
  split_ifs at h
  exact (Option.some.inj h).symm

/-- A checked product is the product. -/
theorem checkedMul_eq_some {a b n : ℕ} (h : checkedMul a b = some n) : n = a * b := by
  unfold checkedMul at h
  split_ifs at h
  exact (Option.some.inj h).symm

/-- The cell and the arena have the sizes that the slots need. -/
theorem cellAndArena_eq_some {o : Options} {slots cell arena : ℕ}
    (h : cellAndArena o slots = some (cell, arena)) :
    cell = o.slot_bytes + o.guard * 2 ∧ arena = cell * slots ∧ arena ≤ kMaxReg := by
  unfold cellAndArena at h
  simp only [Option.bind_eq_bind, Option.bind_eq_some_iff] at h
  obtain ⟨two_guard, htwo, cell', hcell, arena', harena, h⟩ := h
  split_ifs at h with hmax
  · simp at h
  · simp only [Option.pure_def, Option.some.injEq, Prod.mk.injEq] at h
    obtain ⟨rfl, rfl⟩ := h
    refine ⟨?_, checkedMul_eq_some harena, by omega⟩
    rw [checkedAdd_eq_some hcell, checkedMul_eq_some htwo]

/-- The request has the length of its window, and fits in a slot. -/
theorem windowLength_eq_some {o : Options} {len : ℕ} (h : windowLength o = some len) :
    o.windowStart ≤ o.windowEnd ∧ len = o.windowEnd - o.windowStart + 1 ∧ len ≤ o.slot_bytes := by
  unfold windowLength at h
  split_ifs at h with hlt
  obtain ⟨hadd, hle⟩ := Option.filter_eq_some_iff.mp h
  exact ⟨not_lt.mp hlt, checkedAdd_eq_some hadd, of_decide_eq_true hle⟩

/-- What `validate_geometry` has checked when it accepts. -/
theorem validateGeometry_cases {o : Options} {slots : ℕ} {g : Geometry}
    (h : validateGeometry o slots = .ok g) :
    (0 < o.slot_bytes ∧ o.slot_bytes ≤ kSsizeMax) ∧ 0 < o.guard ∧ 0 < slots ∧
      cellAndArena o slots = some (g.cell, g.arena) ∧
      ∃ len, windowLength o = some len ∧ g.expected = o.expected len ∧ g.expected ≤ len := by
  unfold validateGeometry at h
  split at h
  · cases h
  rename_i hbytes
  split at h
  · cases h
  rename_i hguard
  split at h
  · cases h
  rename_i hslots
  split at h
  · cases h
  rename_i cell arena hcell
  split at h
  · cases h
  rename_i len hlen
  split at h
  · cases h
  rename_i hexpected
  split at h
  · cases h
  obtain rfl := Except.ok.inj h
  exact ⟨by omega, by omega, by omega, hcell, len, hlen, rfl, not_lt.mp hexpected⟩

/-- With an accepted geometry, all cells fit in the largest registration, and the landing fits in a
slot; it is empty only if the options say so. -/
theorem validateGeometry_ok {o : Options} {slots : ℕ} {g : Geometry}
    (h : validateGeometry o slots = .ok g) :
    0 < slots ∧ (o.slot_bytes + o.guard * 2) * slots ≤ kMaxReg ∧ g.expected ≤ o.slot_bytes ∧
      (g.expected = 0 ↔ o.expected_given = true ∧ o.expected_bytes = 0) := by
  obtain ⟨-, -, hslots, hcell, len, hlen, hexpected, hle⟩ := validateGeometry_cases h
  obtain ⟨hcell, harena, hmax⟩ := cellAndArena_eq_some hcell
  obtain ⟨-, hlength, hfits⟩ := windowLength_eq_some hlen
  rw [harena, hcell] at hmax
  refine ⟨hslots, hmax, by omega, ?_⟩
  rw [hexpected]
  simp only [Options.expected]
  split_ifs with hgiven
  · simp [hgiven]
  · simp [hgiven]
    omega

/-- With an accepted geometry nothing wraps around in a cell. -/
theorem makeCell_eq {k guard payload slots : ℕ} (hk : k < slots)
    (h : (payload + guard * 2) * slots ≤ kMaxReg) :
    makeCell k guard payload = ⟨k * (payload + guard * 2), k * (payload + guard * 2) + guard, guard,
      payload + guard * 2⟩ := by
  have hmax : kMaxReg < 2^64 := by decide
  have hcells : (k + 1) * (payload + guard * 2) ≤ kMaxReg := by
    refine le_trans ?_ h
    rw [Nat.mul_comm]
    exact Nat.mul_le_mul_left _ hk
  rw [Nat.add_mul, Nat.one_mul] at hcells
  have hsize : add64 (add64 guard payload) guard = payload + guard * 2 := by
    unfold add64
    omega
  have hbase : k * (payload + guard * 2) % 2^64 = k * (payload + guard * 2) :=
    Nat.mod_eq_of_lt (by omega)
  have hadd : add64 (k * (payload + guard * 2)) guard = k * (payload + guard * 2) + guard := by
    unfold add64
    omega
  simp only [makeCell, hsize, hbase, hadd]

end S3Rdma.Probe
