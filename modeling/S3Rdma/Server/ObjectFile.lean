import S3Rdma.Lib.Paths
import S3Rdma.Server.Handler

/-!
# The file behind an object

`get_fd` opens the path of an object, and the path goes to the system as a C string.
`parse_object_path` has looked at the whole string: it refuses `..` as a component of the object,
wherever it stands, and as the bucket. So a path without a NUL never leaves its bucket
(`objectFile_in_bucket`).

With a NUL the system sees a shorter path than the one that was checked, and its last component is
cut: `..` followed by a NUL is not refused. `getFd_staysBelow_iff` says for which paths that leads
above the bucket.
-/

namespace S3Rdma.Server

/-- The outcome of `get_fd`: the entry, the cache afterwards, and the name given to `open`, if
any. -/
structure FdResult where
  entry : Option FdEntry
  cache : List (Bytes × FdEntry)
  opened : Option Bytes

/-- `get_fd`: an entry of the cache, or the file that `open` and `fstat` give. The cache is looked
up twice, under a shared and under an exclusive lock; what counts is the second time. -/
def getFd (openFile : Bytes → Option FdEntry) (cache : List (Bytes × FdEntry)) (path : Bytes) :
    FdResult :=
  match cache.lookup path with
  | some e => ⟨some e, cache, none⟩
  | none =>
    match openFile (cString path) with
    | none => ⟨none, cache, some (cString path)⟩
    | some e => ⟨some e, (path, e) :: cache, some (cString path)⟩

/-- `get_fd` opens nothing but its path as a C string, and that whenever it is not in the cache. -/
theorem getFd_opened_iff (path name : Bytes) :
    (∃ openFile cache, name ∈ (getFd openFile cache path).opened) ↔ name = cString path := by
  constructor
  · rintro ⟨openFile, cache, hname⟩
    unfold getFd at hname
    split at hname
    · simp at hname
    · split at hname
      · simpa using hname.symm
      · simpa using hname.symm
  · rintro rfl
    exact ⟨fun _ => none, [], rfl⟩

/-! ## What is checked -/

/-- What a valid path consists of. -/
structure ValidObject (path : Bytes) (p : ObjectPath) : Prop where
  path_eq : path = chr '/' :: (p.bucket ++ chr '/' :: p.object)
  bucket_name : stays p.bucket = false
  bucket_ne : p.bucket ≠ ascii ".."
  bucket_slash : chr '/' ∉ p.bucket
  object_ne : p.object ≠ []
  object_dotdot : ascii ".." ∉ components p.object

/-- The five tests of the object find `..` wherever it is a component. -/
theorem dotdot_not_mem_components {s : Bytes} (hself : s ≠ ascii "..")
    (hmid : occursIn (ascii "/../") s = false) (hpre : (ascii "../").isPrefixOf s = false)
    (hsuf : (ascii "/..").isSuffixOf s = false) : ascii ".." ∉ components s := by
  intro hmem
  obtain ⟨before, after, hs, hbefore, hafter⟩ := mem_components hmem
  rcases hbefore with rfl | ⟨t, rfl⟩ <;> rcases hafter with rfl | ⟨u, rfl⟩
  · exact hself (by simpa using hs)
  · refine absurd ?_ (Bool.eq_false_iff.mp hpre)
    rw [List.isPrefixOf_iff_prefix]
    exact ⟨u, hs.symm⟩
  · refine absurd ?_ (Bool.eq_false_iff.mp hsuf)
    rw [List.isSuffixOf_iff_suffix]
    exact ⟨t, by rw [hs]; simp [ascii]⟩
  · refine absurd ?_ (Bool.eq_false_iff.mp hmid)
    unfold occursIn
    rw [List.any_eq_true]
    refine ⟨ascii "/../" ++ u, ?_, ?_⟩
    · rw [List.mem_tails]
      exact ⟨t, by rw [hs]; simp [ascii]⟩
    · rw [List.isPrefixOf_iff_prefix]
      exact List.prefix_append _ _

/-- `parse_object_path` checks that. -/
theorem parseObjectPath_valid {path : Bytes} (h : (parseObjectPath path).valid = true) :
    ValidObject path (parseObjectPath path) := by
  unfold parseObjectPath at h ⊢
  cases path with
  | nil => exact absurd h (by simp)
  | cons c rest =>
    dsimp only at h ⊢
    by_cases hc : c = chr '/'
    · rw [if_neg (not_not.mpr hc)] at h ⊢
      cases hslash : rest.idxOf? (chr '/') with
      | none =>
        rw [hslash] at h
        exact absurd h Bool.false_ne_true
      | some slash =>
        simp only [hslash] at h ⊢
        obtain ⟨hlt, heq, hfirst⟩ := List.idxOf?_eq_some_iff.mp hslash
        -- The bucket ends at the first slash behind the leading one.
        have hsplit : rest = rest.take slash ++ chr '/' :: rest.drop (slash + 1) := by
          rw [← heq, ← List.drop_eq_getElem_cons hlt, List.take_append_drop]
        split_ifs at h ⊢ with hlen hbucket hobject
        simp only [not_or, Bool.not_eq_true] at hbucket hobject
        simp only [Bool.and_eq_true, Bool.not_eq_true', List.isEmpty_eq_false_iff] at h
        exact
          { path_eq := by rw [hc, ← hsplit]
            bucket_name := by simp [stays, h.1, hbucket.1]
            bucket_ne := hbucket.2.1
            bucket_slash := hbucket.2.2
            object_ne := h.2
            object_dotdot := dotdot_not_mem_components hobject.2.1 hobject.2.2.1 hobject.2.2.2.1
              hobject.2.2.2.2 }
    · rw [if_pos hc] at h
      exact absurd h (by simp)

/-! ## Where it leads -/

/-- The path of an object as the system sees it. -/
theorem cString_objectFile {data_dir : Bytes} (hdir : 0 ∉ data_dir) (p : ObjectPath) :
    cString (objectFile data_dir p) =
      data_dir ++ chr '/' :: cString (p.bucket ++ chr '/' :: p.object) := by
  have hsplit : objectFile data_dir p =
      (data_dir ++ [chr '/']) ++ (p.bucket ++ chr '/' :: p.object) := by
    simp [objectFile, ascii]
  have hno : 0 ∉ data_dir ++ [chr '/'] := by
    rw [List.mem_append, not_or]
    exact ⟨hdir, by decide⟩
  rw [hsplit, cString_append hno, List.append_assoc]
  rfl

/-- A NUL in the bucket or in the object hides from the checks that the path, as the system sees it,
leads to the data directory or above: what is left of the bucket is no name, or what is left of the
object is `..` behind components that stay in the bucket. -/
def nulHidesEscape (p : ObjectPath) : Bool :=
  if 0 ∈ p.bucket then stays (cString p.bucket) || cString p.bucket == ascii ".."
  else (components (cString p.object)).dropWhile stays == [ascii ".."]

/-- The path as the system sees it stays below the data directory, from the bucket on, unless a NUL
hides that it does not. -/
theorem staysBelow_object_iff {path : Bytes} {p : ObjectPath} (h : ValidObject path p) :
    StaysBelow (components (cString (p.bucket ++ chr '/' :: p.object))) ↔
      nulHidesEscape p = false := by
  unfold nulHidesEscape
  by_cases hnul : 0 ∈ p.bucket
  · have hslash : chr '/' ∉ cString p.bucket :=
      fun hmem => h.bucket_slash ((cString_isPrefixOf _).subset hmem)
    rw [if_pos hnul, cString_append_of_mem hnul, components_eq_singleton hslash,
      staysBelow_singleton]
    simp
  · obtain ⟨init, last, hsplit, -⟩ := components_eq_concat (cString p.object)
    obtain ⟨t, ht⟩ := cString_isPrefixOf p.object
    have hinit : ascii ".." ∉ init := by
      intro hmem
      refine h.object_dotdot ?_
      rw [← ht]
      exact mem_components_append hsplit t hmem
    have hslash : 0 ∉ p.bucket ++ [chr '/'] := by
      rw [List.mem_append, not_or]
      exact ⟨hnul, by decide⟩
    rw [if_neg hnul, List.append_cons, cString_append hslash, List.append_assoc, List.singleton_append,
      components_append, components_eq_singleton h.bucket_slash, hsplit, List.singleton_append,
      staysBelow_iff h.bucket_name h.bucket_ne hinit, beq_eq_false_iff_ne, ne_eq,
      dropWhile_stays_iff]

/-- For a valid path, every name that `get_fd` opens stays below the data directory from the bucket
on, exactly if no NUL in the path hides that it does not. -/
theorem getFd_staysBelow_iff (data_dir : Bytes) (hdir : 0 ∉ data_dir) (path : Bytes)
    (hvalid : (parseObjectPath path).valid = true) :
    (∀ openFile cache, ∀ name ∈
        (getFd openFile cache (objectFile data_dir (parseObjectPath path))).opened,
      ∃ rest, name = data_dir ++ chr '/' :: rest ∧ StaysBelow (components rest)) ↔
      nulHidesEscape (parseObjectPath path) = false := by
  have hobject := parseObjectPath_valid hvalid
  set p := parseObjectPath path
  rw [← staysBelow_object_iff hobject]
  constructor
  · intro hall
    obtain ⟨openFile, cache, hopened⟩ := (getFd_opened_iff (objectFile data_dir p) _).mpr rfl
    obtain ⟨rest, hname, hbelow⟩ := hall openFile cache _ hopened
    rw [cString_objectFile hdir] at hname
    rwa [(List.cons_inj_right _).mp (List.append_cancel_left hname)]
  · intro hbelow openFile cache name hopened
    obtain rfl := (getFd_opened_iff _ _).mp ⟨openFile, cache, hopened⟩
    exact ⟨_, cString_objectFile hdir p, hbelow⟩

/-- The object `a/./c` of the bucket `b` is opened below the data directory. -/
theorem getFd_staysBelow_plain :
    (parseObjectPath (ascii "/b/a/./c")).valid = true ∧
      ∀ openFile cache, ∀ name ∈
        (getFd openFile cache (objectFile (ascii "data") (parseObjectPath (ascii "/b/a/./c")))).opened,
      ∃ rest, name = ascii "data" ++ chr '/' :: rest ∧ StaysBelow (components rest) := by
  have hvalid : (parseObjectPath (ascii "/b/a/./c")).valid = true := by decide +kernel
  have hno : nulHidesEscape (parseObjectPath (ascii "/b/a/./c")) = false := by decide +kernel
  exact ⟨hvalid, (getFd_staysBelow_iff (ascii "data") (by decide) _ hvalid).mpr hno⟩

/-- `/b/..` followed by a NUL and another byte is valid, and what is opened is `data/b/..`, which
leads from the bucket to the data directory. -/
theorem getFd_opens_data_dir :
    (parseObjectPath (ascii "/b/.." ++ [0, chr 'x'])).valid = true ∧
      (getFd (fun _ => none) []
        (objectFile (ascii "data") (parseObjectPath (ascii "/b/.." ++ [0, chr 'x'])))).opened =
        some (ascii "data" ++ chr '/' :: ascii "b/..") ∧
      ¬ StaysBelow (components (ascii "b/..")) := by
  refine ⟨by decide +kernel, by decide +kernel, fun h => ?_⟩
  exact h [ascii "b", ascii ".."] (by decide) ⟨[], by decide +kernel⟩ (by decide +kernel)

/-- Without a NUL, the place is in the bucket at every step. -/
theorem objectFile_in_bucket {path : Bytes} (hnul : 0 ∉ path)
    (hvalid : (parseObjectPath path).valid = true) {pre : List Bytes} (hne : pre ≠ [])
    (hpre : pre <+: components (cString ((parseObjectPath path).bucket ++
      chr '/' :: (parseObjectPath path).object))) :
    (pre.foldl resolveStep []).head? = some (parseObjectPath path).bucket := by
  have h := parseObjectPath_valid hvalid
  set p := parseObjectPath path
  have hno : 0 ∉ p.bucket ++ chr '/' :: p.object := by
    rw [h.path_eq] at hnul
    exact fun hmem => hnul (List.mem_cons_of_mem _ hmem)
  rw [cString_eq hno, components_append, components_eq_singleton h.bucket_slash,
    List.singleton_append] at hpre
  obtain ⟨c, pre, rfl⟩ := List.exists_cons_of_ne_nil hne
  obtain ⟨rfl, htail⟩ := List.cons_prefix_cons.mp hpre
  have hdotdot : ascii ".." ∉ p.bucket :: pre := by
    rw [List.mem_cons, not_or]
    exact ⟨Ne.symm h.bucket_ne, fun hmem => h.object_dotdot (htail.subset hmem)⟩
  rw [foldl_resolveStep hdotdot]
  simp [h.bucket_name]

end S3Rdma.Server
