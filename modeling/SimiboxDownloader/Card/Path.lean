import Mathlib.Data.List.Basic
import Mathlib.Data.List.Infix

/-!
# Paths on the card

The code builds paths by concatenation and hands them to the file system as
strings. `resolve` is what the file system makes of one: the names below the
mount point, empty segments skipped; a path outside of the mount point, or with
a `.` or `..` in it, does not resolve.

Names are compared exactly here. FatFs takes names that differ in case for equal, a
backslash for a slash, and drops the dots and spaces at the end of a name. So where a
statement says that names are equal or distinct, or that a name is plain, it is meant
of names as FatFs compares and reads them.
-/

namespace SimiboxDownloader

namespace Download

/-- A C string without its terminator. -/
abbrev Str := List Char

/-- What can be the name of a directory entry. -/
def Plain (s : Str) : Prop :=
  s ≠ [] ∧ '/' ∉ s ∧ s ≠ ['.'] ∧ s ≠ ['.', '.']

instance (s : Str) : Decidable (Plain s) :=
  inferInstanceAs (Decidable (_ ∧ _))

/-- The name of a directory entry. -/
structure Name where
  val : Str
  plain : Plain val
  deriving DecidableEq

theorem Name.ext {n m : Name} (h : n.val = m.val) : n = m := by
  cases n
  cases m
  cases h
  rfl

def toName (s : Str) : Option Name :=
  if h : Plain s then some ⟨s, h⟩ else none

/-- The segments of a path between its slashes, but for the empty ones. -/
def segments (s : Str) : List Str :=
  (s.splitOn '/').filter (· ≠ [])

/-- The names a relative path stands for. -/
def rel (s : Str) : Option (List Name) :=
  (segments s).mapM toName

/-- The mount point with its slash. -/
def mountPrefix : Str := "/sdcard/".toList

/-- The names below the mount point a path stands for. -/
def resolve (path : Str) : Option (List Name) :=
  if mountPrefix <+: path then rel (path.drop mountPrefix.length) else none

theorem mount_of_resolve {path : Str} {p : List Name} (h : resolve path = some p) :
    mountPrefix <+: path := by
  unfold resolve at h
  split at h
  · assumption
  · cases h

/-- `dir + "/" + name`. -/
def sub (dir name : Str) : Str := dir ++ '/' :: name

/-- `std::string("/sdcard/") + folder`. -/
def finalDir (folder : Str) : Str := mountPrefix ++ folder

/-- `final_dir + ".tmp"`. -/
def tmpDir (folder : Str) : Str := finalDir folder ++ ".tmp".toList

/-- `out_path + ".part"`. -/
def part (path : Str) : Str := path ++ ".part".toList

theorem segments_sub (a b : Str) : segments (sub a b) = segments a ++ segments b := by
  rw [segments, sub, List.splitOn_append_cons_self, List.filter_append]
  rfl

/-- A segment without a slash. -/
theorem segments_of_notMem {s : Str} (h : '/' ∉ s) : segments s = if s = [] then [] else [s] := by
  rw [segments, List.splitOn_eq_singleton h]
  by_cases hs : s = [] <;> simp [hs]

@[simp] theorem rel_nil : rel [] = some [] := by
  rw [rel, segments_of_notMem (by simp), if_pos rfl]
  rfl

theorem rel_of_notMem {s : Str} (h : '/' ∉ s) (hs : s ≠ []) :
    rel s = (toName s).map fun n => [n] := by
  rw [rel, segments_of_notMem h, if_neg hs]
  cases hn : toName s <;> simp [hn]

theorem toName_eq_some {s : Str} {n : Name} : toName s = some n ↔ s = n.val := by
  unfold toName
  constructor
  · intro h
    split at h
    · cases h
      rfl
    · cases h
  · rintro rfl
    rw [dif_pos n.plain]

theorem mapM_toName {segs : List Str} {p : List Name} (h : segs.mapM toName = some p) :
    segs = p.map Name.val := by
  induction segs generalizing p with
  | nil =>
      cases h
      rfl
  | cons seg segs ih =>
      rw [List.mapM_cons] at h
      obtain ⟨n, hn, h⟩ := Option.bind_eq_some_iff.1 h
      obtain ⟨rest, hrest, h⟩ := Option.bind_eq_some_iff.1 h
      cases h
      rw [toName_eq_some.1 hn, ih hrest, List.map_cons]

/-- The names of a path that resolves are its segments. -/
theorem segments_of_rel {s : Str} {p : List Name} (h : rel s = some p) :
    segments s = p.map Name.val :=
  mapM_toName h

theorem rel_name (n : Name) : rel n.val = some [n] := by
  rw [rel_of_notMem n.plain.2.1 n.plain.1, toName_eq_some.2 rfl]
  rfl

theorem rel_sub (a b : Str) :
    rel (sub a b) = (rel a).bind fun p => (rel b).map fun q => p ++ q := by
  rw [rel, segments_sub, List.mapM_append, rel, rel]
  cases List.mapM toName (segments a) <;> cases List.mapM toName (segments b) <;> rfl

/-- A path in a directory resolves below what the directory resolves to. -/
theorem resolve_sub {dir : Str} (h : mountPrefix <+: dir) (name : Str) :
    resolve (sub dir name) = (resolve dir).bind fun p => (rel name).map fun q => p ++ q := by
  obtain ⟨s, rfl⟩ := h
  have hsub : sub (mountPrefix ++ s) name = mountPrefix ++ sub s name := by
    simp [sub]
  rw [hsub, resolve, resolve, if_pos (List.prefix_append _ _), if_pos (List.prefix_append _ _),
    List.drop_left, List.drop_left, rel_sub]

theorem resolve_sub_eq_some {dir name : Str} {p : List Name} (h : mountPrefix <+: dir) :
    resolve (sub dir name) = some p ↔
      ∃ d q, resolve dir = some d ∧ rel name = some q ∧ p = d ++ q := by
  rw [resolve_sub h]
  cases resolve dir <;> cases rel name <;> simp [eq_comm]

/-- Every path is its last segment, or a directory with its last segment. -/
theorem exists_lastSegment (s : Str) :
    ∃ last, '/' ∉ last ∧ (s = last ∨ ∃ dir, s = sub dir last) := by
  induction s with
  | nil => exact ⟨[], by simp, Or.inl rfl⟩
  | cons c s ih =>
      obtain ⟨last, hlast, rfl | ⟨dir, rfl⟩⟩ := ih
      · by_cases hc : c = '/'
        · exact ⟨s, hlast, Or.inr ⟨[], by rw [hc]; rfl⟩⟩
        · exact ⟨c :: s, by simp [hlast, Ne.symm hc], Or.inl rfl⟩
      · exact ⟨last, hlast, Or.inr ⟨c :: dir, rfl⟩⟩

/-- What is appended to a path is appended to its last segment. -/
theorem rel_append (s : Str) {suffix : Str} (h : '/' ∉ suffix) (hne : suffix ≠ []) :
    ∃ d last, '/' ∉ last ∧ (last = [] ↔ s = [] ∨ ['/'] <:+ s) ∧
      rel s = (d : Option (List Name)).bind (fun p => (rel last).map fun q => p ++ q) ∧
      rel (s ++ suffix) = d.bind fun p => (toName (last ++ suffix)).map fun n => p ++ [n] := by
  obtain ⟨last, hlast, hs⟩ := exists_lastSegment s
  have hrel : rel (last ++ suffix) = (toName (last ++ suffix)).map fun n => [n] :=
    rel_of_notMem (by simp [hlast, h]) (by simp [hne])
  rcases hs with rfl | ⟨dir, rfl⟩
  · refine ⟨some [], s, hlast, ?_, ?_, ?_⟩
    · constructor
      · exact Or.inl
      · rintro (hs | ⟨t, rfl⟩)
        · exact hs
        · simp at hlast
    · cases rel s <;> rfl
    · rw [hrel]
      cases toName (s ++ suffix) <;> rfl
  · refine ⟨rel dir, last, hlast, ?_, rel_sub dir last, ?_⟩
    · constructor
      · rintro rfl
        exact Or.inr ⟨dir, rfl⟩
      · rintro (hs | ⟨t, ht⟩)
        · simp [sub] at hs
        · by_contra hlast'
          obtain ⟨init, c, rfl⟩ := List.eq_nil_or_concat last |>.resolve_left hlast'
          have hsub : sub dir (init.concat c) = (dir ++ '/' :: init) ++ [c] := by
            simp [sub]
          rw [hsub] at ht
          have hc : '/' = c := List.append_inj_right' ht rfl |> List.cons.inj |>.1
          simp [← hc] at hlast
    · have hsub : sub dir last ++ suffix = sub dir (last ++ suffix) := by
        simp [sub]
      rw [hsub, rel_sub, hrel]
      cases rel dir <;> cases toName (last ++ suffix) <;> rfl

end Download

end SimiboxDownloader
