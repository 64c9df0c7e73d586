import SimiboxDownloader.Download.Environment
import SimiboxDownloader.Download.Usage

/-!
# Where the paths of a download lie

Paths are put together from the folder of the boot record and the file names of
the server, neither of which is looked at. `lexical` resolves `.` and `..` in a
path. The file system resolves no path with such a segment, so a path that names
anything lies below the directory it was put together from: every one the
downloader writes lies in `/sdcard/<folder>` or `/sdcard/<folder>.tmp`
(`download_confined`).
-/

namespace SimiboxDownloader

namespace Download

/-- One segment of a path; a `..` at the root stays there. -/
def lexStep (dirs : List Str) (seg : Str) : List Str :=
  if seg = ['.'] then dirs
  else if seg = ['.', '.'] then dirs.dropLast
  else dirs ++ [seg]

/-- The directories of an absolute path from the root on, without `.` and `..`. -/
def lexical (path : Str) : List Str := (segments path).foldl lexStep []

/-- In the directory of the folder or the temporary one, these included. -/
def Inside (folder path : Str) : Prop :=
  lexical (finalDir folder) <+: lexical path ∨ lexical (tmpDir folder) <+: lexical path

instance (folder path : Str) : Decidable (Inside folder path) :=
  inferInstanceAs (Decidable (_ ∨ _))

theorem lexical_sub (dir name : Str) :
    lexical (sub dir name) = (segments name).foldl lexStep (lexical dir) := by
  rw [lexical, segments_sub, List.foldl_append, lexical]

theorem lexical_sub_plain (dir : Str) {name : Str} (h : Plain name) :
    lexical (sub dir name) = lexical dir ++ [name] := by
  rw [lexical_sub, segments_of_notMem h.2.1, if_neg h.1]
  simp [lexStep, h.2.2.1, h.2.2.2]

theorem part_sub (dir name : Str) : part (sub dir name) = sub dir (part name) := by
  simp [part, sub]

theorem foldl_lexStep_names (dirs : List Str) (p : List Name) :
    (p.map Name.val).foldl lexStep dirs = dirs ++ p.map Name.val := by
  induction p generalizing dirs with
  | nil => simp
  | cons n p ih =>
      have hstep : lexStep dirs n.val = dirs ++ [n.val] := by
        simp [lexStep, n.plain.2.2.1, n.plain.2.2.2]
      rw [List.map_cons, List.foldl_cons, hstep, ih, List.append_assoc]
      rfl

/-- The first segment of every path on the card. -/
def mountName : Str := "sdcard".toList

/-- A path that resolves lies where its names say. -/
theorem lexical_of_resolve {path : Str} {p : List Name} (h : resolve path = some p) :
    lexical path = mountName :: p.map Name.val := by
  unfold resolve at h
  split at h
  · next hmount =>
      obtain ⟨rest, rfl⟩ := hmount
      rw [List.drop_left] at h
      have hsub : mountPrefix ++ rest = sub ('/' :: mountName) rest := rfl
      have hmountSeg : segments ('/' :: mountName) = [mountName] := by decide
      rw [hsub, lexical, segments_sub, hmountSeg, segments_of_rel h, List.foldl_append,
        foldl_lexStep_names]
      rfl
  · cases h

/-- In one of the two directories of the folder, as a path of the card. -/
def InsideCard (folder : Str) (p : List Name) : Prop :=
  lexical (finalDir folder) <+: mountName :: p.map Name.val ∨
    lexical (tmpDir folder) <+: mountName :: p.map Name.val

theorem insideCard_append {folder : Str} (p r : List Name) (h : InsideCard folder p) :
    InsideCard folder (p ++ r) := by
  have hprefix : mountName :: p.map Name.val <+: mountName :: (p ++ r).map Name.val := by
    rw [List.map_append]
    exact List.prefix_append (mountName :: p.map Name.val) (r.map Name.val)
  rcases h with h | h
  · exact Or.inl (h.trans hprefix)
  · exact Or.inr (h.trans hprefix)

/-- A path below the mount point that lies inside, if it names anything. -/
structure Confined (folder path : Str) : Prop where
  mount : mountPrefix <+: path
  inside : ∀ p, resolve path = some p → InsideCard folder p

theorem Confined.sub {folder dir : Str} (h : Confined folder dir) (name : Str) :
    Confined folder (sub dir name) := by
  refine ⟨h.mount.trans (List.prefix_append _ _), fun p hp => ?_⟩
  obtain ⟨d, q, hd, -, rfl⟩ := (resolve_sub_eq_some h.mount).1 hp
  exact insideCard_append d q (h.inside d hd)

theorem confined_finalDir (folder : Str) : Confined folder (finalDir folder) := by
  refine ⟨List.prefix_append _ _, fun p hp => Or.inl ?_⟩
  rw [lexical_of_resolve hp]

theorem confined_tmpDir (folder : Str) : Confined folder (tmpDir folder) := by
  refine ⟨(List.prefix_append _ _).trans (List.prefix_append _ _), fun p hp => Or.inr ?_⟩
  rw [lexical_of_resolve hp]

/-- The calls that write inside only. -/
def WritesInside (folder : Str) (o : Call) : Prop := ∀ path ∈ o.writes, Confined folder path

theorem deletesIn_inside (folder : Str) : DeletesIn (WritesInside folder) (Confined folder) where
  sub := fun _ name hdir _ => hdir.sub name
  stat := by simp [WritesInside, Call.writes, FsCall.writes]
  opendir := by simp [WritesInside, Call.writes, FsCall.writes]
  unlink := by simp [WritesInside, Call.writes, FsCall.writes]
  rmdir := by simp [WritesInside, Call.writes, FsCall.writes]
  diverge := by simp [WritesInside, Call.writes]

theorem putsFile_inside (folder name : Str) :
    PutsFile (WritesInside folder) (sub (tmpDir folder) name) := by
  have hout := (confined_tmpDir folder).sub name
  have hpart := (confined_tmpDir folder).sub (part name)
  rw [← part_sub] at hpart
  constructor <;> simp [WritesInside, Call.writes, FsCall.writes, hout, hpart]

/-- Whatever the names in the list are. -/
theorem installFiles_inside (J : CJson) (depth : ℕ) (folder : Str) (files : List FileItem) :
    Calls (WritesInside folder) (installFiles J depth folder files) := by
  refine installFiles_calls ?_ (deletesIn_inside folder) (confined_tmpDir folder)
    (confined_finalDir folder) ?_ ?_ ?_ ?_ (fun item _ => putsFile_inside folder item.name) depth
  · intro o ho path hpath
    simp [writes_of_tame ho] at hpath
  · simp [WritesInside, Call.writes, FsCall.writes, confined_tmpDir]
  · simp [WritesInside, Call.writes, FsCall.writes]
  · simp [WritesInside, Call.writes, FsCall.writes, confined_tmpDir, confined_finalDir]
  · simp only [WritesInside, Call.writes, FsCall.writes, List.mem_singleton, forall_eq]
    exact (confined_finalDir folder).sub okMarker

theorem downloadSimiFolder_inside (J : CJson) (depth : ℕ) (folder lambdaUrl : Str) :
    Calls (WritesInside folder) (downloadSimiFolder J depth folder lambdaUrl) :=
  downloadSimiFolder_uses (fun o ho path hpath => by simp [writes_of_tame ho] at hpath) depth
    (fun _ _ files _ _ => installFiles_inside J depth folder files) lambdaUrl

/-- A call that writes inside leaves what is outside. -/
theorem leaves_of_inside {folder : Str} {o : Call} {r : o.Reply} {w t : World}
    (ho : WritesInside folder o) (hopen : w.WritesIn (InsideCard folder))
    (hm : machine o w r t) :
    t.WritesIn (InsideCard folder) ∧ ∀ p, ¬ InsideCard folder p → t.card.get p = w.card.get p :=
  frame insideCard_append hopen (fun path hpath => (ho path hpath).inside) hm

theorem plain_children (folder : Str) (h : Plain folder) :
    lexical (finalDir folder) = [mountName, folder] ∧
      lexical (tmpDir folder) = [mountName, folder ++ ".tmp".toList] := by
  have hmount : lexical ('/' :: mountName) = [mountName] := by decide
  have htmp : Plain (folder ++ ".tmp".toList) := by
    refine ⟨by simp, by simp [h.2.1], ?_, ?_⟩ <;>
      · intro heq
        have hlen := congrArg List.length heq
        simp at hlen
  have hfinal : finalDir folder = sub ('/' :: mountName) folder := rfl
  have htmpDir : tmpDir folder = sub ('/' :: mountName) (folder ++ ".tmp".toList) := rfl
  rw [hfinal, htmpDir, lexical_sub_plain _ h, lexical_sub_plain _ htmp, hmount]
  exact ⟨rfl, rfl⟩

/-- In every run, whatever the folder and the names in the list are and whatever the calls
return: every path that is created, truncated, renamed or deleted, if it names anything on
the card, lies in the directory of the folder or the temporary one, and nothing else on the
card changes. For a folder that is one plain name these two are children of the mount
point. -/
theorem download_confined {J : CJson} {depth : ℕ} {folder lambdaUrl : Str} {st : Statics}
    {w t : World} {q : Interaction.Program Call Call.Reply (FolderEnd × Statics)}
    {tr : List Event}
    (h : Interaction.Steps machine ((downloadSimiFolder J depth folder lambdaUrl).run st) w tr q t)
    (hclosed : ∀ f, w.writer f = none) :
    (∀ e ∈ tr, ∀ path ∈ e.op.writes, (resolve path).isSome → Inside folder path) ∧
      (∀ p, ¬ InsideCard folder p → t.card.get p = w.card.get p) ∧
      (Plain folder → lexical (finalDir folder) = [mountName, folder] ∧
        lexical (tmpDir folder) = [mountName, folder ++ ".tmp".toList]) := by
  have hinside := (downloadSimiFolder_inside J depth folder lambdaUrl st).steps h fun e he =>
    lists_of_machine (h.events e he)
  refine ⟨fun e he path hpath hnames => ?_, ?_, plain_children folder⟩
  · obtain ⟨p, hp⟩ := Option.isSome_iff_exists.1 hnames
    rw [Inside, lexical_of_resolve hp]
    exact (hinside e he path hpath).inside p hp
  · refine (h.invariant (J := fun s => s.WritesIn (InsideCard folder) ∧
      ∀ p, ¬ InsideCard folder p → s.card.get p = w.card.get p) ?_ ?_).2
    · rintro e he ⟨hopen, hsame⟩
      obtain ⟨hopen', hleaves⟩ := leaves_of_inside (hinside e he) hopen (h.events e he)
      exact ⟨hopen', fun p hp => (hleaves p hp).trans (hsame p hp)⟩
    · refine ⟨?_, fun _ _ => rfl⟩
      intro f s hs
      rw [hclosed f] at hs
      cases hs

/-- A package one file of which is asked for outside of its directory. -/
def climbing : Sample where
  files := [("../bach/a.mp3".toList, "https://a.example/1".toList, [7, 8]),
    ("manifest.json".toList, "https://a.example/0".toList, ascii "\x7b\"files\":[]\x7d".toList)]
  entries := []

/-- The file system refuses the path, and the package of that name stays as it is. -/
theorem download_confined_climbing : ∃ q t tr,
    Interaction.Steps machine
      ((downloadSimiFolder climbing.cjson 4 "mozart".toList "https://api.example".toList).run
        (Statics.boot true 10000))
      (World.boot (cardOf [("/sdcard/bach".toList, .dir)])) tr q t ∧
    (∃ e ∈ tr, ∃ path ∈ e.op.writes, ¬ Inside "mozart".toList path) ∧
    ∀ p, ¬ InsideCard "mozart".toList p →
      t.card.get p = (cardOf [("/sdcard/bach".toList, .dir)]).get p := by
  have h := climbing.steps_play (fun _ _ => .ok) "mozart".toList
    (cardOf [("/sdcard/bach".toList, .dir)])
  exact ⟨_, _, _, h, by decide +kernel, (download_confined h fun _ => rfl).2.1⟩

/-- The folder of a package inside of another one. -/
def innerFolder : Str := "bach/kv".toList

/-- A card with a package `bach`. -/
def bachCard : DirTree.Tree Name Bytes :=
  cardOf [("/sdcard/bach".toList, .dir), ("/sdcard/bach/kv".toList, .dir),
    ("/sdcard/bach/kv/old.mp3".toList, .file [1, 2])]

/-- Neither directory of that folder is a child of the mount point, and the download
replaces a part of the other package. -/
theorem download_not_confined : ∃ q t tr,
    Interaction.Steps machine
      ((downloadSimiFolder mozart.cjson 4 innerFolder "https://api.example".toList).run
        (Statics.boot true 10000)) (World.boot bachCard) tr q t ∧
    lexical (finalDir innerFolder) = [mountName, "bach".toList, "kv".toList] ∧
    (resolve "/sdcard/bach/kv/old.mp3".toList).bind bachCard.get = some (.file [1, 2]) ∧
    (resolve "/sdcard/bach/kv/old.mp3".toList).bind t.card.get = none := by
  refine ⟨_, _, _, mozart.steps_play (fun _ _ => .ok) innerFolder bachCard, ?_⟩
  decide +kernel

end Download

end SimiboxDownloader
