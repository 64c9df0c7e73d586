import SimiboxDownloader.Download.Failures
import SimiboxDownloader.Download.Filling
import SimiboxDownloader.Download.Package

/-!
# What a successful download has installed

When `download_simi_folder` returns true, the temporary directory has taken the place
of the folder, as the file loop had filled it and as it was verified, and the marker
was written over it (`downloadSimiFolder_installs`). The files of a list can be in each
other's way there, and in the way of the marker, whose calls are not checked.
-/

namespace SimiboxDownloader

namespace Download

open Interaction Interaction.Stateful DirTree

variable {J : CJson} {depth : ℕ} {folder : Str} {st : Statics} {w s t : World} {tr : List Event}

section Marker

/-- A call for the marker fails. -/
def markFails : Event → Bool
  | ⟨_, .fs (.fopen _ .wb), r, _⟩ => r.isNone
  | ⟨_, .fs (.fputs _ _), r, _⟩ => !r
  | e => tailFails e

/-- The marker has its content, unless one of its calls has failed. -/
theorem writeMarker_writes {path : Str} {x : List Name} {y : Unit × Statics}
    (hx : resolve path = some x)
    (hrun : Steps machine ((writeMarker path).run st) w tr (.pure y) t) :
    (∀ z, z ≠ x → t.card.get z = w.card.get z) ∧
      (tr.any markFails = false → t.card.get x = some (.file okContent)) := by
  obtain ⟨file?, w₁, tr₁, rfl, hopen, hrest⟩ := steps_call hrun
  cases file? with
  | none =>
      cases hrest
      rw [fopen_none hopen]
      exact ⟨fun _ _ => rfl, nofun⟩
  | some file =>
      obtain ⟨x', hx', hwriting⟩ := writing_of_fopen hopen
      rw [hx] at hx'
      cases hx'
      obtain ⟨put, w₂, tr₂, rfl, hput, hrest⟩ := steps_call hrest
      obtain ⟨flushed, w₃, tr₃, rfl, hflush, hrest⟩ := steps_call hrest
      obtain ⟨synced, w₄, tr₄, rfl, hsync, hrest⟩ := steps_call hrest
      obtain ⟨closed, w₅, tr₅, rfl, hclose, hrest⟩ := steps_call hrest
      cases hrest
      have hwritten := (((hwriting.fputs hput).fflush hflush).fsync hsync).fclose hclose
      refine ⟨hwritten.elsewhere, fun hok => ?_⟩
      obtain ⟨data, hdata, hsound⟩ := hwritten.file
      simp only [List.any_cons, List.any_nil, markFails, tailFails, Option.isNone_some,
        Bool.or_eq_false_iff, Bool.not_eq_eq_eq_not, Bool.not_false] at hok
      rw [hdata, hsound ⟨⟨⟨⟨trivial, hok.2.1⟩, hok.2.2.1⟩, hok.2.2.2.1⟩, hok.2.2.2.2.1⟩]
      rfl

end Marker

section Swap

variable {p q : List Name}

/-- The temporary directory of `w` has replaced the folder in `s`. -/
structure Replaces (folder : Str) (p q : List Name) (w s : World) : Prop where
  final : resolve (finalDir folder) = some p
  tmp : resolve (tmpDir folder) = some q
  apart : ¬ p <+: q
  moved : ∀ r, s.card.get (p ++ r) = w.card.get (q ++ r)
  gone : s.card.get q = none

/-- `mark` are the calls that write the marker, from `s` on. -/
def Marks (folder : Str) (s : World) (mark : List Event) (t : World) : Prop :=
  ∃ st y, Steps machine ((writeMarker (sub (finalDir folder) okMarker)).run st) s mark (.pure y) t

theorem swapFolder_replaces {contents : List Bytes} {x : FolderEnd × Statics}
    (hrun : Steps machine ((swapFolder depth folder contents).run st) w tr (.pure x) t)
    (hret : x.1.ret = true) :
    ∃ p q s pre mark, Replaces folder p q w s ∧ tr = pre ++ mark ∧ Marks folder s mark t := by
  obtain ⟨_, st₁, w₁, tr₁, tr₂, rfl, hdelete, hrest⟩ := steps_bind hrun
  obtain ⟨renamed, w₂, tr₃, rfl, hrename, hmoved⟩ := steps_call hrest
  rcases rename_cases hrename with ⟨rfl, rfl⟩ | ⟨rfl, q, p, hq, hp, hmove, rfl⟩
  · obtain ⟨_, st₂, w₃, tr₄, tr₅, rfl, -, hend⟩ := steps_bind hmoved
    cases hend
    cases hret
  · obtain ⟨y, st₂, w₃, mark, tr₄, rfl, hmark, hend⟩ := steps_bind hmoved
    cases hend
    have hsame := ((deleteExisting_calls (deletesIn_clears p) depth
      (below_self (mount_finalDir folder) hp)).clearsOnly hdelete).2
    rw [List.append_nil, List.append_cons]
    refine ⟨p, q, _, _, mark, ⟨hp, hq, ?_, fun r => ?_, ?_⟩, rfl, st₁, _, hmark⟩
    · exact Tree.apart_of_canMove hmove (List.prefix_refl q)
    · rw [← hsame _ (Tree.apart_of_canMove hmove (List.prefix_append q r))]
      exact Tree.get_move_append hmove r
    · dsimp only
      rw [Tree.get_move hmove, if_neg (Tree.apart_of_canMove hmove (List.prefix_refl q)),
        if_pos (List.prefix_refl q)]

theorem verifyAndSwap_replaces {contents : List Bytes} {x : FolderEnd × Statics}
    (hrun : Steps machine ((verifyAndSwap J depth folder contents).run st) w tr (.pure x) t)
    (hret : x.1.ret = true) : verifies J w.card (tmpDir folder) = true ∧
      ∃ p q s pre mark, Replaces folder p q w s ∧ tr = pre ++ mark ∧ Marks folder s mark t := by
  obtain ⟨v, st₁, w₁, tr₁, tr₂, rfl, hverify, hrest⟩ := steps_bind hrun
  obtain ⟨hcard, hok⟩ := (verifyDownloadIntegrity_reads J _ rfl).result rfl hverify
  have hfailed {v : VerifyEnd} (hrest : Steps machine ((deleteTree depth (tmpDir folder) >>=
      fun _ => pure (FolderEnd.verifyFailed v)).run st₁) w₁ tr₂ (.pure x) t) : False := by
    obtain ⟨_, st₂, w₂, tr₃, tr₄, rfl, -, hend⟩ := steps_bind hrest
    cases hend
    cases hret
  cases v with
  | ok =>
      obtain ⟨p, q, s, pre, mark, hreplaces, rfl, hmark⟩ := swapFolder_replaces hrest hret
      refine ⟨hok rfl, p, q, s, tr₁ ++ pre, mark, { hreplaces with moved := fun r => ?_ },
        (List.append_assoc _ _ _).symm, hmark⟩
      rw [hreplaces.moved, hcard]
  | openFailed | failed => exact (hfailed hrest).elim

theorem afterLoop_replaces {result : Except FileEnd (List Bytes)} {x : FolderEnd × Statics}
    (hrun : Steps machine ((afterLoop J depth folder result).run st) w tr (.pure x) t)
    (hret : x.1.ret = true) : (∃ contents, result = .ok contents) ∧
      verifies J w.card (tmpDir folder) = true ∧
      ∃ p q s pre mark, Replaces folder p q w s ∧ tr = pre ++ mark ∧ Marks folder s mark t := by
  obtain ⟨_, st₁, w₁, release, tr₁, rfl, hrelease, hrest⟩ := steps_bind hrun
  have hquiet := (quiet_of_calls (releaseAll_calls onlyDev_dev) st w []).result hrelease
  cases result with
  | ok contents =>
      obtain ⟨_, w₂, tr₂, rfl, hled, hswap⟩ := steps_call hrest
      obtain rfl : w₂ = w₁ := hled
      obtain ⟨hverifies, p, q, s, pre, mark, hreplaces, rfl, hmark⟩ :=
        verifyAndSwap_replaces hswap hret
      rw [hquiet.card] at hverifies
      rw [← List.cons_append, ← List.append_assoc]
      refine ⟨⟨contents, rfl⟩, hverifies, p, q, s, _, mark,
        { hreplaces with moved := fun r => ?_ }, rfl, hmark⟩
      rw [hreplaces.moved, hquiet.card]
  | error e =>
      dsimp only at hrest
      split at hrest
      · cases hrest
        cases hret
      · obtain ⟨_, st₂, w₂, tr₂, tr₃, rfl, -, hend⟩ := steps_bind hrest
        cases hend
        cases hret

end Swap

section Install

variable {p q : List Name} {files : List FileItem}

/-- What a successful download of `files` leaves in the folder. A file is as its last
attempt has written it if it is not at the marker and no later one has it for a
`.part`; the folder verifies if the verification does not look at the marker. Bytes
that a failed flush, sync or close has lost are not spoken of. -/
structure Installed (J : CJson) (folder : Str) (files : List FileItem) (tr : List Event)
    (t : World) : Prop where
  files : ∀ before item after, files = before ++ item :: after → rel item.name ≠ rel okMarker →
    (∀ later ∈ after, rel (part later.name) ≠ rel item.name) →
      ∃ received seg data, seg <:+: tr ∧
        Receives item.url (sub (tmpDir folder) item.name) received seg ∧
        fileAt t.card (sub (finalDir folder) item.name) = some data ∧
        (seg.any tailFails = false → data = received)
  verified : (∀ path ∈ looksAt J t.card (finalDir folder),
    resolve path ≠ resolve (sub (finalDir folder) okMarker)) →
      verifies J t.card (finalDir folder) = true
  marked : ∃ pre mark s, tr = pre ++ mark ∧ Marks folder s mark t ∧ (mark.any markFails = false →
    fileAt t.card (sub (finalDir folder) okMarker) = some okContent)
  swapped : isThere t.card (tmpDir folder) = false

theorem Installed.prepend {tr₀ : List Event} (h : Installed J folder files tr t) :
    Installed J folder files (tr₀ ++ tr) t := by
  refine ⟨fun before item after heq hmarker hlater => ?_, h.verified, ?_, h.swapped⟩
  · obtain ⟨received, seg, data, hseg, hrest⟩ := h.files before item after heq hmarker hlater
    exact ⟨received, seg, data, hseg.trans (List.suffix_append tr₀ tr).isInfix, hrest⟩
  · obtain ⟨pre, mark, s, rfl, hmark⟩ := h.marked
    exact ⟨tr₀ ++ pre, mark, s, (List.append_assoc _ _ _).symm, hmark⟩

/-- Two names of a directory that resolve to the same path. -/
theorem rel_of_resolve_sub {dir a b : Str} (hm : mountPrefix <+: dir) (hq : resolve dir = some q)
    (h : resolve (sub dir a) = resolve (sub dir b)) : rel a = rel b := by
  rw [resolve_sub hm, resolve_sub hm, hq] at h
  exact Option.map_injective (List.append_right_injective q) h

/-- From a verified temporary directory on. -/
theorem installed_of_replaces {pre mark : List Event} (hreplaces : Replaces folder p q w s)
    (hmark : Marks folder s mark t) (hverifies : verifies J w.card (tmpDir folder) = true)
    (hputs : ∀ before item after, files = before ++ item :: after →
      (∀ later ∈ after, resolve (part (sub (tmpDir folder) later.name)) ≠
        resolve (sub (tmpDir folder) item.name)) → IsPut (tmpDir folder) item pre w) :
    Installed J folder files (pre ++ mark) t := by
  obtain ⟨hp, hq, hpq, hmoved, hgone⟩ := hreplaces
  have hmarker := resolve_marker hp
  obtain ⟨st, y, hrun⟩ := hmark
  obtain ⟨hsame, hcontent⟩ := writeMarker_writes hmarker hrun
  refine ⟨fun before item after heq hname hlater => ?_, fun hlooks => ?_, ?_, ?_⟩
  · have hapart : ∀ later ∈ after, resolve (part (sub (tmpDir folder) later.name)) ≠
        resolve (sub (tmpDir folder) item.name) := by
      intro later hmem hresolve
      rw [part_sub] at hresolve
      exact hlater later hmem (rel_of_resolve_sub (mount_tmpDir folder) hq hresolve)
    obtain ⟨received, seg, x, data, hseg, hreceives, hx, hdata, hsound⟩ :=
      hputs before item after heq hapart
    obtain ⟨q', r, hq', hr, rfl⟩ := (resolve_sub_eq_some (mount_tmpDir folder)).1 hx
    rw [hq] at hq'
    cases hq'
    have hfinal : resolve (sub (finalDir folder) item.name) = some (p ++ r) :=
      (resolve_sub_eq_some (mount_finalDir folder)).2 ⟨p, r, hp, hr, rfl⟩
    refine ⟨received, seg, data, hseg.trans (List.prefix_append pre mark).isInfix, hreceives,
      fileAt_eq_some.2 ⟨p ++ r, hfinal, ?_⟩, hsound⟩
    rw [hsame, hmoved, hdata]
    intro heq
    apply hname
    rw [hr, List.append_cancel_left heq]
    exact (rel_name okName).symm
  · have hagree := @verifies_of_agree J t.card s.card (finalDir folder)
      fun path hpath x hx => (hsame x ?_).symm
    · rw [← hagree.1, verifies_of_moved (mount_tmpDir folder) (mount_finalDir folder) hq hp hmoved,
        hverifies]
    · rintro rfl
      exact hlooks path hpath (hx.trans hmarker.symm)
  · exact ⟨pre, mark, s, rfl, ⟨st, y, hrun⟩, fun hok => fileAt_eq_some.2 ⟨_, hmarker, hcontent hok⟩⟩
  · rw [isThere, hq, Option.bind_some, hsame, hgone]
    · rfl
    · rintro rfl
      exact hpq (List.prefix_append p [okName])

/-- A directory that was just made can be filled. -/
theorem filling_of_mkdir (hnone : w.card.get q = none) (hput : w.card.CanPut q) :
    Filling q { w with card := w.card.put q .dir } := by
  refine ⟨?_, fun x hx hdir => ?_⟩
  · dsimp only
    rw [Tree.get_put _ hput, if_pos rfl]
  · dsimp only at hdir
    rw [Tree.get_put_of_ne _ hx.2, Tree.get_none_below hnone hx.1] at hdir
    cases hdir

theorem installFiles_installs {x : FolderEnd × Statics} (hclosed : ∀ f, w.writer f = none)
    (hrun : Steps machine ((installFiles J depth folder files).run st) w tr (.pure x) t)
    (hret : x.1.ret = true) : Installed J folder files tr t := by
  obtain ⟨_, st₁, w₁, tr₁, tr₂, rfl, hdelete, hrest⟩ := steps_bind hrun
  apply Installed.prepend
  obtain ⟨made, w₂, tr₃, rfl, hmkdir, hmade⟩ := steps_call hrest
  clear hrun hrest
  rcases mkdir_cases hmkdir with ⟨rfl, rfl⟩ | ⟨rfl, q, hq, hnone, hput, rfl⟩
  · cases hmade
    cases hret
  · have hshut : { w₁ with card := w₁.card.put q .dir }.OpenOnly [] := by
      rw [World.openOnly_nil]
      intro f
      have hstreams := ((deleteExisting_calls (deletesIn_clears q) depth
        (below_self (mount_tmpDir folder) hq)).clearsOnly hdelete).1
      rw [World.writer, hstreams]
      exact hclosed f
    change Steps machine ((downloadFiles (tmpDir folder) files >>=
      afterLoop J depth folder).run st₁) _ tr₃ (.pure x) t at hmade
    obtain ⟨result, st₂, w₂, loop, tr₄, rfl, hloop, hafter⟩ := steps_bind hmade
    obtain ⟨⟨contents, rfl⟩, hverifies, p, q', s, pre, mark, hreplaces, rfl, hmark⟩ :=
      afterLoop_replaces hafter hret
    have hputs := (downloadFiles_puts (mount_tmpDir folder) hq hloop hshut
      (filling_of_mkdir hnone hput)).2
    rw [← List.singleton_append, ← List.append_assoc loop]
    apply Installed.prepend
    refine installed_of_replaces hreplaces hmark hverifies fun before item after heq hlater => ?_
    obtain ⟨received, seg, x, data, hseg, hput⟩ := hputs before item after heq hlater
    exact ⟨received, seg, x, data, hseg.trans (List.prefix_append loop pre).isInfix, hput⟩

end Install

section Runs

variable {lambdaUrl : Str} {x : FolderEnd × Statics}

/-- In every run that returns true, whatever the list is and whatever its calls
return: the list was accepted and its files are installed. -/
theorem downloadSimiFolder_installs (hclosed : ∀ f, w.writer f = none)
    (hrun : Steps machine ((downloadSimiFolder J depth folder lambdaUrl).run st) w tr (.pure x) t)
    (hret : x.1.ret = true) :
    ∃ items ∈ tr.filterMap (listResponse J), Installed J folder (fileList items) tr t := by
  obtain ⟨fetch, install, w₁, rfl, hquiet, hstages⟩ := downloadSimiFolder_fetches hrun
  rcases hstages with ⟨-, -, -, hend⟩ | ⟨-, items, st', hitems, hinstall⟩
  · rcases hend with hend | hend <;> rw [hend] at hret <;> cases hret
  · have hclosed' : ∀ f, w₁.writer f = none := by
      intro f
      rw [World.writer, hquiet.streams]
      exact hclosed f
    refine ⟨items, ?_, (installFiles_installs hclosed' hinstall hret).prepend⟩
    rw [List.filterMap_append]
    exact List.mem_append_left _ hitems

end Runs

section Sample

theorem downloadSimiFolder_installs_mozart : ∃ tr x t,
    Steps machine
      ((downloadSimiFolder mozart.cjson 4 "mozart".toList "https://api.example".toList).run
        (Statics.boot true 10000)) (World.boot (cardOf [])) tr (.pure x) t ∧ x.1.ret = true ∧
    ∃ items ∈ tr.filterMap (listResponse mozart.cjson),
      Installed mozart.cjson "mozart".toList (fileList items) tr t := by
  have hend : (mozart.play (fun _ _ => .ok) "mozart".toList (cardOf [])).1.value.map
      (fun x => x.1.ret) = some true := by
    decide +kernel
  obtain ⟨x, hrun, hret⟩ :=
    (mozart.steps_play (fun _ _ => .ok) "mozart".toList (cardOf [])).returned hend
  exact ⟨_, x, _, hrun, hret, downloadSimiFolder_installs (fun _ => rfl) hrun hret⟩

/-- A package with a file at the marker and with one that is the `.part` of another. -/
def crowded : Sample where
  files := [("manifest.json".toList, "https://a.example/0".toList,
      ascii "\x7b\"files\":[\x7b\"name\":\".ok\",\"size\":5\x7d]\x7d".toList),
    (".ok".toList, "https://a.example/1".toList, [1, 2, 3, 4, 5]),
    ("b.part".toList, "https://a.example/2".toList, [6]),
    ("b".toList, "https://a.example/3".toList, [7]),
    ("c".toList, "https://a.example/4".toList, [8])]
  entries := [(".ok".toList, 5)]

/-- What is written to `c` stays in the buffer. -/
def losing (o : Call) (w : World) : Fate :=
  let fate (file : ℕ) : Fate :=
    if (w.writer file).any fun s =>
        resolve (part (sub (tmpDir "mozart".toList) "c".toList)) = some s.path then .fails
    else .ok
  match o with
  | .fs (.fflush file) => fate file
  | .fs (.fclose file) => fate file
  | _ => .ok

/-- The marker cannot be opened. -/
def markerFailing (o : Call) (_ : World) : Fate :=
  match o with
  | .fs (.fopen path .wb) =>
      if path = sub (finalDir "mozart".toList) okMarker then .fails else .ok
  | _ => .ok

/-- A run that returns true without `b.part`, without the byte of `c` and with a folder
that does not verify, and one that returns true without the marker. -/
theorem downloadSimiFolder_installs_less : (∃ tr x t,
    Steps machine
      ((downloadSimiFolder crowded.cjson 4 "mozart".toList "https://api.example".toList).run
        (Statics.boot true 10000)) (World.boot (cardOf [])) tr (.pure x) t ∧ x.1.ret = true ∧
    ((tr.filterMap (listResponse crowded.cjson)).any fun items =>
      decide (⟨"b.part".toList, "https://a.example/2".toList⟩ ∈ fileList items)) = true ∧
    fileAt t.card (sub (finalDir "mozart".toList) "b.part".toList) = none ∧
    fileAt t.card (sub (finalDir "mozart".toList) "c".toList) = some [] ∧
    verifies crowded.cjson t.card (finalDir "mozart".toList) = false) ∧
    ∃ tr x t,
      Steps machine
        ((downloadSimiFolder mozart.cjson 4 "mozart".toList "https://api.example".toList).run
          (Statics.boot true 10000)) (World.boot (cardOf [])) tr (.pure x) t ∧ x.1.ret = true ∧
      fileAt t.card (sub (finalDir "mozart".toList) okMarker) = none := by
  constructor
  · have hend : (crowded.play losing "mozart".toList (cardOf [])).1.value.map
        (fun x => x.1.ret) = some true := by
      decide +kernel
    obtain ⟨x, hrun, hret⟩ := (crowded.steps_play losing "mozart".toList (cardOf [])).returned hend
    refine ⟨_, x, _, hrun, hret, ?_⟩
    decide +kernel
  · have hend : (mozart.play markerFailing "mozart".toList (cardOf [])).1.value.map
        (fun x => x.1.ret) = some true := by
      decide +kernel
    obtain ⟨x, hrun, hret⟩ :=
      (mozart.steps_play markerFailing "mozart".toList (cardOf [])).returned hend
    refine ⟨_, x, _, hrun, hret, ?_⟩
    decide +kernel

end Sample

end Download

end SimiboxDownloader
