import SimiboxDownloader.Download.Stages

/-!
# How a failure is reported

`download_simi_folder` sets `*out_sd_failed` after the file loop, and deletes the
temporary directory on most of its ways out. `FolderEnd.sdStep` says whether it
returned because an operation of the card had failed. Three of these operations are
not reported, and before the directory is made an old one stays
(`downloadSimiFolder_reports`).
-/

namespace SimiboxDownloader

namespace Download

open Interaction Interaction.Stateful DirTree

/-- The step that failed was one of the card: the `fopen` of the `.part` file, an
`fwrite` or the `rename`. -/
def FileEnd.sdStep : FileEnd → Bool
  | .openFailed => true
  | .sdError => true
  | .renameFailed => true
  | _ => false

/-- The step that failed was one of the card. -/
def FolderEnd.sdStep : FolderEnd → Bool
  | .mkdirFailed => true
  | .filesFailed e => e.sdStep
  | .verifyFailed v => decide (v = .openFailed)
  | .renameFailed => true
  | _ => false

theorem FileEnd.sdStep_eq (e : FileEnd) : e.sdStep = decide (e.result = .sdFailed) := by
  cases e <;> rfl

/-- Something is at the path. -/
def isThere (t : Tree Name Bytes) (path : Str) : Bool :=
  ((resolve path).bind t.get).isSome

/-- The reply has all names of the directory. -/
def listsAll (s : World) (path : Str) (names? : Option (List Str)) : Bool :=
  match s.listing path, names? with
  | some names, some l => decide ((l.filter fun n => !isDots n).Perm names)
  | none, none => true
  | _, _ => false

/-- A deletion does not go well: a listing is not complete, or what is to be removed
is not. -/
def deletionFails : Event → Bool
  | ⟨s, .fs (.opendir path), names?, _⟩ => !listsAll s path names?
  | ⟨_, .fs (.unlink _), r, _⟩ => !r
  | ⟨_, .fs (.rmdir _), r, _⟩ => !r
  | _ => false

/-- A call outside of the file loop that fails and makes the download fail: the
`mkdir`, the `fopen` of the manifest or the `rename` of the directory. -/
def unreported (folder : Str) : Event → Bool
  | ⟨_, .fs (.mkdir path), r, _⟩ => decide (path = tmpDir folder) && !r
  | ⟨_, .fs (.fopen path .rb), r, _⟩ => decide (path = sub (tmpDir folder) manifestName) && r.isNone
  | ⟨_, .fs (.rename src _), r, _⟩ => decide (src = tmpDir folder) && !r
  | _ => false

section Stages

variable {α : Type} {J : CJson} {depth : ℕ} {folder : Str} {st : Statics} {w t : World}
  {tr : List Event} {q : List Name}

/-- None of the three calls. -/
def Silent (folder : Str) (o : Call) : Prop :=
  ∀ s r t, unreported folder ⟨s, o, r, t⟩ = false

theorem silent_of_tame {o : Call} (h : o.tame = true) : Silent folder o := by
  intro s r t
  cases o with
  | fs c =>
      cases c with
      | mkdir | rename | fopen => cases h
      | _ => rfl
  | _ => rfl

theorem deletesIn_silent (folder : Str) : DeletesIn (Silent folder) fun _ => True where
  sub := fun _ _ _ _ => trivial
  stat := fun _ _ _ _ _ => rfl
  opendir := fun _ _ _ _ _ => rfl
  unlink := fun _ _ _ _ _ => rfl
  rmdir := fun _ _ _ _ _ => rfl
  diverge := fun _ _ _ => rfl

theorem part_sub_ne (dir name : Str) : part (sub dir name) ≠ dir := by
  intro h
  have hlen := congrArg List.length h
  simp only [part, sub, List.length_append, List.length_cons] at hlen
  omega

theorem putsFile_silent (folder name : Str) :
    PutsFile (Silent folder) (sub (tmpDir folder) name) where
  fopen := fun _ _ _ => rfl
  unlink := fun _ _ _ => rfl
  remove := fun _ _ _ => rfl
  rename := fun _ _ _ => by simp [unreported, part_sub_ne]

theorem Calls.any_unreported {p : Action α} {q : Program Call Call.Reply (α × Statics)}
    (h : Calls (Silent folder) p) (hrun : Steps machine (p.run st) w tr q t) :
    tr.any (unreported folder) = false := by
  rw [List.any_eq_false]
  rintro ⟨s, o, r, u⟩ he
  rw [h.events hrun _ he s r u]
  exact Bool.false_ne_true

theorem deleteTree_silent (dir : Str) : Calls (Silent folder) (deleteTree depth dir) :=
  deleteTree_calls (deletesIn_silent folder) depth trivial

theorem deleteExisting_silent (dir : Str) : Calls (Silent folder) (deleteExisting depth dir) :=
  deleteExisting_calls (deletesIn_silent folder) depth trivial

/-- A file that was opened is not reported as one that was not. -/
theorem readTextFile_unreported {x : ReadEnd × Statics}
    (hrun : Steps machine ((readTextFile (sub (tmpDir folder) manifestName)).run st) w tr (.pure x)
      t) : tr.any (unreported folder) = true ↔ x.1 = .openFailed := by
  obtain ⟨file?, w₁, tr₁, rfl, -, hrun⟩ := steps_call hrun
  cases file? with
  | none =>
      cases hrun
      simp [unreported]
  | some file =>
      obtain ⟨_, w₂, tr₂, rfl, -, hrun⟩ := steps_call hrun
      obtain ⟨size?, w₃, tr₃, rfl, -, hrun⟩ := steps_call hrun
      obtain ⟨_, w₄, tr₄, rfl, -, hrun⟩ := steps_call hrun
      cases size? with
      | none =>
          obtain ⟨_, w₅, tr₅, rfl, -, hrun⟩ := steps_call hrun
          cases hrun
          simp [unreported]
      | some size =>
          obtain ⟨got, w₅, tr₅, rfl, -, hrun⟩ := steps_call hrun
          obtain ⟨_, w₆, tr₆, rfl, -, hrun⟩ := steps_call hrun
          cases hrun
          by_cases hlen : got.length = size <;> simp [unreported, hlen]

/-- The verification fails because of the `fopen`, exactly if the `fopen` failed. -/
theorem verifyDownloadIntegrity_unreported {v : VerifyEnd × Statics}
    (hrun : Steps machine ((verifyDownloadIntegrity J (tmpDir folder)).run st) w tr (.pure v) t) :
    tr.any (unreported folder) = true ↔ v.1 = .openFailed := by
  obtain ⟨read, st', w', tr₁, tr₂, rfl, hread, hrest⟩ := steps_bind hrun
  have hread := readTextFile_unreported hread
  have hafter : tr₂.any (unreported folder) = false ∧ (v.1 = .openFailed ↔ read = .openFailed) := by
    cases read with
    | openFailed | failed =>
        cases hrest
        exact ⟨rfl, by simp⟩
    | text content =>
        cases hfiles : manifestFiles J content with
        | none =>
            simp only [hfiles] at hrest
            cases hrest
            exact ⟨rfl, by simp⟩
        | some items =>
            simp only [hfiles] at hrest
            obtain ⟨ok, st'', w'', tr₃, tr₄, rfl, hitems, hend⟩ := steps_bind hrest
            cases hend
            rw [List.append_nil]
            refine ⟨(verifyItems_calls (fun _ => silent_of_tame) _ _).any_unreported hitems, ?_⟩
            cases ok <;> simp
  rw [List.any_append, hafter.1, Bool.or_false, hread, hafter.2]

theorem fsOk_of_listsAll {path : Str} {names? : Option (List Str)}
    (hm : machine (.fs (.opendir path)) w names? t) (h : listsAll w path names? = true) :
    FsOk (.opendir path) w names? t := by
  have ht : t = w := by
    rcases hm with hm | hm
    · exact hm.1
    · exact hm.1
  refine ⟨ht, ?_⟩
  unfold listsAll at h
  split at h
  · next names l hnames =>
      rw [hnames]
      exact ⟨l, rfl, of_decide_eq_true h⟩
  · next hnone => rw [hnone]
  · cases h

/-- Deletions that go well. -/
theorem deletes_of_ok (q : List Name) :
    Deletes (machine.restrict fun e => deletionFails e = false) (fun _ _ => True) q where
  admits := fun _ _ _ _ hm => hm.1
  opendir := by
    rintro s path r t ⟨hm, hok⟩
    exact fsOk_of_listsAll hm (by simpa [deletionFails] using hok)
  unlink := by
    rintro s path r t ⟨hm, hok⟩
    obtain rfl : r = true := by simpa [deletionFails] using hok
    exact hm.resolve_right fun hfault => Bool.false_ne_true hfault.1.symm
  rmdir := by
    rintro s path r t ⟨hm, hok⟩
    obtain rfl : r = true := by simpa [deletionFails] using hok
    exact hm.resolve_right fun hfault => Bool.false_ne_true hfault.1.symm
  file := fun _ _ _ hm => Or.inr (by simpa [deletionFails] using hm.2)
  permits := fun _ _ _ _ => trivial

theorem deleteTree_cleared {dir : Str} {x : Unit × Statics} (hm : mountPrefix <+: dir)
    (hq : resolve dir = some q) (hne : q ≠ []) (hdir : w.card.get q = some .dir)
    (hrun : Steps machine ((deleteTree depth dir).run st) w tr (.pure x) t)
    (hok : tr.any deletionFails = false) : isThere t.card dir = false := by
  have hrun' := hrun.restrict fun e he => Bool.not_eq_true _ ▸ List.any_eq_false.1 hok e he
  have hgone := (deleteTree_removes (deletes_of_ok q) depth hm hq (List.prefix_refl q)
    (fun hnil => absurd hnil hne)
    (Or.inl fun _ => trivial) hdir).result trivial hrun'
  rw [isThere, hq, Option.bind_some, hgone.2.get q, if_pos (List.prefix_refl q)]
  rfl

/-- What the end of a download tells about its calls and about the temporary
directory. -/
structure Reported (folder : Str) (e : FolderEnd) (tr : List Event) (t : World) : Prop where
  sdStep : tr.any (unreported folder) = true ↔ e.sdStep = true ∧ e.outSdFailed = false
  cleared : e.sdStep = false → e.ret = false → tr.any deletionFails = false →
    isThere t.card (tmpDir folder) = false

theorem Reported.prepend {e : FolderEnd} {tr₀ : List Event} (h : Reported folder e tr t)
    (h₀ : tr₀.any (unreported folder) = false) : Reported folder e (tr₀ ++ tr) t := by
  refine ⟨?_, fun hstep hret hok => ?_⟩
  · rw [List.any_append, h₀, Bool.false_or, h.sdStep]
  · rw [List.any_append, Bool.or_eq_false_iff] at hok
    exact h.cleared hstep hret hok.2

theorem swapFolder_reported {contents : List Bytes} {x : FolderEnd × Statics}
    (hrun : Steps machine ((swapFolder depth folder contents).run st) w tr (.pure x) t) :
    Reported folder x.1 tr t := by
  obtain ⟨_, st', w₁, tr₁, tr₂, rfl, hdelete, hrun⟩ := steps_bind hrun
  apply Reported.prepend ?_ ((deleteExisting_silent _).any_unreported hdelete)
  obtain ⟨renamed, w₂, tr₂, rfl, -, hrun⟩ := steps_call hrun
  cases renamed with
  | true =>
      obtain ⟨_, st'', w₃, tr₃, tr₄, rfl, hmarker, hend⟩ := steps_bind hrun
      have hsilent : Calls (Silent folder) (writeMarker (sub (finalDir folder) okMarker)) :=
        writeMarker_calls (fun _ => silent_of_tame) fun _ _ _ => rfl
      have hnone := hsilent.any_unreported hmarker
      cases hend
      exact ⟨by simp [unreported, FolderEnd.sdStep, hnone], nofun⟩
  | false =>
      obtain ⟨_, st'', w₃, tr₃, tr₄, rfl, hdelete, hend⟩ := steps_bind hrun
      cases hend
      exact ⟨by simp [unreported, FolderEnd.sdStep, FolderEnd.outSdFailed], nofun⟩

theorem verifyAndSwap_reported {contents : List Bytes} {x : FolderEnd × Statics}
    (hq : resolve (tmpDir folder) = some q) (hne : q ≠ []) (hdir : w.card.get q = some .dir)
    (hrun : Steps machine ((verifyAndSwap J depth folder contents).run st) w tr (.pure x) t) :
    Reported folder x.1 tr t := by
  obtain ⟨v, st', w₁, tr₁, tr₂, rfl, hverify, hrun⟩ := steps_bind hrun
  have hunreported := verifyDownloadIntegrity_unreported hverify
  have hcard : w₁.card = w.card := ((verifyDownloadIntegrity_reads J _ rfl).result rfl hverify).1
  have hfailed (hv : v ≠ .ok) (hrun : Steps machine ((deleteTree depth (tmpDir folder) >>=
      fun _ => pure (FolderEnd.verifyFailed v)).run st') w₁ tr₂ (.pure x) t) :
      Reported folder x.1 (tr₁ ++ tr₂) t := by
    obtain ⟨_, st'', w₂, tr₃, tr₄, rfl, hdelete, hend⟩ := steps_bind hrun
    cases hend
    rw [List.append_nil]
    have hsilent : tr₃.any (unreported folder) = false :=
      (deleteTree_silent (tmpDir folder)).any_unreported hdelete
    refine ⟨?_, fun _ _ hok => ?_⟩
    · rw [List.any_append, hsilent, Bool.or_false, hunreported]
      simp [FolderEnd.sdStep, FolderEnd.outSdFailed]
    · rw [← hcard] at hdir
      rw [List.any_append, Bool.or_eq_false_iff] at hok
      exact deleteTree_cleared (mount_tmpDir folder) hq hne hdir hdelete hok.2
  cases v with
  | ok =>
      have hnone : tr₁.any (unreported folder) = false := by
        rw [← Bool.not_eq_true, hunreported]
        exact nofun
      exact (swapFolder_reported hrun).prepend hnone
  | openFailed | failed => exact hfailed nofun hrun

theorem afterLoop_reported {result : Except FileEnd (List Bytes)} {x : FolderEnd × Statics}
    (hq : resolve (tmpDir folder) = some q) (hne : q ≠ []) (hdir : w.card.get q = some .dir)
    (hrun : Steps machine ((afterLoop J depth folder result).run st) w tr (.pure x) t) :
    Reported folder x.1 tr t := by
  obtain ⟨_, st', w₁, release, tr₁, rfl, hrelease, hrest⟩ := steps_bind hrun
  have hquiet := (quiet_of_calls (releaseAll_calls onlyDev_dev) st w []).result hrelease
  rw [← hquiet.card] at hdir
  refine Reported.prepend ?_
    ((releaseAll_calls fun _ => silent_of_tame rfl).any_unreported hrelease)
  cases result with
  | ok contents =>
      obtain ⟨_, w₂, tr₂, rfl, hled, hswap⟩ := steps_call hrest
      obtain rfl : w₂ = w₁ := hled
      rw [← List.singleton_append]
      exact (verifyAndSwap_reported hq hne hdir hswap).prepend rfl
  | error e =>
      dsimp only at hrest
      split at hrest
      · next hsd =>
          cases hrest
          refine ⟨?_, fun hstep => ?_⟩
          · simp [FolderEnd.sdStep, FolderEnd.outSdFailed, FileEnd.sdStep_eq]
          · rw [FolderEnd.sdStep, FileEnd.sdStep_eq, decide_eq_true hsd] at hstep
            cases hstep
      · obtain ⟨_, st'', w₂, tr₂, tr₃, rfl, hdelete, hend⟩ := steps_bind hrest
        cases hend
        rw [List.append_nil]
        have hsilent : tr₂.any (unreported folder) = false :=
          (deleteTree_silent (tmpDir folder)).any_unreported hdelete
        refine ⟨?_, fun _ _ hok => ?_⟩
        · rw [hsilent]
          simp [FolderEnd.sdStep, FolderEnd.outSdFailed, FileEnd.sdStep_eq]
        · exact deleteTree_cleared (mount_tmpDir folder) hq hne hdir hdelete hok

theorem installFiles_reported {files : List FileItem} {x : FolderEnd × Statics}
    (hclosed : ∀ f, w.writer f = none)
    (hrun : Steps machine ((installFiles J depth folder files).run st) w tr (.pure x) t) :
    Reported folder x.1 tr t := by
  obtain ⟨_, st', w₁, tr₁, tr₂, rfl, hdelete, hrest⟩ := steps_bind hrun
  apply Reported.prepend ?_ ((deleteExisting_silent _).any_unreported hdelete)
  obtain ⟨made, w₂, tr₃, rfl, hmkdir, hmade⟩ := steps_call hrest
  clear hrun hrest
  rcases mkdir_cases hmkdir with ⟨rfl, rfl⟩ | ⟨rfl, q, hq, -, hput, rfl⟩
  · cases hmade
    refine ⟨by simp [unreported, FolderEnd.sdStep, FolderEnd.outSdFailed], fun hstep => ?_⟩
    cases hstep
  · have hdir : (w₁.card.put q .dir).get q = some .dir := by
      rw [Tree.get_put _ hput, if_pos rfl]
    have hopen : { w₁ with card := w₁.card.put q .dir }.WritesIn (Within q) := by
      intro f s hs
      have hstreams := ((deleteExisting_calls (deletesIn_clears q) depth
        (below_self (mount_tmpDir folder) hq)).clearsOnly hdelete).1
      have hnone := hclosed f
      rw [World.writer, ← hstreams] at hnone
      rw [World.writer, hnone] at hs
      cases hs
    change Steps machine ((downloadFiles (tmpDir folder) files >>=
      afterLoop J depth folder).run st') _ tr₃ (.pure x) t at hmade
    obtain ⟨result, st'', w₂, loop, tr₄, rfl, hloop, hafter⟩ := steps_bind hmade
    have hputs (name : Str) : PutsFile (Fills q) (sub (tmpDir folder) name) :=
      putsFile_fills (mount_tmpDir folder) hq
    have hfiles : Calls (Fills q) (downloadFiles (tmpDir folder) files) :=
      downloadFiles_calls (fun o ho => fills_of_writes (writes_of_tame ho)) fun item _ =>
        hputs item.name
    obtain ⟨-, hsame⟩ := hfiles.fills hloop hopen hdir
    rw [← hsame q fun hwithin => hwithin.2 rfl] at hdir
    have hsilent := (downloadFiles_calls (fun _ => silent_of_tame) fun item (_ : item ∈ files) =>
      putsFile_silent folder item.name).any_unreported hloop
    rw [← List.singleton_append]
    exact ((afterLoop_reported hq hput.1 hdir hafter).prepend hsilent).prepend
      (by simp [unreported])

end Stages

section Runs

variable {J : CJson} {depth : ℕ} {folder lambdaUrl : Str} {st : Statics} {w t : World}
  {tr : List Event} {x : FolderEnd × Statics}

/-- In every run that fails, whatever the card holds before, whatever the list is and
whichever calls fail: `*out_sd_failed` is true if the step that failed was one of the
card, and if it is false and the deletions go well there is no temporary directory
left, exactly when the `mkdir`, the `fopen` of the manifest and the `rename` of the
directory have not failed, and the list was accepted or there was no temporary
directory before. -/
theorem downloadSimiFolder_reports (hclosed : ∀ f, w.writer f = none)
    (hrun : Steps machine ((downloadSimiFolder J depth folder lambdaUrl).run st) w tr (.pure x) t)
    (hret : x.1.ret = false) :
    ((x.1.sdStep = true → x.1.outSdFailed = true) ∧
      (x.1.outSdFailed = false → tr.any deletionFails = false →
        isThere t.card (tmpDir folder) = false)) ↔
      tr.any (unreported folder) = false ∧
        (tr.any (accepts J) = true ∨ isThere w.card (tmpDir folder) = false) := by
  obtain ⟨fetch, install, w₁, rfl, hquiet, hstages⟩ := downloadSimiFolder_fetches hrun
  have hsilent : fetch.any (unreported folder) = false := hquiet.any fun _ _ _ _ => rfl
  rcases hstages with ⟨hrefused, rfl, rfl, hend⟩ | ⟨haccepts, items, st', -, hinstall⟩
  · -- nothing is deleted here, so the temporary directory is there if it was before
    have hdevices : fetch.any deletionFails = false := hquiet.any fun _ _ _ _ => rfl
    have hout : x.1.sdStep = false ∧ x.1.outSdFailed = false := by
      rcases hend with hend | hend <;> rw [hend] <;> exact ⟨rfl, rfl⟩
    rw [List.append_nil, hsilent, hrefused, hout.1, hout.2, isThere, isThere, hquiet.card]
    constructor
    · rintro ⟨-, hgone⟩
      exact ⟨rfl, Or.inr (hgone rfl hdevices)⟩
    · rintro ⟨-, hgone⟩
      exact ⟨nofun, fun _ _ => hgone.resolve_left Bool.false_ne_true⟩
  · have hclosed' : ∀ f, w₁.writer f = none := by
      intro f
      rw [World.writer, hquiet.streams]
      exact hclosed f
    obtain ⟨hstep, hcleared⟩ := (installFiles_reported hclosed' hinstall).prepend hsilent
    rw [List.any_append (f := accepts J), haccepts, Bool.true_or]
    constructor
    · rintro ⟨hreport, -⟩
      refine ⟨?_, Or.inl rfl⟩
      rw [← Bool.not_eq_true, hstep]
      rintro ⟨hsd, hout⟩
      rw [hreport hsd] at hout
      cases hout
    · rintro ⟨hnone, -⟩
      have hreport : x.1.sdStep = true → x.1.outSdFailed = true := by
        intro hsd
        by_contra hout
        rw [hstep.2 ⟨hsd, Bool.not_eq_true _ ▸ hout⟩] at hnone
        cases hnone
      refine ⟨hreport, fun hout hok => hcleared ?_ hret hok⟩
      rw [← Bool.not_eq_true]
      intro hsd
      rw [hreport hsd] at hout
      cases hout

end Runs

section Sample

/-- A package with a wrong size in its manifest. -/
def mislabelled : Sample where
  files := [("manifest.json".toList, "https://a.example/0".toList,
      ascii "\x7b\"files\":[\x7b\"name\":\"a.mp3\",\"size\":3\x7d]\x7d".toList),
    ("a.mp3".toList, "https://a.example/1".toList, [7, 8])]
  entries := [("a.mp3".toList, 3)]

/-- It does not verify, and the temporary directory is deleted. -/
theorem downloadSimiFolder_reports_mislabelled : ∃ tr x t,
    Steps machine
      ((downloadSimiFolder mislabelled.cjson 4 "mozart".toList "https://api.example".toList).run
        (Statics.boot true 10000)) (World.boot (cardOf [])) tr (.pure x) t ∧
    x.1.ret = false ∧ x.1.outSdFailed = false ∧
      isThere t.card (tmpDir "mozart".toList) = false := by
  have hend : (mislabelled.play (fun _ _ => .ok) "mozart".toList (cardOf [])).1.value.map
      (fun x => (x.1.ret, x.1.outSdFailed)) = some (false, false) := by
    decide +kernel
  have hmarks : (mislabelled.play (fun _ _ => .ok) "mozart".toList (cardOf [])).2.2.any
        (unreported "mozart".toList) = false ∧
      (mislabelled.play (fun _ _ => .ok) "mozart".toList (cardOf [])).2.2.any
        (accepts mislabelled.cjson) = true ∧
      (mislabelled.play (fun _ _ => .ok) "mozart".toList (cardOf [])).2.2.any
        deletionFails = false := by
    decide +kernel
  obtain ⟨x, hrun, hret⟩ :=
    (mislabelled.steps_play (fun _ _ => .ok) "mozart".toList (cardOf [])).returned hend
  obtain ⟨hret, hout⟩ := Prod.mk.inj hret
  have hreports := (downloadSimiFolder_reports (fun _ => rfl) hrun hret).2
    ⟨hmarks.1, Or.inl hmarks.2.1⟩
  exact ⟨_, x, _, hrun, hret, hout, hreports.2 hout hmarks.2.2⟩

/-- The `mkdir` fails. -/
def mkdirFailing (o : Call) (_ : World) : Fate :=
  match o with
  | .fs (.mkdir _) => .fails
  | _ => .ok

/-- A failed `mkdir` is not reported as an error of the card. -/
theorem downloadSimiFolder_hides : ∃ tr x t,
    Steps machine
      ((downloadSimiFolder mozart.cjson 4 "mozart".toList "https://api.example".toList).run
        (Statics.boot true 10000)) (World.boot (cardOf [])) tr (.pure x) t ∧
    x.1.ret = false ∧ x.1.sdStep = true ∧ x.1.outSdFailed = false := by
  have hend : (mozart.play mkdirFailing "mozart".toList (cardOf [])).1.value.map
      (fun x => (x.1.ret, x.1.sdStep, x.1.outSdFailed)) = some (false, true, false) := by
    decide +kernel
  obtain ⟨x, hrun, hret⟩ :=
    (mozart.steps_play mkdirFailing "mozart".toList (cardOf [])).returned hend
  obtain ⟨hret, hrest⟩ := Prod.mk.inj hret
  obtain ⟨hstep, hout⟩ := Prod.mk.inj hrest
  exact ⟨_, x, _, hrun, hret, hstep, hout⟩

end Sample

end Download

end SimiboxDownloader
