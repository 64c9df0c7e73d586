import SimiboxDownloader.Card.Frame
import SimiboxDownloader.Download.Folder

/-!
# The calls the downloader makes

`Calls A` bounds the calls a program makes, whatever they return. A call that
opens nothing and writes at no path is taken to be in `A` throughout. That leaves four calls for a
file, which is downloaded by way of its `.part` (`PutsFile`), the `unlink`s and
`rmdir`s of `delete_tree` at and below the directory it is given, and the
opening of the marker.
-/

namespace SimiboxDownloader

namespace Download

/-- `readdir` returns names of entries, or the two that are none. -/
def Lists : (o : Call) → o.Reply → Prop
  | .fs (.opendir _), some names => ∀ name ∈ names, isDots name = true ∨ Plain name
  | _, _ => True

theorem lists_of_machine {o : Call} {w t : World} {r : o.Reply} (h : machine o w r t) :
    Lists o r := by
  have hplain (path : Str) (names l : List Str) (hl : w.listing path = some names)
      (hsub : ∀ name ∈ l.filter fun n => !isDots n, name ∈ names) :
      ∀ name ∈ l, isDots name = true ∨ Plain name := by
    intro name hname
    by_cases hdots : isDots name = true
    · exact Or.inl hdots
    · have hmem := hsub name (List.mem_filter.2 ⟨hname, by simpa using hdots⟩)
      exact Or.inr (World.plain_of_mem_listing hl hmem)
  cases o with
  | fs c =>
      cases c with
      | opendir path =>
          rcases h with ⟨-, h⟩ | ⟨-, rfl | ⟨l, names, rfl, hl, hsub⟩⟩
          · split at h
            · next names hl =>
                obtain ⟨l, rfl, hperm⟩ := h
                exact hplain path names l hl fun name hn => hperm.mem_iff.1 hn
            · rw [h]
              trivial
          · trivial
          · exact hplain path names l hl fun name hn => hsub.subset hn
      | _ => trivial
  | _ => trivial

/-- The call opens no file and writes at no path. -/
def Call.tame : Call → Bool
  | .fs (.fopen _ _) => false
  | o => o.writes.isEmpty

theorem writes_of_tame {o : Call} (h : o.tame = true) : o.writes = [] := by
  unfold Call.tame at h
  split at h
  · cases h
  · exact List.isEmpty_iff.1 h

/-- The program only makes calls in `A`. -/
def Calls {α : Type} (A : Call → Prop) (p : Action α) : Prop :=
  Interaction.Stateful.Uses A Lists p

/-- The calls in `A` are enough to download the file `outPath`. -/
structure PutsFile (A : Call → Prop) (outPath : Str) : Prop where
  fopen : A (.fs (.fopen (part outPath) .wb))
  unlink : A (.fs (.unlink (part outPath)))
  remove : A (.fs (.remove (part outPath)))
  rename : A (.fs (.rename (part outPath) outPath))

/-- The calls in `A` are enough to delete what lies in `P`. -/
structure DeletesIn (A : Call → Prop) (P : Str → Prop) : Prop where
  sub : ∀ dir name, P dir → Plain name → P (sub dir name)
  stat : ∀ path, P path → A (.fs (.stat path))
  opendir : ∀ path, P path → A (.fs (.opendir path))
  unlink : ∀ path, P path → A (.fs (.unlink path))
  rmdir : ∀ path, P path → A (.fs (.rmdir path))
  diverge : A .diverge

variable {A : Call → Prop} {α β : Type}

theorem calls_pure {a : α} : Calls A (pure a) := Interaction.Stateful.uses_pure

theorem Calls.bind {p : Action α} {k : α → Action β} (h : Calls A p)
    (hk : ∀ a, Calls A (k a)) : Calls A (p >>= k) :=
  Interaction.Stateful.Uses.bind h hk

/-- With fewer replies to reckon with. -/
theorem Calls.restrict {R : (o : Call) → o.Reply → Prop} {p : Action α} (h : Calls A p)
    (hR : ∀ o r, R o r → Lists o r) : Interaction.Stateful.Uses A R p :=
  Interaction.Stateful.Uses.mono h (fun _ ho => ho) hR

theorem calls_get : Calls A get := Interaction.Stateful.uses_get

theorem calls_modify {g : Statics → Statics} : Calls A (modify g) :=
  Interaction.Stateful.uses_modify

theorem calls_fs {c : FsCall} (h : A (.fs c)) : Calls A (fs c) :=
  Interaction.Stateful.uses_call h

section Devices

open Interaction.Stateful

/-- What `download_simi_folder` itself reads of the statics. -/
def Statics.gauges (st : Statics) : ℤ × ℤ × ℤ × Bool :=
  (st.totalDownloadedBytes, st.totalExpectedBytes, st.sdFreqKhz, st.cardHasClk)

/-- A call that gives something back. -/
def Releasing : Call → Prop
  | .dev (.httpCleanup _) => True
  | .dev (.semaphoreGive _) => True
  | .dev (.semaphoreDelete _) => True
  | .dev (.free _) => True
  | _ => False

/-- A call for the connection, the buffers or the writer task. -/
def Plumbing : Call → Prop
  | .dev (.setCardClk _) => False
  | .dev (.ledShowDownloadProgress _) => False
  | .dev _ => True
  | _ => False

theorem plumbing_of_releasing {o : Call} (h : Releasing o) : Plumbing o := by
  unfold Releasing at h
  split at h
  · trivial
  · trivial
  · trivial
  · trivial
  · exact h.elim

theorem dev_of_plumbing {o : Call} (h : Plumbing o) : ∃ c, o = .dev c := by
  cases o with
  | dev c => exact ⟨c, rfl⟩
  | _ => exact h.elim

/-- The program makes calls in `A` and leaves the gauges alone. -/
abbrev Frames (A : Call → Prop) (p : Action α) : Prop :=
  Interaction.Stateful.Frames A Statics.gauges p

theorem frames_dev {c : DevCall} (h : A (.dev c)) : Frames A (dev c) :=
  Interaction.Stateful.frames_call h

/-- The calls of a device that are in `A`. -/
theorem Frames.calls {p : Action α} (h : Frames Plumbing p) (hD : ∀ c, A (.dev c)) : Calls A p := by
  refine Interaction.Stateful.Uses.mono (Interaction.Stateful.Frames.uses h) ?_ fun _ _ hr => hr
  intro o ho
  obtain ⟨c, rfl⟩ := dev_of_plumbing ho
  exact hD c

theorem initHttpClient_frames (url : Str) : Frames Plumbing (initHttpClient url) :=
  (frames_dev trivial).bind fun _ => frames_modify_bind (fun _ => rfl) frames_pure

theorem getHttpClient_frames (url : Str) : Frames Plumbing (getHttpClient url) := by
  refine frames_get.bind fun st => ?_
  split
  · split
    · exact (frames_dev trivial).bind fun _ => frames_pure
    · exact (frames_dev trivial).bind fun _ => initHttpClient_frames url
  · exact initHttpClient_frames url

theorem releaseHttpClient_frames (client : ℕ) (force : Bool) :
    Frames Plumbing (releaseHttpClient client force) := by
  refine frames_get.bind fun st => ?_
  split
  · exact frames_pure
  · refine (frames_dev trivial).bind fun _ => (frames_dev trivial).bind fun _ => ?_
    apply frames_modify
    intro st'
    split
    · rfl
    · rfl

theorem httpAttempt_frames (url : Str) (left : ℕ) : Frames Plumbing (httpAttempt url left) := by
  induction left with
  | zero => exact frames_pure
  | succ left ih =>
      refine (getHttpClient_frames url).bind fun client? => ?_
      split
      · exact frames_pure
      · refine (frames_dev trivial).bind fun opened => ?_
        split
        · refine (frames_dev trivial).bind fun _ => (frames_dev trivial).bind fun status => ?_
          split
          · exact frames_pure
          · refine (releaseHttpClient_frames _ _).bind fun _ => ?_
            split
            · exact ih
            · exact frames_pure
        · exact (releaseHttpClient_frames _ _).bind fun _ => ih

theorem freeBuffer_frames (buf : Option ℕ) : Frames Releasing (freeBuffer buf) := by
  cases buf with
  | none => exact Interaction.Stateful.frames_pure
  | some buf => exact frames_dev trivial

theorem allocBuffers_frames (halves : List ℕ) : Frames Plumbing (allocBuffers halves) := by
  have hfree (buf : Option ℕ) : Frames Plumbing (freeBuffer buf) :=
    (freeBuffer_frames buf).mono fun _ => plumbing_of_releasing
  induction halves with
  | nil => exact frames_pure
  | cons half rest ih =>
      refine (frames_dev trivial).bind fun _ => (frames_dev trivial).bind fun _ => ?_
      split
      · exact frames_modify fun _ => rfl
      · refine (hfree _).bind fun _ => (hfree _).bind fun _ => ?_
        exact frames_modify_bind (fun _ => rfl) ih

theorem ensurePingpongBuffers_frames : Frames Plumbing ensurePingpongBuffers := by
  refine frames_get.bind fun st => ?_
  split
  · exact frames_pure
  · exact allocBuffers_frames _

theorem ensureSdWriterTask_frames : Frames Plumbing ensureSdWriterTask := by
  refine frames_get.bind fun st => ?_
  split
  · exact frames_pure
  · refine (frames_dev trivial).bind fun _ => (frames_dev trivial).bind fun _ => ?_
    refine frames_modify_bind (fun _ => rfl) ?_
    split
    · exact (frames_dev trivial).bind fun _ => frames_modify_bind (fun _ => rfl) frames_pure
    · exact frames_pure

theorem deleteSemaphore_frames (sem : Option ℕ) : Frames Releasing (deleteSemaphore sem) := by
  cases sem with
  | none => exact Interaction.Stateful.frames_pure
  | some sem => exact frames_dev trivial

theorem releaseAll_frames : Frames Releasing releaseAll := by
  refine Frames.bind ?_ fun _ => Frames.bind ?_ fun _ => ?_
  · refine frames_get.bind fun st => ?_
    split
    · exact (frames_dev trivial).bind fun _ => frames_modify fun _ => rfl
    · exact frames_pure
  · refine frames_get.bind fun st => Frames.bind ?_ fun _ => ?_
    · unfold wakeWriter
      split
      · exact frames_dev trivial
      · exact frames_pure
    · refine (deleteSemaphore_frames _).bind fun _ => (deleteSemaphore_frames _).bind fun _ => ?_
      exact frames_modify fun _ => rfl
  · refine frames_get.bind fun st => ?_
    exact (freeBuffer_frames _).bind fun _ => (freeBuffer_frames _).bind fun _ =>
      frames_modify fun _ => rfl

section

variable (hD : ∀ c, A (.dev c))

include hD

theorem calls_dev (c : DevCall) : Calls A (dev c) :=
  Interaction.Stateful.uses_call (hD c)

theorem releaseAll_calls : Calls A releaseAll :=
  Frames.calls (releaseAll_frames.mono fun _ => plumbing_of_releasing) hD

theorem updateLedProgress_calls : Calls A updateLedProgress := by
  refine calls_get.bind fun st => ?_
  split
  · exact calls_dev hD _
  · exact calls_pure

theorem setSdFreq_calls (freq : ℤ) : Calls A (setSdFreq freq) := by
  refine calls_get.bind fun st => ?_
  split
  · exact calls_dev hD _
  · exact calls_pure

theorem fetchList_calls (J : CJson) (folder lambdaUrl : Str) :
    Calls A (fetchList J folder lambdaUrl) := by
  refine (calls_dev hD _).bind fun client? => ?_
  split
  · exact calls_pure
  · exact (calls_dev hD _).bind fun _ => (calls_dev hD _).bind fun _ => calls_pure

end

end Devices

section

variable (hA : ∀ o : Call, o.tame = true → A o)

include hA

/-- The calls of the devices write at no path. -/
theorem devCalls : ∀ c, A (.dev c) :=
  fun _ => hA _ rfl

theorem calls_read {c : FsCall} (h : (Call.fs c).tame = true) : Calls A (fs c) :=
  Interaction.Stateful.uses_call (hA _ h)

theorem calls_diverge : Calls A (diverge : Action α) := by
  apply Calls.bind
  · exact Interaction.Stateful.uses_call (hA _ rfl)
  · exact nofun

section File

variable {outPath : Str}

theorem finishFile_calls (h : PutsFile A outPath) (clen : ℤ) (file : ℕ)
    (r : PingPong.Transfer) : Calls A (finishFile clen file outPath r) := by
  refine (calls_read hA rfl).bind fun _ => (calls_read hA rfl).bind fun _ => ?_
  refine (calls_read hA rfl).bind fun _ => ?_
  have hunlink : Calls A (fs (.unlink (part outPath))) :=
    calls_fs h.unlink
  split
  · exact hunlink.bind fun _ => calls_pure
  · refine Calls.bind (calls_fs h.rename) fun renamed => ?_
    split
    · exact (updateLedProgress_calls (devCalls hA)).bind fun _ => calls_pure
    · exact hunlink.bind fun _ => calls_pure

theorem transferFile_calls (h : PutsFile A outPath) (client : ℕ)
    (clen : ℤ) (file : ℕ) : Calls A (transferFile client clen file outPath) := by
  refine calls_get.bind fun st => Calls.bind ?_ fun r => ?_
  · exact Interaction.Stateful.uses_call (hA _ rfl)
  · refine calls_modify.bind fun _ =>
      ((releaseHttpClient_frames _ _).calls (devCalls hA)).bind fun _ => ?_
    split
    · exact (calls_read hA rfl).bind fun _ => calls_pure
    · split
      · refine (calls_read hA rfl).bind fun _ => (calls_read hA rfl).bind fun _ => ?_
        exact (calls_fs h.unlink).bind fun _ => calls_pure
      · exact finishFile_calls hA h clen file r

theorem downloadFileStandalone_calls (h : PutsFile A outPath)
    (url : Str) : Calls A (downloadFileStandalone url outPath) := by
  refine ((httpAttempt_frames url 2).calls (devCalls hA)).bind fun response => ?_
  split
  · exact calls_pure
  · refine (ensurePingpongBuffers_frames.calls (devCalls hA)).bind fun _ =>
      calls_get.bind fun st => ?_
    split
    · refine Calls.bind (calls_fs h.fopen) fun file? => ?_
      split
      · exact ((releaseHttpClient_frames _ _).calls (devCalls hA)).bind fun _ => calls_pure
      · refine (ensureSdWriterTask_frames.calls (devCalls hA)).bind fun running => ?_
        split
        · exact transferFile_calls hA h _ _ _
        · refine (calls_read hA rfl).bind fun _ => ?_
          exact ((releaseHttpClient_frames _ _).calls (devCalls hA)).bind fun _ => calls_pure
    · exact ((releaseHttpClient_frames _ _).calls (devCalls hA)).bind fun _ => calls_pure

theorem lowerClock_calls (h : PutsFile A outPath) (url : Str)
    {again : FileEnd → Action FileEnd} (hagain : ∀ e, Calls A (again e)) (e : FileEnd) :
    Calls A (lowerClock url outPath again e) := by
  unfold lowerClock
  split
  · refine calls_get.bind fun st => ?_
    split
    · exact calls_pure
    · refine (setSdFreq_calls (devCalls hA) _).bind fun changed => ?_
      split
      · refine calls_modify.bind fun _ => ?_
        refine Calls.bind (calls_fs h.remove) fun _ => ?_
        exact (downloadFileStandalone_calls hA h url).bind hagain
      · exact calls_pure
  · exact calls_pure

theorem retryFile_calls (h : PutsFile A outPath) (url : Str) (n : ℕ)
    (e : FileEnd) : Calls A (retryFile url outPath n e) := by
  induction n generalizing e with
  | zero => exact lowerClock_calls hA h url (fun _ => calls_diverge hA) e
  | succ n ih => exact lowerClock_calls hA h url ih e

theorem downloadFile_calls (h : PutsFile A outPath) (url : Str) :
    Calls A (downloadFile url outPath) :=
  (downloadFileStandalone_calls hA h url).bind fun e =>
    retryFile_calls hA h url _ e

end File

theorem downloadFiles_calls {dir : Str} {files : List FileItem}
    (h : ∀ item ∈ files, PutsFile A (sub dir item.name)) : Calls A (downloadFiles dir files) := by
  induction files with
  | nil => exact calls_pure
  | cons item items ih =>
      refine (updateLedProgress_calls (devCalls hA)).bind fun _ => ?_
      refine (downloadFile_calls hA (h item List.mem_cons_self) _).bind fun e => ?_
      split
      · refine (calls_read hA rfl).bind fun _ => Calls.bind (ih ?_) fun _ => calls_pure
        exact fun item hitem => h item (List.mem_cons_of_mem _ hitem)
      · exact calls_pure

end

section Delete

variable {P : Str → Prop}

theorem deleteEntries_calls (h : DeletesIn A P) {recurse : Str → Action Unit} {dir : Str}
    {names : List Str} (hrec : ∀ path, P path → Calls A (recurse path)) (hdir : P dir)
    (hnames : ∀ name ∈ names, isDots name = true ∨ Plain name) :
    Calls A (deleteEntries recurse dir names) := by
  induction names with
  | nil => exact calls_pure
  | cons name names ih =>
      have hrest := ih fun n hn => hnames n (List.mem_cons_of_mem _ hn)
      unfold deleteEntries
      by_cases hdots : isDots name = true
      · rw [if_pos hdots]
        exact hrest
      · have hpath := h.sub dir name hdir ((hnames name List.mem_cons_self).resolve_left hdots)
        rw [if_neg hdots]
        refine (calls_fs (h.stat _ hpath)).bind fun st => ?_
        split
        · exact (hrec _ hpath).bind fun _ => hrest
        · exact (calls_fs (h.unlink _ hpath)).bind fun _ => hrest

/-- `delete_tree` makes its calls at the directory and below it. -/
theorem deleteTree_calls (h : DeletesIn A P) (depth : ℕ) {dir : Str} (hdir : P dir) :
    Calls A (deleteTree depth dir) := by
  induction depth generalizing dir with
  | zero => exact (Interaction.Stateful.uses_call h.diverge).bind nofun
  | succ depth ih =>
      intro st
      refine ⟨h.opendir dir hdir, ?_⟩
      intro names? hnames
      cases names? with
      | none => trivial
      | some names =>
          refine @Calls.bind _ _ _ _ (fun _ => fs (.rmdir dir) >>= fun _ => pure ()) ?_ ?_ st
          · exact deleteEntries_calls h (fun _ => ih) hdir hnames
          · intro _
            exact (calls_fs (h.rmdir dir hdir)).bind fun _ => calls_pure

theorem deleteExisting_calls (h : DeletesIn A P) (depth : ℕ) {dir : Str} (hdir : P dir) :
    Calls A (deleteExisting depth dir) := by
  refine (calls_fs (h.stat dir hdir)).bind fun st => ?_
  split
  · exact deleteTree_calls h depth hdir
  · exact calls_pure

end Delete

section

variable (hF : ∀ c : FsCall, (Call.fs c).tame = true → A (.fs c))

include hF

theorem readTextFile_calls {path : Str} (hopen : A (.fs (.fopen path .rb))) :
    Calls A (readTextFile path) := by
  refine (calls_fs hopen).bind fun file? => ?_
  split
  · exact calls_pure
  · refine (calls_fs (hF _ rfl)).bind fun _ => (calls_fs (hF _ rfl)).bind fun size? => ?_
    refine (calls_fs (hF _ rfl)).bind fun _ => ?_
    split
    · exact (calls_fs (hF _ rfl)).bind fun _ => calls_pure
    · exact (calls_fs (hF _ rfl)).bind fun _ => (calls_fs (hF _ rfl)).bind fun _ => calls_pure

theorem verifyItems_calls (dir : Str) (items : List Json) :
    Calls A (verifyItems dir items) := by
  induction items with
  | nil => exact calls_pure
  | cons item items ih =>
      refine Calls.bind ?_ fun _ => ih.bind fun _ => calls_pure
      unfold verifyItem
      split
      · exact ((calls_fs (hF _ rfl)).bind fun _ => calls_pure).bind fun _ => calls_pure
      · exact calls_pure

theorem verifyDownloadIntegrity_calls (J : CJson) {dir : Str}
    (hopen : A (.fs (.fopen (sub dir manifestName) .rb))) :
    Calls A (verifyDownloadIntegrity J dir) := by
  refine (readTextFile_calls hF hopen).bind fun read => ?_
  split
  · exact calls_pure
  · exact calls_pure
  · split
    · exact (verifyItems_calls hF dir _).bind fun _ => calls_pure
    · exact calls_pure

theorem writeMarker_calls {path : Str} (h : A (.fs (.fopen path .wb))) :
    Calls A (writeMarker path) := by
  refine (calls_fs h).bind fun file? => ?_
  split
  · refine (calls_fs (hF _ rfl)).bind fun _ => (calls_fs (hF _ rfl)).bind fun _ => ?_
    exact (calls_fs (hF _ rfl)).bind fun _ => (calls_fs (hF _ rfl)).bind fun _ => calls_pure
  · exact calls_pure

end

section

variable (hA : ∀ o : Call, o.tame = true → A o)

include hA

/-- What the installation of a list of files can call. -/
theorem installFiles_calls {P : Str → Prop} {J : CJson} {folder : Str} {files : List FileItem}
    (hdel : DeletesIn A P) (htmp : P (tmpDir folder)) (hfinal : P (finalDir folder))
    (hmkdir : A (.fs (.mkdir (tmpDir folder))))
    (hopen : A (.fs (.fopen (sub (tmpDir folder) manifestName) .rb)))
    (hrename : A (.fs (.rename (tmpDir folder) (finalDir folder))))
    (hmarker : A (.fs (.fopen (sub (finalDir folder) okMarker) .wb)))
    (hfiles : ∀ item ∈ files, PutsFile A (sub (tmpDir folder) item.name)) (depth : ℕ) :
    Calls A (installFiles J depth folder files) := by
  have hdelTmp := deleteTree_calls hdel depth htmp
  refine (deleteExisting_calls hdel depth htmp).bind fun _ => (calls_fs hmkdir).bind fun made => ?_
  split
  · refine (downloadFiles_calls hA hfiles).bind fun result =>
      (releaseAll_calls (devCalls hA)).bind fun _ => ?_
    split
    · refine (calls_dev (devCalls hA) _).bind fun _ => ?_
      refine (verifyDownloadIntegrity_calls (fun _ => hA _) J hopen).bind fun v => ?_
      split
      · refine (deleteExisting_calls hdel depth hfinal).bind fun _ => ?_
        refine (calls_fs hrename).bind fun renamed => ?_
        split
        · exact (writeMarker_calls (fun _ => hA _) hmarker).bind fun _ => calls_pure
        · exact hdelTmp.bind fun _ => calls_pure
      · exact hdelTmp.bind fun _ => calls_pure
    · split
      · exact calls_pure
      · exact hdelTmp.bind fun _ => calls_pure
  · exact calls_pure

end

/-- The list of files the code takes from a reply. -/
def listReply (J : CJson) : (o : Call) → o.Reply → Option (List FileItem)
  | .dev (.httpPerform _), r => (listedItems J r).map fileList
  | _, _ => none

/-- The whole function: what it calls for the lists `R` allows. -/
theorem downloadSimiFolder_uses {R : (o : Call) → o.Reply → Prop} {J : CJson} {folder : Str}
    (hA : ∀ o : Call, o.tame = true → A o)
    (depth : ℕ)
    (hinstall : ∀ o r files, R o r → listReply J o r = some files →
      Interaction.Stateful.Uses A R (installFiles J depth folder files)) (lambdaUrl : Str) :
    Interaction.Stateful.Uses A R (downloadSimiFolder J depth folder lambdaUrl) := by
  intro st
  refine ⟨hA _ rfl, fun _ _ => ⟨hA _ rfl, fun client? _ => ?_⟩⟩
  cases client? with
  | none => trivial
  | some client =>
      refine ⟨hA _ rfl, fun response hR => ⟨hA _ rfl, fun _ _ => ?_⟩⟩
      have hlist := hinstall (.dev (.httpPerform client)) response
      simp only [listReply] at hlist
      cases hitems : listedItems J response with
      | none => trivial
      | some items =>
          refine Interaction.Stateful.Uses.bind Interaction.Stateful.uses_modify (fun _ => ?_) _
          split
          · refine Interaction.Stateful.Uses.bind Interaction.Stateful.uses_modify fun _ => ?_
            exact hlist (fileList items) hR (by rw [hitems]; rfl)
          · exact Interaction.Stateful.uses_pure

end Download

end SimiboxDownloader
