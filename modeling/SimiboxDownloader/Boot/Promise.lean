import SimiboxDownloader.Boot.Request
import SimiboxDownloader.Boot.Usage

/-!
# A success that is stored is true

Beside the record there is something a download brings about: `Stands folder` holds of
it when a download of `folder` has returned true, and no other call takes that away.
Then a boot never stores a success that is not so, not even for the moment between two
of its writes (`appMain_truthful`): where `reason` is `DOWNLOAD_SUCCESS`, the folder of
the record stands, whichever of the pending writes reach the flash. Any call may fail,
and the power may be lost anywhere.
-/

namespace SimiboxDownloader

namespace Boot

open Interaction Stateful

section Always

/-- The record when the first `k` of the pending writes have reached the flash. -/
def Flash.upTo (f : Flash) (k : ℕ) : Nvs := (f.pending.take k).foldl Nvs.write f.stored

/-- `P` holds of the record whichever of the pending writes reach the flash. -/
def Flash.Always (P : Nvs → Prop) (f : Flash) : Prop := ∀ k, P (f.upTo k)

variable {P Q : Nvs → Prop} {f g : Flash}

theorem Flash.Always.visible (h : f.Always P) : P f.visible := by
  have hall := h f.pending.length
  rwa [Flash.upTo, List.take_length] at hall

theorem Flash.Always.imp (h : f.Always P) (hPQ : ∀ n, P n → Q n) : f.Always Q :=
  fun k => hPQ _ (h k)

theorem always_committed {n : Nvs} (h : P n) : Flash.Always P ⟨n, []⟩ := by
  intro k
  simpa [Flash.upTo] using h

theorem Flash.Always.reset {n : Nvs} (h : f.Always P) (hr : f.Reset ⟨n, []⟩) : P n := by
  obtain ⟨k, hk⟩ := hr
  obtain rfl : n = f.upTo k := congrArg Flash.stored hk
  exact h k

/-- One more write. -/
theorem Flash.Always.write {w : Write} (h : f.Always P) (hw : P (f.visible.write w)) :
    (f.write w).Always P := by
  intro k
  rw [Flash.upTo, Flash.write, List.take_append, List.foldl_append]
  cases hk : k - f.pending.length with
  | zero => exact h k
  | succ j =>
      rw [List.take_succ_cons, List.take_nil, List.take_of_length_le (by omega)]
      exact hw

/-- What a call writes to the record when it succeeds. -/
def BootCall.write : BootCall → Option Write
  | .nvsEraseAll .bootmgr => some .eraseAll
  | .nvsSetU8 key value => some (.u8 key value)
  | .nvsSetStr key value => some (.str key value)
  | .nvsSetSize value => some (.size value)
  | _ => none

/-- What a call does to the flash. -/
theorem flash_cases {o : BootCall} {r : BootReply o} (hm : bootMachine o f r g) :
    g = f ∨ g = f.commit ∨ (∃ w, o.write = some w ∧ g = f.write w) ∨
      o = .nvsFlashErase ∧ g = ⟨.empty, []⟩ := by
  have hif {b : Bool} {g' : Flash} (hg : g = if b then g' else f) : g = f ∨ g = g' := by
    cases b with
    | true => exact Or.inr hg
    | false => exact Or.inl hg
  have hwrite {b : Bool} {w : Write} (hw : o.write = some w)
      (hg : g = if b then f.write w else f) : g = f ∨ ∃ w, o.write = some w ∧ g = f.write w :=
    (hif hg).imp id fun hg => ⟨w, hw, hg⟩
  cases o with
  | nvsSetU8 | nvsSetStr | nvsSetSize =>
      exact (hwrite rfl hm).imp id fun h => Or.inr (Or.inl h)
  | nvsEraseAll ns =>
      cases ns with
      | bootmgr => exact (hwrite rfl hm).imp id fun h => Or.inr (Or.inl h)
      | wifiCreds | knownNets => exact Or.inl hm
  | nvsFlashErase => exact (hif hm).imp id fun h => Or.inr (Or.inr ⟨rfl, h⟩)
  | nvsCommit => exact (hif hm).imp id Or.inl
  | nvsGetU8 | nvsGetStr | nvsGetSize => exact Or.inl hm.1
  | _ => exact Or.inl hm

/-- What every write of a call keeps the call keeps. -/
theorem always_step {o : BootCall} {r : BootReply o} (hf : f.Always P)
    (hw : ∀ w, o.write = some w → P f.visible → P (f.visible.write w))
    (herase : o = .nvsFlashErase → P .empty) (hm : bootMachine o f r g) : g.Always P := by
  obtain rfl | rfl | ⟨w, ho, rfl⟩ | ⟨ho, rfl⟩ := flash_cases hm
  · exact hf
  · exact always_committed hf.visible
  · exact hf.write (hw w ho hf.visible)
  · exact always_committed (herase ho)

end Always

section Calls

/-- The calls of the parts that only read the record, count the boot, or erase the
namespaces. -/
def Preparing : BootCall → Prop
  | .nvsSetU8 key _ => key = .bootCount
  | .nvsSetStr _ _ => False
  | .nvsSetSize _ => False
  | .connectToWifi => False
  | .mountSd => False
  | .downloadSimiFolder _ => False
  | .unmountSd _ => False
  | _ => True

theorem abort_prepares {α : Type} : BootUses Preparing (abort : BootM α) :=
  uses_callBind trivial fun r => r.elim

theorem espErrorCheck_prepares (ok : Bool) : BootUses Preparing (espErrorCheck ok) :=
  uses_ite uses_pure abort_prepares

theorem ledInit_prepares : BootUses Preparing ledInit :=
  uses_callBind trivial espErrorCheck_prepares

theorem eraseNamespace_prepares (ns : Namespace) : BootUses Preparing (eraseNamespace ns) := by
  refine uses_callBind trivial fun opened => uses_ite ?_ uses_pure
  exact uses_callBind trivial fun _ => uses_callBind trivial fun _ => uses_pure

theorem nvsInit_prepares : BootUses Preparing nvsInit := by
  refine uses_callBind trivial fun err => uses_ite ?_ uses_pure
  refine (eraseNamespace_prepares _).bind fun _ => (eraseNamespace_prepares _).bind fun _ => ?_
  refine (eraseNamespace_prepares _).bind fun _ => ?_
  refine uses_callBind trivial fun err => uses_ite ?_ uses_pure
  refine uses_callBind trivial fun ok => (espErrorCheck_prepares ok).bind fun _ => ?_
  exact uses_callBind trivial fun err => espErrorCheck_prepares _

theorem countBoot_prepares : BootUses Preparing countBoot := by
  refine uses_callBind trivial fun opened => uses_ite ?_ uses_pure
  refine uses_callBind trivial fun stored => uses_callBind rfl fun _ => ?_
  exact uses_callBind trivial fun _ => uses_pure

theorem resetBootCount_prepares : BootUses Preparing resetBootCount := by
  refine uses_callBind trivial fun opened => uses_ite ?_ uses_pure
  exact uses_callBind rfl fun _ => uses_callBind trivial fun _ => uses_pure

theorem safeModeBoot_prepares : BootUses Preparing safeModeBoot :=
  resetBootCount_prepares.bind fun _ => ledInit_prepares.bind fun _ => uses_pure

theorem bootMgrLoadState_prepares : BootUses Preparing bootMgrLoadState := by
  refine uses_get.bind fun st => uses_ite ?_ uses_pure
  iterate 9 refine uses_callBind trivial fun _ => ?_
  exact uses_modify.bind fun _ => uses_pure

theorem bootMgrInit_prepares : BootUses Preparing bootMgrInit := by
  refine uses_callBind trivial fun opened => uses_ite ?_ uses_pure
  exact uses_modify.bind fun _ => bootMgrLoadState_prepares.bind fun _ => uses_pure

theorem bootMusicboxAndRestart_prepares : BootUses Preparing bootMusicboxAndRestart := by
  refine uses_callBind trivial fun found => uses_ite ?_ ?_
  · refine uses_callBind trivial fun ok => (espErrorCheck_prepares ok).bind fun _ => ?_
    exact uses_callBind trivial fun r => r.elim
  · exact uses_callBind trivial fun r => r.elim

/-- The calls that save `state`. -/
def Saves (state : BootState) : BootCall → Prop
  | .nvsSetU8 .reason value => value = state.reason.toUInt8
  | .nvsSetU8 _ _ => True
  | .nvsSetStr .folder value => value = state.folder
  | .nvsSetStr .ssid _ => True
  | .nvsSetSize _ => True
  | .nvsCommit => True
  | _ => False

theorem bootMgrSaveState_saves (state : BootState) :
    BootUses (Saves state) (bootMgrSaveState state) := by
  refine uses_get.bind fun st => uses_ite ?_ uses_pure
  refine uses_callBind rfl fun _ => uses_callBind rfl fun _ => ?_
  iterate 7 refine uses_callBind trivial fun _ => ?_
  refine uses_ite (uses_callBind trivial fun ret => uses_ite ?_ uses_pure) uses_pure
  exact uses_modify.bind fun _ => uses_pure

end Calls

section Promise

variable {κ : Type} {Stands : Str → κ → Prop}

/-- What the calls do beside the record. -/
def Outside (Stands : Str → κ → Prop) : (o : BootCall) → κ → BootReply o → κ → Prop
  | .downloadSimiFolder folder, _, r, d => r.1 = true → Stands folder d
  | _, c, _, d => ∀ folder, Stands folder c → Stands folder d

/-- The record with what is beside it. -/
def beside (Stands : Str → κ → Prop) : Machine BootCall BootReply (Flash × κ) :=
  fun o s r t => bootMachine o s.1 r t.1 ∧ Outside Stands o s.2 r t.2

/-- A success in the record is true. -/
def Nvs.Honest (Stands : Str → κ → Prop) (c : κ) (n : Nvs) : Prop :=
  n.load.reason = reasonDownloadSuccess → Stands n.load.folder c

def Truthful (Stands : Str → κ → Prop) (s : Flash × κ) : Prop :=
  s.1.Always (Nvs.Honest Stands s.2)

/-- While there is no success to report: `n` had the request for the folder. -/
structure Requested (n : Nvs) (folder : Str) (f : Flash) : Prop where
  record : f.Always fun m => m.load.folder = folder ∧ m.load.reason ≠ reasonDownloadSuccess
  asked : n.load.reason = reasonDownloadRequest
  folder : n.load.folder = folder

/-- What holds where a call is made, in a boot that started from `n`: what is downloaded
was requested, and no success is stored. -/
def Meets (Stands : Str → κ → Prop) (n : Nvs) (o : BootCall) (s : Flash × κ) : Prop :=
  Truthful Stands s ∧ ∀ folder, o = .downloadSimiFolder folder → Requested n folder s.1

/-- The judgement of a part of `app_main`: the record stays truthful. -/
abbrev Promises (Stands : Str → κ → Prop) (n : Nvs) {α : Type} (Q : α → Flash × κ → Prop)
    (p : Program BootCall BootReply α) (s : Flash × κ) : Prop :=
  Safe (beside Stands) (Meets Stands n) (Truthful Stands) Q p s

/-- The request of `m` is that of `n`. -/
def SameRequest (n m : Nvs) : Prop :=
  m.load.reason = n.load.reason ∧ m.load.folder = n.load.folder

/-- Before the record is loaded: it is still that of `n`, or it was erased. -/
structure Before (Stands : Str → κ → Prop) (n : Nvs) (s : Flash × κ) : Prop where
  record : s.1.Always fun m => SameRequest n m ∨ m.load.reason = reasonNormal
  visible : s.1.visible.load.reason = reasonNormal ∨ s.1.Always (SameRequest n)
  honest : n.Honest Stands s.2

/-- After a download that has returned true. -/
structure Fulfilled (Stands : Str → κ → Prop) (folder : Str) (s : Flash × κ) : Prop where
  stands : Stands folder s.2
  folder : s.1.Always fun m => m.load.folder = folder

variable {n : Nvs} {s t : Flash × κ} {folder : Str}

theorem before_boot {c : κ} (hn : n.Honest Stands c) : Before Stands n (⟨n, []⟩, c) :=
  ⟨always_committed (Or.inl ⟨rfl, rfl⟩), Or.inr (always_committed ⟨rfl, rfl⟩), hn⟩

theorem Before.truthful (h : Before Stands n s) : Truthful Stands s := by
  have hsame (m : Nvs) (hm : SameRequest n m) : m.Honest Stands s.2 := by
    intro hreason
    rw [hm.2]
    exact h.honest (hm.1.symm.trans hreason)
  refine h.record.imp fun m hm => hm.elim (hsame m) fun hnormal hreason => ?_
  rw [hnormal] at hreason
  exact absurd hreason (by decide)

theorem Requested.truthful (h : Requested n folder s.1) : Truthful Stands s :=
  h.record.imp fun _ hm hreason => absurd hreason hm.2

theorem Fulfilled.truthful (h : Fulfilled Stands folder s) : Truthful Stands s := by
  refine h.folder.imp fun m hm _ => ?_
  rw [hm]
  exact h.stands

/-- A call that is no download keeps what stands. -/
theorem Outside.stands {o : BootCall} {c d : κ} {r : BootReply o}
    (h : Outside Stands o c r d) (ho : ∀ folder, o ≠ .downloadSimiFolder folder)
    (hc : Stands folder c) : Stands folder d := by
  cases o with
  | downloadSimiFolder folder => exact absurd rfl (ho folder)
  | _ => exact h folder hc

theorem not_download_of_prepares {o : BootCall} (ho : Preparing o) (folder : Str) :
    o ≠ .downloadSimiFolder folder := by
  rintro rfl
  exact ho

/-- What a preparing call writes leaves the request alone, or erases it. -/
theorem prepares_write {o : BootCall} {w : Write} (ho : Preparing o) (hw : o.write = some w) :
    (∃ c, w = .u8 .bootCount c) ∨ w = .eraseAll := by
  cases o with
  | nvsSetU8 key value =>
      cases hw
      obtain rfl : key = .bootCount := ho
      exact Or.inl ⟨value, rfl⟩
  | nvsEraseAll ns =>
      cases ns with
      | bootmgr =>
          cases hw
          exact Or.inr rfl
      | wifiCreds | knownNets => cases hw
  | nvsSetStr | nvsSetSize => exact ho.elim
  | _ => cases hw

theorem sameRequest_bootCount {m : Nvs} (c : UInt8) (h : SameRequest n m) :
    SameRequest n (m.write (.u8 .bootCount c)) := by
  rw [SameRequest, Nvs.load_bootCount]
  exact h

theorem Before.step {o : BootCall} {r : BootReply o} (h : Before Stands n s) (ho : Preparing o)
    (hm : beside Stands o s r t) : Before Stands n t := by
  obtain ⟨hflash, hout⟩ := hm
  refine ⟨?_, ?_, fun hreason => hout.stands (not_download_of_prepares ho) (h.honest hreason)⟩
  · refine always_step h.record (fun w hw hvisible => ?_) (fun _ => Or.inr rfl) hflash
    obtain ⟨c, rfl⟩ | rfl := prepares_write ho hw
    · rw [SameRequest, Nvs.load_bootCount]
      exact hvisible
    · exact Or.inr rfl
  · obtain heq | heq | ⟨w, hw, heq⟩ | ⟨-, heq⟩ := flash_cases hflash
    · rw [heq]
      exact h.visible
    · rw [heq, Flash.visible_commit]
      exact h.visible.imp id fun hsame => always_committed hsame.visible
    · rw [heq, Flash.visible_write]
      obtain ⟨c, rfl⟩ | rfl := prepares_write ho hw
      · rw [Nvs.load_bootCount]
        exact h.visible.imp id fun hsame => hsame.write (sameRequest_bootCount c hsame.visible)
      · exact Or.inl rfl
    · rw [heq]
      exact Or.inl rfl

theorem Truthful.step {o : BootCall} {r : BootReply o} (h : Truthful Stands s) (ho : Preparing o)
    (hm : beside Stands o s r t) : Truthful Stands t := by
  obtain ⟨hflash, hout⟩ := hm
  have hkept : s.1.Always (Nvs.Honest Stands t.2) :=
    Flash.Always.imp h fun m hm hreason => hout.stands (not_download_of_prepares ho) (hm hreason)
  have hnormal : Nvs.empty.Honest Stands t.2 := fun hreason => absurd hreason (by decide)
  refine always_step hkept (fun w hw hvisible => ?_) (fun _ => hnormal) hflash
  obtain ⟨c, rfl⟩ | rfl := prepares_write ho hw
  · rw [Nvs.Honest, Nvs.load_bootCount]
    exact hvisible
  · exact hnormal

theorem meets_of_prepares {o : BootCall} (ho : Preparing o) (h : Truthful Stands s) :
    Meets Stands n o s :=
  ⟨h, fun folder heq => absurd heq (not_download_of_prepares ho folder)⟩

/-- A part that only prepares. -/
theorem promises_of_prepares {α : Type} {p : BootM α} {st : Statics}
    (hp : BootUses Preparing p) (h : Before Stands n s) :
    Promises Stands n (fun _ t => Before Stands n t) (p.run st) s := by
  have hsafe : Safe (beside Stands) (Meets Stands n) (Before Stands n)
      (fun _ => Before Stands n) (p.run st) s :=
    (hp st).safe (fun _ _ _ _ ho hs hm => ⟨trivial, hs.step ho hm⟩)
      (fun _ _ ho hs => meets_of_prepares ho hs.truthful) h
  exact hsafe.mono (fun _ _ _ _ hm => hm) (fun _ _ hc => hc) (fun _ hi => hi.truthful)
    fun _ _ hq => hq

/-- The same behind the report. -/
theorem promises_behind {α : Type} {p : BootM α} {st : Statics}
    (hp : BootUses Preparing p) (h : Truthful Stands s) :
    Promises Stands n (fun _ t => Truthful Stands t) (p.run st) s :=
  (hp st).safe (fun _ _ _ _ ho hs hm => ⟨trivial, hs.step ho hm⟩)
    (fun _ _ ho hs => meets_of_prepares ho hs) h

section Report

variable {state : BootState}

/-- A folder name that was read fits where it is read. -/
theorem fitting_fitting (size : ℕ) (o : Option Str) :
    fitting size (some (fitting size o)) = fitting size o := by
  cases o with
  | none => cases size <;> rfl
  | some s =>
      by_cases h : s.length < size
      · simp [fitting, h]
      · simp [fitting, h]

/-- What saving `state` writes leaves its folder in the record, and its reason or the
one that was there. -/
theorem saves_write {o : BootCall} {w : Write} {m : Nvs} (ho : Saves state o)
    (hw : o.write = some w) (hfolder : m.load.folder = state.folder)
    (hfits : fitting StrKey.folder.size (some state.folder) = state.folder) :
    (m.write w).load.folder = state.folder ∧ ((m.write w).load.reason = m.load.reason ∨
      (m.write w).load.reason = state.reason.toUInt8.toUInt32) := by
  cases o with
  | nvsSetU8 key value =>
      cases hw
      cases key with
      | reason =>
          obtain rfl : value = _ := ho
          refine ⟨hfolder, Or.inr ?_⟩
          simp [Nvs.load]
      | _ => exact ⟨hfolder, Or.inl (by simp [Nvs.load])⟩
  | nvsSetStr key value =>
      cases hw
      cases key with
      | folder =>
          obtain rfl : value = _ := ho
          refine ⟨?_, Or.inl rfl⟩
          simpa [Nvs.load] using hfits
      | ssid => exact ⟨by simpa [Nvs.load] using hfolder, Or.inl rfl⟩
  | nvsSetSize value =>
      cases hw
      exact ⟨hfolder, Or.inl rfl⟩
  | nvsEraseAll | nvsFlashErase => exact ho.elim
  | _ => cases hw

theorem not_download_of_saves {o : BootCall} (ho : Saves state o) (folder : Str) :
    o ≠ .downloadSimiFolder folder := by
  rintro rfl
  exact ho

theorem not_erase_of_saves {o : BootCall} (ho : Saves state o) : o ≠ .nvsFlashErase := by
  rintro rfl
  exact ho

/-- Saving a state that is no success. -/
theorem bootMgrSaveState_promises {st : Statics} (hfolder : state.folder = folder)
    (hfits : fitting StrKey.folder.size (some folder) = folder)
    (hreason : state.reason.toUInt8.toUInt32 ≠ reasonDownloadSuccess)
    (h : Requested n folder s.1) :
    Promises Stands n (fun _ t => Requested n folder t.1) ((bootMgrSaveState state).run st) s := by
  subst hfolder
  have hsafe : Safe (beside Stands) (Meets Stands n) (fun t => Requested n state.folder t.1)
      (fun _ t => Requested n state.folder t.1) ((bootMgrSaveState state).run st) s := by
    refine (bootMgrSaveState_saves state st).safe
      (J := fun t : Flash × κ => Requested n state.folder t.1) ?_ ?_ h
    · intro o s r t ho hs hm
      refine ⟨trivial, always_step hs.record (fun w hw hvisible => ?_)
        (fun herase => absurd herase (not_erase_of_saves ho)) hm.1, hs.asked, hs.folder⟩
      obtain ⟨hkept, hsame | hnew⟩ := saves_write ho hw hvisible.1 hfits
      · exact ⟨hkept, hsame ▸ hvisible.2⟩
      · exact ⟨hkept, hnew ▸ hreason⟩
    · intro o s ho hs
      exact ⟨hs.truthful, fun folder heq => absurd heq (not_download_of_saves ho folder)⟩
  exact hsafe.mono (fun _ _ _ _ hm => hm) (fun _ _ hc => hc) (fun _ hi => hi.truthful)
    fun _ _ hq => hq

/-- Saving any state of a folder that stands. -/
theorem bootMgrSaveState_fulfills {st : Statics} (hfolder : state.folder = folder)
    (hfits : fitting StrKey.folder.size (some folder) = folder)
    (h : Fulfilled Stands folder s) :
    Promises Stands n (fun _ t => Fulfilled Stands folder t) ((bootMgrSaveState state).run st)
      s := by
  subst hfolder
  have hsafe : Safe (beside Stands) (Meets Stands n) (Fulfilled Stands state.folder)
      (fun _ => Fulfilled Stands state.folder) ((bootMgrSaveState state).run st) s := by
    refine (bootMgrSaveState_saves state st).safe (J := Fulfilled Stands state.folder) ?_ ?_ h
    · intro o s r t ho hs hm
      refine ⟨trivial, hm.2.stands (not_download_of_saves ho) hs.stands,
        always_step hs.folder (fun w hw hvisible => ?_)
          (fun herase => absurd herase (not_erase_of_saves ho)) hm.1⟩
      exact (saves_write ho hw hvisible hfits).1
    · intro o s ho hs
      exact ⟨hs.truthful, fun folder heq => absurd heq (not_download_of_saves ho folder)⟩
  exact hsafe.mono (fun _ _ _ _ hm => hm) (fun _ _ hc => hc) (fun _ hi => hi.truthful)
    fun _ _ hq => hq

theorem bootMgrReportFailure_promises {st : Statics} {error : UInt32}
    (hfolder : st.current.folder = folder)
    (hfits : fitting StrKey.folder.size (some folder) = folder) (h : Requested n folder s.1) :
    Promises Stands n (fun _ t => Requested n folder t.1) ((bootMgrReportFailure error).run st)
      s := by
  have hreason : reasonDownloadFailed.toUInt8.toUInt32 ≠ reasonDownloadSuccess := by decide
  rw [bootMgrReportFailure, run_modify_bind, run_get_bind]
  exact bootMgrSaveState_promises hfolder hfits hreason h

theorem bootMgrReportSuccess_promises {st : Statics} (hfolder : st.current.folder = folder)
    (hfits : fitting StrKey.folder.size (some folder) = folder)
    (h : Fulfilled Stands folder s) :
    Promises Stands n (fun _ t => Fulfilled Stands folder t) (bootMgrReportSuccess.run st) s := by
  rw [bootMgrReportSuccess, run_modify_bind, run_get_bind]
  exact bootMgrSaveState_fulfills hfolder hfits h

end Report

section Boot

/-- A call that leaves the flash alone, while no success is stored. -/
theorem requested_call {α : Type} {Q : α → Flash × κ → Prop} {o : BootCall}
    {next : BootReply o → Program BootCall BootReply α} (h : Requested n folder s.1)
    (ho : ∀ folder', o = .downloadSimiFolder folder' → folder' = folder)
    (hsame : ∀ f r g, bootMachine o f r g → g = f)
    (hnext : ∀ r t, Requested n folder t.1 → Outside Stands o s.2 r t.2 →
      Promises Stands n Q (next r) t) :
    Promises Stands n Q (.call o next) s := by
  refine ⟨⟨h.truthful, fun folder' heq => ho folder' heq ▸ h⟩, fun r t hm => ?_⟩
  have ht : Requested n folder t.1 := by
    rw [hsame _ _ _ hm.1]
    exact h
  exact ⟨ht.truthful, hnext r t ht hm.2⟩

theorem connectToWifiWithFeedback_promises {st : Statics} (h : Requested n folder s.1) :
    Promises Stands n (fun x t => Requested n folder t.1 ∧ x.2.current = st.current ∧
      x.2.bootState.folder = st.bootState.folder) (connectToWifiWithFeedback.run st) s := by
  rw [connectToWifiWithFeedback, call, run_call_bind]
  refine requested_call h (by simp) (fun _ _ _ hm => hm) fun r t ht _ => ?_
  cases r with
  | none => exact ⟨ht, rfl, rfl⟩
  | some ssid => exact ⟨ht, rfl, rfl⟩

/-- When it returns true the folder stands. -/
theorem handleDownloadWithRetry_promises {st : Statics} (hcurrent : st.current.folder = folder)
    (hfolder : st.bootState.folder = folder)
    (hfits : fitting StrKey.folder.size (some folder) = folder) (h : Requested n folder s.1) :
    Promises Stands n (fun x t => (x.1 = true → x.2.current.folder = folder ∧
      Fulfilled Stands folder t) ∧ Truthful Stands t) (handleDownloadWithRetry.run st) s := by
  have hfailed (error : UInt32) {t : Flash × κ} (ht : Requested n folder t.1) :
      Promises Stands n (fun x t => (x.1 = true → x.2.current.folder = folder ∧
        Fulfilled Stands folder t) ∧ Truthful Stands t)
        ((do let _ ← bootMgrReportFailure error; return false : BootM Bool).run st) t := by
    rw [run_bind]
    apply (bootMgrReportFailure_promises hcurrent hfits ht).bind
    intro x u hu
    exact ⟨by simp, hu.truthful⟩
  rw [handleDownloadWithRetry, call, run_call_bind]
  refine requested_call h (by simp) (fun _ _ _ hm => hm) fun mounted t ht _ => ?_
  cases mounted with
  | false =>
      rw [if_neg Bool.false_ne_true, call, run_call_bind]
      exact requested_call ht (by simp) (fun _ _ _ hm => hm) fun _ u hu _ => hfailed errorSdCard hu
  | true =>
      rw [if_pos rfl, run_get_bind, hfolder]
      refine requested_call ht (by simp) (fun _ _ _ hm => hm) fun r u hu hout => ?_
      obtain ⟨success, sdFailed⟩ := r
      refine requested_call hu (by simp) (fun _ _ _ hm => hm) fun _ v hv hout' => ?_
      cases success with
      | false => exact hfailed _ hv
      | true =>
          have hstands : Stands folder v.2 := hout' folder (hout rfl)
          have hfulfilled : Fulfilled Stands folder v := ⟨hstands, hv.record.imp fun m hm => hm.1⟩
          exact ⟨fun _ => ⟨hcurrent, hfulfilled⟩, hfulfilled.truthful⟩

/-- A call that reads the record. -/
theorem reading_call {α : Type} {Q : α → Flash × κ → Prop} {o : BootCall}
    {next : BootReply o → Program BootCall BootReply α} {f : Flash} (h : Before Stands n s)
    (hs : s.1 = f) (ho : Preparing o) (hsame : ∀ f r g, bootMachine o f r g → g = f)
    (hnext : ∀ r t, Before Stands n t → t.1 = f → bootMachine o f r f →
      Promises Stands n Q (next r) t) :
    Promises Stands n Q (.call o next) s := by
  refine ⟨meets_of_prepares ho h.truthful, fun r t hm => ?_⟩
  have ht := h.step ho hm
  have hflash : t.1 = f := (hsame _ _ _ hm.1).trans hs
  have hread : bootMachine o f r f := by
    have hmachine := hm.1
    rwa [hflash, hs] at hmachine
  exact ⟨ht.truthful, hnext r t ht hflash hread⟩

/-- What is loaded is in the record, or a default. -/
def LoadedFrom (m : Nvs) (state : BootState) : Prop :=
  (state.reason = m.load.reason ∨ state.reason = reasonNormal) ∧
    (state.folder = m.load.folder ∨ state.folder = [])

theorem bootMgrLoadState_promises {st : Statics} (h : Before Stands n s) :
    Promises Stands n (fun x t => Before Stands n t ∧ ∀ state, x.1 = some state →
      x.2.current = state ∧ LoadedFrom t.1.visible state) (bootMgrLoadState.run st) s := by
  rw [bootMgrLoadState, run_get_bind]
  split
  · simp only [call, run_call_bind]
    refine reading_call h rfl trivial (fun _ _ _ hm => hm.1) fun reason t₁ h₁ hf₁ hreason => ?_
    refine reading_call h₁ hf₁ trivial (fun _ _ _ hm => hm.1) fun folder t₂ h₂ hf₂ hfolder => ?_
    refine reading_call h₂ hf₂ trivial (fun _ _ _ hm => hm.1) fun retry t₃ h₃ hf₃ _ => ?_
    refine reading_call h₃ hf₃ trivial (fun _ _ _ hm => hm.1) fun error t₄ h₄ hf₄ _ => ?_
    refine reading_call h₄ hf₄ trivial (fun _ _ _ hm => hm.1) fun volume t₅ h₅ hf₅ _ => ?_
    refine reading_call h₅ hf₅ trivial (fun _ _ _ hm => hm.1) fun maxVolume t₆ h₆ hf₆ _ => ?_
    refine reading_call h₆ hf₆ trivial (fun _ _ _ hm => hm.1) fun ssid t₇ h₇ hf₇ _ => ?_
    refine reading_call h₇ hf₇ trivial (fun _ _ _ hm => hm.1) fun size t₈ h₈ hf₈ _ => ?_
    refine reading_call h₈ hf₈ trivial (fun _ _ _ hm => hm.1) fun progress t₉ h₉ hf₉ _ => ?_
    refine ⟨h₉, fun state hstate => ?_⟩
    cases hstate
    refine ⟨rfl, ?_, ?_⟩
    · rw [hf₉]
      rcases hreason.2 with rfl | rfl
      · exact Or.inl rfl
      · exact Or.inr rfl
    · rw [hf₉]
      rcases hfolder.2 with rfl | rfl
      · exact Or.inl rfl
      · exact Or.inr rfl
  · exact ⟨h, by simp⟩

/-- A request that was loaded was made before the boot. -/
theorem Before.requested {state : BootState} (h : Before Stands n s)
    (hloaded : LoadedFrom s.1.visible state) (hneeds : state.NeedsDownload) :
    Requested n state.folder s.1 ∧
      fitting StrKey.folder.size (some state.folder) = state.folder := by
  obtain ⟨hreason, hfolder⟩ := hneeds
  have hrequest : s.1.visible.load.reason = reasonDownloadRequest := by
    rcases hloaded.1 with hsame | hnormal
    · rw [← hsame, hreason]
    · rw [hreason] at hnormal
      exact absurd hnormal (by decide)
  have hname : state.folder = s.1.visible.load.folder := hloaded.2.resolve_right hfolder
  have hsame : s.1.Always (SameRequest n) := by
    refine h.visible.resolve_left fun hnormal => ?_
    rw [hrequest] at hnormal
    exact absurd hnormal (by decide)
  have hvisible := hsame.visible
  refine ⟨⟨hsame.imp fun m hm => ⟨?_, ?_⟩, ?_, ?_⟩, ?_⟩
  · rw [hm.2, hname, hvisible.2]
  · rw [hm.1, ← hvisible.1, hrequest]
    decide
  · rw [← hvisible.1, hrequest]
  · rw [hname, hvisible.2]
  · rw [hname]
    exact fitting_fitting _ _

theorem normalBoot_promises {st : Statics} (h : Before Stands n s) :
    Promises Stands n (fun _ t => Truthful Stands t) (normalBoot.run st) s := by
  rw [normalBoot, run_bind]
  apply (promises_of_prepares ledInit_prepares h).bind
  intro x₁ t₁ h₁
  rw [run_bind]
  apply (promises_of_prepares bootMgrInit_prepares h₁).bind
  intro x₂ t₂ h₂
  rw [run_bind]
  apply (promises_of_prepares (espErrorCheck_prepares _) h₂).bind
  intro x₃ t₃ h₃
  rw [run_bind]
  apply (bootMgrLoadState_promises h₃).bind
  rintro ⟨loaded, st₄⟩ t₄ ⟨h₄, hloaded⟩
  cases loaded with
  | none => exact promises_behind abort_prepares h₄.truthful
  | some state =>
      obtain ⟨hcurrent, hfrom⟩ := hloaded state rfl
      change Promises Stands n _ (StateT.run (modify _ >>= _) st₄) t₄
      rw [run_modify_bind, run_bind, bootMgrNeedsDownload_run, Program.pure_bind]
      simp only at hcurrent
      rw [hcurrent]
      by_cases hneeds : state.NeedsDownload
      · obtain ⟨hrequested, hfits⟩ := h₄.requested hfrom hneeds
        have hfailed (error : UInt32) (route : Route) {st : Statics}
            (hst : st.current.folder = state.folder) {t : Flash × κ}
            (ht : Requested n state.folder t.1) : Promises Stands n (fun _ t => Truthful Stands t)
            ((do let _ ← bootMgrReportFailure error; return route : BootM Route).run st) t := by
          rw [run_bind]
          apply (bootMgrReportFailure_promises hst hfits ht).bind
          intro x u hu
          exact hu.truthful
        simp only [hneeds, decide_true, if_true]
        split
        · exact hfailed _ _ rfl hrequested
        · rw [run_bind]
          apply (connectToWifiWithFeedback_promises hrequested).bind
          rintro ⟨connected, st₅⟩ t₅ ⟨h₅, hcurrent₅, hfolder₅⟩
          have hst₅ : st₅.current.folder = state.folder := by
            rw [hcurrent₅]
          cases connected with
          | false => exact hfailed _ _ hst₅ h₅
          | true =>
              rw [if_pos rfl, run_bind]
              apply (handleDownloadWithRetry_promises hst₅ hfolder₅ hfits h₅).bind
              rintro ⟨success, st₆⟩ t₆ ⟨hdone, htruthful⟩
              cases success with
              | false => exact htruthful
              | true =>
                  obtain ⟨hst₆, hfulfilled⟩ := hdone rfl
                  rw [if_pos rfl, run_bind]
                  apply (bootMgrReportSuccess_promises hst₆ hfits hfulfilled).bind
                  intro x₇ t₇ h₇
                  rw [run_bind]
                  apply (promises_behind resetBootCount_prepares h₇.truthful).bind
                  intro x₈ t₈ h₈
                  exact h₈
      · simp only [hneeds, decide_false]
        exact h₄.truthful

/-- In a boot of a truthful record, whatever its calls reply, the record is truthful at
every point, whichever of the pending writes reach the flash. -/
theorem appMain_truthful {c : κ} (hn : n.Honest Stands c) (st : Statics) :
    Promises Stands n (fun _ _ => True) (appMain.run st) (⟨n, []⟩, c) := by
  rw [appMain, beforeRestart, run_bind, run_bind]
  have hroute : Promises Stands n (fun _ t => Truthful Stands t)
      (nvsInit.run st >>= fun x =>
        (do if ← countBoot then safeModeBoot else normalBoot : BootM Route).run x.2)
      (⟨n, []⟩, c) := by
    apply (promises_of_prepares nvsInit_prepares (before_boot hn)).bind
    intro x₁ t₁ h₁
    rw [run_bind]
    apply (promises_of_prepares countBoot_prepares h₁).bind
    intro x₂ t₂ h₂
    split
    · exact promises_behind safeModeBoot_prepares h₂.truthful
    · exact normalBoot_promises h₂
  apply hroute.bind
  intro x t ht
  exact (promises_behind bootMusicboxAndRestart_prepares ht).imp fun _ _ _ => trivial

end Boot

end Promise

end Boot

end SimiboxDownloader
