import SimiboxDownloader.Boot.Usage

/-!
# What becomes of a download request

A boot with `reason == DOWNLOAD_REQUEST` reports the request as done or failed
exactly when it is neither in the safe mode nor without a folder name: those two
routes go back to musicbox and leave the request as it is. Which boot count, reason
and folder the boot goes by is what NVS replies when they are read (`answers`); on a
device whose NVS works these are the stored ones.
-/

namespace SimiboxDownloader

namespace Boot

open Interaction

section Specs

variable {st : Statics} {f : Flash}

theorem stores_abort {α : Type} {Q : α × Statics → Flash → Prop} :
    Stores Q (abort.run st) f := by
  simp only [abort, call, Stateful.run_call_bind, Stores, safe_call, true_and]
  exact fun r => r.elim

theorem espErrorCheck_stores {ok : Bool} :
    Stores (fun x g => ok = true ∧ x = ((), st) ∧ g = f) ((espErrorCheck ok).run st) f := by
  cases ok with
  | false => exact stores_abort
  | true => exact ⟨rfl, rfl, rfl⟩

/-- A call that leaves the record alone, with any reply. -/
theorem stores_other {α : Type} {Q : α → Flash → Prop} {o : BootCall}
    {next : BootReply o → Program BootCall BootReply α}
    (ho : ∀ r g, bootMachine o f r g → g = f) (h : ∀ r, Stores Q (next r) f) :
    Stores Q (.call o next) f := by
  refine ⟨trivial, ?_⟩
  intro r g hm
  obtain rfl := ho r g hm.1
  exact ⟨trivial, h r⟩

theorem ledInit_stores :
    Stores (fun x g => x = ((), st) ∧ g = f) (ledInit.run st) f := by
  simp only [ledInit, call, Stateful.run_call_bind]
  refine stores_other (fun _ _ h => h) fun r => ?_
  exact espErrorCheck_stores.imp fun x g h => h.2

theorem nvsInit_returns :
    Returns (fun x g => x = ((), st) ∧ g = f) (nvsInit.run st) f := by
  simp only [nvsInit, call, Stateful.run_call_bind]
  refine ⟨trivial, ?_⟩
  rintro r g ⟨rfl, rfl⟩
  exact ⟨trivial, rfl, rfl⟩

/-- The boot count on the flash; a missing key counts as zero. -/
def Nvs.bootCount (n : Nvs) : UInt8 := (n.u8 .bootCount).getD 0

theorem countBoot_returns :
    Returns (fun x g => x = (decide (maxBootFailures ≤ f.visible.bootCount + 1), st) ∧
      g = ⟨f.visible.write (.u8 .bootCount (f.visible.bootCount + 1)), []⟩)
      (countBoot.run st) f := by
  simp only [countBoot, call, Stateful.run_call_bind, returns_nvsOpen, if_true,
    returns_nvsGetU8, returns_nvsSetU8, returns_nvsCommit, Stateful.run_pure]
  exact ⟨rfl, by rw [Flash.commit_eq, Flash.visible_write, Nvs.bootCount]⟩

theorem resetBootCount_returns :
    Returns (fun x g => x = ((), st) ∧ g = ⟨f.visible.write (.u8 .bootCount 0), []⟩)
      (resetBootCount.run st) f := by
  simp only [resetBootCount, call, Stateful.run_call_bind, returns_nvsOpen, if_true,
    returns_nvsSetU8, returns_nvsCommit, Stateful.run_pure]
  exact ⟨rfl, by rw [Flash.commit_eq, Flash.visible_write]⟩

/-- The count is not reset where the namespace cannot be opened. -/
theorem resetBootCount_stores :
    Stores (fun _ g => g = f ∨ g = ⟨f.visible.write (.u8 .bootCount 0), []⟩)
      (resetBootCount.run st) f := by
  simp only [resetBootCount, call, Stateful.run_call_bind]
  refine stores_other (fun _ _ h => h) fun opened => ?_
  cases opened with
  | false => exact Or.inl rfl
  | true =>
      simp only [if_true, Stateful.run_call_bind, stores_nvsSetU8, stores_nvsCommit]
      right
      rw [Flash.commit_eq, Flash.visible_write]

/-- Counting boots does not touch the record. -/
@[simp] theorem Nvs.load_bootCount (n : Nvs) (c : UInt8) :
    (n.write (.u8 .bootCount c)).load = n.load := by
  simp [Nvs.load]

/-- The request was reported as done or as failed. -/
def Nvs.Consumed (n : Nvs) : Prop :=
  n.u8 .reason = some reasonDownloadSuccess.toUInt8 ∨
    n.u8 .reason = some reasonDownloadFailed.toUInt8

theorem Nvs.consumed_failed (n : Nvs) (state : BootState) (error : UInt32) :
    (n.save (state.failed error)).Consumed := Or.inr rfl

theorem Nvs.consumed_succeeded (n : Nvs) (state : BootState) :
    (n.save state.succeeded).Consumed := Or.inl rfl

/-- A request is neither. -/
theorem Nvs.not_consumed_of_request {n : Nvs}
    (h : n.u8 .reason = some reasonDownloadRequest.toUInt8) : ¬ n.Consumed := by
  simp [Nvs.Consumed, h, reasonDownloadRequest, reasonDownloadSuccess, reasonDownloadFailed]

/-- A byte other than the reason. -/
@[simp] theorem Nvs.consumed_write_u8 {n : Nvs} {key : U8Key} {value : UInt8}
    (hkey : key ≠ .reason) : (n.write (.u8 key value)).Consumed ↔ n.Consumed := by
  rw [Nvs.Consumed, Nvs.write_u8, Nvs.Consumed]
  simp only [Function.update_of_ne hkey.symm]

theorem connectToWifiWithFeedback_stores :
    Stores (fun x g => x.2.nvsHandle = st.nvsHandle ∧ x.2.current = st.current ∧ g = f)
      (connectToWifiWithFeedback.run st) f := by
  simp only [connectToWifiWithFeedback, call, Stateful.run_call_bind]
  refine stores_other (fun _ _ h => h) fun r => ?_
  cases r with
  | none => exact ⟨rfl, rfl, rfl⟩
  | some ssid => exact ⟨rfl, rfl, rfl⟩

theorem handleDownloadWithRetry_stores (hopen : st.nvsHandle = true) :
    Stores (fun x g => if x.1 then x.2 = st ∧ g = f else g.stored.Consumed)
      (handleDownloadWithRetry.run st) f := by
  have hfailed (error : UInt32) : Stores (fun x g => if x.1 then x.2 = st ∧ g = f
      else g.stored.Consumed)
      ((do let _ ← bootMgrReportFailure error; return false : BootM Bool).run st) f := by
    rw [Stateful.run_bind]
    apply (bootMgrReportFailure_stores hopen).bind
    rintro _ g ⟨rfl, rfl⟩
    exact Nvs.consumed_failed _ _ _
  simp only [handleDownloadWithRetry, call, Stateful.run_call_bind]
  refine stores_other (fun _ _ h => h) fun mounted => ?_
  cases mounted with
  | false => exact stores_other (fun _ _ h => h) fun _ => hfailed errorSdCard
  | true =>
      refine stores_other (fun _ _ h => h) fun r => ?_
      obtain ⟨success, sdFailed⟩ := r
      refine stores_other (fun _ _ h => h) fun _ => ?_
      cases success with
      | false => exact hfailed _
      | true => exact ⟨rfl, rfl⟩

/-- The boot manager asks for a download. -/
def BootState.NeedsDownload (state : BootState) : Prop :=
  state.reason = reasonDownloadRequest ∧ state.folder ≠ []

instance (state : BootState) : Decidable state.NeedsDownload :=
  inferInstanceAs (Decidable (_ ∧ _))

theorem bootMgrNeedsDownload_run :
    bootMgrNeedsDownload.run st = .pure (decide st.current.NeedsDownload, st) := by
  rw [bootMgrNeedsDownload, Stateful.run_get_bind, Stateful.run_pure]
  congr 2
  exact decide_eq_decide.2 (and_congr_right fun _ => List.length_pos_iff)

/-- With the record loaded a boot consumes the request if there is one, and leaves
the record alone otherwise. -/
theorem afterLoad_stores {state : BootState} (hopen : st.nvsHandle = true)
    (hcurrent : st.current = state) :
    Stores (fun _ g => (state.NeedsDownload → g.stored.Consumed) ∧
      (¬ state.NeedsDownload → g = f)) ((afterLoad state).run st) f := by
  obtain ⟨opened, current, bootState⟩ := st
  obtain rfl : opened = true := hopen
  obtain rfl : current = state := hcurrent
  rw [afterLoad, Stateful.run_modify_bind, Stateful.run_bind, bootMgrNeedsDownload_run,
    Program.pure_bind]
  by_cases hneeds : current.NeedsDownload
  · simp only [hneeds, decide_true, if_true, forall_const, not_true, false_imp_iff, and_true]
    by_cases hretry : maxRetries ≤ current.retryCount
    · rw [if_pos hretry, Stateful.run_bind]
      apply (bootMgrReportFailure_stores rfl).bind
      rintro _ _ ⟨rfl, rfl⟩
      exact Nvs.consumed_failed _ _ _
    · rw [if_neg hretry, Stateful.run_bind]
      apply connectToWifiWithFeedback_stores.bind
      rintro ⟨connected, st⟩ _ ⟨hopen, -, rfl⟩
      cases connected with
      | false =>
          rw [if_neg Bool.false_ne_true, Stateful.run_bind]
          apply (bootMgrReportFailure_stores hopen).bind
          rintro _ _ ⟨rfl, rfl⟩
          exact Nvs.consumed_failed _ _ _
      | true =>
          rw [if_pos rfl, Stateful.run_bind]
          apply (handleDownloadWithRetry_stores hopen).bind
          rintro ⟨success, st'⟩ g' hdone
          cases success with
          | false => exact hdone
          | true =>
              obtain ⟨rfl, rfl⟩ := hdone
              rw [if_pos rfl, Stateful.run_bind]
              apply (bootMgrReportSuccess_stores hopen).bind
              rintro _ _ ⟨rfl, rfl⟩
              rw [Stateful.run_bind]
              apply resetBootCount_stores.bind
              rintro _ _ (rfl | rfl)
              · exact Nvs.consumed_succeeded _ _
              · exact (Nvs.consumed_write_u8 (by decide)).2 (Nvs.consumed_succeeded _ _)
  · simp only [hneeds, decide_false]
    exact ⟨False.elim, fun _ => rfl⟩

/-- Behind the boot counter, on a device whose NVS works. -/
theorem normalBoot_returns :
    Returns (fun _ g => (f.visible.load.NeedsDownload → g.stored.Consumed) ∧
      (¬ f.visible.load.NeedsDownload → g = f)) (normalBoot.run st) f := by
  rw [normalBoot_eq, Stateful.run_bind]
  apply ledInit_stores.returns.bind
  rintro _ _ ⟨rfl, rfl⟩
  rw [Stateful.run_bind]
  apply bootMgrInit_returns.bind
  rintro _ _ ⟨rfl, rfl⟩
  rw [Stateful.run_bind]
  apply espErrorCheck_stores.returns.bind
  rintro _ _ ⟨-, rfl, rfl⟩
  rw [Stateful.run_bind]
  apply (bootMgrLoadState_returns rfl).bind
  rintro _ g ⟨rfl, rfl⟩
  apply Stores.returns
  exact afterLoad_stores rfl rfl

end Specs

/-- Which boots with a request on the flash leave it consumed, on a device whose NVS
works. -/
theorem beforeRestart_returns {st : Statics} {n : Nvs}
    (hreq : n.u8 .reason = some reasonDownloadRequest.toUInt8) :
    Returns (fun _ g => g.stored.Consumed ↔
      n.bootCount + 1 < maxBootFailures ∧ n.load.folder ≠ [])
      (beforeRestart.run st) ⟨n, []⟩ := by
  have hload : n.load.NeedsDownload ↔ n.load.folder ≠ [] := by
    simp [BootState.NeedsDownload, Nvs.load, hreq, reasonDownloadRequest]
  have hkept : ¬ n.Consumed := Nvs.not_consumed_of_request hreq
  rw [beforeRestart, Stateful.run_bind]
  apply nvsInit_returns.bind
  rintro _ _ ⟨rfl, rfl⟩
  rw [Stateful.run_bind]
  apply countBoot_returns.bind
  rintro _ _ ⟨rfl, rfl⟩
  rw [Flash.visible_nil]
  by_cases hc : maxBootFailures ≤ n.bootCount + 1
  · simp only [hc, decide_true, if_true]
    rw [safeModeBoot, Stateful.run_bind]
    apply resetBootCount_returns.bind
    rintro _ _ ⟨rfl, rfl⟩
    rw [Stateful.run_bind]
    apply ledInit_stores.returns.bind
    rintro _ _ ⟨rfl, rfl⟩
    have hsafe : ¬ n.bootCount + 1 < maxBootFailures := UInt8.not_lt.2 hc
    rw [Stateful.run_pure, safe_pure]
    simpa [hsafe, Nvs.Consumed] using hkept
  · simp only [hc, decide_false]
    apply normalBoot_returns.imp
    intro _ g hg
    have hlt : n.bootCount + 1 < maxBootFailures := UInt8.not_le.1 hc
    rw [Flash.visible_nil, Nvs.load_bootCount, hload] at hg
    by_cases hfolder : n.load.folder ≠ []
    · exact ⟨fun _ => ⟨hlt, hfolder⟩, fun _ => hg.1 hfolder⟩
    · obtain rfl := hg.2 hfolder
      refine ⟨fun h => absurd ?_ hkept, fun h => absurd h.2 hfolder⟩
      simpa [Nvs.Consumed] using h

section Answers

/-- What the reads of the boot count, the reason and the folder have replied last,
`none` for a key that was not found or not read yet. -/
@[ext]
structure Answers where
  bootCount : Option UInt8
  reason : Option UInt8
  folder : Option Str

def Answers.note (a : Answers) : Event BootCall BootReply Flash → Answers
  | ⟨_, .nvsGetU8 .bootCount, r, _⟩ => { a with bootCount := r }
  | ⟨_, .nvsGetU8 .reason, r, _⟩ => { a with reason := r }
  | ⟨_, .nvsGetStr .folder, r, _⟩ => { a with folder := r }
  | _ => a

def answers (l : Log) : Answers := l.foldl Answers.note ⟨none, none, none⟩

/-- The record that is loaded last asks for a download. -/
def Answers.NeedsDownload (a : Answers) : Prop :=
  a.reason = some reasonDownloadRequest.toUInt8 ∧ fitting StrKey.folder.size a.folder ≠ []

/-- The boot gets past its counter, and its record asks for a download. -/
def Answers.Request (a : Answers) : Prop :=
  a.bootCount.getD 0 + 1 < maxBootFailures ∧ a.NeedsDownload

instance (a : Answers) : Decidable a.NeedsDownload := inferInstanceAs (Decidable (_ ∧ _))

instance (a : Answers) : Decidable a.Request := inferInstanceAs (Decidable (_ ∧ _))

@[simp] theorem answers_append (l : Log) (e : Event BootCall BootReply Flash) :
    answers (l ++ [e]) = (answers l).note e := by
  rw [answers, List.foldl_append]
  rfl

variable {α : Type} {st : Statics} {f : Flash} {l : Log}

/-- The calls that read neither the boot count nor the reason nor the folder. -/
def Unasked : BootCall → Prop
  | .nvsGetU8 .bootCount => False
  | .nvsGetU8 .reason => False
  | .nvsGetStr .folder => False
  | _ => True

theorem unasked_of_common {o : BootCall} (h : Common o) : Unasked o := by
  cases o with
  | nvsGetU8 | nvsGetStr => exact h.elim
  | _ => trivial

theorem note_unasked {o : BootCall} (h : Unasked o) {f g : Flash} {r : BootReply o}
    (a : Answers) : a.note ⟨f, o, r, g⟩ = a := by
  cases o with
  | nvsGetU8 key =>
      cases key with
      | bootCount | reason => exact h.elim
      | _ => rfl
  | nvsGetStr key =>
      cases key with
      | folder => exact h.elim
      | ssid => rfl
  | _ => rfl

theorem leads_unasked {p : BootM α} (h : BootUses Unasked p) :
    Leads nvsWrites (fun _ _ l' => answers l' = answers l) (p.run st) f l := by
  have hstep (o : BootCall) (s : Flash × Log) (r : BootReply o) (t : Flash × Log)
      (ho : Unasked o) (hs : answers s.2 = answers l) (hm : nvsWrites.logged o s r t) :
      True ∧ answers t.2 = answers l := by
    refine ⟨trivial, ?_⟩
    rw [hm.2, answers_append, note_unasked ho, hs]
  exact ((h st).safe hstep (fun _ _ _ _ => trivial) rfl).forget

/-- A part that reads none of the three. -/
theorem leads_of_stores {p : BootM α} {Q : α × Statics → Flash → Prop}
    (h : Stores Q (p.run st) f) (huses : BootUses Unasked p) :
    Leads nvsWrites (fun x g l' => Q x g ∧ answers l' = answers l) (p.run st) f l :=
  (Leads.of_safe h).and (leads_unasked huses)

/-- Nothing is reported, neither on the flash nor in the writes on the way to it. -/
def Flash.Unreported (f : Flash) : Prop :=
  ¬ f.stored.Consumed ∧ ¬ f.visible.Consumed

/-- The calls that do not write a reason. -/
def Silent : BootCall → Prop
  | .nvsSetU8 .reason _ => False
  | _ => True

theorem Nvs.not_consumed_empty : ¬ Nvs.Consumed .empty := by
  simp [Nvs.Consumed, Nvs.empty]

/-- A write that reports nothing. -/
theorem Flash.Unreported.write {w : Write} (h : f.Unreported)
    (hw : ¬ (f.visible.write w).Consumed) : (f.write w).Unreported :=
  ⟨h.1, by rwa [Flash.visible_write]⟩

theorem unreported_step {o : BootCall} {g : Flash} {r : BootReply o} (ho : Silent o)
    (hf : f.Unreported) (h : bootMachine o f r g) : g.Unreported := by
  have hwrite (r : Bool) (w : Write) (hw : ¬ (f.visible.write w).Consumed)
      (h : g = if r then f.write w else f) : g.Unreported := by
    cases r with
    | true =>
        rw [h, if_pos rfl]
        exact hf.write hw
    | false =>
        rw [h, if_neg Bool.false_ne_true]
        exact hf
  cases o with
  | nvsFlashErase =>
      obtain rfl := h
      cases r with
      | true => exact ⟨Nvs.not_consumed_empty, Nvs.not_consumed_empty⟩
      | false => exact hf
  | nvsEraseAll ns =>
      cases ns with
      | bootmgr => exact hwrite r .eraseAll Nvs.not_consumed_empty h
      | wifiCreds | knownNets =>
          obtain rfl := h
          exact hf
  | nvsSetU8 key value =>
      have hkey : key ≠ .reason := by
        rintro rfl
        exact ho
      exact hwrite r (.u8 key value) (mt (Nvs.consumed_write_u8 hkey).1 hf.2) h
  | nvsSetStr key value => exact hwrite r (.str key value) hf.2 h
  | nvsSetSize value => exact hwrite r (.size value) hf.2 h
  | nvsCommit =>
      obtain rfl := h
      cases r with
      | true => exact ⟨hf.2, hf.2⟩
      | false => exact hf
  | nvsGetU8 | nvsGetStr | nvsGetSize =>
      obtain rfl := h.1
      exact hf
  | _ =>
      obtain rfl := h
      exact hf

theorem silent_of_common {o : BootCall} (h : Common o) : Silent o := by
  cases o with
  | nvsSetU8 key value =>
      cases key with
      | reason => exact h.elim
      | _ => trivial
  | _ => trivial

/-- A part that reports nothing. -/
theorem leads_silent {p : BootM α} (h : BootUses Silent p) (hf : f.Unreported) :
    Leads nvsWrites (fun _ g _ => g.Unreported) (p.run st) f l := by
  have hstep (o : BootCall) (f : Flash) (r : BootReply o) (g : Flash) (ho : Silent o)
      (hf : f.Unreported) (hm : nvsWrites o f r g) : True ∧ g.Unreported :=
    ⟨trivial, unreported_step ho hf hm.1⟩
  exact Leads.of_safe ((h st).safe hstep (fun _ _ _ _ => trivial) hf).forget

theorem nvsInit_leads (hf : f.Unreported) :
    Leads nvsWrites (fun _ g l' => g.Unreported ∧ answers l' = answers l) (nvsInit.run st) f l :=
  (leads_silent (nvsInit_uses (fun _ => silent_of_common) (fun _ => trivial) trivial) hf).and
    (leads_unasked (nvsInit_uses (fun _ => unasked_of_common) (fun _ => trivial) trivial))

/-- The count that was read decides about the safe mode, and none counts as zero. -/
theorem countBoot_leads (hf : f.Unreported) (hl : answers l = ⟨none, none, none⟩) :
    Leads nvsWrites (fun x g l' => g.Unreported ∧
      ∃ c : Option UInt8, x.1 = decide (maxBootFailures ≤ c.getD 0 + 1) ∧
        answers l' = ⟨c, none, none⟩) (countBoot.run st) f l := by
  have huses : BootUses Silent countBoot :=
    countBoot_uses (fun _ => silent_of_common) trivial fun _ => trivial
  apply (leads_silent huses hf).and
  simp only [countBoot, call, Stateful.run_call_bind]
  refine leads_call fun opened _ _ => ?_
  cases opened with
  | false => exact ⟨none, rfl, by simp only [answers_append, hl, Answers.note]⟩
  | true =>
      refine leads_call fun c _ _ => leads_call fun _ _ _ => leads_call fun _ _ _ => ?_
      exact ⟨c, rfl, by simp only [answers_append, hl, Answers.note]⟩

/-- A read; the flash stays as it is. -/
theorem leads_read {β : Type} {Q : β → Flash → Log → Prop} {o : BootCall}
    {next : BootReply o → Program BootCall BootReply β}
    (ho : ∀ r g, bootMachine o f r g → g = f)
    (h : ∀ r, Leads nvsWrites Q (next r) f (l ++ [⟨f, o, r, f⟩])) :
    Leads nvsWrites Q (.call o next) f l := by
  refine leads_call fun r g hm => ?_
  obtain rfl := ho r g hm.1
  exact h r

theorem reason_eq_request {r : Option UInt8} :
    (r.map UInt8.toUInt32).getD reasonNormal = reasonDownloadRequest ↔
      r = some reasonDownloadRequest.toUInt8 := by
  cases r with
  | none => decide
  | some c => simp [reasonDownloadRequest, ← UInt32.toNat_inj, ← UInt8.toNat_inj]

/-- The record that is loaded is the one of the replies. -/
theorem bootMgrLoadState_leads (hopen : st.nvsHandle = true) :
    Leads nvsWrites (fun x g l' => g = f ∧ (answers l').bootCount = (answers l).bootCount ∧
      ∃ state, x = (some state, { st with current := state }) ∧
        (state.NeedsDownload ↔ (answers l').NeedsDownload)) (bootMgrLoadState.run st) f l := by
  rw [bootMgrLoadState, Stateful.run_get_bind, if_pos hopen]
  simp only [call, Stateful.run_call_bind]
  iterate 9
    refine leads_read (fun _ _ h => h.1) fun _ => ?_
  refine ⟨rfl, ?_, _, rfl, ?_⟩
  · simp only [answers_append, Answers.note]
  · simp only [answers_append, Answers.note, BootState.NeedsDownload, Answers.NeedsDownload,
      reason_eq_request]

theorem bootMgrInit_leads :
    Leads nvsWrites (fun x g l' => g = f ∧ (answers l').bootCount = (answers l).bootCount ∧
      (x.1 = true → x.2.nvsHandle = true)) (bootMgrInit.run st) f l := by
  simp only [bootMgrInit, call, Stateful.run_call_bind]
  refine leads_read (fun _ _ h => h) fun opened => ?_
  cases opened with
  | false => exact ⟨rfl, by simp [Answers.note], fun hopen => absurd hopen Bool.false_ne_true⟩
  | true =>
      rw [if_pos rfl, Stateful.run_modify_bind, Stateful.run_bind]
      apply (bootMgrLoadState_leads rfl).bind
      rintro _ g l' ⟨rfl, hcount, state, rfl, -⟩
      exact ⟨rfl, hcount.trans (by simp [Answers.note]), fun _ => rfl⟩

/-- Behind the boot counter a boot consumes the request if its record has one. -/
theorem normalBoot_leads (hf : f.Unreported) :
    Leads nvsWrites (fun _ g l' => (answers l').bootCount = (answers l).bootCount ∧
      (g.stored.Consumed ↔ (answers l').NeedsDownload)) (normalBoot.run st) f l := by
  have hA (o : BootCall) (h : Common o) : Unasked o := unasked_of_common h
  rw [normalBoot_eq, Stateful.run_bind]
  apply (leads_of_stores ledInit_stores (ledInit_uses hA)).bind
  rintro _ _ l₁ ⟨⟨rfl, rfl⟩, hl₁⟩
  rw [← hl₁, Stateful.run_bind]
  apply bootMgrInit_leads.bind
  rintro ⟨opened, st⟩ _ l₂ ⟨rfl, hl₂, hopen⟩
  rw [← hl₂, Stateful.run_bind]
  apply (leads_of_stores espErrorCheck_stores (espErrorCheck_uses hA opened)).bind
  rintro _ _ l₃ ⟨⟨rfl, rfl, rfl⟩, hl₃⟩
  rw [← hl₃, Stateful.run_bind]
  apply (bootMgrLoadState_leads (hopen rfl)).bind
  rintro _ g l₄ ⟨rfl, hl₄, state, rfl, hneeds⟩
  have huses : BootUses Unasked (afterLoad state) :=
    afterLoad_uses hA (fun _ => trivial) (fun _ _ => trivial) trivial (fun _ => trivial) trivial
      trivial (fun _ => trivial) state
  have hdone := @afterLoad_stores { st with current := state } g state (hopen rfl) rfl
  rw [← hl₄]
  apply (leads_of_stores hdone huses).imp
  rintro _ ⟨g', l'⟩ ⟨⟨hdone, hkept⟩, hl'⟩
  change answers l' = answers l₄ at hl'
  refine ⟨congrArg Answers.bootCount hl', ?_⟩
  change g'.stored.Consumed ↔ (answers l').NeedsDownload
  rw [hl', ← hneeds]
  by_cases hstate : state.NeedsDownload
  · exact iff_of_true (hdone hstate) hstate
  · obtain rfl := hkept hstate
    exact iff_of_false hf.1 hstate

theorem beforeRestart_leads {n : Nvs} (hn : ¬ n.Consumed) :
    Leads nvsWrites (fun _ g l' => g.stored.Consumed ↔ (answers l').Request)
      (beforeRestart.run st) ⟨n, []⟩ [] := by
  rw [beforeRestart, Stateful.run_bind]
  apply (@nvsInit_leads st ⟨n, []⟩ [] ⟨hn, hn⟩).bind
  rintro ⟨-, st⟩ f l ⟨hf, hl⟩
  rw [Stateful.run_bind]
  apply (countBoot_leads hf hl).bind
  rintro ⟨safe, st⟩ f l ⟨hf, c, rfl, hl⟩
  by_cases hc : maxBootFailures ≤ c.getD 0 + 1
  · simp only [hc, decide_true, if_true]
    have hcount : BootUses Silent safeModeBoot :=
      safeModeBoot_uses (fun _ => silent_of_common) trivial
    have hreads : BootUses Unasked safeModeBoot :=
      safeModeBoot_uses (fun _ => unasked_of_common) trivial
    apply ((leads_silent hcount hf).and (leads_unasked hreads)).imp
    rintro _ ⟨g, l'⟩ ⟨hg, hl'⟩
    change answers l' = answers l at hl'
    refine iff_of_false hg.1 fun h => UInt8.not_lt.2 hc ?_
    rw [hl', hl] at h
    exact h.1
  · simp only [hc, decide_false]
    apply (normalBoot_leads hf).imp
    rintro _ ⟨g, l'⟩ ⟨hcount, hdone⟩
    change (answers l').bootCount = (answers l).bootCount at hcount
    refine hdone.trans (iff_and_self.2 fun _ => ?_)
    rw [hcount, hl]
    exact UInt8.not_le.1 hc

end Answers

/-- A boot with a download request that reaches `boot_musicbox_and_restart`, the NVS
writes succeeding, has consumed the request exactly when the boot count that was
read stays below the limit and the record that was loaded has the request and a
folder name that fits its array. Where all NVS calls succeed these are the stored
ones. -/
theorem request_consumed_iff {n : Nvs} {st : Statics} {x : Route × Statics} {tr : Log} {g : Flash}
    (hreq : n.u8 .reason = some reasonDownloadRequest.toUInt8)
    (hrun : Steps nvsWrites (beforeRestart.run st) ⟨n, []⟩ tr (.pure x) g) :
    (g.stored.Consumed ↔ (answers tr).Request) ∧
    ((∀ e ∈ tr, NvsSucceeds e) →
      (g.stored.Consumed ↔ n.bootCount + 1 < maxBootFailures ∧ n.load.folder ≠ [])) := by
  have hkept : ¬ n.Consumed := Nvs.not_consumed_of_request hreq
  refine ⟨(beforeRestart_leads hkept).result hrun, fun hworks => ?_⟩
  have hrun' : Steps nvsWorks (beforeRestart.run st) ⟨n, []⟩ tr (.pure x) g :=
    hrun.of_events fun e he hm => ⟨hm.1, hworks e he⟩
  exact (beforeRestart_returns hreq).result trivial hrun'

/-- A device on which every call succeeds; it stops at the restart. -/
def healthy : (o : BootCall) → Flash → Option (BootReply o × Flash)
  | .nvsFlashInit, f => some (.ok, f)
  | .nvsFlashErase, _ => some (true, ⟨.empty, []⟩)
  | .nvsOpen _, f => some (true, f)
  | .nvsEraseAll .bootmgr, f => some (true, f.write .eraseAll)
  | .nvsEraseAll .wifiCreds, f => some (true, f)
  | .nvsEraseAll .knownNets, f => some (true, f)
  | .nvsGetU8 key, f => some (f.visible.u8 key, f)
  | .nvsSetU8 key value, f => some (true, f.write (.u8 key value))
  | .nvsGetStr key, f => some (f.visible.str key, f)
  | .nvsSetStr key value, f => some (true, f.write (.str key value))
  | .nvsGetSize, f => some (f.visible.size, f)
  | .nvsSetSize value, f => some (true, f.write (.size value))
  | .nvsCommit, f => some (true, f.commit)
  | .ledInit, f => some (true, f)
  | .connectToWifi, f => some (some ['h', 'o', 'm', 'e'], f)
  | .mountSd, f => some (true, f)
  | .downloadSimiFolder _, f => some ((true, false), f)
  | .unmountSd _, f => some ((), f)
  | .findMusicboxPartition, f => some (true, f)
  | .otaSetBootPartition, f => some (true, f)
  | .restart, _ => none
  | .abort, _ => none

theorem healthy_works (o : BootCall) (f : Flash) (r : BootReply o) (g : Flash)
    (h : healthy o f = some (r, g)) : nvsWorks o f r g := by
  cases o with
  | nvsEraseAll ns =>
      cases ns <;> cases h <;> exact ⟨rfl, trivial⟩
  | nvsGetU8 key | nvsGetStr key | nvsGetSize =>
      cases h
      exact ⟨⟨rfl, Or.inl rfl⟩, rfl⟩
  | restart | abort => cases h
  | _ =>
      cases h
      refine ⟨rfl, ?_⟩
      first | exact rfl | trivial

theorem healthy_writes (o : BootCall) (f : Flash) (r : BootReply o) (g : Flash)
    (h : healthy o f = some (r, g)) : nvsWrites o f r g :=
  nvsWrites_of_works (healthy_works o f r g h)

/-- The statics of a fresh boot. -/
def Statics.fresh : Statics := ⟨false, .zero, .zero⟩

/-- A record with a request for `folder` and a boot count. -/
def requested (folder : Str) (bootCount : UInt8) : Nvs where
  u8 := fun
    | .reason => some reasonDownloadRequest.toUInt8
    | .bootCount => some bootCount
    | _ => none
  str := fun
    | .folder => some folder
    | .ssid => none
  size := none

theorem request_consumed_mozart :
    ∃ tr x g, Steps nvsWrites (beforeRestart.run .fresh)
      ⟨requested ['m', 'o', 'z', 'a', 'r', 't'] 0, []⟩ tr (.pure x) g ∧
      (answers tr).Request ∧ g.stored.Consumed := by
  have hrun := steps_play healthy_writes (beforeRestart.run .fresh)
    ⟨requested ['m', 'o', 'z', 'a', 'r', 't'] 0, []⟩
  have hrequest : (answers (play healthy (beforeRestart.run .fresh)
      ⟨requested ['m', 'o', 'z', 'a', 'r', 't'] 0, []⟩).2.2).Request := by decide
  refine ⟨_, (.downloaded, _), _, hrun, hrequest, ?_⟩
  exact (request_consumed_iff rfl hrun).1.2 hrequest

/-- The safe mode leaves the request standing. -/
theorem request_not_consumed :
    ∃ tr x g, Steps nvsWrites (beforeRestart.run .fresh)
      ⟨requested ['m', 'o', 'z', 'a', 'r', 't'] 4, []⟩ tr (.pure x) g ∧ ¬ g.stored.Consumed := by
  have hrun := steps_play healthy_writes (beforeRestart.run .fresh)
    ⟨requested ['m', 'o', 'z', 'a', 'r', 't'] 4, []⟩
  refine ⟨_, (.safeMode, _), _, hrun, ?_⟩
  rintro (h | h)
  · exact absurd h (by decide)
  · exact absurd h (by decide)

end Boot

end SimiboxDownloader
