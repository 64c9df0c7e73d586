import SimiboxDownloader.Boot.Counter

/-!
# The retry limit over sequences of boots

A request whose retry count has reached the limit is refused, and the refusal
counts as one more retry. So the count stays at the limit or above it, boot
after boot, until it is 255: the next refusal makes it zero, and the boot after
that one downloads again. Writes may fail and the power may be lost anywhere.
-/

namespace SimiboxDownloader

namespace Boot

open Interaction

/-- NVS can be opened and read, and needs no recovery; its writes may fail. -/
def NvsReads : Event BootCall BootReply Flash → Prop
  | ⟨_, .nvsFlashInit, r, _⟩ => r ≠ .noFreePages ∧ r ≠ .newVersionFound
  | ⟨_, .nvsOpen _, r, _⟩ => r = true
  | ⟨f, .nvsGetU8 key, r, _⟩ => r = f.visible.u8 key
  | ⟨f, .nvsGetStr key, r, _⟩ => r = f.visible.str key
  | ⟨f, .nvsGetSize, r, _⟩ => r = f.visible.size
  | _ => True

/-- The machine on which NVS can be read. -/
abbrev nvsReads : Machine BootCall BootReply Flash :=
  bootMachine.restrict NvsReads

/-- The calls a download attempt starts with and makes. -/
def StartsDownload : BootCall → Prop
  | .connectToWifi => True
  | .mountSd => True
  | .downloadSimiFolder _ => True
  | _ => False

instance (o : BootCall) : Decidable (StartsDownload o) := by
  cases o <;> unfold StartsDownload <;> infer_instance

/-- The calls of a boot that refuses a request: it starts no download, does not
erase the record, and the retry counts it writes satisfy `P`. -/
def Refuses (P : UInt8 → Prop) : BootCall → Prop
  | .nvsSetU8 .retry value => P value
  | .nvsFlashErase => False
  | .nvsEraseAll _ => False
  | .connectToWifi => False
  | .mountSd => False
  | .downloadSimiFolder _ => False
  | _ => True

theorem Refuses.not_startsDownload {P : UInt8 → Prop} {o : BootCall} (h : Refuses P o) :
    ¬ StartsDownload o := by
  cases o with
  | connectToWifi => exact h.elim
  | mountSd => exact h.elim
  | downloadSimiFolder folder => exact h.elim
  | _ => exact not_false

/-- The retry count is in `P` whichever of the pending writes reach the flash. -/
def Flash.RetryIn (P : UInt8 → Prop) (f : Flash) : Prop :=
  ∀ k, P ((f.pending.take k).foldl Nvs.write f.stored).load.retryCount

variable {P : UInt8 → Prop}

theorem Flash.RetryIn.visible {f : Flash} (h : f.RetryIn P) : P f.visible.load.retryCount := by
  have hall := h f.pending.length
  rwa [List.take_length] at hall

theorem retryIn_committed {n : Nvs} (h : P n.load.retryCount) : Flash.RetryIn P ⟨n, []⟩ := by
  intro k
  simpa using h

theorem Flash.RetryIn.write {f : Flash} {w : Write} (h : f.RetryIn P)
    (hw : ∀ n : Nvs, P n.load.retryCount → P (n.write w).load.retryCount) :
    (f.write w).RetryIn P := by
  intro k
  rw [Flash.write, List.take_append, List.foldl_append]
  cases k - f.pending.length with
  | zero => exact h k
  | succ j =>
      rw [List.take_succ_cons, List.take_nil]
      exact hw _ (h k)

theorem Flash.RetryIn.reset {f : Flash} {n : Nvs} (h : f.RetryIn P) (hr : f.Reset ⟨n, []⟩) :
    P n.load.retryCount := by
  obtain ⟨k, hk⟩ := hr
  obtain rfl : n = (f.pending.take k).foldl Nvs.write f.stored := congrArg Flash.stored hk
  exact h k

/-- Only a write of the retry count changes it. -/
theorem retryIn_step {o : BootCall} {f g : Flash} {r : BootReply o} (ho : Refuses P o)
    (hf : f.RetryIn P) (h : bootMachine o f r g) : g.RetryIn P := by
  cases o with
  | nvsSetU8 key value =>
      obtain rfl := h
      split
      · apply hf.write
        intro n hn
        by_cases hkey : key = .retry
        · subst hkey
          rw [Nvs.write_u8]
          simp only [Nvs.load, Function.update_self, Option.getD_some]
          exact ho
        · simpa [Nvs.load, Function.update_of_ne (Ne.symm hkey)] using hn
      · exact hf
  | nvsSetStr key value =>
      obtain rfl := h
      split
      · exact hf.write fun n hn => hn
      · exact hf
  | nvsSetSize value =>
      obtain rfl := h
      split
      · exact hf.write fun n hn => hn
      · exact hf
  | nvsCommit =>
      obtain rfl := h
      split
      · exact retryIn_committed hf.visible
      · exact hf
  | nvsEraseAll ns => exact ho.elim
  | nvsFlashErase => exact ho.elim
  | nvsGetU8 key | nvsGetStr key | nvsGetSize =>
      obtain rfl := h.1
      exact hf
  | _ =>
      obtain rfl := h
      exact hf

theorem refuses_of_common {o : BootCall} (h : Common o) : Refuses P o := by
  cases o with
  | nvsSetU8 key value =>
      cases key with
      | retry => exact h.elim
      | _ => trivial
  | nvsEraseAll ns => exact h.elim
  | nvsFlashErase => exact h.elim
  | connectToWifi => exact h.elim
  | mountSd => exact h.elim
  | downloadSimiFolder folder => exact h.elim
  | _ => trivial

/-- The judgement of a boot that makes only the calls of a refusal. -/
abbrev RefusesTo (P : UInt8 → Prop) {α : Type} (Q : α → Flash → Prop)
    (p : Program BootCall BootReply α) (f : Flash) : Prop :=
  Safe nvsReads (fun o _ => Refuses P o) (fun _ => True) Q p f

section Specs

variable {st : Statics} {f : Flash}

theorem refusesTo_of_uses {α : Type} {p : BootM α} (h : BootUses (Refuses P) p) :
    RefusesTo P (fun _ _ => True) (p.run st) f :=
  ((h st).safe (J := fun _ => True) (fun _ _ _ _ _ _ _ => ⟨trivial, trivial⟩)
    (fun _ _ ho _ => ho) trivial).imp fun _ _ _ => trivial

/-- A call that leaves the flash alone. -/
theorem refusesTo_other {α : Type} {Q : α → Flash → Prop} {o : BootCall}
    {next : BootReply o → Program BootCall BootReply α} (ho : Refuses P o)
    (hsame : ∀ r g, bootMachine o f r g → g = f) (h : ∀ r, RefusesTo P Q (next r) f) :
    RefusesTo P Q (.call o next) f := by
  refine ⟨ho, ?_⟩
  intro r g hm
  obtain rfl := hsame r g hm.1
  exact ⟨trivial, h r⟩

theorem refusesTo_nvsOpen {α : Type} {Q : α → Flash → Prop} {ns : Namespace}
    {next : Bool → Program BootCall BootReply α} (h : RefusesTo P Q (next true) f) :
    RefusesTo P Q (.call (.nvsOpen ns) next) f := by
  refine ⟨trivial, ?_⟩
  rintro r f ⟨rfl, rfl⟩
  exact ⟨trivial, h⟩

theorem refusesTo_nvsGetU8 {α : Type} {Q : α → Flash → Prop} {key : U8Key}
    {next : Option UInt8 → Program BootCall BootReply α}
    (h : RefusesTo P Q (next (f.visible.u8 key)) f) :
    RefusesTo P Q (.call (.nvsGetU8 key) next) f := by
  refine ⟨trivial, ?_⟩
  rintro r f ⟨⟨rfl, -⟩, rfl⟩
  exact ⟨trivial, h⟩

theorem refusesTo_nvsGetStr {α : Type} {Q : α → Flash → Prop} {key : StrKey}
    {next : Option Str → Program BootCall BootReply α}
    (h : RefusesTo P Q (next (f.visible.str key)) f) :
    RefusesTo P Q (.call (.nvsGetStr key) next) f := by
  refine ⟨trivial, ?_⟩
  rintro r f ⟨⟨rfl, -⟩, rfl⟩
  exact ⟨trivial, h⟩

theorem refusesTo_nvsGetSize {α : Type} {Q : α → Flash → Prop}
    {next : Option UInt32 → Program BootCall BootReply α}
    (h : RefusesTo P Q (next f.visible.size) f) :
    RefusesTo P Q (.call .nvsGetSize next) f := by
  refine ⟨trivial, ?_⟩
  rintro r f ⟨⟨rfl, -⟩, rfl⟩
  exact ⟨trivial, h⟩

theorem espErrorCheck_refusesTo {ok : Bool} :
    RefusesTo P (fun x g => ok = true ∧ x = ((), st) ∧ g = f) ((espErrorCheck ok).run st) f := by
  cases ok with
  | false => exact ⟨trivial, fun r => r.elim⟩
  | true => exact ⟨rfl, rfl, rfl⟩

theorem ledInit_refusesTo :
    RefusesTo P (fun x g => x = ((), st) ∧ g = f) (ledInit.run st) f := by
  simp only [ledInit, call, Stateful.run_call_bind]
  refine refusesTo_other trivial (fun _ _ h => h) fun r => ?_
  exact espErrorCheck_refusesTo.imp fun x g h => h.2

theorem nvsInit_refusesTo :
    RefusesTo P (fun x g => x = ((), st) ∧ g = f) (nvsInit.run st) f := by
  simp only [nvsInit, call, Stateful.run_call_bind]
  refine ⟨trivial, ?_⟩
  rintro r g ⟨rfl, hr⟩
  have hnone : ¬ (r = .noFreePages ∨ r = .newVersionFound) := fun h => h.elim hr.1 hr.2
  simp only [hnone, if_false]
  exact ⟨trivial, rfl, rfl⟩

/-- Counting the boot leaves the record alone, whether the count can be written
or not. -/
theorem countBoot_refusesTo :
    RefusesTo P (fun x g => x = (decide (maxBootFailures ≤ f.visible.bootCount + 1), st) ∧
      g.visible.load = f.visible.load) (countBoot.run st) f := by
  simp only [countBoot, call, Stateful.run_call_bind]
  apply refusesTo_nvsOpen
  apply refusesTo_nvsGetU8
  refine ⟨trivial, ?_⟩
  rintro written g ⟨rfl, -⟩
  refine ⟨trivial, trivial, ?_⟩
  rintro committed h ⟨rfl, -⟩
  refine ⟨trivial, rfl, ?_⟩
  cases written <;> cases committed <;> simp [-Nvs.write_u8]

theorem bootMgrLoadState_refusesTo (hopen : st.nvsHandle = true) :
    RefusesTo P (fun x g => x = (some f.visible.load, { st with current := f.visible.load }) ∧
      g = f) (bootMgrLoadState.run st) f := by
  rw [bootMgrLoadState, Stateful.run_get_bind, if_pos hopen]
  simp only [call, Stateful.run_call_bind]
  apply refusesTo_nvsGetU8
  apply refusesTo_nvsGetStr
  iterate 4 apply refusesTo_nvsGetU8
  apply refusesTo_nvsGetStr
  apply refusesTo_nvsGetSize
  apply refusesTo_nvsGetU8
  exact ⟨rfl, rfl⟩

theorem bootMgrInit_refusesTo :
    RefusesTo P (fun x g => x = (true, { st with nvsHandle := true, current := f.visible.load }) ∧
      g = f) (bootMgrInit.run st) f := by
  simp only [bootMgrInit, call, Stateful.run_call_bind]
  apply refusesTo_nvsOpen
  rw [if_pos rfl, Stateful.run_modify_bind, Stateful.run_bind]
  apply (bootMgrLoadState_refusesTo rfl).bind
  rintro _ g ⟨rfl, rfl⟩
  exact ⟨rfl, rfl⟩

theorem bootMgrReportFailure_refusesTo {error : UInt32} (h : P (st.current.retryCount + 1)) :
    RefusesTo P (fun _ _ => True) ((bootMgrReportFailure error).run st) f := by
  rw [bootMgrReportFailure, Stateful.run_modify_bind, Stateful.run_get_bind]
  exact refusesTo_of_uses
    (bootMgrSaveState_uses (fun _ => refuses_of_common) (fun _ => trivial) (fun _ _ => trivial)
      h)

/-- Behind the boot counter, the retry count being at the limit. -/
theorem normalBoot_refusesTo (hlimit : maxRetries ≤ f.visible.load.retryCount)
    (hP : f.visible.load.NeedsDownload → P (f.visible.load.retryCount + 1)) :
    RefusesTo P (fun _ _ => True) (normalBoot.run st) f := by
  rw [normalBoot, Stateful.run_bind]
  apply ledInit_refusesTo.bind
  rintro _ _ ⟨rfl, rfl⟩
  rw [Stateful.run_bind]
  apply bootMgrInit_refusesTo.bind
  rintro _ _ ⟨rfl, rfl⟩
  rw [Stateful.run_bind]
  apply espErrorCheck_refusesTo.bind
  rintro _ _ ⟨-, rfl, rfl⟩
  rw [Stateful.run_bind]
  apply (bootMgrLoadState_refusesTo rfl).bind
  rintro _ g ⟨rfl, rfl⟩
  rw [Stateful.run_modify_bind, Stateful.run_bind, bootMgrNeedsDownload_run, Program.pure_bind]
  by_cases hneeds : g.visible.load.NeedsDownload
  · simp only [hneeds, decide_true, if_true, hlimit]
    rw [Stateful.run_bind]
    apply (bootMgrReportFailure_refusesTo (hP hneeds)).bind
    intro x h _
    trivial
  · simp only [hneeds, decide_false]
    trivial

end Specs

/-- A boot with the retry count at the limit starts no download, and the counts
it writes satisfy `P` if the one behind the limit does. -/
theorem appMain_refusesTo (st : Statics) {n : Nvs} (hlimit : maxRetries ≤ n.load.retryCount)
    (hP : n.load.NeedsDownload → n.bootCount + 1 < maxBootFailures →
      P (n.load.retryCount + 1)) :
    RefusesTo P (fun _ _ => True) (appMain.run st) ⟨n, []⟩ := by
  rw [appMain, beforeRestart, Stateful.run_bind, Stateful.run_bind]
  have hbefore : RefusesTo P (fun _ _ => True) (((nvsInit.run st) >>= fun x =>
      ((do if ← countBoot then safeModeBoot else normalBoot : BootM Route)).run x.2)) ⟨n, []⟩ := by
    apply nvsInit_refusesTo.bind
    rintro _ _ ⟨rfl, rfl⟩
    rw [Stateful.run_bind]
    apply countBoot_refusesTo.bind
    rintro _ g ⟨rfl, hg⟩
    rw [Flash.visible_nil] at hg
    by_cases hsafe : maxBootFailures ≤ n.bootCount + 1
    · simp only [Flash.visible_nil, hsafe, decide_true, if_true]
      exact refusesTo_of_uses (safeModeBoot_uses (fun _ => refuses_of_common) trivial)
    · simp only [Flash.visible_nil, hsafe, decide_false]
      refine normalBoot_refusesTo (by rwa [hg]) ?_
      rw [hg]
      exact fun hneeds => hP hneeds (UInt8.not_le.1 hsafe)
  apply hbefore.bind
  intro x g _
  exact refusesTo_of_uses (bootMusicboxAndRestart_uses (fun _ => refuses_of_common) trivial)

/-- Between two boots: a reset, and musicbox may rewrite every key but the retry
count. -/
def Handover (f g : Flash) : Prop :=
  ∃ n n', f.Reset ⟨n, []⟩ ∧ n'.u8 .retry = n.u8 .retry ∧ g = ⟨n', []⟩

/-- No request is refused with a retry count of 255. -/
def BelowWrap (f : Flash) (_ : Log) : Prop :=
  f.visible.load.NeedsDownload → f.visible.bootCount + 1 < maxBootFailures →
    f.visible.load.retryCount ≠ 255

/-- Sequences of downloader boots, with musicbox between them. -/
abbrev DownloaderBoots (cond : Flash → Log → Prop) : Flash → Flash → Prop :=
  Boots nvsReads (fun p => ∃ st, p = appMain.run st) Handover cond

/-- No boot from here starts a download. -/
def NoDownload (f : Flash) : Prop :=
  ∀ st tr q g, Steps nvsReads (appMain.run st) f tr q g → ∀ e ∈ tr, ¬ StartsDownload e.op

theorem limit_le_succ {c : UInt8} (h : maxRetries ≤ c) (hc : c ≠ 255) : maxRetries ≤ c + 1 := by
  have hlt : c.toNat ≠ 255 := fun h => hc (UInt8.toNat_inj.1 h)
  have hbound : c.toNat < 256 := c.toNat_lt
  rw [UInt8.le_iff_toNat_le] at h ⊢
  rw [UInt8.toNat_add]
  simp only [maxRetries, UInt8.reduceToNat] at h ⊢
  omega

/-- A boot keeps the retry count at the limit. -/
theorem retryIn_appMain {st : Statics} {n : Nvs} {tr : Log}
    {q : Program BootCall BootReply (Unit × Statics)} {g : Flash}
    (hlimit : maxRetries ≤ n.load.retryCount) (hwrap : BelowWrap ⟨n, []⟩ tr)
    (hrun : Steps nvsReads (appMain.run st) ⟨n, []⟩ tr q g) :
    g.RetryIn (fun c => maxRetries ≤ c) := by
  have hsafe := appMain_refusesTo (P := fun c => maxRetries ≤ c) st hlimit
    fun hneeds hcount => limit_le_succ hlimit (hwrap hneeds hcount)
  have hcalls := hsafe.events hrun
  apply hrun.invariant _ (retryIn_committed hlimit)
  intro e he hbefore
  exact retryIn_step (hcalls e he) hbefore (hrun.events e he).1

/-- Once the stored retry count has reached the limit, no boot starts a
download and the count stays there, through any number of boots between which
musicbox leaves the retry count alone: as long as none of them refuses a request
with a count of 255. -/
theorem retries_stayExhausted {n : Nvs} {f : Flash}
    (hboots : DownloaderBoots BelowWrap ⟨n, []⟩ f) (hlimit : maxRetries ≤ n.load.retryCount) :
    maxRetries ≤ f.stored.load.retryCount ∧ NoDownload f := by
  have hkept : f.pending = [] ∧ maxRetries ≤ f.stored.load.retryCount := by
    apply hboots.invariant _ ⟨rfl, hlimit⟩
    rintro p q ⟨m, _⟩ tr g _ ⟨rfl, hm⟩ ⟨st, rfl⟩ hrun hwrap ⟨m', m'', hreset, hretry, rfl⟩
    have hm' := (retryIn_appMain hm hwrap hrun).reset hreset
    have hsame : m''.load.retryCount = m'.load.retryCount := by
      simp only [Nvs.load, hretry]
    rw [hsame]
    exact ⟨rfl, hm'⟩
  obtain ⟨m, pending⟩ := f
  obtain ⟨rfl, hm⟩ := hkept
  refine ⟨hm, ?_⟩
  intro st tr q g hrun e he
  have hsafe := appMain_refusesTo (P := fun _ => True) st hm fun _ _ => trivial
  exact (hsafe.events hrun e he).not_startsDownload

/-- Where all NVS calls succeed NVS can be read. -/
theorem healthy_reads (o : BootCall) (f : Flash) (r : BootReply o) (g : Flash)
    (h : healthy o f = some (r, g)) : nvsReads o f r g := by
  obtain ⟨hm, hworks⟩ := healthy_works o f r g h
  refine ⟨hm, ?_⟩
  cases o with
  | nvsFlashInit =>
      obtain rfl : r = .ok := hworks
      exact ⟨by decide, by decide⟩
  | nvsOpen | nvsGetU8 | nvsGetStr | nvsGetSize => exact hworks
  | _ => trivial

/-- A record with a request and a retry count. -/
def retried (retry : UInt8) : Nvs :=
  (requested ['m', 'o', 'z', 'a', 'r', 't'] 0).write (.u8 .retry retry)

/-- The record after a boot, with the request put back by musicbox. -/
def requestedAgain (retry : UInt8) : Nvs :=
  (play healthy (appMain.run .fresh) ⟨retried retry, []⟩).2.1.stored.write
    (.u8 .reason reasonDownloadRequest.toUInt8)

theorem boots_requestedAgain {cond : Flash → Log → Prop} (retry : UInt8)
    (hcond : ∀ tr, cond ⟨retried retry, []⟩ tr) :
    DownloaderBoots cond ⟨retried retry, []⟩ ⟨requestedAgain retry, []⟩ := by
  have hrun := steps_play healthy_reads (appMain.run .fresh) ⟨retried retry, []⟩
  refine (Boots.refl _).boot ⟨.fresh, rfl⟩ hrun (hcond _) ?_
  refine ⟨_, requestedAgain retry, ⟨0, rfl⟩, ?_, rfl⟩
  have hkey : U8Key.retry ≠ U8Key.reason := by decide
  rw [requestedAgain, Nvs.write_u8]
  simp only [Function.update_of_ne hkey]
  rfl

theorem retries_stayExhausted_three :
    maxRetries ≤ (requestedAgain 3).load.retryCount ∧ NoDownload ⟨requestedAgain 3, []⟩ := by
  have hboots : DownloaderBoots BelowWrap ⟨retried 3, []⟩ ⟨requestedAgain 3, []⟩ :=
    boots_requestedAgain 3 fun _ _ _ => by decide
  exact retries_stayExhausted hboots (by decide)

/-- A request that is refused with a retry count of 255 is downloaded when it is
made again. -/
theorem retries_not_stayExhausted :
    maxRetries ≤ (retried 255).load.retryCount ∧
      DownloaderBoots (fun _ _ => True) ⟨retried 255, []⟩ ⟨requestedAgain 255, []⟩ ∧
      (requestedAgain 255).load.retryCount = 0 ∧ ¬ NoDownload ⟨requestedAgain 255, []⟩ := by
  refine ⟨by decide, boots_requestedAgain 255 fun _ => trivial, by decide, ?_⟩
  intro hnone
  have hrun := steps_play healthy_reads (appMain.run .fresh) ⟨requestedAgain 255, []⟩
  have hstarts : ∃ e ∈ (play healthy (appMain.run .fresh) ⟨requestedAgain 255, []⟩).2.2,
      StartsDownload e.op := by
    decide
  obtain ⟨e, he, hstart⟩ := hstarts
  exact hnone _ _ _ _ hrun e he hstart

end Boot

end SimiboxDownloader
