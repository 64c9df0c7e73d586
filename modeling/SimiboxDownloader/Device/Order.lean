import SimiboxDownloader.Device.Success

/-!
# The card over a whole boot

`app_main` mounts the card for a download and unmounts it afterwards, on every path. So
in every boot, whatever the calls return and wherever it is cut, the file system is only
called while a card is mounted, each call for the bus and the card is in order, and the
device restarts with the card unmounted, the bus free and no file open
(`appMain_inOrder`).
-/

namespace SimiboxDownloader

namespace Boot

open Interaction Interaction.Stateful

/-- Whether a card is mounted, as far as the boot sequence can tell. -/
def mounting : Machine BootCall BootReply Bool
  | .mountSd, _, r, t => t = r
  | .unmountSd _, _, _, t => t = false
  | _, s, _, t => t = s

/-- A download and a healthy unmount need a mounted card, and a mount and the end of the
boot an unmounted one. -/
def InTurn : BootCall → Bool → Prop
  | .mountSd, s => s = false
  | .downloadSimiFolder _, s => s = true
  | .unmountSd cardHealthy, s => cardHealthy = true → s = true
  | .restart, s => s = false
  | .abort, s => s = false
  | _, _ => True

/-- A part of `app_main` that begins and ends without a card. -/
abbrev Unmounts {α : Type} (p : BootM α) : Prop :=
  ∀ st, Ensures mounting InTurn (fun _ _ t => t = false) p st false

/-- The calls that have nothing to do with the card. -/
def Cardless : BootCall → Prop
  | .mountSd => False
  | .downloadSimiFolder _ => False
  | .unmountSd _ => False
  | _ => True

variable {α β : Type}

theorem Unmounts.bind {p : BootM α} {k : α → BootM β} (h : Unmounts p)
    (hk : ∀ a, Unmounts (k a)) : Unmounts (p >>= k) := by
  intro st
  apply (h st).bind
  rintro a st' t rfl
  exact hk a st'

theorem unmounts_of_uses {p : BootM α} (h : BootUses Cardless p) : Unmounts p := by
  intro st
  refine ((h st).safe (J := fun s => s = false) ?_ ?_ rfl).forget
  · rintro o _ r t ho rfl hm
    refine ⟨trivial, ?_⟩
    cases o with
    | mountSd => exact ho.elim
    | _ => exact hm
  · rintro o _ ho rfl
    cases o with
    | downloadSimiFolder | unmountSd => exact ho.elim
    | mountSd | restart | abort => rfl
    | _ => trivial

theorem cardless_of_prepares {o : BootCall} (h : Preparing o) : Cardless o := by
  cases o with
  | mountSd | downloadSimiFolder | unmountSd => exact h.elim
  | _ => trivial

theorem cardless_of_saves {state : BootState} {o : BootCall} (h : Saves state o) : Cardless o := by
  cases o with
  | mountSd | downloadSimiFolder | unmountSd => exact h.elim
  | _ => trivial

theorem unmounts_of_prepares {p : BootM α} (h : BootUses Preparing p) : Unmounts p :=
  unmounts_of_uses (h.mono (fun _ ho => cardless_of_prepares ho) fun _ _ hr => hr)

theorem bootMgrSaveState_unmounts (state : BootState) : Unmounts (bootMgrSaveState state) :=
  unmounts_of_uses ((bootMgrSaveState_saves state).mono (fun _ ho => cardless_of_saves ho)
    fun _ _ hr => hr)

theorem bootMgrReportFailure_unmounts (error : UInt32) : Unmounts (bootMgrReportFailure error) :=
  fun st => bootMgrSaveState_unmounts (st.current.failed error) { st with
    current := st.current.failed error }

theorem bootMgrReportSuccess_unmounts : Unmounts bootMgrReportSuccess :=
  fun st => bootMgrSaveState_unmounts st.current.succeeded { st with
    current := st.current.succeeded }

theorem unmounts_pure (a : α) : Unmounts (pure a : BootM α) := fun _ => rfl

theorem reportFailure_unmounts (error : UInt32) (a : α) :
    Unmounts (do let _ ← bootMgrReportFailure error; return a : BootM α) :=
  (bootMgrReportFailure_unmounts error).bind fun _ => unmounts_pure a

theorem connectToWifiWithFeedback_unmounts : Unmounts connectToWifiWithFeedback :=
  unmounts_of_uses (connectToWifiWithFeedback_uses trivial)

/-- The card is unmounted on every path. -/
theorem handleDownloadWithRetry_unmounts : Unmounts handleDownloadWithRetry := by
  intro st
  rw [handleDownloadWithRetry, call]
  refine ensures_call (o := BootCall.mountSd) rfl ?_
  rintro _ mounted rfl
  cases mounted with
  | false =>
      refine ensures_call (o := BootCall.unmountSd false) (fun h => h) ?_
      rintro _ _ rfl
      exact reportFailure_unmounts errorSdCard false st
  | true =>
      apply ensures_get
      refine ensures_call (o := BootCall.downloadSimiFolder _) rfl ?_
      rintro ⟨success, sdFailed⟩ _ rfl
      refine ensures_call (o := BootCall.unmountSd !sdFailed) (fun _ => rfl) ?_
      rintro _ _ rfl
      cases success with
      | true => exact unmounts_pure true st
      | false => exact reportFailure_unmounts _ false st

theorem normalBoot_unmounts : Unmounts normalBoot := by
  refine (unmounts_of_prepares ledInit_prepares).bind fun _ => ?_
  refine (unmounts_of_prepares bootMgrInit_prepares).bind fun ok => ?_
  refine (unmounts_of_prepares (espErrorCheck_prepares ok)).bind fun _ => ?_
  refine (unmounts_of_prepares bootMgrLoadState_prepares).bind fun loaded => ?_
  cases loaded with
  | none => exact unmounts_of_prepares abort_prepares
  | some state =>
      refine Unmounts.bind (fun _ => rfl) fun _ => Unmounts.bind (fun _ => rfl) fun needs => ?_
      cases needs with
      | false => exact unmounts_pure _
      | true =>
          rw [if_pos rfl]
          split
          · exact reportFailure_unmounts _ _
          · refine connectToWifiWithFeedback_unmounts.bind fun connected => ?_
            cases connected with
            | false => exact reportFailure_unmounts _ _
            | true =>
                refine handleDownloadWithRetry_unmounts.bind fun success => ?_
                cases success with
                | false => exact unmounts_pure _
                | true =>
                    refine bootMgrReportSuccess_unmounts.bind fun _ => ?_
                    exact (unmounts_of_prepares resetBootCount_prepares).bind fun _ =>
                      unmounts_pure _

theorem appMain_unmounts : Unmounts appMain := by
  refine Unmounts.bind ?_ fun _ => unmounts_of_prepares bootMusicboxAndRestart_prepares
  refine (unmounts_of_prepares nvsInit_prepares).bind fun _ => ?_
  refine (unmounts_of_prepares countBoot_prepares).bind fun safe => ?_
  cases safe with
  | true => exact unmounts_of_prepares safeModeBoot_prepares
  | false => exact normalBoot_unmounts

end Boot

namespace Device

open Interaction Interaction.Stateful

section Mounted

variable {cfg : Sd.Config} {st : Sd.Statics} {w : Sd.World}

/-- The file system is called while a card is mounted. -/
def OnCard (o : Sd.SdCall) (w : Sd.World) : Prop :=
  ∀ c, o = .download (.fs c) → w.mounted.isSome = true

theorem onCard_of_bus {α : Type} {p : Sd.Action α}
    (hp : Stateful.Uses (fun o => ∀ c, o ≠ Sd.SdCall.download c) (fun _ _ => True) p) :
    Safe Sd.machine OnCard (fun _ => True) (fun _ _ => True) (p.run st) w := by
  refine (hp st).safe (J := fun _ => True) (fun _ _ _ _ _ _ _ => ⟨trivial, trivial⟩) ?_ trivial
  intro o s ho _ c hc
  exact absurd hc (ho _)

theorem onCard_of_download {α : Type} {p : Sd.Action α}
    (hp : Stateful.Uses (fun o => ∃ c, o = Sd.SdCall.download c) (fun _ _ => True) p)
    (hmounted : w.mounted.isSome = true) :
    Safe Sd.machine OnCard (fun _ => True) (fun _ _ => True) (p.run st) w := by
  refine Safe.imp (Safe.forget ((hp st).safe
    (J := fun w : Sd.World => w.mounted.isSome = true) ?_ ?_ hmounted)) fun _ _ _ => trivial
  · rintro _ s r t ⟨c, rfl⟩ hs hm
    rw [(Sd.downloadStep_sameBus hm).mounted]
    exact ⟨trivial, hs⟩
  · exact fun _ _ _ hs _ _ => hs

theorem downloadFolder_uses (folder : Download.Str) :
    Stateful.Uses (fun o => ∃ c, o = Sd.SdCall.download c) (fun _ _ => True)
      (downloadFolder cfg folder) := by
  have htrue : Stateful.Uses (fun _ => True) (fun _ _ => True)
      (Download.downloadSimiFolder cfg.cjson cfg.depth folder cfg.lambdaUrl) :=
    fun st => uses_of_safe (safe_of_steps (M := anyReply) (s := ()) fun _ _ _ _ => trivial)
  have huses := (Sd.downloading_uses htrue).bind fun e =>
    uses_pure (a := (e.ret, e.outSdFailed))
  refine huses.mono ?_ ?_
  · rintro o ⟨c, hc, -⟩
    exact ⟨c, hc⟩
  · intro o r _
    cases o <;> trivial

theorem writeSync_uses : Stateful.Uses (fun o => ∃ c, o = Sd.SdCall.download c) (fun _ _ => True)
    Sd.writeSync := by
  refine (uses_call ⟨_, rfl⟩).bind fun file? => ?_
  cases file? with
  | none => exact uses_pure
  | some file =>
      iterate 5 refine (uses_call ⟨_, rfl⟩).bind fun _ => ?_
      exact uses_pure

theorem unmountSd_onCard {cardHealthy : Bool}
    (hmounted : cardHealthy = true → w.mounted.isSome = true) :
    Safe Sd.machine OnCard (fun _ => True) (fun _ _ => True)
      ((Sd.unmountSd cardHealthy).run st) w := by
  have huses := Sd.unmountCard_uses.bind fun _ => Sd.freeBus_uses
  unfold Sd.unmountSd
  cases cardHealthy with
  | false => exact onCard_of_bus huses
  | true => exact Safe.bind (onCard_of_download writeSync_uses (hmounted rfl)) fun _ _ _ =>
      onCard_of_bus huses

end Mounted

section Order

variable {cfg : Sd.Config} {st : Statics} {d e : World}

/-- What a call of the device needs. -/
structure Needs (o : Call) (d : World) : Prop where
  order : ∀ c, o = .sd c → Sd.InOrder c d.sd ∧ OnCard c d.sd
  ending : o = .boot .restart ∨ o = .boot .abort →
    d.sd.mounted = none ∧ d.sd.bus = false ∧ ∀ f, d.sd.files.streams f = none

/-- The file system is called in turn. -/
theorem composite_onCard (cfg : Sd.Config) {o : Boot.BootCall} (ho : Composite o = true)
    (hturn : Boot.InTurn o d.sd.mounted.isSome) :
    Safe machine (fun o e => (∀ b, o ≠ .boot b) ∧ ∀ c, o = .sd c → OnCard c e.sd) (fun _ => True)
      (fun _ _ => True) ((carryOut cfg o).run st) d := by
  have hsd {α : Type} {p : Sd.Action α}
      (hp : Safe Sd.machine OnCard (fun _ => True) (fun _ _ => True) (p.run st.sd) d.sd) :
      Safe machine (fun o e => (∀ b, o ≠ .boot b) ∧ ∀ c, o = .sd c → OnCard c e.sd)
        (fun _ => True) (fun _ _ => True) ((onSd p).run st) d := by
    refine (onSd_safe hp).mono (fun _ _ _ _ hm => hm) ?_ (fun _ _ => trivial) fun _ _ _ => trivial
    rintro _ e ⟨c, rfl, hc⟩
    refine ⟨by simp, fun c' hc' => ?_⟩
    cases hc'
    exact hc
  cases o with
  | connectToWifi =>
      refine (onWifi_safe st d Wifi.connectToWifiWithFeedback).mono
        (fun _ _ _ _ hm => hm) ?_ (fun _ _ => trivial) fun _ _ _ => trivial
      rintro _ e ⟨c, rfl⟩
      exact ⟨by simp, by simp⟩
  | mountSd => exact hsd (onCard_of_bus mountClean_uses)
  | downloadSimiFolder folder => exact hsd (onCard_of_download (downloadFolder_uses folder) hturn)
  | unmountSd cardHealthy => exact hsd (unmountSd_onCard hturn)
  | _ => cases ho

theorem mounting_of_single {o : Boot.BootCall} (ho : Composite o = false) {s : Bool}
    {r : Boot.BootReply o} : Boot.mounting o s r s := by
  cases o with
  | mountSd | unmountSd => cases ho
  | _ => rfl

/-- Every call of the boot sequence that is in turn is carried out in order. -/
theorem carryOut_needs (o : Boot.BootCall) (st : Statics) (d : World) (s : Bool)
    (hturn : Boot.InTurn o s) (hs : Sound st d ∧ d.sd.mounted.isSome = s) :
    Safe machine Needs (fun _ => True) (fun x e => ∃ t, Boot.mounting o s x.1 t ∧
      Sound x.2 e ∧ e.sd.mounted.isSome = t) ((carryOut cfg o).run st) d := by
  obtain ⟨hsound, rfl⟩ := hs
  cases ho : Composite o with
  | true =>
      refine ((composite_safe cfg ho hsound).and (composite_onCard cfg ho hturn)).mono
        (fun _ _ _ _ hm => hm) ?_ (fun _ _ => trivial) ?_
      · rintro o' e ⟨horder, hboot, hcard⟩
        refine ⟨fun c hc => ⟨horder c hc, hcard c hc⟩, fun hend => ?_⟩
        rcases hend with hend | hend
        · exact absurd hend (hboot _)
        · exact absurd hend (hboot _)
      · rintro x e ⟨⟨-, -, hsound, hafter⟩, -⟩
        refine ⟨_, ?_, hsound, rfl⟩
        cases o with
        | mountSd => exact hafter
        | unmountSd cardHealthy =>
            have hnone : e.sd.mounted = none := hafter
            change e.sd.mounted.isSome = false
            rw [hnone]
            rfl
        | downloadSimiFolder folder =>
            change e.sd.mounted.isSome = d.sd.mounted.isSome
            rw [hafter.1.mounted]
        | connectToWifi =>
            have hsame : e.sd = d.sd := hafter
            change e.sd.mounted.isSome = d.sd.mounted.isSome
            rw [hsame]
        | _ => cases ho
  | false =>
      rw [carryOut_single ho]
      refine ⟨⟨by simp, fun hend => ?_⟩, fun r e hm => ⟨trivial, _, mounting_of_single ho,
        hsound.of_eq rfl hm.2.1, by rw [hm.2.1]⟩⟩
      have hunmounted : d.sd.mounted.isSome = false := by
        rcases hend with hend | hend
        · cases hend
          exact hturn
        · cases hend
          exact hturn
      refine ⟨Option.isNone_iff_eq_none.1 (by rw [← Option.not_isSome, hunmounted]; rfl), ?_,
        fun f => hsound.agrees.closed f (by simp)⟩
      exact hsound.paired.symm.trans hunmounted

/-- In every boot of the device, whatever the calls return and wherever it is cut: the
file system is called only while a card is mounted, the calls for the bus and the card
are in order, and where the device restarts or aborts no card is mounted, the bus is
free and no file is open. -/
theorem appMain_inOrder {card : Card} {tr : List Event}
    {q : Program Call Call.Reply ((Unit × Boot.Statics) × Statics)} (hsd : d.sd = .boot card)
    (hrun : Steps machine ((appMain cfg).run (.boot cfg)) d tr q e) :
    ∀ ev ∈ tr, Needs ev.op ev.before := by
  have hmounted : d.sd.mounted.isSome = false := by
    rw [hsd]
    rfl
  have hsafe := Safe.expand (Boot.appMain_unmounts .fresh) ⟨sound_boot cfg hsd, hmounted⟩
    fun o st d s hturn _ hs => @carryOut_needs cfg o st d s hturn hs
  exact hsafe.events hrun

theorem appMain_inOrder_mozart :
    mozartBoot.2.2.length = 119 ∧ ∀ ev ∈ mozartBoot.2.2, Needs ev.op ev.before :=
  ⟨by decide +kernel, appMain_inOrder rfl steps_mozartBoot⟩

end Order

end Device

end SimiboxDownloader
