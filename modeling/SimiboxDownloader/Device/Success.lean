import SimiboxDownloader.Boot.Promise
import SimiboxDownloader.Device.Refinement
import SimiboxDownloader.Download.Standing
import SimiboxDownloader.Sd.Sync

/-!
# A success stands on the card

`Boot` keeps the record truthful about whatever a download brings about. On the device
that is the package on the card: a download that returns true leaves it there, and the
sync write, the unmount and the mounts do not touch it. So in any number of boots, cut
anywhere, a record that says success says it of a folder that holds a package
(`success_stands`).
-/

namespace SimiboxDownloader

namespace Device

open Interaction Interaction.Stateful DirTree

/-- The file tree of the card. -/
abbrev Card := Tree Download.Name Download.Bytes

section Files

variable {cfg : Sd.Config} {folder : Download.Str} {st : Sd.Statics} {w : Sd.World}

/-- Nothing but the sync file has changed, so what stands stands. -/
theorem stands_of_spares {J : Download.CJson} {c c' : Card} (h : Sd.Spares c c')
    (hs : Download.Stands J folder c) : Download.Stands J folder c' := by
  obtain ⟨p, hs⟩ := hs
  by_cases hp : p = [Sd.syncName]
  · rw [h.dir (hp ▸ hs.dir)]
    exact ⟨p, hs⟩
  · refine ⟨p, hs.of_below fun x hx => h.elsewhere x ?_⟩
    rintro rfl
    rcases List.prefix_cons_iff.1 hx with rfl | ⟨r, rfl, hr⟩
    · exact hs.inside rfl
    · exact hp (by rw [List.prefix_nil.1 hr])

/-- A download that returns true leaves a package that stands. -/
theorem downloadSimiFolder_stands (cfg : Sd.Config) (folder : Download.Str) (h : Sd.Agrees st w) :
    Safe Sd.machine (fun _ _ => True) (fun _ => True)
      (fun x t => x.1.ret = true → Download.Stands cfg.cjson folder t.files.card)
      ((Sd.downloadSimiFolder cfg folder).run st) w := by
  let R (_ : Sd.Statics) (w : Sd.World) (s : Download.World) : Prop :=
    w.files = s ∧ (w.mounted = none → Sd.HeldIn w.files [])
  have hp := Download.downloadSimiFolder_stands cfg.cjson cfg.depth folder cfg.lambdaUrl
    st.download w.files
  refine (Sd.downloading_safe hp (R := R) ⟨rfl, fun _ => h.closed⟩ (fun _ _ _ _ _ _ => trivial)
    ?_).imp ?_
  · rintro o st' s r t _ - ⟨rfl, hclosed⟩ hm
    refine ⟨trivial, t.files, Sd.machine_of_downloadStep hm hclosed, rfl, fun hmounted => ?_⟩
    have hunmounted : s.mounted = none := (Sd.downloadStep_sameBus hm).mounted.symm.trans hmounted
    exact Sd.heldIn_step (hclosed hunmounted) (Or.inl hunmounted) hm
  · rintro ⟨e, st'⟩ t ⟨st₀, y, _, hstands, ⟨rfl, -⟩, -⟩
    exact hstands

/-- The download as `handle_download_with_retry` calls it. -/
theorem downloadFolder_safe (cfg : Sd.Config) (folder : Download.Str) (h : Sd.Agrees st w) :
    Safe Sd.machine Sd.InOrder (fun _ => True) (fun x t => Sd.Agrees x.2 t ∧ Sd.SameBus w t ∧
      (x.1.1 = true → Download.Stands cfg.cjson folder t.files.card))
      ((downloadFolder cfg folder).run st) w := by
  have horders := Sd.downloading_orders h
    (Download.downloadSimiFolder_accounts cfg.cjson cfg.depth folder cfg.lambdaUrl h.idle)
  have hstands := downloadSimiFolder_stands cfg folder h
  refine Safe.bind ((Safe.and horders hstands).mono (fun _ _ _ _ hm => hm)
    (fun _ _ hc => hc.1) (fun _ _ => trivial) fun _ _ hq => hq) ?_
  rintro ⟨e, st'⟩ t ⟨⟨hagrees, hbus⟩, hret⟩
  exact ⟨hagrees, hbus, hret⟩

theorem mountClean_orders (cfg : Sd.Config) (h : Sd.Agrees st w) :
    Sd.Orders (fun mounted st' t => Sd.Agrees st' t ∧ t.Paired ∧ t.mounted.isSome = mounted ∧
      t.files = w.files) (mountClean cfg) st w := by
  apply (Sd.forceCleanSdBus_orders h).bind
  rintro _ st' _ ⟨h, rfl⟩
  apply (Sd.mountSd_orders cfg.sdSpiFreqKhz h rfl).imp
  rintro mounted st'' t ⟨h, hpaired, hfiles, hmount⟩
  exact ⟨h, hpaired, hmount, hfiles⟩

/-- Mounting the card leaves its files alone. -/
theorem mountClean_uses : Stateful.Uses (fun o => ∀ c, o ≠ Sd.SdCall.download c)
    (fun _ _ => True) (mountClean cfg) := by
  have hrungs (prevFreq : ℤ) (rungs : List ℤ) : Stateful.Uses
      (fun o => ∀ c, o ≠ Sd.SdCall.download c) (fun _ _ => True)
      (Sd.mountRungs prevFreq rungs) := by
    induction rungs generalizing prevFreq with
    | nil => exact (uses_call (by simp)).bind fun _ => uses_modify.bind fun _ => uses_pure
    | cons freq rungs ih =>
        refine uses_ite (ih _) ((uses_call (by simp)).bind fun card? => ?_)
        cases card? with
        | none => exact ih _
        | some card => exact uses_modify.bind fun _ => uses_pure
  have hinit : Stateful.Uses (fun o => ∀ c, o ≠ Sd.SdCall.download c) (fun _ _ => True)
      Sd.initializeBus := by
    refine (uses_call (by simp)).bind fun ret => ?_
    cases ret with
    | invalidState => exact (uses_call (by simp)).bind fun _ => uses_call (by simp)
    | ok | failed => exact uses_pure
  refine Uses.bind ?_ fun _ => hinit.bind fun ret => ?_
  · exact Sd.unmountCard_uses.bind fun _ => Sd.freeBus_uses.bind fun _ => uses_call (by simp)
  · cases ret with
    | ok => exact uses_modify.bind fun _ => hrungs _ _
    | invalidState | failed => exact uses_pure

theorem mountClean_files : Safe Sd.machine (fun _ _ => True) (fun t => t.files = w.files)
    (fun _ t => t.files = w.files) ((mountClean cfg).run st) w :=
  (mountClean_uses st).safe (J := fun t : Sd.World => t.files = w.files)
    (fun _ _ _ _ ho hs hm => ⟨trivial, (Sd.files_of_bus ho hm).trans hs⟩)
    (fun _ _ _ _ => trivial) rfl

end Files

section Calls

variable {cfg : Sd.Config} {st : Statics} {d e : World}

/-- The statics agree with the driver, between two calls of the boot sequence. -/
structure Sound (st : Statics) (d : World) : Prop where
  agrees : Sd.Agrees st.sd d.sd
  paired : d.sd.Paired

theorem Sound.of_eq {st' : Statics} (h : Sound st d) (hst : st'.sd = st.sd) (hsd : e.sd = d.sd) :
    Sound st' e := by
  refine ⟨?_, ?_⟩
  · rw [hst, hsd]
    exact h.agrees
  · rw [hsd]
    exact h.paired

theorem sound_boot (cfg : Sd.Config) {card : Card} (h : d.sd = .boot card) :
    Sound (.boot cfg) d := by
  refine ⟨?_, ?_⟩
  · rw [h]
    exact Sd.agrees_boot cfg card
  · rw [h]
    rfl

/-- What a composite call has done to the card at any moment. -/
def Meanwhile : Boot.BootCall → World → World → Prop
  | .downloadSimiFolder _, _, _ => True
  | .unmountSd _, d, e => Sd.Spares d.sd.files.card e.sd.files.card
  | _, d, e => e.sd.files = d.sd.files

/-- What it has done in the end. -/
def Afterwards (J : Download.CJson) : (o : Boot.BootCall) → World → Boot.BootReply o → World → Prop
  | .downloadSimiFolder folder, d, r, e => Sd.SameBus d.sd e.sd ∧
      (r.1 = true → Download.Stands J folder e.sd.files.card)
  | .mountSd, _, r, e => e.sd.mounted.isSome = r
  | .unmountSd _, _, _, e => e.sd.mounted = none
  | .connectToWifi, d, _, e => e.sd = d.sd
  | _, _, _, _ => True

/-- What is known of the run of a composite call: its calls for the card are in order,
the flash stays as it is, and the statics agree with the driver in the end. -/
theorem composite_safe (cfg : Sd.Config) {o : Boot.BootCall} (ho : Composite o = true)
    (h : Sound st d) :
    Safe machine (fun o e => ∀ c, o = .sd c → Sd.InOrder c e.sd)
      (fun e => e.flash = d.flash ∧ Meanwhile o d e)
      (fun x e => e.flash = d.flash ∧ Meanwhile o d e ∧ Sound x.2 e ∧
        Afterwards cfg.cjson o d x.1 e) ((carryOut cfg o).run st) d := by
  cases o with
  | connectToWifi =>
      have hsafe := onWifi_safe st d Wifi.connectToWifiWithFeedback
      refine hsafe.mono (fun _ _ _ _ hm => hm) ?_ ?_ ?_
      · rintro _ e ⟨c, rfl⟩ c' hc
        cases hc
      · rintro e ⟨hflash, hsd⟩
        exact ⟨hflash, congrArg Sd.World.files hsd⟩
      · rintro x e ⟨hflash, hsd, hst⟩
        exact ⟨hflash, congrArg Sd.World.files hsd, h.of_eq hst hsd, hsd⟩
  | mountSd =>
      have hsafe := onSd_safe (Safe.and (mountClean_orders cfg h.agrees) mountClean_files)
      refine hsafe.mono (fun _ _ _ _ hm => hm) ?_ ?_ ?_
      · rintro _ e ⟨c, rfl, hc, -⟩ c' hc'
        cases hc'
        exact hc
      · rintro e ⟨hflash, -, hfiles⟩
        exact ⟨hflash, hfiles⟩
      · rintro x e ⟨hflash, ⟨hagrees, hpaired, hmount, -⟩, hfiles⟩
        exact ⟨hflash, hfiles, ⟨hagrees, hpaired⟩, hmount⟩
  | downloadSimiFolder folder =>
      have hsafe := onSd_safe (downloadFolder_safe cfg folder h.agrees)
      refine hsafe.mono (fun _ _ _ _ hm => hm) ?_ ?_ ?_
      · rintro _ e ⟨c, rfl, hc⟩ c' hc'
        cases hc'
        exact hc
      · rintro e ⟨hflash, -⟩
        exact ⟨hflash, trivial⟩
      · rintro x e ⟨hflash, hagrees, hbus, hret⟩
        refine ⟨hflash, trivial, ⟨hagrees, ?_⟩, hbus, hret⟩
        rw [Sd.World.Paired, hbus.mounted, hbus.bus]
        exact h.paired
  | unmountSd cardHealthy =>
      have hsafe := onSd_safe (Safe.and (Sd.unmountSd_orders cardHealthy h.agrees)
        (Sd.unmountSd_spares cardHealthy h.agrees.closed))
      refine hsafe.mono (fun _ _ _ _ hm => hm) ?_ ?_ ?_
      · rintro _ e ⟨c, rfl, hc, -⟩ c' hc'
        cases hc'
        exact hc
      · rintro e ⟨hflash, -, hspares⟩
        exact ⟨hflash, hspares⟩
      · rintro x e ⟨hflash, ⟨hagrees, hmounted, hbus⟩, hspares⟩
        refine ⟨hflash, hspares, ⟨hagrees, ?_⟩, hmounted⟩
        rw [Sd.World.Paired, hmounted, hbus]
        rfl
  | _ => cases ho

end Calls

section Boots

variable {cfg : Sd.Config} {d e : World}

/-- The record of the device is truthful about its card, whichever of the pending
writes reach the flash. -/
def Truthful (J : Download.CJson) (d : World) : Prop :=
  Boot.Truthful (Download.Stands J) (d.flash, d.sd.files.card)

/-- A composite call leaves what stands, unless it is a download. -/
theorem stands_of_meanwhile {J : Download.CJson} {o : Boot.BootCall}
    (ho : ∀ folder, o ≠ .downloadSimiFolder folder) (hmeanwhile : Meanwhile o d e)
    {folder : Download.Str} (h : Download.Stands J folder d.sd.files.card) :
    Download.Stands J folder e.sd.files.card := by
  have hfiles (hsame : e.sd.files = d.sd.files) : Download.Stands J folder e.sd.files.card := by
    rw [hsame]
    exact h
  cases o with
  | unmountSd cardHealthy => exact stands_of_spares hmeanwhile h
  | downloadSimiFolder folder => exact absurd rfl (ho folder)
  | _ => exact hfiles hmeanwhile

/-- While it runs the record stays truthful. -/
theorem truthful_of_meanwhile {J : Download.CJson} {n : Boot.Nvs} {o : Boot.BootCall}
    (hmeets : Boot.Meets (Download.Stands J) n o (d.flash, d.sd.files.card))
    (hflash : e.flash = d.flash) (hmeanwhile : Meanwhile o d e) : Truthful J e := by
  obtain ⟨htruthful, hnone⟩ := hmeets
  rw [Truthful, hflash]
  by_cases ho : ∃ folder, o = .downloadSimiFolder folder
  · obtain ⟨folder, ho⟩ := ho
    exact (hnone folder ho).record.imp fun m hm hreason => absurd hreason hm.2
  · exact Boot.Flash.Always.imp htruthful fun m hm hreason =>
      stands_of_meanwhile (fun folder heq => ho ⟨folder, heq⟩) hmeanwhile (hm hreason)

theorem outside_of_afterwards {J : Download.CJson} {o : Boot.BootCall} {r : Boot.BootReply o}
    (hmeanwhile : Meanwhile o d e) (hafter : Afterwards J o d r e) :
    Boot.Outside (Download.Stands J) o d.sd.files.card r e.sd.files.card := by
  cases o with
  | downloadSimiFolder folder => exact hafter.2
  | _ => exact fun folder h => stands_of_meanwhile (by simp) hmeanwhile h

/-- Every call of the boot sequence is carried out as `Boot` has it, with the card
beside the record. -/
theorem carryOut_promises {n : Boot.Nvs} (o : Boot.BootCall) (st : Statics) (d : World)
    (s : Boot.Flash × Card) (hmeets : Boot.Meets (Download.Stands cfg.cjson) n o s)
    (hkeeps : ∀ r t, Boot.beside (Download.Stands cfg.cjson) o s r t →
      Boot.Truthful (Download.Stands cfg.cjson) t)
    (hs : (d.flash, d.sd.files.card) = s ∧ Sound st d) :
    Safe machine (fun _ _ => True) (Truthful cfg.cjson)
      (fun x e => ∃ t, Boot.beside (Download.Stands cfg.cjson) o s x.1 t ∧
        (e.flash, e.sd.files.card) = t ∧ Sound x.2 e) ((carryOut cfg o).run st) d := by
  obtain ⟨rfl, hsound⟩ := hs
  cases ho : Composite o with
  | true =>
      refine (composite_safe cfg ho hsound).mono (fun _ _ _ _ hm => hm) (fun _ _ _ => trivial) ?_ ?_
      · rintro e ⟨hflash, hmeanwhile⟩
        exact truthful_of_meanwhile hmeets hflash hmeanwhile
      · rintro x e ⟨hflash, hmeanwhile, hsound, hafter⟩
        refine ⟨_, ⟨?_, outside_of_afterwards hmeanwhile hafter⟩, rfl, hsound⟩
        dsimp only
        rw [hflash]
        exact bootMachine_of_composite ho _ _
  | false =>
      rw [carryOut_single ho]
      refine ⟨trivial, fun r e hm => ?_⟩
      have hout : Boot.Outside (Download.Stands cfg.cjson) o d.sd.files.card r
          e.sd.files.card := by
        rw [hm.2.1]
        cases o with
        | downloadSimiFolder => cases ho
        | _ => exact fun _ h => h
      have hbeside : Boot.beside (Download.Stands cfg.cjson) o (d.flash, d.sd.files.card) r
          (e.flash, e.sd.files.card) := ⟨hm.1, hout⟩
      exact ⟨hkeeps r _ hbeside, _, hbeside, rfl, hsound.of_eq rfl hm.2.1⟩

/-- A boot is about to begin, with a truthful record. -/
def StartsTruthful (J : Download.CJson) (d : World) : Prop :=
  ∃ n card, d.flash = ⟨n, []⟩ ∧ d.sd = .boot card ∧ n.Honest (Download.Stands J) card

/-- A boot keeps the record truthful, at every point. -/
theorem appMain_truthful {q : Program Call Call.Reply ((Unit × Boot.Statics) × Statics)}
    {tr : List Event} (h : StartsTruthful cfg.cjson d)
    (hrun : Steps machine ((appMain cfg).run (.boot cfg)) d tr q e) : Truthful cfg.cjson e := by
  obtain ⟨n, card, hflash, hsd, hn⟩ := h
  have hstart : (d.flash, d.sd.files.card) = (⟨n, []⟩, card) := by
    rw [hflash, hsd]
    rfl
  have hsafe := Safe.expand (Boot.appMain_truthful hn .fresh) ⟨hstart, sound_boot cfg hsd⟩
    carryOut_promises
  refine (hsafe.steps ?_ hrun).1
  rw [Truthful, hstart]
  exact Boot.always_committed hn

/-- musicbox stores no success of its own, and while one is stored it leaves the folder
name and the card as they are. -/
def LeavesSuccess (a b : Rest) : Prop :=
  b.nvs.load.reason = Boot.reasonDownloadSuccess →
    a.nvs.load.reason = Boot.reasonDownloadSuccess ∧
      b.nvs.load.folder = a.nvs.load.folder ∧ b.card = a.card

theorem startsTruthful_of_boots (h : StartsTruthful cfg.cjson d)
    (hboots : Boots cfg LeavesSuccess (fun _ _ => True) d e) : StartsTruthful cfg.cjson e := by
  refine Interaction.Boots.invariant (P := StartsTruthful cfg.cjson) hboots ?_ h
  rintro p q s tr t u hs rfl hrun - ⟨k, rest, hreset, hrest, hu, husd⟩
  have hk : k.Honest (Download.Stands cfg.cjson) t.sd.files.card :=
    (appMain_truthful hs hrun).reset hreset
  refine ⟨rest.nvs, rest.card, hu, husd, ?_⟩
  rcases hrest with rfl | hrest
  · exact hk
  · intro hreason
    obtain ⟨hsuccess, hfolder, hcard⟩ := hrest hreason
    rw [hfolder, hcard]
    exact hk hsuccess

/-- From a record that is truthful, in every state of any number of boots of the device,
whatever the calls return, wherever the power is lost and whichever of the pending
writes reach the flash: if the record says success, its folder holds a package. -/
theorem success_stands {m : Boot.Nvs} {e' : World}
    {q : Program Call Call.Reply ((Unit × Boot.Statics) × Statics)} {tr : List Event}
    (h : StartsTruthful cfg.cjson d) (hboots : Boots cfg LeavesSuccess (fun _ _ => True) d e)
    (hrun : Steps machine ((appMain cfg).run (.boot cfg)) e tr q e')
    (hreset : e'.flash.Reset ⟨m, []⟩) (hsuccess : m.load.reason = Boot.reasonDownloadSuccess) :
    Download.Stands cfg.cjson m.load.folder e'.sd.files.card :=
  (appMain_truthful (startsTruthful_of_boots h hboots) hrun).reset hreset hsuccess

theorem success_stands_mozart :
    mozartBoot.2.1.flash.visible.load.folder = "mozart".toList ∧
      Download.Stands Sd.mozartConfig.cjson mozartBoot.2.1.flash.visible.load.folder
        mozartBoot.2.1.rebooted.sd.files.card := by
  have hstart : StartsTruthful Sd.mozartConfig.cjson mozartDevice :=
    ⟨_, _, rfl, rfl, fun hreason => absurd hreason (by decide)⟩
  have hsuccess : mozartBoot.2.1.flash.visible.load.reason = Boot.reasonDownloadSuccess := by
    decide +kernel
  refine ⟨by decide +kernel, ?_⟩
  exact success_stands hstart (boots_rebooted trivial steps_mozartBoot) (Steps.refl _ _)
    (rebooted_reset _) hsuccess

end Boots

end Device

end SimiboxDownloader
