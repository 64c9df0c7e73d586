import SimiboxDownloader.Device.Success
import SimiboxDownloader.Download.Confinement

/-!
# What the device leaves alone

A boot downloads the folder its record requests, if any. It touches nothing on the card but
the directory of that folder, the temporary one and the sync file, however its calls go and
wherever it is cut (`appMain_leaves`); and so do any number of boots (`boots_leave`).
-/

namespace SimiboxDownloader

namespace Device

open Interaction Interaction.Stateful

section Download

variable {cfg : Sd.Config} {folder : Download.Str} {w t : Sd.World}

/-- A call of a download, or one that has failed on an unmounted card. -/
theorem downloadStep_cases {o : Download.Call} {r : o.Reply} (hm : Sd.downloadStep o w r t) :
    Download.machine o w.files r t.files ∨ t = w ∧ ∃ c, o = .fs c ∧ HEq r (Sd.failure c) := by
  cases o with
  | fs c =>
      simp only [Sd.downloadStep] at hm
      split at hm
      · exact Or.inl hm.1
      · obtain ⟨rfl, rfl⟩ := hm
        exact Or.inr ⟨rfl, c, rfl, HEq.rfl⟩
  | dev c => exact Or.inl hm.1
  | transfer client file capacity downloaded expected => exact Or.inl hm.1
  | diverge => exact r.elim

theorem lists_of_downloadStep {o : Download.Call} {r : o.Reply} (hm : Sd.downloadStep o w r t) :
    Download.Lists o r := by
  rcases downloadStep_cases hm with hm | ⟨-, c, rfl, hr⟩
  · exact Download.lists_of_machine hm
  · cases hr
    cases c <;> trivial

/-- The calls of a download stay inside of the folder. -/
theorem downloadFolder_inside : Stateful.Uses
    (fun o => ∃ c, o = Sd.SdCall.download c ∧ Download.WritesInside folder c)
    (Sd.ofDownload Download.Lists) (downloadFolder cfg folder) :=
  (Sd.downloading_uses (Download.downloadSimiFolder_inside cfg.cjson cfg.depth folder
    cfg.lambdaUrl)).bind fun _ => uses_pure

/-- A call that stays inside. -/
theorem leaves_of_inside {o : Download.Call} {r : o.Reply} (ho : Download.WritesInside folder o)
    (hopen : w.files.WritesIn (Download.InsideCard folder)) (hm : Sd.downloadStep o w r t) :
    t.files.WritesIn (Download.InsideCard folder) ∧
      ∀ x, ¬ Download.InsideCard folder x → t.files.card.get x = w.files.card.get x := by
  rcases downloadStep_cases hm with hm | ⟨rfl, -⟩
  · exact Download.leaves_of_inside ho hopen hm
  · exact ⟨hopen, fun _ _ => rfl⟩

end Download

section Keeps

variable {cfg : Sd.Config} {P : Card → Prop} {n : Boot.Nvs} {d e : World}

/-- A boot from the record `n` keeps `P` of the card: the sync write does, and the download
of the folder that is requested. -/
structure Kept (cfg : Sd.Config) (P : Card → Prop) (n : Boot.Nvs) : Prop where
  sync : ∀ c c', Sd.Spares c c' → P c → P c'
  download : n.load.reason = Boot.reasonDownloadRequest → ∀ st d, Sound st d →
    P d.sd.files.card → Safe machine (fun _ _ => True) (fun e => P e.sd.files.card)
      (fun _ e => P e.sd.files.card) ((carryOut cfg (.downloadSimiFolder n.load.folder)).run st) d

/-- The other composite calls touch nothing but the sync file. -/
theorem Kept.meanwhile {o : Boot.BootCall} (h : Kept cfg P n)
    (ho : ∀ folder, o ≠ .downloadSimiFolder folder) (hmeanwhile : Meanwhile o d e)
    (hd : P d.sd.files.card) : P e.sd.files.card := by
  have hfiles (hsame : e.sd.files = d.sd.files) : P e.sd.files.card := by
    rw [hsame]
    exact hd
  cases o with
  | unmountSd cardHealthy => exact h.sync _ _ hmeanwhile hd
  | downloadSimiFolder folder => exact absurd rfl (ho folder)
  | _ => exact hfiles hmeanwhile

/-- Nothing is known of the card but that every download was requested. -/
abbrev asked : Machine Boot.BootCall Boot.BootReply (Boot.Flash × Unit) :=
  Boot.beside fun _ _ => True

theorem asked_of_bootMachine {o : Boot.BootCall} {s : Boot.Flash × Unit} {r : Boot.BootReply o}
    {g : Boot.Flash} (hm : Boot.bootMachine o s.1 r g) : asked o s r (g, ()) := by
  refine ⟨hm, ?_⟩
  cases o with
  | downloadSimiFolder folder => exact fun _ => trivial
  | _ => exact fun _ _ => trivial

theorem carryOut_keeps (h : Kept cfg P n) (o : Boot.BootCall) (st : Statics) (d : World)
    (s : Boot.Flash × Unit) (hmeets : Boot.Meets (fun _ _ => True) n o s)
    (hs : d.flash = s.1 ∧ Sound st d ∧ P d.sd.files.card) :
    Safe machine (fun _ _ => True) (fun e => P e.sd.files.card)
      (fun y e => ∃ t, asked o s y.1 t ∧ e.flash = t.1 ∧ Sound y.2 e ∧ P e.sd.files.card)
      ((carryOut cfg o).run st) d := by
  obtain ⟨hflash, hsound, hP⟩ := hs
  cases ho : Composite o with
  | true =>
      have hcomposite := composite_safe cfg ho hsound
      have hend {y : Boot.BootReply o × Statics} {e : World} (hflash' : e.flash = d.flash)
          (hsound' : Sound y.2 e) (hP' : P e.sd.files.card) :
          ∃ t, asked o s y.1 t ∧ e.flash = t.1 ∧ Sound y.2 e ∧ P e.sd.files.card :=
        ⟨_, asked_of_bootMachine (bootMachine_of_composite ho _ _), hflash'.trans hflash, hsound',
          hP'⟩
      by_cases hdownload : ∃ folder, o = .downloadSimiFolder folder
      · obtain ⟨folder, rfl⟩ := hdownload
        have hrequested := hmeets.2 folder rfl
        obtain rfl := hrequested.folder
        refine (hcomposite.and (h.download hrequested.asked st d hsound hP)).mono
          (fun _ _ _ _ hm => hm) (fun _ _ _ => trivial) (fun e hi => hi.2) ?_
        rintro y e ⟨⟨hflash', -, hsound', -⟩, hP'⟩
        exact hend hflash' hsound' hP'
      · have hother : ∀ folder, o ≠ .downloadSimiFolder folder :=
          fun folder heq => hdownload ⟨folder, heq⟩
        refine hcomposite.mono (fun _ _ _ _ hm => hm) (fun _ _ _ => trivial)
          (fun e hi => h.meanwhile hother hi.2 hP) ?_
        rintro y e ⟨hflash', hmeanwhile, hsound', -⟩
        exact hend hflash' hsound' (h.meanwhile hother hmeanwhile hP)
  | false =>
      rw [carryOut_single ho]
      refine ⟨trivial, fun r e hm => ?_⟩
      have hP' : P e.sd.files.card := by
        rw [hm.2.1]
        exact hP
      refine ⟨hP', (e.flash, ()), asked_of_bootMachine ?_, rfl, hsound.of_eq rfl hm.2.1, hP'⟩
      rw [← hflash]
      exact hm.1

/-- Where the boot is cut `P` holds, if it held in the beginning. -/
theorem appMain_keeps {q : Program Call Call.Reply ((Unit × Boot.Statics) × Statics)}
    {card : Card} {tr : List Event} (h : Kept cfg P n) (hflash : d.flash = ⟨n, []⟩)
    (hsd : d.sd = .boot card) (hP : P d.sd.files.card)
    (hrun : Steps machine ((appMain cfg).run (.boot cfg)) d tr q e) : P e.sd.files.card := by
  have hhonest : n.Honest (fun _ _ => True) () := fun _ => trivial
  have hsafe := Safe.expand (Boot.appMain_truthful hhonest .fresh)
    ⟨hflash, sound_boot cfg hsd, hP⟩
    fun o st d' s hmeets _ hs => carryOut_keeps h o st d' s hmeets hs
  exact (hsafe.steps hP hrun).1

end Keeps

section Boot

variable {cfg : Sd.Config} {d e : World} {x : List Download.Name}

/-- A download leaves what is outside of its folder. -/
theorem download_leaves {folder : Download.Str} {st : Statics} {c : Card} (h : Sound st d)
    (hx : ¬ Download.InsideCard folder x) (hc : d.sd.files.card.get x = c.get x) :
    Safe machine (fun _ _ => True) (fun e => e.sd.files.card.get x = c.get x)
      (fun _ e => e.sd.files.card.get x = c.get x)
      ((carryOut cfg (.downloadSimiFolder folder)).run st) d := by
  have huses := onSd_uses (@downloadFolder_inside cfg folder)
  have hopen : d.sd.files.WritesIn (Download.InsideCard folder) := by
    intro f s hs
    rw [Download.World.writer, h.agrees.closed f (by simp)] at hs
    cases hs
  have hsafe : Safe machine (fun _ _ => True)
      (fun e => e.sd.files.WritesIn (Download.InsideCard folder) ∧
        e.sd.files.card.get x = c.get x)
      (fun _ e => e.sd.files.WritesIn (Download.InsideCard folder) ∧
        e.sd.files.card.get x = c.get x)
      ((onSd (downloadFolder cfg folder)).run st) d := by
    refine (huses st).safe (J := fun e : World => e.sd.files.WritesIn
      (Download.InsideCard folder) ∧ e.sd.files.card.get x = c.get x) ?_
      (fun _ _ _ _ => trivial) ⟨hopen, hc⟩
    rintro _ e r e' ⟨_, rfl, o, rfl, hinside⟩ ⟨hopen, hsame⟩ hm
    obtain ⟨hopen', hleaves⟩ := leaves_of_inside hinside hopen hm.1
    exact ⟨lists_of_downloadStep hm.1, hopen', (hleaves x hx).trans hsame⟩
  exact hsafe.mono (fun _ _ _ _ hm => hm) (fun _ _ hc => hc) (fun _ hi => hi.2) fun _ _ hq => hq.2

/-- `x` does not lie in a folder the record requests. -/
def NotAsked (x : List Download.Name) (n : Boot.Nvs) : Prop :=
  n.load.reason = Boot.reasonDownloadRequest → ¬ Download.InsideCard n.load.folder x

theorem kept_elsewhere {n : Boot.Nvs} (c : Card) (hx : x ≠ [Sd.syncName]) (hasked : NotAsked x n) :
    Kept cfg (fun c' => c'.get x = c.get x) n where
  sync := fun _ _ hspares h => (hspares.elsewhere x hx).trans h
  download := fun hreason _ _ hsound h => download_leaves hsound (hasked hreason) h

/-- A boot is about to begin. -/
def Starts (d : World) : Prop := ∃ n card, d.flash = ⟨n, []⟩ ∧ d.sd = .boot card

/-- A boot touches nothing but the folder it was asked for and the sync file. -/
theorem appMain_leaves {q : Program Call Call.Reply ((Unit × Boot.Statics) × Statics)}
    {tr : List Event} (hx : x ≠ [Sd.syncName]) (hstart : Starts d)
    (hasked : NotAsked x d.flash.visible)
    (hrun : Steps machine ((appMain cfg).run (.boot cfg)) d tr q e) :
    e.sd.files.card.get x = d.sd.files.card.get x := by
  obtain ⟨n, card, hflash, hsd⟩ := hstart
  rw [hflash, Boot.Flash.visible_nil] at hasked
  exact appMain_keeps (kept_elsewhere d.sd.files.card hx hasked) hflash hsd rfl hrun

/-- In every state of any number of boots of the device, whatever the calls return and
wherever the power is lost: a path of the card is as it was, unless a boot was asked for
a folder it lies in, it is the sync file, or something else has changed it. -/
theorem boots_leave {e' : World} {tr : List Event}
    {q : Program Call Call.Reply ((Unit × Boot.Statics) × Statics)} (hx : x ≠ [Sd.syncName])
    (hstart : Starts d)
    (hboots : Boots cfg (fun a b => b.card.get x = a.card.get x)
      (fun d _ => NotAsked x d.flash.visible) d e)
    (hasked : NotAsked x e.flash.visible)
    (hrun : Steps machine ((appMain cfg).run (.boot cfg)) e tr q e') :
    e'.sd.files.card.get x = d.sd.files.card.get x := by
  have hkept : Starts e ∧ e.sd.files.card.get x = d.sd.files.card.get x := by
    refine Interaction.Boots.invariant
      (P := fun e => Starts e ∧ e.sd.files.card.get x = d.sd.files.card.get x) hboots ?_
      ⟨hstart, rfl⟩
    rintro p q s tr t u ⟨hs, hget⟩ rfl hrun hcond ⟨k, rest, -, hrest, hu, husd⟩
    refine ⟨⟨rest.nvs, rest.card, hu, husd⟩, ?_⟩
    have hcard : rest.card.get x = t.sd.files.card.get x := by
      rcases hrest with rfl | hrest
      · rfl
      · exact hrest
    rw [husd]
    exact hcard.trans ((appMain_leaves hx hs hcond hrun).trans hget)
  exact (appMain_leaves hx hkept.1 hasked hrun).trans hkept.2

end Boot

section Sample

/-- Another folder on the card. -/
def satie : Download.Name := ⟨"satie".toList, by decide⟩

/-- The device of the sample, with that folder on its card. -/
def satieDevice : World :=
  { mozartDevice with sd := .boot (Download.cardOf [("/sdcard/satie".toList, .dir)]) }

def satieBoot : Program Call Call.Reply ((Unit × Boot.Statics) × Statics) × World × List Event :=
  play serve ((appMain Sd.mozartConfig).run (.boot Sd.mozartConfig)) satieDevice

theorem steps_satieBoot : Steps machine ((appMain Sd.mozartConfig).run (.boot Sd.mozartConfig))
    satieDevice satieBoot.2.2 satieBoot.1 satieBoot.2.1 :=
  steps_play machine_of_serve _ _

theorem notAsked_satie : NotAsked [satie] satieDevice.flash.visible := by
  rintro -
  unfold Download.InsideCard
  decide +kernel

theorem boots_leave_satie :
    satieBoot.2.1.flash.visible.load.reason = Boot.reasonDownloadSuccess ∧
      satieBoot.2.1.sd.files.card.get [satie] = satieDevice.sd.files.card.get [satie] :=
  ⟨by decide +kernel, boots_leave (by decide) ⟨_, _, rfl, rfl⟩ (Boots.refl _)
    notAsked_satie steps_satieBoot⟩

end Sample

end Device

end SimiboxDownloader
