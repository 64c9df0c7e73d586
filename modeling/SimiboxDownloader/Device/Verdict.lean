import SimiboxDownloader.Boot.Idle
import SimiboxDownloader.Boot.Verdict
import SimiboxDownloader.Device.Success

/-!
# What the record tells of the device

Where a boot restarts, the record tells what has happened to the radio and the card, as
long as the NVS works (`restart_tells`). And without a request nothing happens to them, in
any number of boots and whatever fails (`boots_idle`).
-/

namespace SimiboxDownloader

namespace Device

open Interaction Interaction.Stateful

section Verdict

variable {cfg : Sd.Config} {J : Download.CJson} {folder : Download.Str} {n : Boot.Nvs}
  {st : Statics} {d e e' : World} {a : Boot.Attempt}

/-- What an attempt to download `folder` has done to the device, in a boot that began in
`d`. -/
def Bears (J : Download.CJson) (folder : Download.Str) (d : World) : Boot.Attempt → World → Prop
  | .untried, e => e.sd = d.sd ∧ e.wifi = d.wifi
  | .offline, e => e.sd = d.sd
  | .online, e => e.sd = d.sd
  | .unmounted, e => e.sd.files = d.sd.files
  | .mounted, e => e.sd.files = d.sd.files
  | .ended success _, e => success = true → Download.Stands J folder e.sd.files.card

theorem Bears.of_eq (h : Bears J folder d a e) (hsd : e'.sd = e.sd) (hwifi : e'.wifi = e.wifi) :
    Bears J folder d a e' := by
  cases a with
  | untried => exact ⟨hsd.trans h.1, hwifi.trans h.2⟩
  | offline | online => exact hsd.trans h
  | unmounted | mounted => exact (congrArg Sd.World.files hsd).trans h
  | ended success sdFailed =>
      intro hsuccess
      rw [hsd]
      exact h hsuccess

end Verdict

section Idle

variable {cfg : Sd.Config} {d e : World} {n : Boot.Nvs}

/-- No download is requested. -/
def Unasked (d : World) : Prop :=
  ∃ n card, d.flash = ⟨n, []⟩ ∧ d.sd = .boot card ∧ ¬ n.load.NeedsDownload

/-- Nothing is known of what stands. -/
abbrev anyFolder : Boot.Str → Unit → Prop := fun _ _ => True

/-- A boot without a request. -/
theorem appMain_idles (hn : ¬ n.load.NeedsDownload) (hflash : d.flash = ⟨n, []⟩) :
    Safe machine (fun o _ => ∃ b, o = .boot b ∧ Composite b = false)
      (fun e => Boot.Before anyFolder n (e.flash, ()) ∧ e.sd = d.sd) (fun _ _ => True)
      ((appMain cfg).run (.boot cfg)) d := by
  let R (_ : Statics) (e : World) (s : Boot.Flash × Unit) : Prop := e.flash = s.1 ∧ e.sd = d.sd
  have hhonest : n.Honest anyFolder () := fun _ => trivial
  have hidles : Boot.Idles anyFolder n (fun _ _ => True) (Boot.appMain.run .fresh) (⟨n, []⟩, ()) :=
    Boot.appMain_idles hn hhonest
  refine (Safe.expand hidles (R := R) ⟨hflash, rfl⟩ ?_).imp fun _ _ _ => trivial
  rintro o st e s hprepares hkeeps ⟨he, hsd⟩
  have ho : Composite o = false := by
    cases o with
    | connectToWifi | mountSd | downloadSimiFolder | unmountSd => exact hprepares.elim
    | _ => rfl
  rw [carryOut_single ho]
  refine ⟨⟨o, rfl, ho⟩, fun r e' hm => ?_⟩
  have hout : Boot.Outside anyFolder o s.2 r () := by
    cases o with
    | downloadSimiFolder => cases ho
    | _ => exact fun _ _ => trivial
  have hbeside : Boot.beside anyFolder o s r (e'.flash, ()) := ⟨he ▸ hm.1, hout⟩
  have hsd' : e'.sd = d.sd := hm.2.1.trans hsd
  exact ⟨⟨hkeeps r _ hbeside, hsd'⟩, _, hbeside, rfl, hsd'⟩

/-- It leaves the card as it is, and no request behind. -/
theorem unasked_of_reset {q : Program Call Call.Reply ((Unit × Boot.Statics) × Statics)}
    {tr : List Event} {k : Boot.Nvs} (hn : ¬ n.load.NeedsDownload) (hflash : d.flash = ⟨n, []⟩)
    (hrun : Steps machine ((appMain cfg).run (.boot cfg)) d tr q e)
    (hreset : e.flash.Reset ⟨k, []⟩) : ¬ k.load.NeedsDownload ∧ e.sd = d.sd := by
  have hhonest : n.Honest anyFolder () := fun _ => trivial
  have hstart : Boot.Before anyFolder n (d.flash, ()) := by
    rw [hflash]
    exact Boot.before_boot hhonest
  obtain ⟨hbefore, hsd⟩ := ((appMain_idles hn hflash).steps ⟨hstart, rfl⟩ hrun).1
  exact ⟨Boot.not_needs_of_same hn (hbefore.record.reset hreset), hsd⟩

/-- musicbox makes no request, and leaves the card alone. -/
def AsksNothing (a b : Rest) : Prop := ¬ b.nvs.load.NeedsDownload ∧ b.card = a.card

/-- In any number of boots without a request, whatever the calls return and wherever the
power is lost: every call is one of the boot itself and none is carried out by another
program, so none goes to the radio or the card and none is a download, and the card is
as it was. -/
theorem boots_idle {e' : World} {tr : List Event}
    {q : Program Call Call.Reply ((Unit × Boot.Statics) × Statics)} (hunasked : Unasked d)
    (hboots : Boots cfg AsksNothing (fun _ _ => True) d e)
    (hrun : Steps machine ((appMain cfg).run (.boot cfg)) e tr q e') :
    (∀ ev ∈ tr, ∃ b, ev.op = .boot b ∧ Composite b = false) ∧
      e'.sd.files.card = d.sd.files.card := by
  have hkept : Unasked e ∧ e.sd.files.card = d.sd.files.card := by
    refine Interaction.Boots.invariant
      (P := fun e => Unasked e ∧ e.sd.files.card = d.sd.files.card) hboots ?_ ⟨hunasked, rfl⟩
    rintro _ _ s tr t u ⟨⟨n, card, hflash, hsd, hn⟩, hcard⟩ rfl hrun -
      ⟨k, rest, hreset, hrest, hu, husd⟩
    obtain ⟨hk, hsame⟩ := unasked_of_reset hn hflash hrun hreset
    have hrest' : ¬ rest.nvs.load.NeedsDownload ∧ rest.card = t.sd.files.card := by
      rcases hrest with rfl | hrest
      · exact ⟨hk, rfl⟩
      · exact hrest
    refine ⟨⟨rest.nvs, rest.card, hu, husd, hrest'.1⟩, ?_⟩
    rw [husd, ← hcard, ← hsame]
    exact hrest'.2
  obtain ⟨⟨n, card, hflash, hsd, hn⟩, hcard⟩ := hkept
  refine ⟨(appMain_idles hn hflash).events hrun, ?_⟩
  rw [(unasked_of_reset hn hflash hrun (reset_visible e'.flash)).2]
  exact hcard

end Idle

section Sample

/-- A device that has delivered `mozart`. -/
def mozartDelivered : World where
  flash := ⟨(Boot.requested "mozart".toList 0).delivered, []⟩
  wifi := Wifi.idleState
  sd := .boot (Download.cardOf [("/sdcard/mozart".toList, .dir)])

/-- Its next boot. -/
def idleBoot : Program Call Call.Reply ((Unit × Boot.Statics) × Statics) × World × List Event :=
  play serve ((appMain Sd.mozartConfig).run (.boot Sd.mozartConfig)) mozartDelivered

theorem steps_idleBoot : Steps machine ((appMain Sd.mozartConfig).run (.boot Sd.mozartConfig))
    mozartDelivered idleBoot.2.2 idleBoot.1 idleBoot.2.1 :=
  steps_play machine_of_serve _ _

theorem boots_idle_mozart :
    idleBoot.2.2.length = 27 ∧
      (∀ ev ∈ idleBoot.2.2, ∃ b, ev.op = .boot b ∧ Composite b = false) ∧
      idleBoot.2.1.sd.files.card = mozartDelivered.sd.files.card := by
  have hunasked : Unasked mozartDelivered := ⟨_, _, rfl, rfl, by decide +kernel⟩
  exact ⟨by decide +kernel, boots_idle hunasked (Boots.refl _) steps_idleBoot⟩

end Sample

end Device

end SimiboxDownloader
