import SimiboxDownloader.Device.Machine
import SimiboxDownloader.Wifi.ConnectBest

/-!
# The boot model and the device

`Boot` takes the connection, the mount, the download and the unmount for single calls
that leave the record alone. Every run of the device is a run of that model, cut where
the device is cut: with the same calls for the rest of the boot sequence in the same
order and with the same replies, and with the same flash (`appMain_refines`). So the
device keeps what the model keeps, boot after boot (`boots_refine`).
-/

namespace SimiboxDownloader

namespace Device

open Interaction

/-- The calls that are carried out by a program. -/
def Composite : Boot.BootCall → Bool
  | .connectToWifi => true
  | .mountSd => true
  | .downloadSimiFolder _ => true
  | .unmountSd _ => true
  | _ => false

abbrev BootEvent := Interaction.Event Boot.BootCall Boot.BootReply Boot.Flash

abbrev Event := Interaction.Event Call Call.Reply World

/-- A call of the boot sequence that is a single call on the device too. -/
def single (e : BootEvent) : Option BootEvent :=
  if Composite e.op then none else some e

/-- A call of the device, as the boot sequence sees it. -/
def seen : Event → Option BootEvent
  | ⟨d, .boot o, r, e⟩ => some ⟨d.flash, o, r, e.flash⟩
  | _ => none

variable {cfg : Sd.Config} {d e : World} {tr : List Event}

/-- A composite call of the model replies anything and leaves the flash alone. -/
theorem bootMachine_of_composite {o : Boot.BootCall} (ho : Composite o = true)
    (f : Boot.Flash) (r : Boot.BootReply o) : Boot.bootMachine o f r f := by
  cases o with
  | connectToWifi | mountSd | downloadSimiFolder | unmountSd => rfl
  | _ => cases ho

theorem seen_nil {α : Type} {p q : Program Call Call.Reply α} {C : Call → World → Prop}
    {I : World → Prop} {Q : α → World → Prop} (h : Safe machine C I Q p d)
    (hC : ∀ o e, C o e → ∀ b, o ≠ .boot b) (hrun : Steps machine p d tr q e) :
    tr.filterMap seen = [] := by
  rw [List.filterMap_eq_nil_iff]
  intro ev hev
  have hop := hC _ _ (h.events hrun ev hev)
  obtain ⟨before, o, r, after⟩ := ev
  cases o with
  | boot b => exact absurd rfl (hop b)
  | wifi | sd => rfl

/-- The calls behind a composite call are for the radio or the card. -/
theorem composite_inside {o : Boot.BootCall} (ho : Composite o = true) {st : Statics} :
    Safe machine (fun o' _ => ∀ b, o' ≠ .boot b) (fun _ => True) (fun _ _ => True)
      ((carryOut cfg o).run st) d := by
  have hsd {α : Type} (p : Sd.Action α) : Safe machine (fun o' _ => ∀ b, o' ≠ .boot b)
      (fun _ => True) (fun _ _ => True) ((onSd p).run st) d := by
    have hp : Safe Sd.machine (fun _ _ => True) (fun _ => True) (fun _ _ => True)
        (p.run st.sd) d.sd := safe_of_steps fun _ _ _ _ => trivial
    refine (onSd_safe hp).mono (fun _ _ _ _ hm => hm) ?_ (fun _ _ => trivial) fun _ _ _ => trivial
    rintro _ _ ⟨c, rfl, -⟩ b
    exact nofun
  cases o with
  | connectToWifi =>
      refine (onWifi_safe st d _).mono (fun _ _ _ _ hm => hm) ?_ (fun _ _ => trivial)
        fun _ _ _ => trivial
      rintro _ _ ⟨c, rfl⟩ b
      exact nofun
  | mountSd | downloadSimiFolder | unmountSd => exact hsd _
  | _ => cases ho

/-- The programs behind the composite calls leave the flash alone, and the boot
sequence does not see their calls. -/
theorem composite_run {o : Boot.BootCall} (ho : Composite o = true) {st : Statics}
    {q : Program Call Call.Reply (Boot.BootReply o × Statics)}
    (hrun : Steps machine ((carryOut cfg o).run st) d tr q e) :
    e.flash = d.flash ∧ tr.filterMap seen = [] := by
  refine ⟨?_, seen_nil (composite_inside ho) (fun _ _ hc => hc) hrun⟩
  have hsd {α : Type} {p : Sd.Action α} {q : Program Call Call.Reply (α × Statics)}
      (hrun : Steps machine ((onSd p).run st) d tr q e) : e.flash = d.flash := by
    have hp : Safe Sd.machine (fun _ _ => True) (fun _ => True) (fun _ _ => True)
        (p.run st.sd) d.sd := safe_of_steps fun _ _ _ _ => trivial
    exact ((onSd_safe hp).steps ⟨rfl, trivial⟩ hrun).1.1
  cases o with
  | connectToWifi =>
      exact ((onWifi_safe st d Wifi.connectToWifiWithFeedback).steps ⟨rfl, rfl⟩ hrun).1.1
  | mountSd | downloadSimiFolder | unmountSd => exact hsd hrun
  | _ => cases ho

theorem carryOut_single {o : Boot.BootCall} (ho : Composite o = false) :
    carryOut cfg o = Stateful.call (Call.boot o) := by
  cases o with
  | connectToWifi | mountSd | downloadSimiFolder | unmountSd => cases ho
  | _ => rfl

/-- Every call of the model is carried out as the model has it. -/
theorem carryOut_implements :
    Implements Boot.bootMachine machine (fun _ d f => d.flash = f) single seen (carryOut cfg) := by
  rintro o st d _ tr x e rfl hrun
  cases ho : Composite o with
  | true =>
      obtain ⟨hflash, hseen⟩ := composite_run ho hrun
      refine ⟨d.flash, bootMachine_of_composite ho _ _, hflash, ?_⟩
      rw [hseen, single, if_pos ho]
      rfl
  | false =>
      rw [carryOut_single ho] at hrun
      obtain ⟨r, _, tr', rfl, hm, hrest⟩ := hrun.of_call_pure
      cases hrest
      refine ⟨e.flash, hm.1, rfl, ?_⟩
      rw [single, if_neg (by rw [ho]; exact Bool.false_ne_true)]
      rfl

/-- Every run of a boot sequence on the device, cut anywhere, is one of the model. -/
theorem refines {α : Type} {p : Program Boot.BootCall Boot.BootReply α} {st : Statics}
    {q : Program Call Call.Reply (α × Statics)}
    (hrun : Steps machine ((p.expand (carryOut cfg)).run st) d tr q e) :
    ∃ tr' q', Steps Boot.bootMachine p d.flash tr' q' e.flash ∧
      tr.filterMap seen = tr'.filterMap single := by
  obtain ⟨x, tr', f, -, hsteps, rfl, hseen⟩ |
    ⟨o, next, st₁, d₁, f, tr', whole, cut, rest, rfl, hsteps, rfl, hcut, hrest, -, hseen⟩ :=
      Steps.of_expand carryOut_implements rfl hrun
  · exact ⟨tr', _, hsteps, hseen⟩
  · rw [List.filterMap_append, hseen]
    cases ho : Composite o with
    | true =>
        obtain ⟨hflash, hnil⟩ := composite_run ho hcut
        rw [hflash, hnil, List.append_nil]
        exact ⟨tr', _, hsteps, rfl⟩
    | false =>
        -- a single call is not cut
        rw [carryOut_single ho] at hcut
        cases hcut with
        | refl => exact ⟨tr', _, hsteps, List.append_nil _⟩
        | call hm hrest' =>
            cases hrest'
            cases hrest

/-- Every run of `app_main` on the device is one of the model of the boot sequence. -/
theorem appMain_refines {st : Statics}
    {q : Program Call Call.Reply ((Unit × Boot.Statics) × Statics)}
    (hrun : Steps machine ((appMain cfg).run st) d tr q e) :
    ∃ tr' q', Steps Boot.bootMachine (Boot.appMain.run .fresh) d.flash tr' q' e.flash ∧
      tr.filterMap seen = tr'.filterMap single :=
  refines hrun

/-- What happens to the flash between two boots, when `between` happens to the device. -/
def FlashReboot (between : Rest → Rest → Prop) (f g : Boot.Flash) : Prop :=
  ∃ n n', f.Reset ⟨n, []⟩ ∧ (n' = n ∨ ∃ card card', between ⟨n, card⟩ ⟨n', card'⟩) ∧ g = ⟨n', []⟩

/-- Boots of the model, each of which has its calls in common with a boot of the
device. -/
abbrev FlashBoots (between : Rest → Rest → Prop) (cond : World → List Event → Prop) :
    Boot.Flash → Boot.Flash → Prop :=
  Interaction.Boots Boot.bootMachine (fun p => p = Boot.appMain.run .fresh) (FlashReboot between)
    fun f tr' => ∃ (d : World) (tr : List Event), d.flash = f ∧ cond d tr ∧
      tr.filterMap seen = tr'.filterMap single

/-- Over any number of boots of the device, each of them cut anywhere and with anything
in between, the flash goes as in the model of the boot sequence. -/
theorem boots_refine {between : Rest → Rest → Prop} {cond : World → List Event → Prop}
    (hboots : Boots cfg between cond d e) : FlashBoots between cond d.flash e.flash := by
  induction hboots with
  | refl => exact .refl _
  | boot _ hp hrun hcond hreboot ih =>
      subst hp
      obtain ⟨tr', q', hsteps, hseen⟩ := appMain_refines hrun
      obtain ⟨n, rest, hreset, hbetween, hflash, -⟩ := hreboot
      refine ih.boot rfl hsteps ⟨_, _, rfl, hcond, hseen⟩ ⟨n, rest.nvs, hreset, ?_, hflash⟩
      rcases hbetween with rfl | hbetween
      · exact Or.inl rfl
      · exact Or.inr ⟨_, rest.card, hbetween⟩

section Sample

/-- A device on which every call succeeds; a boot ends at the restart. -/
def serve : (o : Call) → World → Option (o.Reply × World)
  | .boot o, d => (Boot.healthy o d.flash).map fun x => (x.1,
      { d with flash := x.2, wifi := { d.wifi with stored := networksAfter d.wifi.stored o x.1 } })
  | .wifi o, d => (Transition.run Wifi.step d.wifi (Wifi.duringWait o d.wifi)).map fun s =>
      ((Wifi.respond [] o s).1, { d with wifi := (Wifi.respond [] o s).2 })
  | .sd o, d => (Sd.serve Download.mozart.env (fun _ _ => .ok) o d.sd).map fun x =>
      (x.1, { d with sd := x.2 })

theorem machine_of_serve (o : Call) (d : World) (r : o.Reply) (e : World)
    (h : serve o d = some (r, e)) : machine o d r e := by
  cases o with
  | boot o =>
      obtain ⟨x, hx, heq⟩ := Option.map_eq_some_iff.1 h
      cases heq
      exact ⟨(Boot.healthy_works o d.flash _ _ hx).1, rfl, rfl⟩
  | wifi o =>
      obtain ⟨s, hs, heq⟩ := Option.map_eq_some_iff.1 h
      cases heq
      exact ⟨⟨s, Transition.Reaches.of_run hs, Wifi.effect_respond [] o s⟩, rfl, rfl⟩
  | sd o =>
      obtain ⟨x, hx, heq⟩ := Option.map_eq_some_iff.1 h
      cases heq
      exact ⟨Sd.machine_of_serve o d.sd _ _ hx, rfl, rfl⟩

/-- The device at the next boot, when all writes have reached the flash. -/
def World.rebooted (d : World) : World where
  flash := ⟨d.flash.visible, []⟩
  wifi := Wifi.idleState
  sd := .boot d.sd.files.card

theorem reset_visible (f : Boot.Flash) : f.Reset ⟨f.visible, []⟩ := by
  refine ⟨f.pending.length, ?_⟩
  rw [List.take_length]
  rfl

theorem boots_rebooted {between : Rest → Rest → Prop} {cond : World → List Event → Prop}
    {q : Program Call Call.Reply ((Unit × Boot.Statics) × Statics)} (hcond : cond d tr)
    (hrun : Steps machine ((appMain cfg).run (.boot cfg)) d tr q e) :
    Boots cfg between cond d e.rebooted :=
  (Boots.refl d).boot rfl hrun hcond ⟨_, _, reset_visible e.flash, Or.inl rfl, rfl, rfl⟩

theorem rebooted_reset (d : World) : d.rebooted.flash.Reset ⟨d.flash.visible, []⟩ := ⟨0, rfl⟩

/-- A request for `mozart`, and an empty card. -/
def mozartDevice : World where
  flash := ⟨Boot.requested "mozart".toList 0, []⟩
  wifi := Wifi.idleState
  sd := .boot (Download.cardOf [])

/-- The boot that downloads it. -/
def mozartBoot : Program Call Call.Reply ((Unit × Boot.Statics) × Statics) × World × List Event :=
  play serve ((appMain Sd.mozartConfig).run (.boot Sd.mozartConfig)) mozartDevice

theorem steps_mozartBoot : Steps machine ((appMain Sd.mozartConfig).run (.boot Sd.mozartConfig))
    mozartDevice mozartBoot.2.2 mozartBoot.1 mozartBoot.2.1 :=
  steps_play machine_of_serve _ _

theorem boots_refine_mozart :
    FlashBoots (fun _ _ => False) (fun _ _ => True) mozartDevice.flash
      mozartBoot.2.1.rebooted.flash ∧
    mozartBoot.2.1.flash.visible.load.reason = Boot.reasonDownloadSuccess :=
  ⟨boots_refine (boots_rebooted trivial steps_mozartBoot), by decide +kernel⟩

end Sample

end Device

end SimiboxDownloader
