import SimiboxDownloader.Boot.Request
import SimiboxDownloader.Sd.Lifecycle
import SimiboxDownloader.Wifi.Creds

/-!
# The whole device

The boot sequence makes four calls of which `Boot` says little: the connection, the
mount, the download and the unmount. Here they are the programs of `Wifi`, `Sd` and
`Download` (`carryOut`), on a device that has the flash, the radio and the card.
`appMain` is `app_main` with nothing left out between its statements and the calls of
the drivers.
-/

namespace SimiboxDownloader

namespace Device

open Interaction

/-- The calls of the firmware. -/
inductive Call
  | boot (o : Boot.BootCall)
  | wifi (o : Wifi.WifiCall)
  | sd (o : Sd.SdCall)

@[reducible] def Call.Reply : Call → Type
  | .boot o => Boot.BootReply o
  | .wifi o => o.Reply
  | .sd o => o.Reply

/-- The namespace `bootmgr`, the radio with the namespace `wifi_creds`, and the card. -/
structure World where
  flash : Boot.Flash
  wifi : Wifi.State
  sd : Sd.World

/-- Nothing is stored in `wifi_creds`. -/
def noNetworks : Wifi.Stored := ⟨none, fun _ => none, fun _ => none⟩

/-- The stored networks after a call of the boot sequence. -/
def networksAfter (s : Wifi.Stored) : (o : Boot.BootCall) → Boot.BootReply o → Wifi.Stored
  | .nvsFlashErase, r => if r then noNetworks else s
  | .nvsEraseAll .wifiCreds, r => if r then noNetworks else s
  | _, _ => s

/-- Each call is one for a part of the device, and leaves the other parts alone. -/
def machine : Machine Call Call.Reply World
  | .boot o, d, r, e => Boot.bootMachine o d.flash r e.flash ∧ e.sd = d.sd ∧
      e.wifi = { d.wifi with stored := networksAfter d.wifi.stored o r }
  | .wifi o, d, r, e => Wifi.machine Wifi.step o d.wifi r e.wifi ∧ e.flash = d.flash ∧ e.sd = d.sd
  | .sd o, d, r, e => Sd.machine o d.sd r e.sd ∧ e.flash = d.flash ∧ e.wifi = d.wifi

/-- `wifi_handle` and the statics of `simibox_download.cpp`. -/
structure Statics where
  wifi : Wifi.WifiHandle
  sd : Sd.Statics

def Statics.boot (cfg : Sd.Config) : Statics := ⟨⟨[], false⟩, .boot cfg.sdSpiFreqKhz⟩

abbrev Action := Stateful Call Call.Reply Statics

/-- A program of `Wifi`. -/
def onWifi {α : Type} (p : Wifi.Action α) : Action α :=
  Stateful.within Statics.wifi (fun st h => { st with wifi := h })
    (fun o => Stateful.call (Call.wifi o)) p

/-- A program of `Sd`. -/
def onSd {α : Type} (p : Sd.Action α) : Action α :=
  Stateful.within Statics.sd (fun st s => { st with sd := s })
    (fun o => Stateful.call (Call.sd o)) p

/-- The statements of `handle_download_with_retry` that mount the card. -/
def mountClean (cfg : Sd.Config) : Sd.Action Bool := do
  Sd.forceCleanSdBus
  Sd.mountSd cfg.sdSpiFreqKhz

def downloadFolder (cfg : Sd.Config) (folder : Download.Str) : Sd.Action (Bool × Bool) := do
  let e ← Sd.downloadSimiFolder cfg folder
  return (e.ret, e.outSdFailed)

/-- What is behind the calls of the boot sequence. -/
def carryOut (cfg : Sd.Config) : (o : Boot.BootCall) → Action (Boot.BootReply o)
  | .connectToWifi => onWifi Wifi.connectToWifiWithFeedback
  | .mountSd => onSd (mountClean cfg)
  | .downloadSimiFolder folder => onSd (downloadFolder cfg folder)
  | .unmountSd cardHealthy => onSd (Sd.unmountSd cardHealthy)
  | o => Stateful.call (Call.boot o)

def appMain (cfg : Sd.Config) : Action (Unit × Boot.Statics) :=
  (Boot.appMain.run .fresh).expand (carryOut cfg)

section Parts

variable {α : Type} {st : Statics} {d : World}

/-- A program of `Wifi` leaves the other parts alone. -/
theorem onWifi_safe (st : Statics) (d : World) (p : Wifi.Action α) :
    Safe machine (fun o _ => ∃ c, o = .wifi c) (fun e => e.flash = d.flash ∧ e.sd = d.sd)
      (fun x e => e.flash = d.flash ∧ e.sd = d.sd ∧ x.2.sd = st.sd) ((onWifi p).run st) d := by
  have hp : Safe (Wifi.machine Wifi.step) (fun _ _ => True) (fun _ => True) (fun _ _ => True)
      (p.run st.wifi) d.wifi := safe_of_steps fun _ _ _ _ => trivial
  let R (st' : Statics) (e : World) (w : Wifi.State) : Prop :=
    e.wifi = w ∧ e.flash = d.flash ∧ e.sd = d.sd ∧ st'.sd = st.sd
  refine Safe.imp (Safe.within hp (R := R) ⟨rfl, rfl, rfl, rfl⟩ ?_) ?_
  · rintro o st' e w - - ⟨rfl, hflash, hsd, hst⟩
    refine ⟨⟨o, rfl⟩, fun r e' hm => ?_⟩
    have hflash' := hm.2.1.trans hflash
    have hsd' := hm.2.2.trans hsd
    exact ⟨⟨hflash', hsd'⟩, e'.wifi, hm.1, rfl, hflash', hsd', hst⟩
  · rintro ⟨a, st'⟩ e ⟨st₀, y, w, -, ⟨-, hflash, hsd, hst⟩, rfl⟩
    exact ⟨hflash, hsd, hst⟩

/-- What is known of the replies of the driver. -/
def ofSd (G : (o : Sd.SdCall) → o.Reply → Prop) : (o : Call) → o.Reply → Prop
  | .sd o, r => G o r
  | _, _ => True

theorem onSd_uses {A : Sd.SdCall → Prop} {G : (o : Sd.SdCall) → o.Reply → Prop}
    {p : Sd.Action α} (h : Stateful.Uses A G p) :
    Stateful.Uses (fun o => ∃ c, o = .sd c ∧ A c) (ofSd G) (onSd p) :=
  h.within fun o st _ ho hk => ⟨⟨o, rfl, ho⟩, fun r hr => hk (r, st) hr⟩

/-- A judgement about a program of `Sd` is one about it on the device. -/
theorem onSd_safe {p : Sd.Action α} {C : Sd.SdCall → Sd.World → Prop} {I : Sd.World → Prop}
    {Q : α × Sd.Statics → Sd.World → Prop} (h : Safe Sd.machine C I Q (p.run st.sd) d.sd) :
    Safe machine (fun o e => ∃ c, o = .sd c ∧ C c e.sd) (fun e => e.flash = d.flash ∧ I e.sd)
      (fun x e => e.flash = d.flash ∧ Q (x.1, x.2.sd) e.sd) ((onSd p).run st) d := by
  let R (_ : Statics) (e : World) (w : Sd.World) : Prop := e.sd = w ∧ e.flash = d.flash
  refine Safe.imp (Safe.within h (R := R) ⟨rfl, rfl⟩ ?_) ?_
  · rintro o st' e w ho hI ⟨rfl, hflash⟩
    refine ⟨⟨o, rfl, ho⟩, fun r e' hm => ?_⟩
    have hflash' := hm.2.1.trans hflash
    exact ⟨⟨hflash', hI r e'.sd hm.1⟩, e'.sd, hm.1, rfl, hflash'⟩
  · rintro ⟨a, st'⟩ e ⟨st₀, y, w, hQ, ⟨rfl, hflash⟩, rfl⟩
    exact ⟨hflash, hQ⟩

end Parts

/-- The record and the card between two boots. -/
structure Rest where
  nvs : Boot.Nvs
  card : DirTree.Tree Download.Name Download.Bytes

/-- A reset: what was in memory is lost, and of the writes since the last commit those
from some point on. Then `between` may happen before the next boot. -/
def Reboot (between : Rest → Rest → Prop) (d e : World) : Prop :=
  ∃ n rest, d.flash.Reset ⟨n, []⟩ ∧ (rest = ⟨n, d.sd.files.card⟩ ∨
      between ⟨n, d.sd.files.card⟩ rest) ∧
    e.flash = ⟨rest.nvs, []⟩ ∧ e.sd = .boot rest.card

/-- Boots of the device, each of which is cut anywhere. -/
abbrev Boots (cfg : Sd.Config) (between : Rest → Rest → Prop)
    (cond : World → List (Event Call Call.Reply World) → Prop) : World → World → Prop :=
  Interaction.Boots machine (fun p => p = (appMain cfg).run (.boot cfg)) (Reboot between) cond

end Device

end SimiboxDownloader
