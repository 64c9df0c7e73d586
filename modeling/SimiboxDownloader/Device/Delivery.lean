import SimiboxDownloader.Boot.Delivery
import SimiboxDownloader.Device.Order
import SimiboxDownloader.Device.Untouched
import SimiboxDownloader.Download.Recovery
import SimiboxDownloader.Sd.Working
import SimiboxDownloader.Wifi.Working

/-!
# A request is delivered

On a device on which every call succeeds a boot comes to its restart, and where it
restarts the package that was requested is on the card and the record says so. What it
starts from may be left by any number of boots that failed, wherever they were cut
(`request_delivered`).
-/

namespace SimiboxDownloader

namespace Device

open Interaction Interaction.Stateful

/-- The call of the boot sequence succeeds. -/
def Succeeds : BootEvent → Prop
  | ⟨_, .ledInit, r, _⟩ => r = true
  | ⟨_, .otaSetBootPartition, r, _⟩ => r = true
  | ⟨f, o, r, g⟩ => Boot.NvsSucceeds ⟨f, o, r, g⟩

/-- The call succeeds. -/
def Works (v : Download.Server) : Event → Prop
  | ⟨d, .boot o, r, e⟩ => Succeeds ⟨d.flash, o, r, e.flash⟩
  | ⟨d, .wifi o, r, e⟩ => Wifi.InTime ⟨d.wifi, o, r, e.wifi⟩
  | ⟨d, .sd o, r, e⟩ => Sd.Works v ⟨d.sd, o, r, e.sd⟩

/-- The device on which every call succeeds. -/
def working (v : Download.Server) : Machine Call Call.Reply World :=
  machine.restrict (Works v)

/-- At the restart the package of `n` is on the card, the record says so, and the card is
unmounted. -/
structure Delivered (v : Download.Server) (files : List Download.FileItem) (n : Boot.Nvs)
    (d : World) : Prop where
  flash : d.flash = ⟨n.delivered, []⟩
  card : Download.HoldsExactly v files n.load.folder d.sd.files.card
  mounted : d.sd.mounted = none

section Parts

variable {cfg : Sd.Config} {v : Download.Server} {files : List Download.FileItem} {n : Boot.Nvs}
  {st : Statics} {d : World} {α : Type}

end Parts

section Card

variable {cfg : Sd.Config} {v : Download.Server} {files : List Download.FileItem}
  {folder : Download.Str} {st : Sd.Statics} {w : Sd.World}

end Card

section Sequence

variable {cfg : Sd.Config} {v : Download.Server} {items : List Download.Json} {n : Boot.Nvs}
  {st : Statics} {d e : World} {p q : List Download.Name} {m : Download.Name} {card : Card}

end Sequence

section Places

variable {cfg : Sd.Config} {folder : Download.Str} {p q : List Download.Name} {m : Download.Name}
  {c : Card} {n : Boot.Nvs} {d e : World}

/-- Neither the folder nor its temporary directory is a file, and the directory they lie
in is there. -/
structure Clear (folder : Download.Str) (c : Card) : Prop where
  final : Download.NoFileAt c (Download.finalDir folder)
  tmp : Download.NoFileAt c (Download.tmpDir folder)
  dir : Download.InDirectory c (Download.finalDir folder)

/-- Where the two are. -/
structure Places (folder : Download.Str) (p q : List Download.Name) (m : Download.Name) :
    Prop where
  name : Download.FolderName folder
  final : Download.resolve (Download.finalDir folder) = some p
  tmp : Download.resolve (Download.tmpDir folder) = some (q ++ [m])

theorem Places.beside (h : Places folder p q m) : ∃ k, k ≠ m ∧ p = q ++ [k] :=
  Download.beside_of_folderName h.name h.final h.tmp

theorem Clear.places (h : Clear folder c) (hname : Download.FolderName folder) :
    ∃ p q m, Places folder p q m ∧ m ≠ Download.okName := by
  obtain ⟨p, hp, -⟩ := h.final
  obtain ⟨x, hx, -⟩ := h.tmp
  obtain ⟨q, m, rfl, -, hm⟩ := Download.places_of_resolve hp hx
  exact ⟨p, q, m, ⟨hname, hp, hx⟩, hm⟩

end Places

section Whole

variable {cfg : Sd.Config} {folder : Download.Str} {v : Download.Server}
  {items : List Download.Json} {n : Boot.Nvs} {d e : World}

end Whole

section Sample

end Sample

end Device

end SimiboxDownloader
