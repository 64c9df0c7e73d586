import SimiboxDownloader.Download.Progress
import SimiboxDownloader.Library.Refinement

/-!
# The SPI bus and the card on it

`force_clean_sd_bus`, `mount_sd` and `unmount_sd` with the statics they share,
`s_card` and `s_spi_bus_initialized`. `machine` is the driver below them: the bus is
initialized or free, a card is mounted on it or not, and the files of the card can be
reached while it is. A download runs between a mount and an unmount; its calls are
calls of this machine too.
-/

namespace SimiboxDownloader

namespace Sd

open Interaction Download

/-- What `spi_bus_initialize` returns. -/
inductive BusInit
  | ok
  /-- `ESP_ERR_INVALID_STATE` -/
  | invalidState
  | failed
  deriving DecidableEq

/-- The calls for the bus and the card, and those of a download. -/
inductive SdCall
  | spiBusInitialize
  | spiBusFree
  | sdspiMount (freqKhz : ℤ)
  | sdcardUnmount (card : ℕ)
  /-- `sd_aggressive_card_reset`, which drives the pins of the bus as GPIOs -/
  | cardReset
  | download (o : Download.Call)

/-- `esp_vfs_fat_sdspi_mount` returns the card, and whether its host has
`set_card_clk`. -/
@[reducible] def SdCall.Reply : SdCall → Type
  | .spiBusInitialize => BusInit
  | .spiBusFree => Unit
  | .sdspiMount _ => Option (ℕ × Bool)
  | .sdcardUnmount _ => Unit
  | .cardReset => Unit
  | .download o => o.Reply

/-- The bus, the card that is mounted and the files. `next` is the next card to be
mounted. -/
structure World where
  bus : Bool
  mounted : Option ℕ
  next : ℕ
  files : Download.World

/-- After a boot. -/
def World.boot (card : DirTree.Tree Name Bytes) : World where
  bus := false
  mounted := none
  next := 0
  files := .boot card

/-- What a call of the file system returns where nothing is mounted. -/
def failure : (c : FsCall) → c.Reply
  | .stat _ => none
  | .opendir _ => none
  | .fopen _ _ => none
  | .ftell _ => none
  | .fread _ _ => []
  | .mkdir _ => false
  | .unlink _ => false
  | .rmdir _ => false
  | .remove _ => false
  | .rename _ _ => false
  | .fputs _ _ => false
  | .fflush _ => false
  | .fsync _ => false
  | .fclose _ => false
  | .fseek _ _ => false

/-- A call of a download. -/
def downloadStep (o : Download.Call) (w : World) (r : o.Reply) (t : World) : Prop :=
  match o with
  | .fs c =>
      if w.mounted.isSome then
        Download.machine (.fs c) w.files r t.files ∧ t = { w with files := t.files }
      else r = failure c ∧ t = w
  | o => Download.machine o w.files r t.files ∧ t = { w with files := t.files }

/-- What the calls reply and do. A bus is initialized once, a card is mounted once on
an initialized bus, and a bus with a card on it is not freed. -/
def machine : Machine SdCall SdCall.Reply World
  | .spiBusInitialize, w, r, t =>
      if w.bus then r = .invalidState ∧ t = w
      else r = .failed ∧ t = w ∨ r = .ok ∧ t = { w with bus := true }
  | .spiBusFree, w, _, t => t = if w.mounted.isSome then w else { w with bus := false }
  | .sdspiMount _, w, r, t => r = none ∧ t = w ∨
      w.bus = true ∧ w.mounted = none ∧ ∃ hasClk, r = some (w.next, hasClk) ∧
        t = { w with mounted := some w.next, next := w.next + 1 }
  | .sdcardUnmount card, w, _, t =>
      t = if w.mounted = some card then { w with mounted := none } else w
  | .cardReset, w, _, t => t = w
  | .download o, w, r, t => downloadStep o w r t

section Driver

variable {w t : World}

theorem machine_spiBusInitialize {r : BusInit} : machine .spiBusInitialize w r t ↔
    if w.bus then r = .invalidState ∧ t = w
    else r = .failed ∧ t = w ∨ r = .ok ∧ t = { w with bus := true } := Iff.rfl

theorem machine_spiBusFree {r : Unit} : machine .spiBusFree w r t ↔
    t = if w.mounted.isSome then w else { w with bus := false } := Iff.rfl

theorem machine_sdcardUnmount {card : ℕ} {r : Unit} : machine (.sdcardUnmount card) w r t ↔
    t = if w.mounted = some card then { w with mounted := none } else w := Iff.rfl

theorem machine_sdspiMount {freqKhz : ℤ} {r : Option (ℕ × Bool)} :
    machine (.sdspiMount freqKhz) w r t ↔ r = none ∧ t = w ∨
      w.bus = true ∧ w.mounted = none ∧ ∃ hasClk, r = some (w.next, hasClk) ∧
        t = { w with mounted := some w.next, next := w.next + 1 } := Iff.rfl

end Driver

/-- `s_card`, `s_spi_bus_initialized` and the statics of the downloads. -/
structure Statics where
  card : Option ℕ
  spiBusInitialized : Bool
  download : Download.Statics

/-- After a boot, with the clock `SD_SPI_FREQ_KHZ`. -/
def Statics.boot (sdSpiFreqKhz : ℤ) : Statics where
  card := none
  spiBusInitialized := false
  download := .boot false sdSpiFreqKhz

abbrev Action := Stateful SdCall SdCall.Reply Statics

def call (o : SdCall) : Action o.Reply := Stateful.call o

def fs (c : FsCall) : Action c.Reply := Stateful.call (SdCall.download (.fs c))

/-- `if (s_card != nullptr) { esp_vfs_fat_sdcard_unmount(..); s_card = nullptr; }` -/
def unmountCard : Action Unit := do
  let st ← get
  match st.card with
  | some card => do
      call (.sdcardUnmount card)
      modify fun st =>
        { st with card := none, download := { st.download with cardHasClk := false } }
  | none => return ()

/-- `if (s_spi_bus_initialized) { spi_bus_free(SPI2_HOST); .. = false; }` -/
def freeBus : Action Unit := do
  let st ← get
  if st.spiBusInitialized then do
    call .spiBusFree
    modify fun st => { st with spiBusInitialized := false }
  else return ()

def forceCleanSdBus : Action Unit := do
  unmountCard
  freeBus
  call .cardReset

def mountLadder (sdSpiFreqKhz : ℤ) : List ℤ := [sdSpiFreqKhz, 10000, 4000, 400]

/-- The loop over the ladder. -/
def mountRungs : ℤ → List ℤ → Action Bool
  | _, [] => do
      call .spiBusFree
      modify fun st => { st with spiBusInitialized := false }
      return false
  | prevFreq, freq :: rungs =>
      -- only ever a step down
      if prevFreq ≤ freq then mountRungs prevFreq rungs
      else do
        let card? ← call (.sdspiMount freq)
        match card? with
        | some (card, hasClk) => do
            modify fun st => { st with
              card := some card
              download := { st.download with cardHasClk := hasClk, sdFreqKhz := freq } }
            return true
        | none => mountRungs freq rungs

/-- `spi_bus_initialize`, a second time on a bus that was left initialized. -/
def initializeBus : Action BusInit := do
  let ret ← call .spiBusInitialize
  match ret with
  | .invalidState => do
      call .spiBusFree
      call .spiBusInitialize
  | ret => return ret

def mountSd (sdSpiFreqKhz : ℤ) : Action Bool := do
  let ret ← initializeBus
  match ret with
  | .ok => do
      modify fun st => { st with spiBusInitialized := true }
      mountRungs 1000000 (mountLadder sdSpiFreqKhz)
  | _ => return false

/-- `std::string(mount_point) + "/.sync"` -/
def syncPath : Str := "/sdcard/.sync".toList

/-- The bytes of `"sync"`. -/
def syncText : Bytes := [115, 121, 110, 99]

/-- The sync write of `unmount_sd`. -/
def writeSync : Action Unit := do
  let file? ← fs (.fopen syncPath .wb)
  match file? with
  | some file => do
      let _ ← fs (.fputs syncText file)
      let _ ← fs (.fflush file)
      let _ ← fs (.fsync file)
      let _ ← fs (.fclose file)
      let _ ← fs (.remove syncPath)
      return ()
  | none => return ()

def unmountSd (cardHealthy : Bool) : Action Unit := do
  if cardHealthy then writeSync
  unmountCard
  freeBus

/-- A program of `Download` on the mounted card. -/
def downloading {α : Type} (p : Download.Action α) : Action α :=
  Stateful.within Statics.download (fun st dl => { st with download := dl })
    (fun o => Stateful.call (SdCall.download o)) p

/-- A judgement about a download is one about it on the bus, if it follows each call. -/
theorem downloading_safe {α σ : Type} {M : Machine Download.Call Download.Call.Reply σ}
    {C : Download.Call → σ → Prop} {I : σ → Prop} {Q : α × Download.Statics → σ → Prop}
    {C' : SdCall → World → Prop} {I' : World → Prop} {R : Statics → World → σ → Prop}
    {p : Download.Action α} {st : Statics} {w : World} {s : σ}
    (h : Safe M C I Q (p.run st.download) s) (hR : R st w s)
    (hC : ∀ o st w s, C o s → R st w s → C' (.download o) w)
    (hstep : ∀ o st w r t s, C o s → R st w s → downloadStep o w r t →
      I' t ∧ ∃ s', M o s r s' ∧ R st t s') :
    Safe machine C' I' (fun x t => ∃ st₀ y s, Q (x.1, y) s ∧ R st₀ t s ∧
      x.2 = { st₀ with download := y }) ((downloading p).run st) w :=
  Safe.within h hR fun o st w s ho _ hR =>
    ⟨hC o st w s ho hR, fun r t hm => hstep o st w r t s ho hR hm⟩

/-- What is known of the replies to a download. -/
def ofDownload (G : (o : Download.Call) → o.Reply → Prop) : (o : SdCall) → o.Reply → Prop
  | .download o, r => G o r
  | _, _ => True

theorem downloading_uses {α : Type} {A : Download.Call → Prop}
    {G : (o : Download.Call) → o.Reply → Prop} {p : Download.Action α}
    (h : Stateful.Uses A G p) :
    Stateful.Uses (fun o => ∃ c, o = .download c ∧ A c) (ofDownload G) (downloading p) :=
  h.within fun o st _ ho hk => ⟨⟨o, rfl, ho⟩, fun r hr => hk (r, st) hr⟩

/-- What does not change from one download to the next. -/
structure Config where
  cjson : CJson
  depth : ℕ
  lambdaUrl : Str
  sdSpiFreqKhz : ℤ

def downloadSimiFolder (cfg : Config) (folder : Str) : Action FolderEnd :=
  downloading (Download.downloadSimiFolder cfg.cjson cfg.depth folder cfg.lambdaUrl)

end Sd

end SimiboxDownloader
