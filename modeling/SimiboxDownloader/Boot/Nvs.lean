import SimiboxDownloader.Library.Interaction
import Mathlib.Data.List.Basic

/-!
# The boot record in NVS

The namespace `bootmgr` the three firmwares share, the calls `app_main` and the
boot manager make, and what each call may do. A successful `nvs_set_*` is seen
by every later `nvs_get_*`; it is on the flash at the latest with the next
`nvs_commit`. A reset or a power loss keeps the writes up to some point.

The other calls of `app_main` (LED, Wi-Fi, download, partition table) leave the
record alone, and their results are unconstrained.
-/

namespace SimiboxDownloader

namespace Boot

/-- A C string without its terminator. -/
abbrev Str := List Char

/-- The keys of type `u8`, by the names of the protocol header. -/
inductive U8Key
  | reason
  | retry
  | error
  | progress
  | volume
  | maxVol
  | bootCount
  | musicboxSlot
  | downloaderSlot
  deriving DecidableEq

/-- The keys of type string. -/
inductive StrKey
  | folder
  | ssid
  deriving DecidableEq

/-- The content of the namespace; `none` is a key that `nvs_get_*` does not
find. `size` is the only key of type `u32`. -/
@[ext]
structure Nvs where
  u8 : U8Key → Option UInt8
  str : StrKey → Option Str
  size : Option UInt32

/-- The namespace after `nvs_erase_all`. -/
def Nvs.empty : Nvs where
  u8 := fun _ => none
  str := fun _ => none
  size := none

/-- A successful `nvs_set_*` or `nvs_erase_all`. -/
inductive Write
  | u8 (key : U8Key) (value : UInt8)
  | str (key : StrKey) (value : Str)
  | size (value : UInt32)
  | eraseAll

def Nvs.write (n : Nvs) : Write → Nvs
  | .u8 key value => { n with u8 := Function.update n.u8 key (some value) }
  | .str key value => { n with str := Function.update n.str key (some value) }
  | .size value => { n with size := some value }
  | .eraseAll => .empty

@[simp] theorem Nvs.write_u8 (n : Nvs) (key : U8Key) (value : UInt8) :
    n.write (.u8 key value) = { n with u8 := Function.update n.u8 key (some value) } := rfl

@[simp] theorem Nvs.write_str (n : Nvs) (key : StrKey) (value : Str) :
    n.write (.str key value) = { n with str := Function.update n.str key (some value) } := rfl

@[simp] theorem Nvs.write_size (n : Nvs) (value : UInt32) :
    n.write (.size value) = { n with size := some value } := rfl

/-- The flash: what is on it for certain and the writes since the last commit. -/
structure Flash where
  stored : Nvs
  pending : List Write

/-- What `nvs_get_*` reads. -/
def Flash.visible (f : Flash) : Nvs :=
  f.pending.foldl Nvs.write f.stored

def Flash.write (f : Flash) (w : Write) : Flash :=
  { f with pending := f.pending ++ [w] }

def Flash.commit (f : Flash) : Flash where
  stored := f.visible
  pending := []

@[simp] theorem Flash.visible_write (f : Flash) (w : Write) :
    (f.write w).visible = f.visible.write w := by
  simp [Flash.visible, Flash.write]

@[simp] theorem Flash.visible_commit (f : Flash) : f.commit.visible = f.visible := rfl

@[simp] theorem Flash.visible_nil (n : Nvs) : Flash.visible ⟨n, []⟩ = n := rfl

theorem Flash.commit_eq (f : Flash) : f.commit = ⟨f.visible, []⟩ := rfl

/-- A reset: some of the writes since the last commit, from the first on, had
reached the flash. -/
def Flash.Reset (f g : Flash) : Prop :=
  ∃ k, g = ⟨(f.pending.take k).foldl Nvs.write f.stored, []⟩

/-- The results of `nvs_flash_init` that `app_main` tells apart. -/
inductive InitResult
  | ok
  | noFreePages
  | newVersionFound
  | other
  deriving DecidableEq

/-- The namespaces `app_main` opens. -/
inductive Namespace
  | bootmgr
  | wifiCreds
  | knownNets
  deriving DecidableEq

/-- The calls of `app_main` and of the boot manager. -/
inductive BootCall
  | nvsFlashInit
  | nvsFlashErase
  | nvsOpen (ns : Namespace)
  | nvsEraseAll (ns : Namespace)
  | nvsGetU8 (key : U8Key)
  | nvsSetU8 (key : U8Key) (value : UInt8)
  | nvsGetStr (key : StrKey)
  | nvsSetStr (key : StrKey) (value : Str)
  | nvsGetSize
  | nvsSetSize (value : UInt32)
  | nvsCommit
  /-- `led_init`, whether it returns -/
  | ledInit
  /-- `connect_to_wifi_with_feedback`, with the SSID it ends up on -/
  | connectToWifi
  /-- `force_clean_sd_bus` and `mount_sd` -/
  | mountSd
  /-- `download_simi_folder`: its result and `*out_sd_failed` -/
  | downloadSimiFolder (folder : Str)
  | unmountSd (cardHealthy : Bool)
  | findMusicboxPartition
  | otaSetBootPartition
  | restart
  /-- `abort` in `ESP_ERROR_CHECK` -/
  | abort
  deriving DecidableEq

/-- The replies; a call that does not return has none. A Boolean reply says
whether the call returned `ESP_OK` (or a partition, for the search). -/
abbrev BootReply : BootCall → Type
  | .nvsFlashInit => InitResult
  | .nvsGetU8 _ => Option UInt8
  | .nvsGetStr _ => Option Str
  | .nvsGetSize => Option UInt32
  | .connectToWifi => Option Str
  | .downloadSimiFolder _ => Bool × Bool
  | .unmountSd _ => Unit
  | .restart => Empty
  | .abort => Empty
  | _ => Bool

/-- What each call may reply and do to the flash. Every call may fail; one that
fails changes nothing. -/
def bootMachine : Interaction.Machine BootCall BootReply Flash
  | .nvsFlashErase, f, r, g => g = if r then ⟨.empty, []⟩ else f
  | .nvsEraseAll .bootmgr, f, r, g => g = if r then f.write .eraseAll else f
  | .nvsGetU8 key, f, r, g => g = f ∧ (r = f.visible.u8 key ∨ r = none)
  | .nvsSetU8 key value, f, r, g => g = if r then f.write (.u8 key value) else f
  | .nvsGetStr key, f, r, g => g = f ∧ (r = f.visible.str key ∨ r = none)
  | .nvsSetStr key value, f, r, g => g = if r then f.write (.str key value) else f
  | .nvsGetSize, f, r, g => g = f ∧ (r = f.visible.size ∨ r = none)
  | .nvsSetSize value, f, r, g => g = if r then f.write (.size value) else f
  | .nvsCommit, f, r, g => g = if r then f.commit else f
  | _, f, _, g => g = f

/-- The calls of one boot. -/
abbrev Log := List (Interaction.Event BootCall BootReply Flash)

/-- The NVS calls succeed: none reports an error, and a key that is there is
found. -/
def NvsSucceeds : Interaction.Event BootCall BootReply Flash → Prop
  | ⟨_, .nvsFlashInit, r, _⟩ => r = .ok
  | ⟨_, .nvsOpen _, r, _⟩ => r = true
  | ⟨f, .nvsGetU8 key, r, _⟩ => r = f.visible.u8 key
  | ⟨_, .nvsSetU8 _ _, r, _⟩ => r = true
  | ⟨f, .nvsGetStr key, r, _⟩ => r = f.visible.str key
  | ⟨_, .nvsSetStr _ _, r, _⟩ => r = true
  | ⟨f, .nvsGetSize, r, _⟩ => r = f.visible.size
  | ⟨_, .nvsSetSize _, r, _⟩ => r = true
  | ⟨_, .nvsCommit, r, _⟩ => r = true
  | _ => True

end Boot

end SimiboxDownloader
