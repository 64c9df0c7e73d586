import SimiboxDownloader.Boot.Nvs

/-!
# The boot manager

`simibox_boot_manager_idf.c` over the calls of `Nvs`: the cached record
`g_current_state`, how it is loaded from and saved to the nine keys, and the
reports of the download. `Nvs.load` and `Nvs.save` say what these do to the
record as a whole.
-/

namespace SimiboxDownloader

namespace Boot

open Interaction

/-- `boot_state_t`. The two character arrays are kept as C strings. -/
structure BootState where
  reason : UInt32
  folder : Str
  retryCount : UInt8
  lastError : UInt32
  volume : UInt8
  maxVolume : UInt8
  lastSsid : Str
  downloadSize : UInt32
  downloadProgress : UInt8
  deriving DecidableEq

def reasonNormal : UInt32 := 0
def reasonDownloadRequest : UInt32 := 1
def reasonDownloadSuccess : UInt32 := 2
def reasonDownloadFailed : UInt32 := 3

def errorNone : UInt32 := 0
def errorWifiConnect : UInt32 := 1
def errorDownloadFailed : UInt32 := 3
def errorSdCard : UInt32 := 5

/-- `sizeof(state->folder)` and `sizeof(state->last_ssid)`. -/
def StrKey.size : StrKey → ℕ
  | .folder => 64
  | .ssid => 32

/-- The statics of the boot manager and of `app_main`: `g_nvs_handle` (whether it
is open), `g_current_state`, and `boot_state`. -/
structure Statics where
  nvsHandle : Bool
  current : BootState
  bootState : BootState

abbrev BootM := Stateful BootCall BootReply Statics

def call (o : BootCall) : BootM (BootReply o) := Stateful.call o

/-- `memset(state, 0, sizeof(boot_state_t))`. -/
def BootState.zero : BootState where
  reason := 0
  folder := []
  retryCount := 0
  lastError := 0
  volume := 0
  maxVolume := 0
  lastSsid := []
  downloadSize := 0
  downloadProgress := 0

/-- What `nvs_get_str` leaves in a zeroed array of `size` bytes: the string if
it fits with its terminator, and nothing otherwise. -/
def fitting (size : ℕ) : Option Str → Str
  | some s => if s.length < size then s else []
  | none => []

/-- `boot_mgr_load_state`, `none` for `ESP_ERR_INVALID_STATE`. -/
def bootMgrLoadState : BootM (Option BootState) := do
  if (← get).nvsHandle then
    let reason ← call (.nvsGetU8 .reason)
    let folder ← call (.nvsGetStr .folder)
    let retry ← call (.nvsGetU8 .retry)
    let error ← call (.nvsGetU8 .error)
    let volume ← call (.nvsGetU8 .volume)
    let maxVolume ← call (.nvsGetU8 .maxVol)
    let ssid ← call (.nvsGetStr .ssid)
    let size ← call .nvsGetSize
    let progress ← call (.nvsGetU8 .progress)
    let state : BootState :=
      { reason := (reason.map UInt8.toUInt32).getD reasonNormal
        folder := fitting StrKey.folder.size folder
        retryCount := retry.getD 0
        lastError := (error.map UInt8.toUInt32).getD 0
        volume := volume.getD 6
        maxVolume := maxVolume.getD 12
        lastSsid := fitting StrKey.ssid.size ssid
        downloadSize := size.getD 0
        downloadProgress := progress.getD 0 }
    modify fun st => { st with current := state }
    return some state
  else
    return none

/-- `boot_mgr_save_state`, whether it returned `ESP_OK`. -/
def bootMgrSaveState (state : BootState) : BootM Bool := do
  if (← get).nvsHandle then
    let r₁ ← call (.nvsSetU8 .reason state.reason.toUInt8)
    let r₂ ← call (.nvsSetStr .folder state.folder)
    let r₃ ← call (.nvsSetU8 .retry state.retryCount)
    let r₄ ← call (.nvsSetU8 .error state.lastError.toUInt8)
    let r₅ ← call (.nvsSetU8 .volume state.volume)
    let r₆ ← call (.nvsSetU8 .maxVol state.maxVolume)
    let r₇ ← call (.nvsSetStr .ssid state.lastSsid)
    let r₈ ← call (.nvsSetSize state.downloadSize)
    let r₉ ← call (.nvsSetU8 .progress state.downloadProgress)
    if r₁ && r₂ && r₃ && r₄ && r₅ && r₆ && r₇ && r₈ && r₉ then
      if ← call .nvsCommit then
        modify fun st => { st with current := state }
        return true
      else
        return false
    else
      return false
  else
    return false

/-- `boot_mgr_init`. -/
def bootMgrInit : BootM Bool := do
  if ← call (.nvsOpen .bootmgr) then
    modify fun st => { st with nvsHandle := true }
    let _ ← bootMgrLoadState
    return true
  else
    return false

/-- `boot_mgr_report_success`. -/
def bootMgrReportSuccess : BootM Bool := do
  modify fun st => { st with current := { st.current with
    reason := reasonDownloadSuccess, lastError := errorNone, downloadProgress := 100 } }
  bootMgrSaveState (← get).current

/-- `boot_mgr_report_failure`. -/
def bootMgrReportFailure (error : UInt32) : BootM Bool := do
  modify fun st => { st with current := { st.current with
    reason := reasonDownloadFailed, lastError := error,
    retryCount := st.current.retryCount + 1 } }
  bootMgrSaveState (← get).current

/-- `boot_mgr_needs_download`. -/
def bootMgrNeedsDownload : BootM Bool := do
  let current := (← get).current
  return current.reason = reasonDownloadRequest ∧ 0 < current.folder.length

/-- The record `boot_mgr_load_state` reads, every key being readable. -/
def Nvs.load (n : Nvs) : BootState where
  reason := ((n.u8 .reason).map UInt8.toUInt32).getD reasonNormal
  folder := fitting StrKey.folder.size (n.str .folder)
  retryCount := (n.u8 .retry).getD 0
  lastError := ((n.u8 .error).map UInt8.toUInt32).getD 0
  volume := (n.u8 .volume).getD 6
  maxVolume := (n.u8 .maxVol).getD 12
  lastSsid := fitting StrKey.ssid.size (n.str .ssid)
  downloadSize := n.size.getD 0
  downloadProgress := (n.u8 .progress).getD 0

/-- The content after `boot_mgr_save_state`, every write succeeding. -/
def Nvs.save (n : Nvs) (state : BootState) : Nvs where
  u8 := fun
    | .reason => some state.reason.toUInt8
    | .retry => some state.retryCount
    | .error => some state.lastError.toUInt8
    | .volume => some state.volume
    | .maxVol => some state.maxVolume
    | .progress => some state.downloadProgress
    | key => n.u8 key
  str := fun
    | .folder => some state.folder
    | .ssid => some state.lastSsid
  size := some state.downloadSize

/-- The machine on which the NVS calls succeed. -/
abbrev nvsWorks : Machine BootCall BootReply Flash :=
  bootMachine.restrict NvsSucceeds

/-- A program that, on this machine, returns with `Q`; nothing is said about
the states on the way. -/
abbrev Returns {α : Type} (Q : α → Flash → Prop) (p : Program BootCall BootReply α)
    (f : Flash) : Prop :=
  Safe nvsWorks (fun _ _ => True) (fun _ => True) Q p f

/-- A successful read. -/
theorem read_iff {β : Type} {f g : Flash} {r value : Option β} :
    (g = f ∧ (r = value ∨ r = none)) ∧ r = value ↔ r = value ∧ g = f := by
  constructor
  · rintro ⟨⟨hg, -⟩, hr⟩
    exact ⟨hr, hg⟩
  · rintro ⟨hr, hg⟩
    exact ⟨⟨hg, Or.inl hr⟩, hr⟩

/-- A successful write. -/
theorem write_iff {f g written : Flash} {r : Bool} :
    (g = if r then written else f) ∧ r = true ↔ r = true ∧ g = written := by
  cases r with
  | false => simp
  | true => simp

section Calls

variable {α : Type} {Q : α → Flash → Prop} {f : Flash}

theorem returns_nvsOpen {ns : Namespace} {next : Bool → Program BootCall BootReply α} :
    Returns Q (.call (.nvsOpen ns) next) f ↔ Returns Q (next true) f :=
  safe_call_of_only fun _ _ => and_comm

theorem returns_nvsGetU8 {key : U8Key}
    {next : Option UInt8 → Program BootCall BootReply α} :
    Returns Q (.call (.nvsGetU8 key) next) f ↔ Returns Q (next (f.visible.u8 key)) f :=
  safe_call_of_only fun _ _ => read_iff

theorem returns_nvsSetU8 {key : U8Key} {value : UInt8}
    {next : Bool → Program BootCall BootReply α} :
    Returns Q (.call (.nvsSetU8 key value) next) f ↔
      Returns Q (next true) (f.write (.u8 key value)) :=
  safe_call_of_only fun _ _ => write_iff

theorem returns_nvsCommit {next : Bool → Program BootCall BootReply α} :
    Returns Q (.call .nvsCommit next) f ↔ Returns Q (next true) f.commit :=
  safe_call_of_only fun _ _ => write_iff

end Calls

/-- The NVS reads succeed: a key that is there is found. All other calls may fail. -/
def NvsFinds : Event BootCall BootReply Flash → Prop
  | ⟨f, .nvsGetU8 key, r, _⟩ => r = f.visible.u8 key
  | ⟨f, .nvsGetStr key, r, _⟩ => r = f.visible.str key
  | ⟨f, .nvsGetSize, r, _⟩ => r = f.visible.size
  | _ => True

/-- The machine on which the NVS reads succeed. -/
abbrev nvsFinds : Machine BootCall BootReply Flash :=
  bootMachine.restrict NvsFinds

theorem nvsFinds_of_works {o : BootCall} {f g : Flash} {r : BootReply o}
    (h : nvsWorks o f r g) : nvsFinds o f r g := by
  refine ⟨h.1, ?_⟩
  cases o with
  | nvsGetU8 | nvsGetStr | nvsGetSize => exact h.2
  | _ => trivial

/-- A program that, on that machine, returns with `Q`. -/
abbrev Finds {α : Type} (Q : α → Flash → Prop) (p : Program BootCall BootReply α)
    (f : Flash) : Prop :=
  Safe nvsFinds (fun _ _ => True) (fun _ => True) Q p f

section Reads

variable {α : Type} {Q : α → Flash → Prop} {f : Flash}

theorem finds_nvsGetU8 {key : U8Key} {next : Option UInt8 → Program BootCall BootReply α} :
    Finds Q (.call (.nvsGetU8 key) next) f ↔ Finds Q (next (f.visible.u8 key)) f :=
  safe_call_of_only fun _ _ => read_iff

theorem finds_nvsGetStr {key : StrKey} {next : Option Str → Program BootCall BootReply α} :
    Finds Q (.call (.nvsGetStr key) next) f ↔ Finds Q (next (f.visible.str key)) f :=
  safe_call_of_only fun _ _ => read_iff

theorem finds_nvsGetSize {next : Option UInt32 → Program BootCall BootReply α} :
    Finds Q (.call .nvsGetSize next) f ↔ Finds Q (next f.visible.size) f :=
  safe_call_of_only fun _ _ => read_iff

end Reads

theorem bootMgrLoadState_finds {st : Statics} {f : Flash} (hopen : st.nvsHandle = true) :
    Finds (fun x g => x = (some f.visible.load, { st with current := f.visible.load }) ∧
      g = f) (bootMgrLoadState.run st) f := by
  simp only [bootMgrLoadState, call, Stateful.run_get_bind, hopen, if_true,
    Stateful.run_call_bind, Stateful.run_modify_bind, Stateful.run_pure, finds_nvsGetU8,
    finds_nvsGetStr, finds_nvsGetSize]
  exact ⟨rfl, rfl⟩

theorem bootMgrLoadState_returns {st : Statics} {f : Flash} (hopen : st.nvsHandle = true) :
    Returns (fun x g => x = (some f.visible.load, { st with current := f.visible.load }) ∧
      g = f) (bootMgrLoadState.run st) f :=
  (bootMgrLoadState_finds hopen).mono (fun _ _ _ _ h => nvsFinds_of_works h)
    (fun _ _ h => h) (fun _ h => h) fun _ _ h => h

/-- The NVS writes succeed; reads may fail. -/
def NvsWrites : Event BootCall BootReply Flash → Prop
  | ⟨_, .nvsSetU8 _ _, r, _⟩ => r = true
  | ⟨_, .nvsSetStr _ _, r, _⟩ => r = true
  | ⟨_, .nvsSetSize _, r, _⟩ => r = true
  | ⟨_, .nvsCommit, r, _⟩ => r = true
  | _ => True

/-- The machine on which the NVS writes succeed. -/
abbrev nvsWrites : Machine BootCall BootReply Flash :=
  bootMachine.restrict NvsWrites

theorem nvsWrites_of_works {o : BootCall} {f g : Flash} {r : BootReply o}
    (h : nvsWorks o f r g) : nvsWrites o f r g := by
  refine ⟨h.1, ?_⟩
  cases o with
  | nvsSetU8 | nvsSetStr | nvsSetSize | nvsCommit => exact h.2
  | _ => trivial

/-- A program that, on that machine, returns with `Q`. -/
abbrev Stores {α : Type} (Q : α → Flash → Prop) (p : Program BootCall BootReply α)
    (f : Flash) : Prop :=
  Safe nvsWrites (fun _ _ => True) (fun _ => True) Q p f

section Writes

variable {α : Type} {Q : α → Flash → Prop} {f : Flash}

theorem stores_nvsSetU8 {key : U8Key} {value : UInt8}
    {next : Bool → Program BootCall BootReply α} :
    Stores Q (.call (.nvsSetU8 key value) next) f ↔
      Stores Q (next true) (f.write (.u8 key value)) :=
  safe_call_of_only fun _ _ => write_iff

theorem stores_nvsSetStr {key : StrKey} {value : Str}
    {next : Bool → Program BootCall BootReply α} :
    Stores Q (.call (.nvsSetStr key value) next) f ↔
      Stores Q (next true) (f.write (.str key value)) :=
  safe_call_of_only fun _ _ => write_iff

theorem stores_nvsSetSize {value : UInt32} {next : Bool → Program BootCall BootReply α} :
    Stores Q (.call (.nvsSetSize value) next) f ↔
      Stores Q (next true) (f.write (.size value)) :=
  safe_call_of_only fun _ _ => write_iff

theorem stores_nvsCommit {next : Bool → Program BootCall BootReply α} :
    Stores Q (.call .nvsCommit next) f ↔ Stores Q (next true) f.commit :=
  safe_call_of_only fun _ _ => write_iff

end Writes

theorem bootMgrSaveState_stores {st : Statics} {f : Flash} {state : BootState}
    (hopen : st.nvsHandle = true) :
    Stores (fun x g => x = (true, { st with current := state }) ∧
      g = ⟨f.visible.save state, []⟩) ((bootMgrSaveState state).run st) f := by
  simp only [bootMgrSaveState, call, Stateful.run_get_bind, hopen, if_true,
    Stateful.run_call_bind, Stateful.run_modify_bind, Stateful.run_pure, stores_nvsSetU8,
    stores_nvsSetStr, stores_nvsSetSize, Bool.and_self, stores_nvsCommit]
  refine ⟨rfl, ?_⟩
  rw [Flash.commit_eq]
  congr 1
  simp only [Flash.visible_write, Nvs.write_u8, Nvs.write_str, Nvs.write_size]
  ext key
  · cases key <;> simp [Nvs.save]
  · cases key <;> simp [Nvs.save]
  · simp [Nvs.save]

/-- What holds whatever the reads reply holds on a device whose NVS works. -/
theorem Stores.returns {α : Type} {Q : α → Flash → Prop} {p : Program BootCall BootReply α}
    {f : Flash} (h : Stores Q p f) : Returns Q p f :=
  h.mono (fun _ _ _ _ h => nvsWrites_of_works h) (fun _ _ h => h) (fun _ h => h) fun _ _ h => h

theorem bootMgrInit_returns {st : Statics} {f : Flash} :
    Returns (fun x g => x = (true, { st with nvsHandle := true, current := f.visible.load }) ∧
      g = f) (bootMgrInit.run st) f := by
  simp only [bootMgrInit, call, Stateful.run_call_bind, returns_nvsOpen, if_true,
    Stateful.run_modify_bind]
  rw [Stateful.run_bind]
  apply (bootMgrLoadState_returns rfl).bind
  rintro _ g ⟨rfl, rfl⟩
  exact ⟨rfl, rfl⟩

/-- The record `boot_mgr_report_success` saves. -/
def BootState.succeeded (state : BootState) : BootState :=
  { state with reason := reasonDownloadSuccess, lastError := errorNone, downloadProgress := 100 }

/-- The record `boot_mgr_report_failure` saves. -/
def BootState.failed (state : BootState) (error : UInt32) : BootState :=
  { state with reason := reasonDownloadFailed, lastError := error,
               retryCount := state.retryCount + 1 }

theorem bootMgrReportSuccess_stores {st : Statics} {f : Flash} (hopen : st.nvsHandle = true) :
    Stores (fun x g => x = (true, { st with current := st.current.succeeded }) ∧
      g = ⟨f.visible.save st.current.succeeded, []⟩) (bootMgrReportSuccess.run st) f :=
  @bootMgrSaveState_stores { st with current := st.current.succeeded } f _ hopen

theorem bootMgrReportFailure_stores {st : Statics} {f : Flash} {error : UInt32}
    (hopen : st.nvsHandle = true) :
    Stores (fun x g => x = (true, { st with current := st.current.failed error }) ∧
      g = ⟨f.visible.save (st.current.failed error), []⟩)
      ((bootMgrReportFailure error).run st) f :=
  @bootMgrSaveState_stores { st with current := st.current.failed error } f _ hopen

end Boot

end SimiboxDownloader
