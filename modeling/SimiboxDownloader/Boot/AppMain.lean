import SimiboxDownloader.Boot.Manager

/-!
# `app_main`

The boot sequence of `downloader_main.cpp` with the production settings, up to
the switch back to musicbox. `beforeRestart` is `app_main` up to its call of
`boot_musicbox_and_restart`, with the route that led there; that call does not
return, so the code behind it runs on no route.
-/

namespace SimiboxDownloader

namespace Boot

open Interaction

/-- `MAX_BOOT_FAILURES` and the `3` the retry count is compared with. -/
def maxBootFailures : UInt8 := 5
def maxRetries : UInt8 := 3

def abort {α : Type} : BootM α := do
  let e ← call .abort
  nomatch e

/-- `ESP_ERROR_CHECK`. -/
def espErrorCheck (ok : Bool) : BootM Unit :=
  if ok then pure () else abort

/-- One `if (nvs_open(..) == ESP_OK)` block of the selective erase. -/
def eraseNamespace (ns : Namespace) : BootM Unit := do
  if ← call (.nvsOpen ns) then
    let _ ← call (.nvsEraseAll ns)
    let _ ← call .nvsCommit
    return ()
  else
    return ()

/-- The initialisation of NVS with its recovery. -/
def nvsInit : BootM Unit := do
  let err ← call .nvsFlashInit
  if err = .noFreePages ∨ err = .newVersionFound then
    eraseNamespace .bootmgr
    eraseNamespace .wifiCreds
    eraseNamespace .knownNets
    let err ← call .nvsFlashInit
    if err ≠ .ok then
      espErrorCheck (← call .nvsFlashErase)
      espErrorCheck ((← call .nvsFlashInit) = .ok)
    else
      return ()
  else
    return ()

/-- The boot counter, and whether the count asks for the safe mode. -/
def countBoot : BootM Bool := do
  if ← call (.nvsOpen .bootmgr) then
    let stored ← call (.nvsGetU8 .bootCount)
    let bootCount := stored.getD 0 + 1
    let _ ← call (.nvsSetU8 .bootCount bootCount)
    let _ ← call .nvsCommit
    return maxBootFailures ≤ bootCount
  else
    return false

def resetBootCount : BootM Unit := do
  if ← call (.nvsOpen .bootmgr) then
    let _ ← call (.nvsSetU8 .bootCount 0)
    let _ ← call .nvsCommit
    return ()
  else
    return ()

/-- `led_init`: it aborts in its `ESP_ERROR_CHECK`s or returns; its result is not
looked at. -/
def ledInit : BootM Unit := do
  espErrorCheck (← call .ledInit)

/-- `connect_to_wifi_with_feedback`; `strncpy` keeps 31 characters of the SSID. -/
def connectToWifiWithFeedback : BootM Bool := do
  match ← call .connectToWifi with
  | none => return false
  | some ssid =>
      modify fun st => { st with bootState := { st.bootState with lastSsid := ssid.take 31 } }
      return true

/-- `handle_download_with_retry`. -/
def handleDownloadWithRetry : BootM Bool := do
  if ← call .mountSd then
    let folder := (← get).bootState.folder
    let (success, sdFailed) ← call (.downloadSimiFolder folder)
    let _ ← call (.unmountSd (!sdFailed))
    if success then
      return true
    else
      let _ ← bootMgrReportFailure (if sdFailed then errorSdCard else errorDownloadFailed)
      return false
  else
    let _ ← call (.unmountSd false)
    let _ ← bootMgrReportFailure errorSdCard
    return false

/-- The calls of `boot_musicbox_and_restart` in `app_main`. -/
inductive Route
  | safeMode
  | nothingToDo
  | retriesExhausted
  | wifiFailed
  | downloadFailed
  | downloaded
  deriving DecidableEq

/-- `app_main` behind the boot counter. -/
def normalBoot : BootM Route := do
  ledInit
  espErrorCheck (← bootMgrInit)
  match ← bootMgrLoadState with
  | none => abort
  | some state =>
      modify fun st => { st with bootState := state }
      if ← bootMgrNeedsDownload then
        if maxRetries ≤ state.retryCount then
          let _ ← bootMgrReportFailure errorDownloadFailed
          return .retriesExhausted
        else if ← connectToWifiWithFeedback then
          if ← handleDownloadWithRetry then
            let _ ← bootMgrReportSuccess
            resetBootCount
            return .downloaded
          else
            return .downloadFailed
        else
          let _ ← bootMgrReportFailure errorWifiConnect
          return .wifiFailed
      else
        return .nothingToDo

/-- `app_main` once the record is loaded. -/
def afterLoad (state : BootState) : BootM Route := do
  modify fun st => { st with bootState := state }
  if ← bootMgrNeedsDownload then
    if maxRetries ≤ state.retryCount then
      let _ ← bootMgrReportFailure errorDownloadFailed
      return .retriesExhausted
    else if ← connectToWifiWithFeedback then
      if ← handleDownloadWithRetry then
        let _ ← bootMgrReportSuccess
        resetBootCount
        return .downloaded
      else
        return .downloadFailed
    else
      let _ ← bootMgrReportFailure errorWifiConnect
      return .wifiFailed
  else
    return .nothingToDo

theorem normalBoot_eq : normalBoot = (do
    ledInit
    espErrorCheck (← bootMgrInit)
    match ← bootMgrLoadState with
    | none => abort
    | some state => afterLoad state : BootM Route) := rfl

/-- The branch `boot_count >= MAX_BOOT_FAILURES`. -/
def safeModeBoot : BootM Route := do
  resetBootCount
  ledInit
  return .safeMode

/-- `app_main` up to `boot_musicbox_and_restart`. -/
def beforeRestart : BootM Route := do
  nvsInit
  if ← countBoot then safeModeBoot else normalBoot

/-- `boot_musicbox_and_restart`. -/
def bootMusicboxAndRestart : BootM Unit := do
  if ← call .findMusicboxPartition then
    espErrorCheck (← call .otaSetBootPartition)
    let e ← call .restart
    nomatch e
  else
    let e ← call .restart
    nomatch e

def appMain : BootM Unit := do
  let _ ← beforeRestart
  bootMusicboxAndRestart

end Boot

end SimiboxDownloader
