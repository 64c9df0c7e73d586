import SimiboxDownloader.Wifi.Events

/-!
# Connecting to a network

The functions of `simibox_wifi_creds_idf.c` and `connect_to_wifi_with_feedback`.
Of the handle the first `count` networks are kept; the others are never read.
-/

namespace SimiboxDownloader

namespace Wifi

/-- `wifi_network_t` -/
structure Network where
  ssid : Str
  password : Str
  rssi : ℤ
  deriving DecidableEq

/-- `wifi_creds_handle_t` -/
structure WifiHandle where
  networks : List Network
  initialized : Bool

/-- The results the functions return. -/
inductive EspErr
  | ok
  | fail
  | invalidState
  | notFound
  | timeout
  deriving DecidableEq

/-- Programs of the connecting task. -/
abbrev Action := Interaction.Stateful WifiCall WifiCall.Reply WifiHandle

def call (o : WifiCall) : Action o.Reply := Interaction.Stateful.call o

def wifiMaxNetworks : ℕ := 5

/-- A failing step of `wifi_creds_init` aborts. -/
def wifiCredsInit : Action EspErr := do
  call .start
  modify fun _ => ⟨[], true⟩
  return .ok

/-- `xEventGroupWaitBits` for `CONNECTED_BIT`: whether it is set. -/
def waitBits : Action Bool := do
  let already ← call .enterWait
  if already then return true else call .leaveWait

def wifiCredsWaitForConnection : Action EspErr := do
  let ap ← call .staGetApInfo
  if ap.isSome then return .ok
  else do
    call (.setConnecting true)
    let _ ← call .connect
    let connected ← waitBits
    call (.setConnecting false)
    if connected then do
      let _ ← call .staGetApInfo
      return .ok
    else return .timeout

/-- The loop of `wifi_creds_load` from the index `i` on. -/
def loadNetworks : ℕ → ℕ → Action Unit
  | 0, _ => return ()
  | left + 1, i => do
      let ssid? ← call (.nvsGetSsid i)
      match ssid? with
      | none => loadNetworks left (i + 1)
      | some ssid => do
          let password? ← call (.nvsGetPassword i)
          match password? with
          | none => loadNetworks left (i + 1)
          | some password => do
              modify fun h => { h with networks := h.networks ++ [⟨ssid, password, -100⟩] }
              loadNetworks left (i + 1)

def wifiCredsLoad : Action EspErr := do
  let h ← get
  if h.initialized then do
    let opened ← call .nvsOpen
    if opened then do
      let count ← call .nvsGetCount
      if count.getD 0 = 0 then return .ok
      else do
        modify fun h => { h with networks := [] }
        loadNetworks (min (count.getD 0) wifiMaxNetworks) 0
        return .ok
    else return .ok
  else return .invalidState

/-- Every access point of the scan gives its RSSI to the networks of its SSID. -/
def matchAps (aps : List (Str × ℤ)) (networks : List Network) : List Network :=
  aps.foldl (fun networks ap => networks.map fun n =>
    if ap.1 = n.ssid then { n with rssi := ap.2 } else n) networks

/-- The inner loop of the sort, with `k` comparisons. -/
def bubblePass : ℕ → List Network → List Network
  | k + 1, a :: b :: rest =>
      if a.rssi < b.rssi then b :: bubblePass k (a :: rest) else a :: bubblePass k (b :: rest)
  | _, networks => networks

/-- Bubble sort, the best signal first. -/
def sortByRssi (networks : List Network) : List Network :=
  (List.range (networks.length - 1)).foldl
    (fun l i => bubblePass (networks.length - i - 1) l) networks

def wifiCredsScanAndMatch : Action EspErr := do
  let h ← get
  if h.initialized then do
    modify fun h => { h with networks := h.networks.map fun n => { n with rssi := -100 } }
    let started ← call .scanStart
    if started then do
      let aps? ← call .scanGetApRecords
      match aps? with
      | none => return .fail
      | some aps => do
          modify fun h => { h with networks := sortByRssi (matchAps aps h.networks) }
          return .ok
    else return .fail
  else return .invalidState

/-- Without a visible network the first one becomes eligible. -/
def blindAttempt (networks : List Network) : List Network :=
  if networks.any fun n => -100 < n.rssi then networks
  else
    match networks with
    | [] => []
    | n :: rest => { n with rssi := -99 } :: rest

/-- An iteration of `wifi_creds_connect_best`: whether the network was connected
to. -/
def connectNetwork (n : Network) : Action Bool := do
  call .disconnect
  let configured ← call (.setConfig (n.ssid.take 32) (n.password.take 64))
  if configured then do
    let connecting ← call .connect
    if connecting then do
      call .clearBits
      waitBits
    else return false
  else return false

/-- The loop of `wifi_creds_connect_best`. -/
def connectNetworks : List Network → Action EspErr
  | [] => do
      call (.setConnecting false)
      return .fail
  | n :: rest =>
      if n.rssi ≤ -100 then connectNetworks rest
      else do
        let connected ← connectNetwork n
        if connected then do
          call (.setConnecting false)
          return .ok
        else connectNetworks rest

def wifiCredsConnectBest : Action EspErr := do
  let h ← get
  if h.initialized then
    if h.networks = [] then return .notFound
    else do
      let _ ← wifiCredsScanAndMatch
      call (.setConnecting true)
      modify fun h => { h with networks := blindAttempt h.networks }
      let h ← get
      connectNetworks h.networks
  else return .invalidState

def wifiCredsIsConnected : Action Bool := do
  let ap ← call .staGetApInfo
  return ap.isSome

/-- The pause between two attempts, `n` looks long. -/
def pollConnected : ℕ → Action Unit
  | 0 => return ()
  | n + 1 => do
      let connected ← wifiCredsIsConnected
      if connected then return () else pollConnected n

/-- The loop over `attempt` in `connect_to_wifi_with_feedback`. -/
def tryAutoConnect : ℕ → Action Bool
  | 0 => return false
  | n + 1 => do
      let ret ← wifiCredsWaitForConnection
      if ret = .ok then return true
      else do
        pollConnected 10
        let connected ← wifiCredsIsConnected
        if connected then return true else tryAutoConnect n

/-- The end of `connect_to_wifi_with_feedback` that returns true, with its local copy
of the SSID, of 33 bytes; `last_ssid` then takes 31 characters of it. -/
def reportConnected : Action (Option Str) := do
  let ap ← call .staGetApInfo
  let _ ← call .staGetApInfo
  return some ((ap.getD []).take 32)

def connectToWifiWithFeedback : Action (Option Str) := do
  let ret ← wifiCredsInit
  if ret = .ok then do
    let auto ← tryAutoConnect 3
    if auto then reportConnected
    else do
      let loaded ← wifiCredsLoad
      let h ← get
      if loaded = .ok ∧ h.networks ≠ [] then do
        let best ← wifiCredsConnectBest
        if best = .ok then reportConnected else return none
      else return none
  else return none

end Wifi

end SimiboxDownloader
