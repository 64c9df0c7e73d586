import SimiboxDownloader.Library.Interaction
import SimiboxDownloader.Library.Transition
import Mathlib.Data.Int.Basic

/-!
# The Wi-Fi events

Two tasks share the event group and `s_is_connecting`: the one that connects, and
the event task, which runs `wifi_event_handler` on the events the driver has
posted. `step` is what the driver and the event task do, statement by statement;
any number of their steps can come before each call of the other task
(`machine`).

A `GOT_IP` belongs to one `esp_wifi_connect` of the connecting task, counted by
`attempt`; one the handler issues again counts as the attempt it repeats.
-/

namespace SimiboxDownloader

namespace Wifi

/-- A C string without its terminator. -/
abbrev Str := List Char

/-- The events `wifi_event_handler` is registered for. -/
inductive WifiEvent
  | staStart
  | staConnected (ssid : Str)
  | staDisconnected
  | gotIp (attempt : ℕ)
  deriving DecidableEq

/-- The statement of `wifi_event_handler` that is next, between two events
`idle`. -/
inductive Handler
  | idle
  | clearConnected
  | setDisconnected
  | checkConnecting
  | reconnect
  | setConnected (attempt : ℕ)
  | clearDisconnected
  | stopConnecting
  deriving DecidableEq

/-- How far the current attempt of the connecting task is. -/
inductive Phase
  | idle
  /-- after `esp_wifi_connect` -/
  | connecting
  /-- after `xEventGroupClearBits` -/
  | cleared
  /-- in `xEventGroupWaitBits` -/
  | waiting
  deriving DecidableEq

/-- The namespace `wifi_creds`. -/
structure Stored where
  count : Option ℕ
  ssid : ℕ → Option Str
  password : ℕ → Option Str

structure State where
  connectedBit : Bool
  disconnectedBit : Bool
  isConnecting : Bool
  /-- The connecting task is blocked on `CONNECTED_BIT`. -/
  waiting : Bool
  /-- It has been unblocked by the bit. -/
  woken : Bool
  queue : List WifiEvent
  handler : Handler
  /-- The SSID `esp_wifi_sta_get_ap_info` answers. -/
  associated : Option Str
  stored : Stored
  attempt : ℕ
  phase : Phase
  /-- The attempts whose `GOT_IP` was delivered since the last `esp_wifi_connect`
  of the connecting task. -/
  delivered : List ℕ
  /-- A `GOT_IP` was delivered since the handler was registered. -/
  received : Bool

namespace State

/-- The driver posts an event. -/
def post (s : State) (e : WifiEvent) : Option State :=
  match e with
  | .staStart => some { s with queue := s.queue ++ [e] }
  | .staConnected ssid => some { s with associated := some ssid, queue := s.queue ++ [e] }
  | .staDisconnected => some { s with associated := none, queue := s.queue ++ [e] }
  | .gotIp attempt =>
      if attempt ≤ s.attempt then some { s with queue := s.queue ++ [e] } else none

/-- `xEventGroupSetBits(wifi_event_group, CONNECTED_BIT)` for the `GOT_IP` of
`attempt`; it unblocks the task that waits for the bit. -/
def setConnected (s : State) (attempt : ℕ) : State :=
  { s with connectedBit := true, woken := s.woken || s.waiting,
           delivered := attempt :: s.delivered, received := true }

/-- The next statement of the event task. -/
def handle (s : State) : Option State :=
  match s.handler with
  | .idle =>
      match s.queue with
      | [] => none
      | .staStart :: queue => some { s with queue := queue }
      | .staConnected _ :: queue => some { s with queue := queue }
      | .staDisconnected :: queue => some { s with queue := queue, handler := .clearConnected }
      | .gotIp attempt :: queue =>
          some { s with queue := queue, handler := .setConnected attempt }
  | .clearConnected => some { s with connectedBit := false, handler := .setDisconnected }
  | .setDisconnected => some { s with disconnectedBit := true, handler := .checkConnecting }
  | .checkConnecting =>
      some { s with handler := if s.isConnecting then .reconnect else .idle }
  | .reconnect => some { s with handler := .idle }
  | .setConnected attempt => some { s.setConnected attempt with handler := .clearDisconnected }
  | .clearDisconnected => some { s with disconnectedBit := false, handler := .stopConnecting }
  | .stopConnecting => some { s with isConnecting := false, handler := .idle }

end State

/-- What the driver and the event task do. -/
inductive Act
  | post (e : WifiEvent)
  | handle
  deriving DecidableEq

def step (s : State) : Act → Option State
  | .post e => s.post e
  | .handle => s.handle

/-- The calls of the connecting task. `start` is `wifi_creds_init` from the event
group on; `enterWait` and `leaveWait` are the two ends of `xEventGroupWaitBits`. -/
inductive WifiCall
  | start
  | staGetApInfo
  | setConnecting (on : Bool)
  | connect
  | disconnect
  | setConfig (ssid password : Str)
  | clearBits
  | enterWait
  | leaveWait
  | scanStart
  | scanGetApRecords
  | nvsOpen
  | nvsGetCount
  | nvsGetSsid (i : ℕ)
  | nvsGetPassword (i : ℕ)
  deriving DecidableEq

/-- Of an access point its SSID and RSSI are read. -/
@[reducible] def WifiCall.Reply : WifiCall → Type
  | .staGetApInfo => Option Str
  | .connect => Bool
  | .setConfig _ _ => Bool
  | .enterWait => Bool
  | .leaveWait => Bool
  | .scanStart => Bool
  | .scanGetApRecords => Option (List (Str × ℤ))
  | .nvsOpen => Bool
  | .nvsGetCount => Option ℕ
  | .nvsGetSsid _ => Option Str
  | .nvsGetPassword _ => Option Str
  | _ => Unit

/-- `WIFI_SSID_MAX_LEN`, with the terminator. -/
def wifiSsidMaxLen : ℕ := 33

/-- `WIFI_PASS_MAX_LEN`, with the terminator. -/
def wifiPassMaxLen : ℕ := 65

def wifiScanMaxAp : ℕ := 20

/-- `nvs_get_str` into a buffer of `size` bytes. -/
def Fetched (size : ℕ) (value r : Option Str) : Prop :=
  r = none ∨ r = value ∧ ∀ s, r = some s → s.length < size

/-- After `wifi_creds_init`: the event group is new, and nothing has been received. -/
def State.started (s : State) : State :=
  { s with connectedBit := false, disconnectedBit := false, waiting := false, woken := false,
           queue := [], handler := .idle, associated := none, attempt := 0, phase := .idle,
           delivered := [], received := false }

/-- What a call replies and does. -/
def effect : (o : WifiCall) → State → o.Reply → State → Prop
  | .start, s, _, t => t = s.started
  | .staGetApInfo, s, r, t => r = s.associated ∧ t = s
  | .setConnecting on, s, _, t => t = { s with isConnecting := on }
  | .connect, s, r, t =>
      t = if r then { s with attempt := s.attempt + 1, phase := .connecting, delivered := [] }
        else s
  | .clearBits, s, _, t => t = { s with connectedBit := false, phase := .cleared }
  | .enterWait, s, r, t => r = s.connectedBit ∧
      t = if r then { s with phase := .idle }
        else { s with waiting := true, woken := false, phase := .waiting }
  | .leaveWait, s, r, t =>
      -- at the end of the timeout the bits are read once more
      r = (s.woken || s.connectedBit) ∧
        t = { s with waiting := false, woken := false, phase := .idle }
  | .scanGetApRecords, s, r, t => (∀ aps, r = some aps → aps.length ≤ wifiScanMaxAp) ∧ t = s
  | .nvsGetCount, s, r, t => (r = none ∨ r = s.stored.count) ∧ t = s
  | .nvsGetSsid i, s, r, t => Fetched wifiSsidMaxLen (s.stored.ssid i) r ∧ t = s
  | .nvsGetPassword i, s, r, t => Fetched wifiPassMaxLen (s.stored.password i) r ∧ t = s
  | _, s, _, t => t = s

/-- A call, after any steps of the other two. -/
def machine (step : State → Act → Option State) :
    Interaction.Machine WifiCall WifiCall.Reply State :=
  fun o s r t => ∃ u, Transition.Reaches step s u ∧ effect o u r t

/-- A call that was made. -/
abbrev Event := Interaction.Event WifiCall WifiCall.Reply State

end Wifi

end SimiboxDownloader
