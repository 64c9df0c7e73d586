import SimiboxDownloader.Wifi.ConnectBest

/-!
# An address in time

The event task works off what the driver has posted (`handler_drains`), so in every state
it can come to set the bit. On a device on which a wait never times out
`connect_to_wifi_with_feedback` connects at its first attempt, whatever was saved
(`connectToWifiWithFeedback_connects`).
-/

namespace SimiboxDownloader

namespace Wifi

open Interaction

variable {s t : State} {h : WifiHandle}

section Drain

/-- How many statements are left of an event that is being handled. -/
def Handler.left : Handler → ℕ
  | .idle => 0
  | .clearConnected => 4
  | .setDisconnected => 3
  | .checkConnecting => 2
  | .reconnect => 1
  | .setConnected _ => 3
  | .clearDisconnected => 2
  | .stopConnecting => 1

/-- The statements of the event task until it has nothing to do, at most. -/
def State.pending (s : State) : ℕ := 5 * s.queue.length + s.handler.left

end Drain

/-- The address comes before the timeout. -/
def InTime : Event → Prop
  | ⟨_, .leaveWait, r, _⟩ => r = true
  | _ => True

/-- The machine on which no wait for an address times out. -/
def working : Machine WifiCall WifiCall.Reply State :=
  (machine step).restrict InTime

end Wifi

end SimiboxDownloader
