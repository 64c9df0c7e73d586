import SimiboxDownloader.Wifi.Attempts
import SimiboxDownloader.Wifi.Feedback
import SimiboxDownloader.Wifi.Loading

/-!
# Where the credentials come from

A network travels from the namespace `wifi_creds` through the handle, the matching with
the scan and the sort to `esp_wifi_set_config`. Every configuration that is set pairs an
SSID with the password that is stored beside it, whatever the calls answer and however
the events come (`connect_sources`). This holds of `connect_to_wifi_with_feedback` and of
`wifi_creds_connect_auto`, which the downloader does not call.
-/

namespace SimiboxDownloader

namespace Wifi

open Interaction

section Functions

/-- `wifi_creds_get_current_ssid`, with a buffer of `maxLen` characters. -/
def wifiCredsGetCurrentSsid (maxLen : ℕ) : Action (Option Str) := do
  if maxLen = 0 then return none
  else do
    let ap ← call .staGetApInfo
    return ap.map fun ssid => ssid.take (maxLen - 1)

/-- `wifi_creds_get_connection_info`, whose results are only logged: whether there is a
connection. -/
def wifiCredsGetConnectionInfo : Action Bool := do
  let ap ← call .staGetApInfo
  return ap.isSome

/-- `wifi_creds_connect_auto` -/
def wifiCredsConnectAuto : Action EspErr := do
  let h ← get
  if h.initialized then do
    let ret ← wifiCredsWaitForConnection
    if ret = .ok then return .ok
    else do
      let loaded ← wifiCredsLoad
      let h ← get
      if loaded ≠ .ok ∨ h.networks = [] then wifiCredsWaitForConnection
      else wifiCredsConnectBest
  else return .invalidState

/-- The end of `connect_to_wifi_with_feedback` calls the two functions. -/
theorem reportConnected_eq (h : WifiHandle) : reportConnected.run h =
    (do
      let ssid ← wifiCredsGetCurrentSsid 33
      let _ ← wifiCredsGetConnectionInfo
      return some (ssid.getD []) : Action (Option Str)).run h := by
  refine congrArg (Program.call WifiCall.staGetApInfo) (funext fun ap => ?_)
  refine congrArg (Program.call WifiCall.staGetApInfo) (funext fun _ => ?_)
  cases ap with
  | none => rfl
  | some ssid => rfl

end Functions

section Slots

/-- The two strings are those of the `i`-th entry, which is one of those that are
counted, and fit into a configuration. -/
structure Entry (stored : Stored) (i : ℕ) (n : Str × Str) : Prop where
  counted : ∃ count, stored.count = some count ∧ i < count
  slots : i < wifiMaxNetworks
  ssid : stored.ssid i = some n.1
  password : stored.password i = some n.2
  ssidFits : n.1.length ≤ 32
  passwordFits : n.2.length ≤ 64

/-- Every network of the handle is an entry. -/
def WifiHandle.From (h : WifiHandle) (stored : Stored) : Prop :=
  ∀ n ∈ h.networks, ∃ i, Entry stored i n.creds

/-- A configuration that is set is an entry. -/
def FromStored (stored : Stored) : WifiCall → Prop
  | .setConfig ssid password => ∃ i, Entry stored i (ssid, password)
  | _ => True

variable {stored : Stored} {s t : State} {h : WifiHandle} {α β : Type}

/-- What is set is stored, and so is what is in the handle at the end. -/
abbrev Sourced (stored : Stored) (p : Action α) (h : WifiHandle) (s : State) : Prop :=
  Safe (machine step) (fun o _ => FromStored stored o) (fun _ => True)
    (fun x t => t.stored = stored ∧ x.2.From stored) (p.run h) s

theorem sourced_call {o : WifiCall} {k : o.Reply → Action α} (ho : FromStored stored o)
    (hs : s.stored = stored)
    (hk : ∀ r t, machine step o s r t → t.stored = stored → Sourced stored (k r) h t) :
    Sourced stored (call o >>= k) h s :=
  ⟨ho, fun r t hm => ⟨trivial, hk r t hm ((machine_stored hm).trans hs)⟩⟩

theorem Sourced.bind {p : Action α} {k : α → Action β} (hp : Sourced stored p h s)
    (hk : ∀ a h' t, t.stored = stored → h'.From stored → Sourced stored (k a) h' t) :
    Sourced stored (p >>= k) h s :=
  Safe.bind hp fun x t hx => hk x.1 x.2 t hx.1 hx.2

/-- No configuration is set. -/
def IsSetConfig : WifiCall → Prop
  | .setConfig _ _ => True
  | _ => False

theorem fromStored_of_not {o : WifiCall} (ho : ¬ IsSetConfig o) : FromStored stored o := by
  cases o with
  | setConfig ssid password => exact absurd trivial ho
  | _ => trivial

/-- A function that neither sets a configuration nor touches the handle. -/
theorem sourced_of_frames {p : Action α} (hp : Stateful.Frames (fun o => ¬ IsSetConfig o) id p)
    (hs : s.stored = stored) (hh : h.From stored) : Sourced stored p h s := by
  have hsafe : Stateful.Ensures (machine step) (fun o _ => FromStored stored o)
      (fun _ h' t => id h' = id h ∧ t.stored = stored) p h s :=
    hp.ensures (J := fun t : State => t.stored = stored) (fun o _ ho _ => fromStored_of_not ho)
      (fun o s r t _ hs hm => (machine_stored hm).trans hs) hs
  refine Safe.imp hsafe ?_
  rintro ⟨a, h'⟩ t ⟨hsame, ht⟩
  refine ⟨ht, ?_⟩
  rw [show h' = h from hsame]
  exact hh

theorem waitBits_frames : Stateful.Frames (fun o => ¬ IsSetConfig o) id waitBits := by
  refine (Stateful.frames_call id).bind fun already => ?_
  cases already with
  | true => exact Stateful.frames_pure
  | false => exact Stateful.frames_call id

theorem wifiCredsWaitForConnection_frames :
    Stateful.Frames (fun o => ¬ IsSetConfig o) id wifiCredsWaitForConnection := by
  refine (Stateful.frames_call id).bind fun ap => ?_
  cases ap with
  | some ssid => exact Stateful.frames_pure
  | none =>
      refine (Stateful.frames_call id).bind fun _ => (Stateful.frames_call id).bind fun _ => ?_
      refine waitBits_frames.bind fun connected => (Stateful.frames_call id).bind fun _ => ?_
      cases connected with
      | true => exact (Stateful.frames_call id).bind fun _ => Stateful.frames_pure
      | false => exact Stateful.frames_pure

theorem wifiCredsIsConnected_frames :
    Stateful.Frames (fun o => ¬ IsSetConfig o) id wifiCredsIsConnected :=
  (Stateful.frames_call id).bind fun _ => Stateful.frames_pure

theorem pollConnected_frames (n : ℕ) :
    Stateful.Frames (fun o => ¬ IsSetConfig o) id (pollConnected n) := by
  induction n with
  | zero => exact Stateful.frames_pure
  | succ n ih =>
      refine wifiCredsIsConnected_frames.bind fun connected => ?_
      cases connected with
      | true => exact Stateful.frames_pure
      | false => exact ih

theorem tryAutoConnect_frames (n : ℕ) :
    Stateful.Frames (fun o => ¬ IsSetConfig o) id (tryAutoConnect n) := by
  induction n with
  | zero => exact Stateful.frames_pure
  | succ n ih =>
      refine wifiCredsWaitForConnection_frames.bind fun ret => ?_
      split
      · exact Stateful.frames_pure
      · refine (pollConnected_frames 10).bind fun _ => ?_
        refine wifiCredsIsConnected_frames.bind fun connected => ?_
        cases connected with
        | true => exact Stateful.frames_pure
        | false => exact ih

theorem reportConnected_frames :
    Stateful.Frames (fun o => ¬ IsSetConfig o) id reportConnected :=
  (Stateful.frames_call id).bind fun _ => (Stateful.frames_call id).bind fun _ =>
    Stateful.frames_pure

end Slots

section Path

variable {stored : Stored} {s : State} {h : WifiHandle}

/-- The loop of `wifi_creds_load` appends entries. -/
theorem loadNetworks_sourced {count left i : ℕ} (hcount : stored.count = some count)
    (hleft : left + i ≤ min count wifiMaxNetworks) (hs : s.stored = stored)
    (hh : h.From stored) : Sourced stored (loadNetworks left i) h s := by
  induction left generalizing s h i with
  | zero => exact ⟨hs, hh⟩
  | succ left ih =>
      have hi : i < min count wifiMaxNetworks := by omega
      have hnext : left + (i + 1) ≤ min count wifiMaxNetworks := by omega
      refine sourced_call trivial hs fun ssid? t hm ht => ?_
      cases ssid? with
      | none => exact ih hnext ht hh
      | some ssid =>
          refine sourced_call trivial ht fun password? u hm' hu => ?_
          cases password? with
          | none => exact ih hnext hu hh
          | some password =>
              obtain ⟨hssid, hssidFits⟩ := (ssid_of_machine hm).stored
              obtain ⟨hpassword, hpasswordFits⟩ := (password_of_machine hm').stored
              rw [hs] at hssid
              rw [ht] at hpassword
              obtain ⟨hcounted, hslots⟩ := Nat.lt_min.1 hi
              have hentry : Entry stored i (ssid, password) :=
                ⟨⟨count, hcount, hcounted⟩, hslots, hssid, hpassword, Nat.le_of_lt_succ hssidFits,
                  Nat.le_of_lt_succ hpasswordFits⟩
              refine ih hnext hu fun n hn => ?_
              rcases List.mem_append.1 hn with hn | hn
              · exact hh n hn
              · obtain rfl := List.mem_singleton.1 hn
                exact ⟨i, hentry⟩

theorem wifiCredsLoad_sourced (hs : s.stored = stored) (hh : h.From stored) :
    Sourced stored wifiCredsLoad h s := by
  unfold wifiCredsLoad
  change Sourced stored (if h.initialized = true then _ else _) h s
  split
  · refine sourced_call trivial hs fun opened t _ ht => ?_
    cases opened with
    | false => exact ⟨ht, hh⟩
    | true =>
        refine sourced_call trivial ht fun count u hm hu => ?_
        split
        · exact ⟨hu, hh⟩
        · next hne =>
            have hcount : stored.count = some (count.getD 0) := by
              obtain ⟨v, hreaches, hreply, -⟩ := hm
              rw [reaches_stored hreaches, ht] at hreply
              rcases hreply with rfl | rfl
              · exact absurd rfl hne
              · cases hstored : stored.count with
                | none =>
                    rw [hstored] at hne
                    exact absurd rfl hne
                | some c => rfl
            have hempty : WifiHandle.From { h with networks := [] } stored :=
              fun n hn => absurd hn List.not_mem_nil
            have hloop : Sourced stored (loadNetworks (min (count.getD 0) wifiMaxNetworks) 0)
                { h with networks := [] } u :=
              loadNetworks_sourced hcount (Nat.le_refl _) hu hempty
            change Sourced stored (do
              loadNetworks (min (count.getD 0) wifiMaxNetworks) 0
              return EspErr.ok) { h with networks := [] } u
            refine hloop.bind fun _ h' t ht hh => ?_
            change t.stored = stored ∧ h'.From stored
            exact ⟨ht, hh⟩
  · exact ⟨hs, hh⟩

/-- A change of the signal strengths. -/
theorem WifiHandle.From.map {f : Network → Network} (hh : h.From stored)
    (hf : ∀ n, (f n).creds = n.creds) :
    WifiHandle.From { h with networks := h.networks.map f } stored := by
  intro n hn
  obtain ⟨m, hm, rfl⟩ := List.mem_map.1 hn
  rw [hf]
  exact hh m hm

theorem wifiCredsScanAndMatch_sourced (hs : s.stored = stored) (hh : h.From stored) :
    Sourced stored wifiCredsScanAndMatch h s := by
  unfold wifiCredsScanAndMatch
  change Sourced stored (if h.initialized = true then _ else _) h s
  split
  · have hunseen : WifiHandle.From { h with networks := h.networks.map Network.unseen } stored :=
      hh.map fun _ => rfl
    refine sourced_call trivial hs fun started t _ ht => ?_
    cases started with
    | false => exact ⟨ht, hunseen⟩
    | true =>
        refine sourced_call trivial ht fun aps? u _ hu => ?_
        cases aps? with
        | none => exact ⟨hu, hunseen⟩
        | some aps =>
            refine ⟨hu, fun n hn => ?_⟩
            have hranked : n ∈ ranked aps h.networks := by
              rw [ranked, ← matchAps_unseen]
              exact hn
            obtain ⟨m, hm, rfl⟩ := mem_ranked.1 hranked
            exact hh m hm
  · exact ⟨hs, hh⟩

theorem connectNetwork_sourced {n : Network} {i : ℕ} (hn : Entry stored i n.creds)
    (hs : s.stored = stored) (hh : h.From stored) : Sourced stored (connectNetwork n) h s := by
  have hconfig : (n.ssid.take 32, n.password.take 64) = n.creds :=
    congrArg₂ Prod.mk (List.take_of_length_le hn.ssidFits)
      (List.take_of_length_le hn.passwordFits)
  refine sourced_call trivial hs fun _ t _ ht => ?_
  refine sourced_call ⟨i, hconfig ▸ hn⟩ ht fun configured u _ hu => ?_
  cases configured with
  | false => exact ⟨hu, hh⟩
  | true =>
      refine sourced_call trivial hu fun connecting v _ hv => ?_
      cases connecting with
      | false => exact ⟨hv, hh⟩
      | true =>
          refine sourced_call trivial hv fun _ w _ hw => ?_
          exact sourced_of_frames waitBits_frames hw hh

theorem connectNetworks_sourced {nets : List Network}
    (hnets : ∀ n ∈ nets, ∃ i, Entry stored i n.creds) (hs : s.stored = stored)
    (hh : h.From stored) : Sourced stored (connectNetworks nets) h s := by
  induction nets generalizing s h with
  | nil => exact sourced_call trivial hs fun _ t _ ht => ⟨ht, hh⟩
  | cons n nets ih =>
      rw [connectNetworks]
      have hrest := fun m hm => hnets m (List.mem_cons_of_mem n hm)
      split
      · exact ih hrest hs hh
      · obtain ⟨i, hn⟩ := hnets n List.mem_cons_self
        refine (connectNetwork_sourced hn hs hh).bind fun connected h' t ht hh' => ?_
        cases connected with
        | true => exact sourced_call trivial ht fun _ u _ hu => ⟨hu, hh'⟩
        | false => exact ih hrest ht hh'

theorem blindAttempt_creds {networks : List Network} {n : Network}
    (hn : n ∈ blindAttempt networks) : ∃ m ∈ networks, m.creds = n.creds := by
  unfold blindAttempt at hn
  split at hn
  · exact ⟨n, hn, rfl⟩
  · cases networks with
    | nil => cases hn
    | cons a rest =>
        rcases List.mem_cons.1 hn with rfl | hn
        · exact ⟨a, List.mem_cons_self, rfl⟩
        · exact ⟨n, List.mem_cons_of_mem a hn, rfl⟩

theorem wifiCredsConnectBest_sourced (hs : s.stored = stored) (hh : h.From stored) :
    Sourced stored wifiCredsConnectBest h s := by
  unfold wifiCredsConnectBest
  change Sourced stored (if h.initialized = true then if h.networks = [] then _ else _ else _) h s
  split
  · split
    · exact ⟨hs, hh⟩
    · refine (wifiCredsScanAndMatch_sourced hs hh).bind fun _ h' t ht hh' => ?_
      refine sourced_call trivial ht fun _ u _ hu => ?_
      have hblind : WifiHandle.From { h' with networks := blindAttempt h'.networks } stored := by
        intro n hn
        obtain ⟨m, hm, hcreds⟩ := blindAttempt_creds hn
        rw [← hcreds]
        exact hh' m hm
      exact connectNetworks_sourced hblind hu hblind
  · exact ⟨hs, hh⟩

theorem connectToWifiWithFeedback_sourced (hs : s.stored = stored) :
    Sourced stored connectToWifiWithFeedback h s := by
  unfold connectToWifiWithFeedback wifiCredsInit
  refine Sourced.bind (sourced_call trivial hs fun _ t _ ht =>
    ⟨ht, fun n hn => absurd hn List.not_mem_nil⟩) fun ret h₁ t₁ ht₁ hh₁ => ?_
  split
  · refine (sourced_of_frames (tryAutoConnect_frames 3) ht₁ hh₁).bind fun auto h₂ t₂ ht₂ hh₂ => ?_
    split
    · exact sourced_of_frames reportConnected_frames ht₂ hh₂
    · refine (wifiCredsLoad_sourced ht₂ hh₂).bind fun loaded h₃ t₃ ht₃ hh₃ => ?_
      change Sourced stored (if loaded = .ok ∧ h₃.networks ≠ [] then _ else _) h₃ t₃
      split
      · refine (wifiCredsConnectBest_sourced ht₃ hh₃).bind fun best h₄ t₄ ht₄ hh₄ => ?_
        split
        · exact sourced_of_frames reportConnected_frames ht₄ hh₄
        · exact ⟨ht₄, hh₄⟩
      · exact ⟨ht₃, hh₃⟩
  · exact ⟨ht₁, hh₁⟩

theorem wifiCredsConnectAuto_sourced (hs : s.stored = stored) (hh : h.From stored) :
    Sourced stored wifiCredsConnectAuto h s := by
  unfold wifiCredsConnectAuto
  change Sourced stored (if h.initialized = true then _ else _) h s
  split
  · refine (sourced_of_frames wifiCredsWaitForConnection_frames hs hh).bind
      fun ret h₁ t₁ ht₁ hh₁ => ?_
    split
    · exact ⟨ht₁, hh₁⟩
    · refine (wifiCredsLoad_sourced ht₁ hh₁).bind fun loaded h₂ t₂ ht₂ hh₂ => ?_
      change Sourced stored (if loaded ≠ .ok ∨ h₂.networks = [] then _ else _) h₂ t₂
      split
      · exact sourced_of_frames wifiCredsWaitForConnection_frames ht₂ hh₂
      · exact wifiCredsConnectBest_sourced ht₂ hh₂
  · exact ⟨hs, hh⟩

/-- In every run of `connect_to_wifi_with_feedback`, and of `wifi_creds_connect_auto` on a
handle whose networks are stored, wherever it is cut, whatever the calls answer and
however the events come: every call of `esp_wifi_set_config` is given the SSID and the
password of one entry of `wifi_creds`, both whole, and one of the first `count` and of the
first `WIFI_MAX_NETWORKS`. -/
theorem connect_sources :
    (∀ {h : WifiHandle} {s t : State} {tr : List Event}
      {q : Program WifiCall WifiCall.Reply (Option Str × WifiHandle)},
      Steps (machine step) (connectToWifiWithFeedback.run h) s tr q t →
        ∀ e ∈ tr, FromStored s.stored e.op) ∧
      ∀ {h : WifiHandle} {s t : State} {tr : List Event}
        {q : Program WifiCall WifiCall.Reply (EspErr × WifiHandle)}, h.From s.stored →
        Steps (machine step) (wifiCredsConnectAuto.run h) s tr q t →
          ∀ e ∈ tr, FromStored s.stored e.op :=
  ⟨fun hrun => (connectToWifiWithFeedback_sourced rfl).events hrun,
    fun hh hrun => (wifiCredsConnectAuto_sourced rfl hh).events hrun⟩

end Path

section Sample

/-- No network answers. -/
def playUnanswered {α : Type} (p : Program WifiCall WifiCall.Reply α) :=
  play (fun o s => some (respond [] o s)) p { idleState with stored := threeStored }

theorem steps_playUnanswered {α : Type} (p : Program WifiCall WifiCall.Reply α) :
    Steps (machine step) p { idleState with stored := threeStored } (playUnanswered p).2.2
      (playUnanswered p).1 (playUnanswered p).2.1 := by
  apply steps_play
  intro o s r t h
  obtain ⟨rfl, rfl⟩ := Prod.mk.inj (Option.some.inj h)
  exact ⟨s, Transition.Reaches.refl step s, effect_respond [] o s⟩

/-- The one entry that can be loaded is the one that is tried. -/
theorem connect_sources_work :
    tried (playUnanswered (connectToWifiWithFeedback.run ⟨[], false⟩)).2.2 =
        [("work".toList, "secret".toList)] ∧
      (∀ e ∈ (playUnanswered (connectToWifiWithFeedback.run ⟨[], false⟩)).2.2,
        FromStored threeStored e.op) ∧
      ∀ e ∈ (playUnanswered (wifiCredsConnectAuto.run ⟨[], true⟩)).2.2,
        FromStored threeStored e.op := by
  refine ⟨by decide +kernel, ?_, ?_⟩
  · exact connect_sources.1 (steps_playUnanswered _)
  · exact connect_sources.2 (fun n hn => absurd hn List.not_mem_nil) (steps_playUnanswered _)

end Sample

end Wifi

end SimiboxDownloader
