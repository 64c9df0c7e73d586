import SimiboxDownloader.Wifi.ConnectBest

/-!
# Connected means having an IP

`connect_to_wifi_with_feedback` has two notions of being connected: the event
bit, which only a `GOT_IP` sets, and `esp_wifi_sta_get_ap_info`, which answers as
soon as the station is associated. With the first one it returns true only after
a `GOT_IP`; with the second one as well, as long as that call does not succeed
before there is an address (`connectToWifiWithFeedback_gotIp`).
-/

namespace SimiboxDownloader

namespace Wifi

open Interaction

/-- Where `esp_wifi_sta_get_ap_info` succeeds a `GOT_IP` has been received. -/
def addressKnown : Event → Bool
  | ⟨_, .staGetApInfo, r, t⟩ => r.isNone || t.received
  | _ => true

/-- The machine on which the station has an address when it looks connected. -/
abbrev addressFirst : Machine WifiCall WifiCall.Reply State :=
  (machine step).restrict fun e => addressKnown e = true

/-- The bit, and what the wait has seen of it, come from a `GOT_IP`. -/
structure State.Heard (s : State) : Prop where
  bit : s.connectedBit = true → s.received = true
  woken : s.woken = true → s.received = true

variable {s t : State} {h : WifiHandle}

theorem heard_step {a : Act} (hstep : step s a = some t) :
    (s.Heard → t.Heard) ∧ (s.received = true → t.received = true) := by
  obtain ⟨-, -, rfl⟩ | ⟨attempt, -, -, rfl⟩ | hsame := step_cases hstep
  · exact ⟨fun hs => ⟨nofun, hs.woken⟩, id⟩
  · exact ⟨fun _ => ⟨fun _ => rfl, fun _ => rfl⟩, fun _ => rfl⟩
  · constructor
    · rintro ⟨hbit, hwoken⟩
      constructor
      · rwa [hsame.connectedBit, hsame.received]
      · rwa [hsame.woken, hsame.received]
    · rw [hsame.received]
      exact id

theorem heard_reaches (hst : Transition.Reaches step s t) :
    (s.Heard → t.Heard) ∧ (s.received = true → t.received = true) := by
  constructor
  · intro hs
    exact hst.invariant (fun _ _ _ hu hstep => (heard_step hstep).1 hu) hs
  · intro hs
    exact hst.invariant (P := fun u => u.received = true)
      (fun _ _ _ hu hstep => (heard_step hstep).2 hu) hs

/-- No call but the first of all sets the bit, or forgets what was received. -/
theorem effect_keeps {o : WifiCall} {r : o.Reply} (ho : o ≠ .start) (he : effect o s r t) :
    t.received = s.received ∧ (t.connectedBit = true → s.connectedBit = true) ∧
      (t.woken = true → s.woken = true) := by
  cases o with
  | start => exact absurd rfl ho
  | connect =>
      obtain rfl := he
      cases r with
      | true => exact ⟨rfl, id, id⟩
      | false => exact ⟨rfl, id, id⟩
  | enterWait =>
      obtain ⟨-, rfl⟩ := he
      cases r with
      | true => exact ⟨rfl, id, id⟩
      | false => exact ⟨rfl, id, nofun⟩
  | leaveWait =>
      obtain ⟨-, rfl⟩ := he
      exact ⟨rfl, id, nofun⟩
  | clearBits =>
      obtain rfl := he
      exact ⟨rfl, nofun, id⟩
  | staGetApInfo | scanGetApRecords | nvsGetCount | nvsGetSsid | nvsGetPassword =>
      obtain ⟨-, rfl⟩ := he
      exact ⟨rfl, id, id⟩
  | setConnecting | disconnect | setConfig | scanStart | nvsOpen =>
      obtain rfl := he
      exact ⟨rfl, id, id⟩

theorem heard_machine {o : WifiCall} {r : o.Reply} (ho : o ≠ .start) (hm : addressFirst o s r t) :
    (s.Heard → t.Heard) ∧ (s.received = true → t.received = true) := by
  obtain ⟨⟨u, hu, he⟩, -⟩ := hm
  obtain ⟨hheard, hreceived⟩ := heard_reaches hu
  obtain ⟨hsame, hbit, hwoken⟩ := effect_keeps ho he
  constructor
  · intro hs
    obtain ⟨hb, hw⟩ := hheard hs
    constructor
    · intro h
      rw [hsame]
      exact hb (hbit h)
    · intro h
      rw [hsame]
      exact hw (hwoken h)
  · rw [hsame]
    exact hreceived

/-- What is returned satisfies `Q`; the bit stays truthful. -/
abbrev Hears {α : Type} (Q : α → State → Prop) (p : Program WifiCall WifiCall.Reply α)
    (s : State) : Prop :=
  Safe addressFirst (fun _ _ => True) State.Heard Q p s

theorem hears_call {α : Type} {Q : α → State → Prop} {o : WifiCall}
    {next : o.Reply → Program WifiCall WifiCall.Reply α} (ho : o ≠ .start) (hs : s.Heard)
    (hnext : ∀ r t, addressFirst o s r t → t.Heard → (s.received = true → t.received = true) →
      Hears Q (next r) t) : Hears Q (.call o next) s := by
  refine ⟨trivial, fun r t hm => ?_⟩
  obtain ⟨hheard, hreceived⟩ := heard_machine ho hm
  exact ⟨hheard hs, hnext r t hm (hheard hs) hreceived⟩

/-- Parts whose result says nothing about a connection. -/
theorem hears_of_uses {α : Type} {p : Program WifiCall WifiCall.Reply α}
    (hp : Uses (fun o => o ≠ .start) (fun _ _ => True) p) (hs : s.Heard) :
    Hears (fun _ t => t.Heard) p s :=
  hp.safe (fun _ _ _ _ ho hs hm => ⟨trivial, (heard_machine ho hm).1 hs⟩)
    (fun _ _ _ _ => trivial) hs

theorem waitBits_hears (hs : s.Heard) :
    Hears (fun x t => t.Heard ∧ (x.1 = true → t.received = true)) (waitBits.run h) s := by
  simp only [waitBits, call, Stateful.run_call_bind]
  refine hears_call (by simp) hs fun already t hm ht _ => ?_
  obtain ⟨⟨u, hu, hreply, hu'⟩, -⟩ := hm
  cases already with
  | true =>
      refine ⟨ht, fun _ => ?_⟩
      rw [hu', if_pos rfl]
      exact ((heard_reaches hu).1 hs).bit hreply.symm
  | false =>
      refine hears_call (by simp) ht fun r v hm hv _ => ⟨hv, ?_⟩
      obtain ⟨⟨u', hreach, hreply', rfl⟩, -⟩ := hm
      obtain ⟨hbit, hwoken⟩ := (heard_reaches hreach).1 ht
      intro hr
      change r = true at hr
      rw [hreply', Bool.or_eq_true] at hr
      rcases hr with hr | hr
      · exact hwoken hr
      · exact hbit hr

theorem wifiCredsWaitForConnection_hears (hs : s.Heard) :
    Hears (fun x t => t.Heard ∧ (x.1 = .ok → t.received = true))
      (wifiCredsWaitForConnection.run h) s := by
  simp only [wifiCredsWaitForConnection, call, Stateful.run_call_bind]
  refine hears_call (by simp) hs fun ap t hm ht _ => ?_
  cases ap with
  | some ssid => exact ⟨ht, fun _ => hm.2⟩
  | none =>
      rw [Option.isSome_none, if_neg Bool.false_ne_true]
      simp only [Stateful.run_call_bind]
      refine hears_call (by simp) ht fun _ t₁ _ ht₁ _ => ?_
      refine hears_call (by simp) ht₁ fun _ t₂ _ ht₂ _ => ?_
      rw [Stateful.run_bind]
      apply (waitBits_hears ht₂).bind
      rintro ⟨connected, h'⟩ t₃ ⟨ht₃, hconnected⟩
      refine hears_call (by simp) ht₃ fun _ t₄ _ ht₄ hkeep => ?_
      cases connected with
      | false => exact ⟨ht₄, by simp⟩
      | true =>
          refine hears_call (by simp) ht₄ fun _ t₅ _ ht₅ hkeep' => ⟨ht₅, fun _ => ?_⟩
          exact hkeep' (hkeep (hconnected rfl))

theorem wifiCredsIsConnected_hears (hs : s.Heard) :
    Hears (fun x t => t.Heard ∧ (x.1 = true → t.received = true))
      (wifiCredsIsConnected.run h) s := by
  refine hears_call nofun hs fun ap t hm ht _ => ?_
  cases ap with
  | some ssid => exact ⟨ht, fun _ => hm.2⟩
  | none => exact ⟨ht, nofun⟩

theorem pollConnected_hears (n : ℕ) (hs : s.Heard) :
    Hears (fun _ t => t.Heard) ((pollConnected n).run h) s := by
  induction n generalizing s h with
  | zero => exact hs
  | succ n ih =>
      rw [pollConnected, Stateful.run_bind]
      apply (wifiCredsIsConnected_hears hs).bind
      rintro ⟨connected, h'⟩ t ⟨ht, -⟩
      cases connected with
      | true => exact ht
      | false => exact ih ht

theorem tryAutoConnect_hears (n : ℕ) (hs : s.Heard) :
    Hears (fun x t => t.Heard ∧ (x.1 = true → t.received = true)) ((tryAutoConnect n).run h) s := by
  induction n generalizing s h with
  | zero => exact ⟨hs, nofun⟩
  | succ n ih =>
      rw [tryAutoConnect, Stateful.run_bind]
      apply (wifiCredsWaitForConnection_hears hs).bind
      rintro ⟨ret, h'⟩ t ⟨ht, hok⟩
      split
      · next hret => exact ⟨ht, fun _ => hok hret⟩
      · rw [Stateful.run_bind]
        apply (pollConnected_hears 10 ht).bind
        rintro ⟨_, h''⟩ u hu
        rw [Stateful.run_bind]
        apply (wifiCredsIsConnected_hears hu).bind
        rintro ⟨connected, h₃⟩ v ⟨hv, hconnected⟩
        cases connected with
        | true => exact ⟨hv, hconnected⟩
        | false => exact ih hv

theorem loadNetworks_uses (left i : ℕ) :
    Stateful.Uses (fun o => o ≠ WifiCall.start) (fun _ _ => True) (loadNetworks left i) := by
  induction left generalizing i with
  | zero => exact Stateful.uses_pure
  | succ left ih =>
      refine (Stateful.uses_call nofun).bind fun ssid? => ?_
      cases ssid? with
      | none => exact ih _
      | some ssid =>
          refine (Stateful.uses_call nofun).bind fun password? => ?_
          cases password? with
          | none => exact ih _
          | some password => exact Stateful.uses_modify.bind fun _ => ih _

theorem wifiCredsLoad_uses :
    Stateful.Uses (fun o => o ≠ WifiCall.start) (fun _ _ => True) wifiCredsLoad := by
  refine Stateful.uses_get.bind fun h => Stateful.uses_ite ?_ Stateful.uses_pure
  refine (Stateful.uses_call nofun).bind fun opened => Stateful.uses_ite ?_ Stateful.uses_pure
  refine (Stateful.uses_call nofun).bind fun count => Stateful.uses_ite Stateful.uses_pure ?_
  exact Stateful.uses_modify.bind fun _ => (loadNetworks_uses _ _).bind fun _ => Stateful.uses_pure

theorem wifiCredsScanAndMatch_uses :
    Stateful.Uses (fun o => o ≠ WifiCall.start) (fun _ _ => True) wifiCredsScanAndMatch := by
  refine Stateful.uses_get.bind fun h => Stateful.uses_ite ?_ Stateful.uses_pure
  refine Stateful.uses_modify.bind fun _ => (Stateful.uses_call nofun).bind fun started => ?_
  refine Stateful.uses_ite ?_ Stateful.uses_pure
  refine (Stateful.uses_call nofun).bind fun aps? => ?_
  cases aps? with
  | none => exact Stateful.uses_pure
  | some aps => exact Stateful.uses_modify.bind fun _ => Stateful.uses_pure

theorem connectNetwork_hears (n : Network) (hs : s.Heard) :
    Hears (fun x t => t.Heard ∧ (x.1 = true → t.received = true)) ((connectNetwork n).run h) s := by
  simp only [connectNetwork, call, Stateful.run_call_bind]
  refine hears_call (by simp) hs fun _ t₁ _ ht₁ _ =>
    hears_call (by simp) ht₁ fun configured t₂ _ ht₂ _ => ?_
  cases configured with
  | false => exact ⟨ht₂, by simp⟩
  | true =>
      refine hears_call (by simp) ht₂ fun connecting t₃ _ ht₃ _ => ?_
      cases connecting with
      | false => exact ⟨ht₃, by simp⟩
      | true => exact hears_call (by simp) ht₃ fun _ t₄ _ ht₄ _ => waitBits_hears ht₄

theorem connectNetworks_hears (nets : List Network) (hs : s.Heard) :
    Hears (fun x t => t.Heard ∧ (x.1 = .ok → t.received = true))
      ((connectNetworks nets).run h) s := by
  induction nets generalizing s h with
  | nil => exact hears_call nofun hs fun _ t _ ht _ => ⟨ht, nofun⟩
  | cons n nets ih =>
      rw [connectNetworks]
      split
      · exact ih hs
      · rw [Stateful.run_bind]
        apply (connectNetwork_hears n hs).bind
        rintro ⟨connected, h'⟩ t ⟨ht, hconnected⟩
        cases connected with
        | true =>
            exact hears_call nofun ht fun _ u _ hu hkeep => ⟨hu, fun _ => hkeep (hconnected rfl)⟩
        | false => exact ih ht

theorem wifiCredsConnectBest_hears (hs : s.Heard) :
    Hears (fun x t => t.Heard ∧ (x.1 = .ok → t.received = true))
      (wifiCredsConnectBest.run h) s := by
  rw [wifiCredsConnectBest, Stateful.run_get_bind]
  split
  · split
    · exact ⟨hs, by simp⟩
    · rw [Stateful.run_bind]
      apply (hears_of_uses (wifiCredsScanAndMatch_uses h) hs).bind
      rintro ⟨_, h'⟩ t ht
      exact hears_call (by simp) ht fun _ u _ hu _ => connectNetworks_hears _ hu
  · exact ⟨hs, by simp⟩

theorem reportConnected_hears (hs : s.Heard) (hreceived : s.received = true) :
    Hears (fun _ t => t.received = true) (reportConnected.run h) s :=
  hears_call nofun hs fun _ _ _ ht hkeep =>
    hears_call nofun ht fun _ _ _ _ hkeep' => hkeep' (hkeep hreceived)

theorem connectToWifiWithFeedback_hears :
    Hears (fun x t => x.1.isSome = true → t.received = true)
      (connectToWifiWithFeedback.run h) s := by
  rw [connectToWifiWithFeedback, Stateful.run_bind, wifiCredsInit, call, Stateful.run_call_bind]
  refine ⟨trivial, fun _ t hm => ?_⟩
  obtain ⟨⟨u, -, rfl⟩, -⟩ := hm
  have ht : u.started.Heard := ⟨by simp [State.started], by simp [State.started]⟩
  refine ⟨ht, ?_⟩
  change Hears _ (StateT.run (tryAutoConnect 3 >>= _) _) _
  rw [Stateful.run_bind]
  apply (tryAutoConnect_hears 3 ht).bind
  rintro ⟨auto, h₁⟩ t₁ ⟨ht₁, hauto⟩
  cases auto with
  | true => exact (reportConnected_hears ht₁ (hauto rfl)).imp fun _ _ hr _ => hr
  | false =>
      rw [if_neg Bool.false_ne_true, Stateful.run_bind]
      apply (hears_of_uses (wifiCredsLoad_uses h₁) ht₁).bind
      rintro ⟨loaded, h₂⟩ t₂ ht₂
      rw [Stateful.run_get_bind]
      split
      · rw [Stateful.run_bind]
        apply (wifiCredsConnectBest_hears ht₂).bind
        rintro ⟨best, h₃⟩ t₃ ⟨ht₃, hbest⟩
        split
        · next hok => exact (reportConnected_hears ht₃ (hbest hok)).imp fun _ _ hr _ => hr
        · exact fun hret => absurd hret Bool.false_ne_true
      · exact fun hret => absurd hret Bool.false_ne_true

/-- In every run of `connect_to_wifi_with_feedback`, in every order of the events,
in which `esp_wifi_sta_get_ap_info` succeeds only after a `GOT_IP`: when it returns
true, a `GOT_IP` has been received. -/
theorem connectToWifiWithFeedback_gotIp {tr : List Event} {x : Option Str × WifiHandle}
    (hrun : Steps (machine step) (connectToWifiWithFeedback.run h) s tr (.pure x) t)
    (hfirst : ∀ e ∈ tr, addressKnown e = true) (hret : x.1.isSome = true) : t.received = true := by
  exact connectToWifiWithFeedback_hears.forget.result trivial (hrun.restrict hfirst) hret

section Sample

/-- The station associates after the first look, and has no address yet. -/
def associates (o : WifiCall) (s : State) : List Act :=
  match o with
  | .enterWait => if s.attempt = 1 then [.post (.staConnected "home".toList), .handle] else []
  | _ => []

/-- The address comes during the first wait. -/
theorem connectToWifiWithFeedback_gotIp_home : ∃ x t tr,
    Steps (machine step) (connectToWifiWithFeedback.run ⟨[], false⟩) idleState tr (.pure x) t ∧
    x.1 = some "home".toList ∧ t.received = true := by
  have hend : (playWifi step duringWait [] (connectToWifiWithFeedback.run ⟨[], false⟩)).1.value.map
      Prod.fst = some (some "home".toList) := by
    decide +kernel
  have hfirst : ∀ e ∈ (playWifi step duringWait [] (connectToWifiWithFeedback.run ⟨[], false⟩)).2.2,
      addressKnown e = true := by
    decide +kernel
  obtain ⟨x, hrun, hret⟩ :=
    (steps_playWifi step duringWait [] (connectToWifiWithFeedback.run ⟨[], false⟩)).returned hend
  exact ⟨x, _, _, hrun, hret, connectToWifiWithFeedback_gotIp hrun hfirst (by rw [hret]; rfl)⟩

/-- An associated station without an address is taken for connected. -/
theorem connectToWifiWithFeedback_withoutIp : ∃ x t tr,
    Steps (machine step) (connectToWifiWithFeedback.run ⟨[], false⟩) idleState tr (.pure x) t ∧
    x.1 = some "home".toList ∧ t.received = false := by
  have hend : (playWifi step associates [] (connectToWifiWithFeedback.run ⟨[], false⟩)).1.value.map
      Prod.fst = some (some "home".toList) := by
    decide +kernel
  obtain ⟨x, hrun, hret⟩ :=
    (steps_playWifi step associates [] (connectToWifiWithFeedback.run ⟨[], false⟩)).returned hend
  exact ⟨x, _, _, hrun, hret, by decide +kernel⟩

end Sample

end Wifi

end SimiboxDownloader
