import SimiboxDownloader.Wifi.Creds

/-!
# What the event bit says about an attempt

`wifi_creds_connect_best` takes `CONNECTED_BIT` for the `GOT_IP` of its own
`esp_wifi_connect`. The bit is cleared after that call and it does not say which
attempt it was set for. As long as the event task's steps are `orderly`, it tells
the truth: an iteration succeeds exactly when the `GOT_IP` of its attempt was
delivered (`wifiCredsConnectBest_agrees`).
-/

namespace SimiboxDownloader

namespace Wifi

open Interaction

/-- The `GOT_IP` of the current attempt is not delivered before the bit is
cleared, that of an earlier one not after, and no disconnection takes the bit
away before the wait has begun. -/
def orderly (s : State) : Act → Bool
  | .post _ => true
  | .handle =>
      match s.handler, s.phase with
      | .setConnected attempt, .connecting => decide (attempt ≠ s.attempt)
      | .setConnected attempt, .cleared => decide (attempt = s.attempt)
      | .setConnected attempt, .waiting => decide (attempt = s.attempt)
      | .clearConnected, .cleared => !s.connectedBit
      | _, _ => true

/-- The `GOT_IP` of the current attempt was delivered. -/
def State.Delivered (s : State) : Prop := s.attempt ∈ s.delivered

instance (s : State) : Decidable s.Delivered :=
  inferInstanceAs (Decidable (_ ∈ _))

/-- The bit, or what the wait has seen of it, is about the current attempt. -/
def State.Agrees (s : State) : Prop :=
  match s.phase with
  | .idle => True
  | .connecting => ¬ s.Delivered
  | .cleared => s.connectedBit = true ↔ s.Delivered
  | .waiting => s.waiting = true ∧ (s.woken = true ↔ s.Delivered) ∧
      (s.connectedBit = true → s.woken = true)

/-- The result of the wait that ends with this call. -/
def waitEnds : Event → Option Bool
  | ⟨_, .enterWait, r, _⟩ => if r then some true else none
  | ⟨_, .leaveWait, r, _⟩ => some r
  | _ => none

variable {s t : State}

/-- Nothing has changed that the wait depends on. -/
structure Untouched (s t : State) : Prop where
  connectedBit : t.connectedBit = s.connectedBit
  waiting : t.waiting = s.waiting
  woken : t.woken = s.woken
  attempt : t.attempt = s.attempt
  phase : t.phase = s.phase
  delivered : t.delivered = s.delivered
  received : t.received = s.received

/-- The two statements of the handler the wait depends on, and all the others. -/
theorem step_cases {a : Act} (h : step s a = some t) :
    (a = .handle ∧ s.handler = .clearConnected ∧
      t = { s with connectedBit := false, handler := .setDisconnected }) ∨
    (∃ attempt, a = .handle ∧ s.handler = .setConnected attempt ∧
      t = { s.setConnected attempt with handler := .clearDisconnected }) ∨ Untouched s t := by
  cases a with
  | post e =>
      refine Or.inr (Or.inr ?_)
      simp only [step, State.post] at h
      split at h
      · cases h
        constructor <;> rfl
      · cases h
        constructor <;> rfl
      · cases h
        constructor <;> rfl
      · split at h
        · cases h
          constructor <;> rfl
        · cases h
  | handle =>
      cases hpc : s.handler with
      | clearConnected =>
          simp only [step, State.handle, hpc] at h
          cases h
          exact Or.inl ⟨rfl, rfl, rfl⟩
      | setConnected attempt =>
          simp only [step, State.handle, hpc] at h
          cases h
          exact Or.inr (Or.inl ⟨attempt, rfl, rfl, rfl⟩)
      | idle =>
          simp only [step, State.handle, hpc] at h
          refine Or.inr (Or.inr ?_)
          split at h
          · cases h
          all_goals
            cases h
            constructor <;> rfl
      | _ =>
          simp only [step, State.handle, hpc] at h
          cases h
          refine Or.inr (Or.inr ?_)
          constructor <;> rfl

theorem Untouched.agrees (h : Untouched s t) (hs : s.Agrees) : t.Agrees := by
  unfold State.Agrees State.Delivered
  rw [h.connectedBit, h.waiting, h.woken, h.attempt, h.phase, h.delivered]
  exact hs

/-- An orderly step keeps the bit truthful. -/
theorem agrees_step {a : Act} (h : Transition.restrict orderly step s a = some t)
    (hs : s.Agrees) : t.Agrees ∧ t.phase = s.phase := by
  obtain ⟨hok, hstep⟩ := Transition.restrict_eq_some.1 h
  obtain ⟨rfl, hpc, rfl⟩ | ⟨attempt, rfl, hpc, rfl⟩ | hsame := step_cases hstep
  · refine ⟨?_, rfl⟩
    simp only [orderly, hpc] at hok
    unfold State.Agrees at hs ⊢
    cases hphase : s.phase with
    | idle => trivial
    | connecting =>
        rw [hphase] at hs
        exact hs
    | cleared =>
        -- the bit was not set
        simp only [hphase, Bool.not_eq_true'] at hok hs
        rw [hok] at hs
        exact hs
    | waiting =>
        rw [hphase] at hs
        exact ⟨hs.1, hs.2.1, fun h => by cases h⟩
  · refine ⟨?_, rfl⟩
    simp only [orderly, hpc] at hok
    unfold State.Agrees at hs ⊢
    cases hphase : s.phase with
    | idle =>
        simp only [State.setConnected, hphase]
    | connecting =>
        simp only [hphase, decide_eq_true_eq] at hok hs
        simp only [State.setConnected, hphase, State.Delivered, List.mem_cons, not_or]
        exact ⟨Ne.symm hok, hs⟩
    | cleared =>
        simp only [hphase, decide_eq_true_eq] at hok hs
        simp only [State.setConnected, hphase, State.Delivered, hok, List.mem_cons_self]
    | waiting =>
        simp only [hphase, decide_eq_true_eq] at hok hs
        simp only [State.setConnected, hphase, State.Delivered, hok, hs.1, Bool.or_true,
          List.mem_cons_self, implies_true, and_self]
  · exact ⟨hsame.agrees hs, hsame.phase⟩

theorem agrees_reaches (h : Transition.Reaches (Transition.restrict orderly step) s t)
    (hs : s.Agrees) : t.Agrees ∧ t.phase = s.phase := by
  refine h.invariant (P := fun u => u.Agrees ∧ u.phase = s.phase) ?_ ⟨hs, rfl⟩
  intro u a v hu hstep
  obtain ⟨hv, hphase⟩ := agrees_step hstep hu.1
  exact ⟨hv, hphase.trans hu.2⟩

/-- What a call relies on in the state it is made in. -/
def Relies (o : WifiCall) (s : State) : Prop :=
  match o with
  | .enterWait => s.Agrees ∧ s.phase = .cleared
  | .leaveWait => s.Agrees ∧ s.phase = .waiting
  | _ => True

/-- The judgement that a wait is only entered with a truthful bit. -/
abbrev Truthful {α : Type} (p : Program WifiCall WifiCall.Reply α) (s : State) : Prop :=
  Safe (machine (Transition.restrict orderly step)) Relies (fun _ => True) (fun _ _ => True) p s

/-- The result of a wait is the truth about the attempt. -/
theorem wait_agrees {e : Event} {r : Bool}
    (hm : machine (Transition.restrict orderly step) e.op e.before e.reply e.after)
    (hrelies : Relies e.op e.before) (hr : waitEnds e = some r) :
    r = true ↔ e.after.Delivered := by
  obtain ⟨s, o, reply, t⟩ := e
  dsimp only at hm hrelies ⊢
  cases o with
  | enterWait =>
      obtain ⟨u, hu, hreply, ht⟩ := hm
      obtain ⟨hagrees, hphase⟩ := agrees_reaches hu hrelies.1
      rw [hrelies.2] at hphase
      simp only [waitEnds] at hr
      split at hr
      · next hset =>
          cases hr
          simp only [State.Agrees, hphase] at hagrees
          simp only [hset, if_true] at ht
          rw [ht]
          exact (iff_of_eq (congrArg (· = true) (hset.symm.trans hreply))).trans hagrees
      · cases hr
  | leaveWait =>
      obtain ⟨u, hu, hreply, ht⟩ := hm
      obtain ⟨hagrees, hphase⟩ := agrees_reaches hu hrelies.1
      rw [hrelies.2] at hphase
      cases hr
      simp only [State.Agrees, hphase] at hagrees
      obtain ⟨-, hwoken, hbit⟩ := hagrees
      rw [hreply, ht, Bool.or_eq_true]
      constructor
      · rintro (h | h)
        · exact hwoken.1 h
        · exact hwoken.1 (hbit h)
      · intro h
        exact Or.inl (hwoken.2 h)
  | _ => cases hr

theorem waitBits_truthful {h : WifiHandle} (hs : s.Agrees) (hphase : s.phase = .cleared) :
    Truthful (waitBits.run h) s := by
  simp only [waitBits, call, Stateful.run_call_bind]
  refine ⟨⟨hs, hphase⟩, fun already t hm => ⟨trivial, ?_⟩⟩
  obtain ⟨u, hu, hreply, ht⟩ := hm
  obtain ⟨hagrees, hphase'⟩ := agrees_reaches hu hs
  rw [hphase] at hphase'
  simp only [State.Agrees, hphase'] at hagrees
  cases already with
  | true => trivial
  | false =>
      rw [if_neg Bool.false_ne_true] at ht
      rw [← hreply] at hagrees
      refine ⟨⟨?_, by rw [ht]⟩, fun _ _ _ => ⟨trivial, trivial⟩⟩
      rw [ht]
      exact ⟨rfl, hagrees, fun hbit => hreply.trans hbit⟩

theorem connectNetwork_truthful (n : Network) (h : WifiHandle) :
    Truthful ((connectNetwork n).run h) s := by
  simp only [connectNetwork, call, Stateful.run_call_bind]
  refine ⟨trivial, fun _ _ _ => ⟨trivial, trivial, fun configured t₁ _ => ⟨trivial, ?_⟩⟩⟩
  cases configured with
  | false => trivial
  | true =>
      dsimp only
      rw [if_pos rfl, Stateful.run_call_bind]
      refine ⟨trivial, fun connecting t₂ hm₂ => ⟨trivial, ?_⟩⟩
      cases connecting with
      | false => trivial
      | true =>
          dsimp only
          rw [if_pos rfl, Stateful.run_call_bind]
          obtain ⟨u₂, -, ht₂⟩ := hm₂
          have hconnecting : t₂.Agrees ∧ t₂.phase = .connecting := by
            rw [ht₂, if_pos rfl]
            exact ⟨List.not_mem_nil, rfl⟩
          refine ⟨trivial, fun _ t₃ hm₃ => ⟨trivial, ?_⟩⟩
          obtain ⟨u₃, hu₃, ht₃⟩ := hm₃
          obtain ⟨hagrees, hphase⟩ := agrees_reaches hu₃ hconnecting.1
          rw [hconnecting.2] at hphase
          simp only [State.Agrees, hphase] at hagrees
          apply waitBits_truthful
          · rw [ht₃]
            exact ⟨fun h => (by cases h), fun h => absurd h hagrees⟩
          · rw [ht₃]

theorem connectNetworks_truthful (nets : List Network) (h : WifiHandle) :
    Truthful ((connectNetworks nets).run h) s := by
  induction nets generalizing s h with
  | nil => exact ⟨trivial, fun _ _ _ => ⟨trivial, trivial⟩⟩
  | cons n nets ih =>
      rw [connectNetworks]
      split
      · exact ih h
      · rw [Stateful.run_bind]
        apply (connectNetwork_truthful n h).bind
        rintro ⟨connected, h'⟩ t -
        cases connected with
        | true => exact ⟨trivial, fun _ _ _ => ⟨trivial, trivial⟩⟩
        | false => exact ih h'

theorem wifiCredsScanAndMatch_truthful (h : WifiHandle) :
    Truthful (wifiCredsScanAndMatch.run h) s := by
  rw [wifiCredsScanAndMatch, Stateful.run_get_bind]
  split
  · rw [Stateful.run_modify_bind]
    simp only [call, Stateful.run_call_bind]
    refine ⟨trivial, fun started t _ => ⟨trivial, ?_⟩⟩
    cases started with
    | false => trivial
    | true =>
        refine ⟨trivial, fun aps? u _ => ⟨trivial, ?_⟩⟩
        cases aps? with
        | none => trivial
        | some aps => trivial
  · trivial

theorem wifiCredsConnectBest_truthful (h : WifiHandle) :
    Truthful (wifiCredsConnectBest.run h) s := by
  rw [wifiCredsConnectBest, Stateful.run_get_bind]
  split
  · split
    · trivial
    · rw [Stateful.run_bind]
      apply (wifiCredsScanAndMatch_truthful h).bind
      rintro ⟨_, h'⟩ t -
      refine ⟨trivial, fun _ u _ => ⟨trivial, ?_⟩⟩
      exact connectNetworks_truthful _ _
  · trivial

section Results

variable {M : Machine WifiCall WifiCall.Reply State} {l : List Event}

/-- The results of the waits made so far. -/
def waitResults (l : List Event) : List Bool := l.filterMap waitEnds

theorem waitResults_append (l d : List Event) :
    waitResults (l ++ d) = waitResults l ++ waitResults d :=
  List.filterMap_append

theorem waitBits_leads (h : WifiHandle) :
    Leads M (fun x _ l' => waitResults l' = waitResults l ++ [x.1]) (waitBits.run h) s l := by
  simp only [waitBits, call, Stateful.run_call_bind]
  refine leads_call fun already t _ => ?_
  cases already with
  | true => exact waitResults_append _ _
  | false =>
      refine leads_call fun r u _ => ?_
      change waitResults _ = _
      rw [waitResults_append, waitResults_append, List.append_assoc]
      rfl

/-- An iteration waits once, or it fails without a wait. -/
theorem connectNetwork_leads (n : Network) (h : WifiHandle) :
    Leads M (fun x _ l' => waitResults l' = waitResults l ++ [x.1] ∨
      x.1 = false ∧ waitResults l' = waitResults l) ((connectNetwork n).run h) s l := by
  simp only [connectNetwork, call, Stateful.run_call_bind]
  refine leads_call fun _ t₁ _ => leads_call fun configured t₂ _ => ?_
  cases configured with
  | false =>
      refine Or.inr ⟨rfl, ?_⟩
      simp [waitResults, waitEnds]
  | true =>
      refine leads_call fun connecting t₃ _ => ?_
      cases connecting with
      | false =>
          refine Or.inr ⟨rfl, ?_⟩
          simp [waitResults, waitEnds]
      | true =>
          refine leads_call fun _ t₄ _ => (waitBits_leads h).imp ?_
          rintro ⟨r, h'⟩ u hu
          left
          rw [hu]
          simp [waitResults, waitEnds]

theorem connectNetworks_leads (nets : List Network) (h : WifiHandle)
    (hl : true ∉ waitResults l) :
    Leads M (fun x _ l' => x.1 = .ok ↔ true ∈ waitResults l')
      ((connectNetworks nets).run h) s l := by
  induction nets generalizing s h l with
  | nil =>
      refine leads_call fun _ t _ => ?_
      constructor
      · intro hok
        cases hok
      · intro hmem
        rw [waitResults_append] at hmem
        rcases List.mem_append.1 hmem with hmem | hmem
        · exact absurd hmem hl
        · cases hmem
  | cons n nets ih =>
      rw [connectNetworks]
      split
      · exact ih h hl
      · rw [Stateful.run_bind]
        apply (connectNetwork_leads n h).bind
        rintro ⟨connected, h'⟩ t l' hl'
        cases connected with
        | true =>
            refine leads_call fun _ u _ => iff_of_true rfl ?_
            rw [waitResults_append]
            rcases hl' with hl' | ⟨hfalse, -⟩
            · rw [hl']
              simp
            · cases hfalse
        | false =>
            apply ih h'
            rcases hl' with hl' | ⟨-, hl'⟩
            · rw [hl']
              simpa using hl
            · rwa [hl']

/-- The scan waits for nothing. -/
theorem wifiCredsScanAndMatch_leads (h : WifiHandle) :
    Leads M (fun _ _ l' => waitResults l' = waitResults l) (wifiCredsScanAndMatch.run h) s l := by
  rw [wifiCredsScanAndMatch, Stateful.run_get_bind]
  split
  · rw [Stateful.run_modify_bind]
    simp only [call, Stateful.run_call_bind]
    refine leads_call fun started t _ => ?_
    cases started with
    | false =>
        change waitResults _ = waitResults l
        simp [waitResults, waitEnds]
    | true =>
        refine leads_call fun aps? u _ => ?_
        cases aps? with
        | none =>
            change waitResults _ = waitResults l
            simp [waitResults, waitEnds]
        | some aps =>
            change waitResults _ = waitResults l
            simp [waitResults, waitEnds]
  · trivial

theorem wifiCredsConnectBest_leads (h : WifiHandle) :
    Leads M (fun x _ l' => x.1 = .ok ↔ true ∈ waitResults l')
      (wifiCredsConnectBest.run h) s [] := by
  rw [wifiCredsConnectBest, Stateful.run_get_bind]
  split
  · split
    · exact iff_of_false nofun List.not_mem_nil
    · rw [Stateful.run_bind]
      apply (wifiCredsScanAndMatch_leads h).bind
      rintro ⟨_, h'⟩ t l hl
      refine leads_call fun _ u _ => connectNetworks_leads _ _ ?_
      rw [waitResults_append, hl]
      simp [waitResults, waitEnds]
  · exact iff_of_false nofun List.not_mem_nil

end Results

/-- In every run of `wifi_creds_connect_best`, for every list of networks, in
which the steps of the event task are orderly: the wait of an iteration reports
success exactly when the `GOT_IP` of its own `esp_wifi_connect` was delivered
after that call and by the end of the wait. The function returns `ESP_OK` exactly
when an iteration's wait did. -/
theorem wifiCredsConnectBest_agrees {h : WifiHandle}
    {q : Program WifiCall WifiCall.Reply (EspErr × WifiHandle)} {tr : List Event}
    (hrun : Steps (machine (Transition.restrict orderly step))
      (wifiCredsConnectBest.run h) s tr q t) :
    (∀ e ∈ tr, ∀ r, waitEnds e = some r → (r = true ↔ e.after.Delivered)) ∧
      ∀ x, q = .pure x → (x.1 = .ok ↔ true ∈ waitResults tr) := by
  constructor
  · intro e he r hr
    have hrelies := (wifiCredsConnectBest_truthful h).events hrun e he
    exact wait_agrees (hrun.events e he) hrelies hr
  · rintro x rfl
    exact (wifiCredsConnectBest_leads h).result hrun

section Sample

/-- Nothing has happened yet. -/
def idleState : State where
  connectedBit := false
  disconnectedBit := false
  isConnecting := false
  waiting := false
  woken := false
  queue := []
  handler := .idle
  associated := none
  stored := ⟨none, fun _ => none, fun _ => none⟩
  attempt := 0
  phase := .idle
  delivered := []
  received := false

/-- Calls that succeed, with `aps` in the scan. -/
def respond (aps : List (Str × ℤ)) : (o : WifiCall) → State → o.Reply × State
  | .start, s => ((), s.started)
  | .staGetApInfo, s => (s.associated, s)
  | .setConnecting on, s => ((), { s with isConnecting := on })
  | .connect, s =>
      (true, { s with attempt := s.attempt + 1, phase := .connecting, delivered := [] })
  | .disconnect, s => ((), s)
  | .setConfig _ _, s => (true, s)
  | .clearBits, s => ((), { s with connectedBit := false, phase := .cleared })
  | .enterWait, s =>
      (s.connectedBit, if s.connectedBit then { s with phase := .idle }
        else { s with waiting := true, woken := false, phase := .waiting })
  | .leaveWait, s =>
      (s.woken || s.connectedBit, { s with waiting := false, woken := false, phase := .idle })
  | .scanStart, s => (true, s)
  | .scanGetApRecords, s => (some (aps.take wifiScanMaxAp), s)
  | .nvsOpen, s => (true, s)
  | .nvsGetCount, s => (s.stored.count, s)
  | .nvsGetSsid i, s => ((s.stored.ssid i).filter fun v => v.length < wifiSsidMaxLen, s)
  | .nvsGetPassword i, s => ((s.stored.password i).filter fun v => v.length < wifiPassMaxLen, s)

theorem fetched_filter (size : ℕ) (value : Option Str) :
    Fetched size value (value.filter fun v => v.length < size) := by
  cases value with
  | none => exact Or.inl rfl
  | some v =>
      by_cases h : v.length < size
      · refine Or.inr ⟨by simp [Option.filter, h], ?_⟩
        intro s hs
        obtain ⟨-, hlt⟩ := Option.filter_eq_some_iff.1 hs
        simpa using hlt
      · exact Or.inl (by simp [Option.filter, h])

theorem effect_respond (aps : List (Str × ℤ)) (o : WifiCall) (s : State) :
    effect o s (respond aps o s).1 (respond aps o s).2 := by
  cases o with
  | scanGetApRecords =>
      refine ⟨?_, rfl⟩
      intro l hl
      cases hl
      exact List.length_take_le _ _
  | nvsGetCount => exact ⟨Or.inr rfl, rfl⟩
  | nvsGetSsid i => exact ⟨fetched_filter _ _, rfl⟩
  | nvsGetPassword i => exact ⟨fetched_filter _ _, rfl⟩
  | staGetApInfo | enterWait | leaveWait => exact ⟨rfl, rfl⟩
  | _ => rfl

/-- Run a program with the steps `script` of the other two before each call. -/
def playWifi {α : Type} (next : State → Act → Option State) (script : WifiCall → State → List Act)
    (aps : List (Str × ℤ)) (p : Program WifiCall WifiCall.Reply α) :=
  play (fun o s => (Transition.run next s (script o s)).map (respond aps o)) p idleState

theorem steps_playWifi {α : Type} (next : State → Act → Option State)
    (script : WifiCall → State → List Act) (aps : List (Str × ℤ))
    (p : Program WifiCall WifiCall.Reply α) :
    Steps (machine next) p idleState (playWifi next script aps p).2.2
      (playWifi next script aps p).1 (playWifi next script aps p).2.1 := by
  apply steps_play
  intro o s r t h
  obtain ⟨u, hu, hr⟩ := Option.map_eq_some_iff.1 h
  obtain ⟨rfl, rfl⟩ := Prod.mk.inj hr
  exact ⟨u, Transition.Reaches.of_run hu, effect_respond aps o u⟩

/-- Two saved networks. -/
def savedNetworks : WifiHandle where
  networks := [⟨"home".toList, "secret".toList, -100⟩, ⟨"work".toList, "secret".toList, -100⟩]
  initialized := true

def visibleAps : List (Str × ℤ) := [("home".toList, -50), ("work".toList, -60)]

/-- The driver reports the association and the address of an attempt. -/
def associate (attempt : ℕ) : List Act :=
  [.post (.staConnected "home".toList), .post (.gotIp attempt)]

/-- The address comes during the wait. -/
def duringWait (o : WifiCall) (_ : State) : List Act :=
  match o with
  | .leaveWait => associate 1 ++ List.replicate 5 .handle
  | _ => []

theorem wifiCredsConnectBest_agrees_home : ∃ q t tr,
    Steps (machine (Transition.restrict orderly step)) (wifiCredsConnectBest.run savedNetworks)
      idleState tr q t ∧
    waitResults tr = [true] ∧
      ∀ e ∈ tr, ∀ r, waitEnds e = some r → (r = true ↔ e.after.Delivered) := by
  have hrun := steps_playWifi (Transition.restrict orderly step) duringWait visibleAps
    (wifiCredsConnectBest.run savedNetworks)
  exact ⟨_, _, _, hrun, by decide +kernel, (wifiCredsConnectBest_agrees hrun).1⟩

/-- The address comes right after `esp_wifi_connect`. -/
def beforeClear (o : WifiCall) (s : State) : List Act :=
  match o with
  | .clearBits => if s.attempt = 1 then associate 1 ++ List.replicate 5 .handle else []
  | _ => []

/-- The address of the first attempt comes during the wait of the second. -/
def afterTimeout (o : WifiCall) (s : State) : List Act :=
  match o with
  | .leaveWait => if s.attempt = 2 then associate 1 ++ List.replicate 5 .handle else []
  | _ => []

/-- A `GOT_IP` that comes before the bit is cleared is lost, and one of an earlier
attempt makes a later one succeed. -/
theorem wifiCredsConnectBest_disagrees :
    (∃ q t tr, Steps (machine step) (wifiCredsConnectBest.run savedNetworks) idleState tr q t ∧
      ∃ e ∈ tr, waitEnds e = some false ∧ e.after.Delivered) ∧
    ∃ q t tr, Steps (machine step) (wifiCredsConnectBest.run savedNetworks) idleState tr q t ∧
      ∃ e ∈ tr, waitEnds e = some true ∧ ¬ e.after.Delivered := by
  constructor
  · refine ⟨_, _, _, steps_playWifi step beforeClear visibleAps _, ?_⟩
    decide +kernel
  · refine ⟨_, _, _, steps_playWifi step afterTimeout visibleAps _, ?_⟩
    decide +kernel

end Sample

end Wifi

end SimiboxDownloader
