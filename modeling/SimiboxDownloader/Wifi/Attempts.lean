import SimiboxDownloader.Wifi.Ranking

/-!
# The networks that are tried

`wifi_creds_connect_best` tries the networks of the ranking whose RSSI is above
-100, and with none of these the first one. A network that was seen with -100 or
less is taken for one out of range, so it is left out when another one is seen or
ranked before it. `wifiCredsConnectBest_tries` says exactly when every network
seen is tried all the same.
-/

namespace SimiboxDownloader

namespace Wifi

open Interaction StableOrder

/-- The texts fit into the arrays of `wifi_network_t`. -/
def Network.Fits (n : Network) : Prop :=
  n.ssid.length < wifiSsidMaxLen ∧ n.password.length < wifiPassMaxLen

/-- The networks tried, in order. -/
def tried (l : List Event) : List (Str × Str) := l.filterMap attempted

/-- The access points of the scan, none if it has failed. -/
def scannedAps (l : List Event) : List (Str × ℤ) := (l.filterMap scanned).flatten

/-- The networks the loop does not skip. -/
def eligible (networks : List Network) : List Network :=
  (blindAttempt networks).filter fun n => -100 < n.rssi

/-- With a copy that `strncpy` does not cut. -/
theorem Network.Fits.config {n : Network} (h : n.Fits) :
    (n.ssid.take 32, n.password.take 64) = n.creds := by
  have hssid : n.ssid.take 32 = n.ssid := List.take_of_length_le (Nat.le_of_lt_succ h.1)
  have hpassword : n.password.take 64 = n.password :=
    List.take_of_length_le (Nat.le_of_lt_succ h.2)
  rw [hssid, hpassword, Network.creds]

theorem tried_append (l d : List Event) : tried (l ++ d) = tried l ++ tried d :=
  List.filterMap_append

theorem scannedAps_append (l d : List Event) :
    scannedAps (l ++ d) = scannedAps l ++ scannedAps d := by
  rw [scannedAps, List.filterMap_append, List.flatten_append]
  rfl

theorem fits_blindAttempt {networks : List Network} (h : ∀ n ∈ networks, n.Fits) :
    ∀ n ∈ blindAttempt networks, n.Fits := by
  unfold blindAttempt
  split
  · exact h
  · cases networks with
    | nil => exact h
    | cons a rest =>
        intro n hn
        rcases List.mem_cons.1 hn with rfl | hn
        · exact h a List.mem_cons_self
        · exact h n (List.mem_cons_of_mem a hn)

theorem fits_ranked {aps : List (Str × ℤ)} {networks : List Network} (h : ∀ n ∈ networks, n.Fits) :
    ∀ n ∈ ranked aps networks, n.Fits := by
  intro n hn
  obtain ⟨m, hm, rfl⟩ := mem_ranked.1 hn
  exact h m hm

section Loop

variable {M : Machine WifiCall WifiCall.Reply State} {s t : State} {l : List Event}

/-- A call that neither tries a network nor reads access points. -/
theorem unremarkable {e : Event} (htried : attempted e = none) (hscanned : scanned e = none) :
    tried (l ++ [e]) = tried l ∧ scannedAps (l ++ [e]) = scannedAps l := by
  constructor
  · rw [tried_append, tried, tried, List.filterMap_cons_none htried]
    exact List.append_nil _
  · rw [scannedAps_append, scannedAps, scannedAps, List.filterMap_cons_none hscanned]
    exact List.append_nil _

theorem waitBits_tries (h : WifiHandle) :
    Leads M (fun _ _ l' => tried l' = tried l ∧ scannedAps l' = scannedAps l)
      (waitBits.run h) s l := by
  simp only [waitBits, call, Stateful.run_call_bind]
  refine leads_call fun already t _ => ?_
  cases already with
  | true => exact unremarkable rfl rfl
  | false =>
      refine leads_call fun r u _ => ?_
      obtain ⟨htried, hscanned⟩ := unremarkable (l := l) (e := ⟨s, .enterWait, false, t⟩) rfl rfl
      rw [← htried, ← hscanned]
      exact unremarkable rfl rfl

/-- An attempt begins with `esp_wifi_set_config`; no access point is read. -/
theorem connectNetwork_tries (n : Network) (hn : n.Fits) (h : WifiHandle) :
    Leads M (fun _ _ l' => tried l' = tried l ++ [n.creds] ∧ scannedAps l' = scannedAps l)
      ((connectNetwork n).run h) s l := by
  rw [← hn.config]
  simp only [connectNetwork, call, Stateful.run_call_bind]
  refine leads_call fun _ t₁ _ => leads_call fun configured t₂ _ => ?_
  cases configured with
  | false =>
      change tried _ = _ ∧ scannedAps _ = _
      simp only [tried_append, scannedAps_append, List.append_assoc]
      exact ⟨rfl, List.append_nil _⟩
  | true =>
      refine leads_call fun connecting t₃ _ => ?_
      cases connecting with
      | false =>
          change tried _ = _ ∧ scannedAps _ = _
          simp only [tried_append, scannedAps_append, List.append_assoc]
          exact ⟨rfl, List.append_nil _⟩
      | true =>
          refine leads_call fun _ t₄ _ => (waitBits_tries h).imp ?_
          rintro _ _ ⟨htried, hscanned⟩
          rw [htried, hscanned]
          simp only [tried_append, scannedAps_append, List.append_assoc]
          exact ⟨rfl, List.append_nil _⟩

/-- The loop tries the networks above -100 in order, at least the first of them, and
without success all of them. -/
theorem connectNetworks_tries (nets : List Network) (hnets : ∀ n ∈ nets, n.Fits) (h : WifiHandle) :
    Leads M (fun x _ l' => scannedAps l' = scannedAps l ∧
      ∃ d rest, (nets.filter fun n => -100 < n.rssi) = d ++ rest ∧
        tried l' = tried l ++ d.map Network.creds ∧ (d = [] → rest = []) ∧
        (x.1 ≠ .ok → rest = []))
      ((connectNetworks nets).run h) s l := by
  induction nets generalizing s h l with
  | nil =>
      refine leads_call fun _ t _ => ?_
      obtain ⟨htried, hscanned⟩ :=
        unremarkable (l := l) (e := ⟨s, .setConnecting false, (), t⟩) rfl rfl
      refine ⟨hscanned, [], [], rfl, ?_, fun _ => rfl, fun _ => rfl⟩
      exact htried.trans (List.append_nil _).symm
  | cons n nets ih =>
      have hrest := fun m hm => hnets m (List.mem_cons_of_mem n hm)
      rw [connectNetworks]
      by_cases hn : n.rssi ≤ -100
      · rw [if_pos hn, List.filter_cons_of_neg (by simpa using hn)]
        exact ih hrest h
      · rw [if_neg hn, List.filter_cons_of_pos (by simpa using hn), Stateful.run_bind]
        apply (connectNetwork_tries n (hnets n List.mem_cons_self) h).bind
        rintro ⟨connected, h'⟩ t l' ⟨htried, hscanned⟩
        cases connected with
        | true =>
            refine leads_call fun _ u _ => ?_
            obtain ⟨htried', hscanned'⟩ :=
              unremarkable (l := l') (e := ⟨t, .setConnecting false, (), u⟩) rfl rfl
            refine ⟨hscanned'.trans hscanned, [n], _, rfl, htried'.trans htried, ?_, ?_⟩
            · exact fun hd => absurd hd (List.cons_ne_nil _ _)
            · exact fun hret => absurd rfl hret
        | false =>
            refine (ih hrest h').imp ?_
            rintro ⟨ret, h''⟩ u ⟨hscanned', d, rest, hsplit, htried', -, hall⟩
            refine ⟨hscanned'.trans hscanned, n :: d, rest, ?_, ?_, ?_, hall⟩
            · rw [hsplit, List.cons_append]
            · rw [htried', htried, List.append_assoc]
              rfl
            · exact fun hd => absurd hd (List.cons_ne_nil _ _)

/-- No network is ranked before another one where none is measured. -/
theorem ranked_nil (networks : List Network) : ranked [] networks = networks.map Network.unseen :=
  (ranked_sorts [] networks).1.eq_of_const (k := -100) fun n hn => by
    obtain ⟨m, -, rfl⟩ := List.mem_map.1 hn
    rfl

/-- Those tried are the first ones of the eligible networks, in the order of the
ranking, and without success all of them. -/
theorem wifiCredsConnectBest_attempts {h : WifiHandle} {x : EspErr × WifiHandle} {tr : List Event}
    (hrun : Steps M (wifiCredsConnectBest.run h) s tr (.pure x) t) (hinit : h.initialized = true)
    (hnets : h.networks ≠ []) (hfits : ∀ n ∈ h.networks, n.Fits) :
    ∃ d rest, eligible (ranked (scannedAps tr) h.networks) = d ++ rest ∧
      tried tr = d.map Network.creds ∧ (d = [] → rest = []) ∧ (x.1 ≠ .ok → rest = []) := by
  refine Leads.result (Q := fun x _ l =>
    ∃ d rest, eligible (ranked (scannedAps l) h.networks) = d ++ rest ∧
      tried l = d.map Network.creds ∧ (d = [] → rest = []) ∧ (x.1 ≠ .ok → rest = [])) ?_ hrun
  rw [wifiCredsConnectBest, Stateful.run_get_bind, if_pos hinit, if_neg hnets, Stateful.run_bind]
  apply (wifiCredsScanAndMatch_spec h).bind
  rintro ⟨err, h'⟩ t₁ l₁ hspec
  have hscan : tried l₁ = [] ∧ h'.networks = ranked (scannedAps l₁) h.networks := by
    cases err with
    | ok =>
        obtain ⟨-, d, aps, rfl, htried, hscanned, -, rfl⟩ := hspec
        refine ⟨htried, ?_⟩
        rw [scannedAps, hscanned, List.flatten_singleton]
    | fail =>
        obtain ⟨-, d, rfl, htried, hscanned, -, rfl⟩ := hspec
        refine ⟨htried, ?_⟩
        rw [scannedAps, hscanned, List.flatten_nil, ranked_nil]
    | invalidState =>
        rw [hinit] at hspec
        exact absurd hspec.1 (by simp)
    | notFound | timeout => exact hspec.elim
  obtain ⟨htried, hnetworks⟩ := hscan
  have hfits' : ∀ n ∈ h'.networks, n.Fits := by
    rw [hnetworks]
    exact fits_ranked hfits
  refine leads_call fun _ t₂ _ => (connectNetworks_tries _ (fits_blindAttempt hfits') _).imp ?_
  rintro ⟨ret, h''⟩ ⟨u, l₂⟩ ⟨hscanned, d, rest, hsplit, hattempts, hfirst, hall⟩
  obtain ⟨hsame, hsame'⟩ := unremarkable (l := l₁) (e := ⟨t₁, .setConnecting true, (), t₂⟩) rfl rfl
  refine ⟨d, rest, ?_, ?_, hfirst, hall⟩
  · rw [hscanned, hsame', ← hnetworks]
    exact hsplit
  · rw [hattempts, hsame, htried, List.nil_append]

theorem firstTried_eq (networks : List Network) :
    firstTried networks = (eligible networks).head? := by
  rw [eligible, List.head?_filter, firstTried]
  congr 1
  funext n
  rw [← decide_not, decide_eq_decide, not_le]

/-- The first `esp_wifi_set_config` of every run is that of `firstTried`. -/
theorem wifiCredsConnectBest_first {h : WifiHandle} {x : EspErr × WifiHandle} {tr : List Event}
    (hrun : Steps M (wifiCredsConnectBest.run h) s tr (.pure x) t) (hinit : h.initialized = true)
    (hnets : h.networks ≠ []) (hfits : ∀ n ∈ h.networks, n.Fits) :
    (tried tr).head? = (firstTried (ranked (scannedAps tr) h.networks)).map Network.creds := by
  obtain ⟨d, rest, hsplit, htried, hfirst, -⟩ :=
    wifiCredsConnectBest_attempts hrun hinit hnets hfits
  rw [firstTried_eq, hsplit, htried, List.head?_map]
  cases d with
  | nil => rw [hfirst rfl, List.append_nil]
  | cons n d => rfl

end Loop

section Visible

variable {aps : List (Str × ℤ)} {networks : List Network}

theorem eligible_of_visible (h : ∃ n ∈ networks, -100 < n.rssi) :
    eligible networks = networks.filter fun n => -100 < n.rssi := by
  have hany : networks.any (fun n => -100 < n.rssi) = true := by simpa using h
  rw [eligible, blindAttempt.eq_def, if_pos hany]

theorem eligible_of_invisible (h : ∀ n ∈ networks, n.rssi ≤ -100) :
    (eligible networks).map Network.creds = (networks.take 1).map Network.creds := by
  have hnone : ¬ networks.any (fun n => -100 < n.rssi) = true := by simpa using h
  rw [eligible, blindAttempt.eq_def, if_neg hnone]
  cases networks with
  | nil => rfl
  | cons a rest =>
      have hrest : rest.filter (fun n => -100 < n.rssi) = [] :=
        List.filter_eq_nil_iff.2 fun n hn => by simpa using h n (List.mem_cons_of_mem a hn)
      simp [hrest, Network.creds]

/-- The saved networks that were seen, with their RSSI. -/
def seenNetworks (aps : List (Str × ℤ)) (networks : List Network) : List Network :=
  (networks.filter fun n => InRange aps n.ssid).map (Network.measured aps)

/-- Every saved network that was seen is tried, in the order of the RSSI; if none
was seen only the one stored first is. -/
def TriesSeen (aps : List (Str × ℤ)) (networks : List Network) (tried : List (Str × Str)) : Prop :=
  (∃ order, order.Perm (seenNetworks aps networks) ∧ Descending Network.rssi order ∧
    (order.map Network.creds).Sublist tried) ∧
  ((∀ n ∈ networks, ¬ InRange aps n.ssid) → tried = (networks.take 1).map Network.creds)

/-- The networks seen can be told from those that were not. -/
def AboveFloor (aps : List (Str × ℤ)) (networks : List Network) : Prop :=
  ∀ n ∈ networks, InRange aps n.ssid → -100 < lastRssi aps n.ssid

/-- A single network was seen, and it is ranked first although it may look like
those that were not. -/
def SeenFirst (aps : List (Str × ℤ)) (networks : List Network) : Prop :=
  ∃ n, networks.filter (fun n => InRange aps n.ssid) = [n] ∧
    (networks = [n] ∨ networks.head? = some n ∧ lastRssi aps n.ssid = -100)

theorem seenNetworks_perm (aps : List (Str × ℤ)) (networks : List Network) :
    ((ranked aps networks).filter fun n => InRange aps n.ssid).Perm
      (seenNetworks aps networks) := by
  have hfilter := (ranked_sorts aps networks).1.perm.filter fun n => InRange aps n.ssid
  rw [List.filter_map] at hfilter
  exact hfilter

/-- What is above -100 was seen. -/
theorem inRange_of_visible {n : Network} (hn : n ∈ ranked aps networks) (h : -100 < n.rssi) :
    InRange aps n.ssid := by
  obtain ⟨m, -, rfl⟩ := mem_ranked.1 hn
  by_contra hout
  have hfloor := lastRssi_of_not_inRange hout
  exact absurd hfloor (ne_of_gt h)

theorem ranked_of_const (h : ∀ n ∈ networks, lastRssi aps n.ssid = -100) :
    ranked aps networks = networks.map (Network.measured aps) := by
  apply (ranked_sorts aps networks).1.eq_of_const (k := -100)
  intro n hn
  obtain ⟨m, hm, rfl⟩ := List.mem_map.1 hn
  exact h m hm

/-- With none seen the one stored first is tried. -/
theorem eligible_of_unseen (h : ∀ n ∈ networks, ¬ InRange aps n.ssid) :
    (eligible (ranked aps networks)).map Network.creds = (networks.take 1).map Network.creds := by
  have hfloor := fun n hn => lastRssi_of_not_inRange (h n hn)
  rw [eligible_of_invisible]
  · rw [ranked_of_const hfloor, ← List.map_take, List.map_map]
    rfl
  · intro n hn
    obtain ⟨m, hm, rfl⟩ := mem_ranked.1 hn
    exact le_of_eq (hfloor m hm)

theorem triesSeen_of_aboveFloor (h : AboveFloor aps networks) :
    ∃ order, order.Perm (seenNetworks aps networks) ∧ Descending Network.rssi order ∧
      (order.map Network.creds).Sublist ((eligible (ranked aps networks)).map Network.creds) := by
  refine ⟨_, seenNetworks_perm aps networks,
    (ranked_sorts aps networks).2.sublist List.filter_sublist, List.Sublist.map _ ?_⟩
  have hseen (n : Network) (hn : n ∈ ranked aps networks) (hin : InRange aps n.ssid) :
      -100 < n.rssi := by
    obtain ⟨m, hm, rfl⟩ := mem_ranked.1 hn
    exact h m hm hin
  by_cases hvisible : ∃ n ∈ ranked aps networks, -100 < n.rssi
  · rw [eligible_of_visible hvisible]
    have hsame : (ranked aps networks).filter (fun n => InRange aps n.ssid) =
        (ranked aps networks).filter fun n => -100 < n.rssi := by
      apply List.filter_congr
      intro n hn
      rw [decide_eq_decide]
      exact ⟨hseen n hn, inRange_of_visible hn⟩
    rw [hsame]
  · have hnone : (ranked aps networks).filter (fun n => InRange aps n.ssid) = [] := by
      apply List.filter_eq_nil_iff.2
      intro n hn hin
      exact hvisible ⟨n, hn, hseen n hn (by simpa using hin)⟩
    rw [hnone]
    exact List.nil_sublist _

theorem triesSeen_of_seenFirst (h : SeenFirst aps networks) :
    ∃ order, order.Perm (seenNetworks aps networks) ∧ Descending Network.rssi order ∧
      (order.map Network.creds).Sublist ((eligible (ranked aps networks)).map Network.creds) := by
  by_cases habove : AboveFloor aps networks
  · exact triesSeen_of_aboveFloor habove
  obtain ⟨n, hseen, hfirst⟩ := h
  have hin (m : Network) (hm : m ∈ networks) (hr : InRange aps m.ssid) : m = n := by
    have hmem : m ∈ networks.filter fun n => InRange aps n.ssid :=
      List.mem_filter.2 ⟨hm, by simpa using hr⟩
    rw [hseen] at hmem
    exact List.mem_singleton.1 hmem
  have hfloor : lastRssi aps n.ssid ≤ -100 := by
    by_contra hlt
    refine habove fun m hm hr => ?_
    rw [hin m hm hr]
    exact not_le.1 hlt
  have hinvisible : ∀ m ∈ ranked aps networks, m.rssi ≤ -100 := by
    intro m hm
    by_contra hlt
    have hr := inRange_of_visible hm (not_le.1 hlt)
    obtain ⟨k, hk, rfl⟩ := mem_ranked.1 hm
    rw [hin k hk hr] at hlt
    exact hlt hfloor
  have hhead : (ranked aps networks).take 1 = [n.measured aps] := by
    rcases hfirst with hfirst | ⟨hfirst, hlast⟩
    · have hperm := (ranked_sorts aps networks).1.perm
      rw [hfirst] at hperm ⊢
      rw [List.perm_singleton.1 hperm]
      rfl
    · rw [ranked_of_const]
      · cases networks with
        | nil => cases hfirst
        | cons m rest =>
            obtain rfl := Option.some.inj hfirst
            rfl
      · intro m hm
        by_cases hr : InRange aps m.ssid
        · rw [hin m hm hr, hlast]
        · exact lastRssi_of_not_inRange hr
  refine ⟨[n.measured aps], ?_, List.pairwise_singleton _ _, ?_⟩
  · rw [seenNetworks, hseen]
    exact List.Perm.refl _
  · rw [eligible_of_invisible hinvisible, hhead]

/-- Where a network out of range comes first the one seen is not ranked first. -/
theorem seenFirst_of_head {n : Network}
    (hseen : networks.filter (fun n => InRange aps n.ssid) = [n])
    (hunseen : ∀ m ∈ networks, ¬ InRange aps m.ssid → lastRssi aps n.ssid = -100)
    (hfind : (networks.map (Network.measured aps)).find?
      (fun m => m.rssi = (n.measured aps).rssi) = some (n.measured aps)) :
    networks = [n] ∨ networks.head? = some n ∧ lastRssi aps n.ssid = -100 := by
  have hr : InRange aps n.ssid := by
    have hmem : n ∈ networks.filter fun n => InRange aps n.ssid := by
      rw [hseen]
      exact List.mem_singleton_self n
    simpa using (List.mem_filter.1 hmem).2
  cases networks with
  | nil => cases hseen
  | cons m rest =>
      by_cases hm : InRange aps m.ssid
      · rw [List.filter_cons_of_pos (by simpa using hm)] at hseen
        obtain ⟨rfl, hrest⟩ := List.cons.inj hseen
        cases rest with
        | nil => exact Or.inl rfl
        | cons k rest =>
            have hout : ¬ InRange aps k.ssid := by
              simpa using List.filter_eq_nil_iff.1 hrest k List.mem_cons_self
            exact Or.inr ⟨rfl, hunseen k (by simp) hout⟩
      · have hlast : (m.measured aps).rssi = (n.measured aps).rssi :=
          (lastRssi_of_not_inRange hm).trans (hunseen m List.mem_cons_self hm).symm
        rw [List.map_cons, List.find?_cons_of_pos (by simpa using hlast)] at hfind
        have hssid : m.ssid = n.ssid := congrArg (fun k => k.ssid) (Option.some.inj hfind)
        rw [hssid] at hm
        exact absurd hr hm

theorem aboveFloor_or_seenFirst {order : List Network}
    (horder : order.Perm (seenNetworks aps networks))
    (hsub : (order.map Network.creds).Sublist
      ((eligible (ranked aps networks)).map Network.creds)) :
    AboveFloor aps networks ∨ SeenFirst aps networks := by
  have hmem (n : Network) (hn : n ∈ networks) (hr : InRange aps n.ssid) :
      n.creds ∈ (eligible (ranked aps networks)).map Network.creds := by
    apply hsub.subset
    refine List.mem_map.2 ⟨n.measured aps, horder.mem_iff.2 ?_, rfl⟩
    exact List.mem_map_of_mem (List.mem_filter.2 ⟨hn, by simpa using hr⟩)
  by_cases hvisible : ∃ n ∈ ranked aps networks, -100 < n.rssi
  · left
    intro n hn hr
    have hn' := hmem n hn hr
    rw [eligible_of_visible hvisible] at hn'
    obtain ⟨m, hm, hcreds⟩ := List.mem_map.1 hn'
    obtain ⟨hm, hlt⟩ := List.mem_filter.1 hm
    obtain ⟨k, -, rfl⟩ := mem_ranked.1 hm
    have hssid : k.ssid = n.ssid := congrArg Prod.fst hcreds
    have hlt' : -100 < lastRssi aps k.ssid := of_decide_eq_true hlt
    rwa [hssid] at hlt'
  · have hinvisible : ∀ n ∈ ranked aps networks, n.rssi ≤ -100 := by
      intro n hn
      by_contra hlt
      exact hvisible ⟨n, hn, not_le.1 hlt⟩
    rw [eligible_of_invisible hinvisible] at hsub hmem
    by_cases hnone : ∀ n ∈ networks, ¬ InRange aps n.ssid
    · exact Or.inl fun n hn hr => absurd hr (hnone n hn)
    right
    -- a single network is tried, so a single one was seen
    have hlen : (networks.filter fun n => InRange aps n.ssid).length ≤ 1 := by
      have hle := hsub.length_le
      rw [List.length_map, List.length_map, horder.length_eq, seenNetworks, List.length_map] at hle
      exact hle.trans (List.length_take_le _ _)
    simp only [not_forall, not_not] at hnone
    obtain ⟨n, hn, hr⟩ := hnone
    have hseen : networks.filter (fun n => InRange aps n.ssid) = [n] := by
      have hnmem : n ∈ networks.filter fun n => InRange aps n.ssid :=
        List.mem_filter.2 ⟨hn, by simpa using hr⟩
      obtain ⟨m, hm⟩ := List.length_eq_one_iff.1 (le_antisymm hlen (List.length_pos_of_mem hnmem))
      rw [hm] at hnmem ⊢
      rw [List.mem_singleton.1 hnmem]
    refine ⟨n, hseen, ?_⟩
    have hcreds := hmem n hn hr
    obtain ⟨hmoved, hdesc⟩ := ranked_sorts aps networks
    cases hrank : ranked aps networks with
    | nil =>
        rw [hrank] at hcreds
        cases hcreds
    | cons a rest =>
        rw [hrank] at hcreds hmoved hdesc hinvisible
        have hfirst : n.measured aps = a := by
          obtain ⟨k, hk, rfl⟩ := mem_ranked.1 (hrank ▸ List.mem_cons_self : a ∈ ranked aps networks)
          have hssid : n.ssid = k.ssid := congrArg Prod.fst (List.mem_singleton.1 hcreds)
          have hkmem : k ∈ networks.filter fun n => InRange aps n.ssid :=
            List.mem_filter.2 ⟨hk, by simpa [← hssid] using hr⟩
          rw [hseen] at hkmem
          rw [List.mem_singleton.1 hkmem]
        subst hfirst
        have hfloor : lastRssi aps n.ssid ≤ -100 := hinvisible _ List.mem_cons_self
        obtain ⟨hmax, hfind⟩ := hmoved.find_head hdesc
        have hunseen (m : Network) (hm : m ∈ networks) (hout : ¬ InRange aps m.ssid) :
            lastRssi aps n.ssid = -100 := by
          have hle : lastRssi aps m.ssid ≤ lastRssi aps n.ssid := hmax _ (List.mem_map_of_mem hm)
          rw [lastRssi_of_not_inRange hout] at hle
          exact le_antisymm hfloor hle
        exact seenFirst_of_head hseen hunseen hfind

end Visible

/-- In a run of `wifi_creds_connect_best` without success, for any saved networks,
any scan (failed or not) and any outcome of the attempts: every saved network that
was seen has been tried in the order of the RSSI, and with none seen only the one
stored first, exactly if every network seen has an RSSI above -100 or a single one
was seen and is ranked first all the same. -/
theorem wifiCredsConnectBest_tries {M : Machine WifiCall WifiCall.Reply State} {s t : State}
    {h : WifiHandle} {x : EspErr × WifiHandle} {tr : List Event}
    (hrun : Steps M (wifiCredsConnectBest.run h) s tr (.pure x) t) (hinit : h.initialized = true)
    (hnets : h.networks ≠ []) (hfits : ∀ n ∈ h.networks, n.Fits) (hret : x.1 ≠ .ok) :
    TriesSeen (scannedAps tr) h.networks (tried tr) ↔
      AboveFloor (scannedAps tr) h.networks ∨ SeenFirst (scannedAps tr) h.networks := by
  obtain ⟨d, rest, hsplit, htried, -, hall⟩ :=
    wifiCredsConnectBest_attempts hrun hinit hnets hfits
  rw [hall hret, List.append_nil] at hsplit
  rw [htried, ← hsplit]
  constructor
  · rintro ⟨⟨order, horder, -, hsub⟩, -⟩
    exact aboveFloor_or_seenFirst horder hsub
  · intro hseen
    refine ⟨?_, eligible_of_unseen⟩
    rcases hseen with hseen | hseen
    · exact triesSeen_of_aboveFloor hseen
    · exact triesSeen_of_seenFirst hseen

section Sample

/-- No attempt gets an address; the scan returns `aps`. -/
def playFailing (aps : List (Str × ℤ)) (h : WifiHandle) :=
  playWifi step (fun _ _ => []) aps (wifiCredsConnectBest.run h)

theorem steps_playFailing (aps : List (Str × ℤ)) (h : WifiHandle) :
    Steps (machine step) (wifiCredsConnectBest.run h) idleState (playFailing aps h).2.2
      (playFailing aps h).1 (playFailing aps h).2.1 :=
  steps_playWifi step (fun _ _ => []) aps _

theorem savedNetworks_fit : ∀ n ∈ savedNetworks.networks, n.Fits := by
  unfold Network.Fits
  decide

theorem wifiCredsConnectBest_tries_home : ∃ x t tr,
    Steps (machine step) (wifiCredsConnectBest.run savedNetworks) idleState tr (.pure x) t ∧
    TriesSeen visibleAps savedNetworks.networks (tried tr) := by
  have hend : ((playFailing visibleAps savedNetworks).1.value.map Prod.fst) = some .fail := by
    decide +kernel
  have haps : scannedAps (playFailing visibleAps savedNetworks).2.2 = visibleAps := by
    decide +kernel
  have habove : AboveFloor visibleAps savedNetworks.networks := by
    unfold AboveFloor
    decide +kernel
  obtain ⟨x, hrun, hret⟩ := (steps_playFailing visibleAps savedNetworks).returned hend
  have htries := wifiCredsConnectBest_tries hrun rfl nofun savedNetworks_fit (by rw [hret]; nofun)
  rw [haps] at htries
  exact ⟨x, _, _, hrun, htries.2 (Or.inl habove)⟩

/-- Both networks are in range, one of them barely. -/
def faintAps : List (Str × ℤ) := [("home".toList, -50), ("work".toList, -100)]

/-- The network received with -100 is never tried. -/
theorem wifiCredsConnectBest_faint : ∃ x t tr,
    Steps (machine step) (wifiCredsConnectBest.run savedNetworks) idleState tr (.pure x) t ∧
    x.1 ≠ .ok ∧ scannedAps tr = faintAps ∧ tried tr = [("home".toList, "secret".toList)] ∧
    ¬ TriesSeen faintAps savedNetworks.networks (tried tr) := by
  have hend : ((playFailing faintAps savedNetworks).1.value.map Prod.fst) = some .fail := by
    decide +kernel
  have haps : scannedAps (playFailing faintAps savedNetworks).2.2 = faintAps := by
    decide +kernel
  have htried : tried (playFailing faintAps savedNetworks).2.2 =
      [("home".toList, "secret".toList)] := by
    decide +kernel
  obtain ⟨x, hrun, hret⟩ := (steps_playFailing faintAps savedNetworks).returned hend
  refine ⟨x, _, _, hrun, by rw [hret]; nofun, haps, htried, ?_⟩
  rintro ⟨⟨order, horder, -, hsub⟩, -⟩
  have hseen : (seenNetworks faintAps savedNetworks.networks).length = 2 := by decide +kernel
  have hle := hsub.length_le
  rw [htried, List.length_map, horder.length_eq, hseen] at hle
  exact absurd hle (by decide)

end Sample

end Wifi

end SimiboxDownloader
