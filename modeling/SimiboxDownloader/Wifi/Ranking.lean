import SimiboxDownloader.Library.StableOrder
import SimiboxDownloader.Wifi.ConnectBest
import Mathlib.Data.Int.Order.Basic
import Mathlib.Data.List.Find
import Mathlib.Data.List.Induction

/-!
# The ranking of the saved networks

`wifi_creds_scan_and_match` gives every saved network the RSSI of an access point
and sorts the networks by it. The sort is stable and keeps each network whole
(`wifiCredsScanAndMatch_ranks`). The RSSI is that of the last access point in the
scan, so it is the best one when the last one is (`wifiCredsScanAndMatch_best`).
-100 stands for a network that was not seen, although it can be seen with that
RSSI or a lower one; `wifiCredsConnectBest_tries` says what follows for the
attempts.
-/

namespace SimiboxDownloader

namespace Wifi

open Interaction StableOrder

section Sorting

variable {l : List Network}

/-- A pass over `l`, in front of networks that are settled: the weakest of `l` ends
up behind the others. -/
theorem bubblePass_settles (k : ℕ) (hk : l.length = k + 1) (settled : List Network) :
    ∃ front m, bubblePass k (l ++ settled) = front ++ m :: settled ∧
      Rearranges Network.rssi l (front ++ [m]) ∧ ∀ n ∈ front, m.rssi ≤ n.rssi := by
  induction k generalizing l with
  | zero =>
      obtain ⟨m, rfl⟩ := List.length_eq_one_iff.1 hk
      exact ⟨[], m, rfl, Rearranges.refl _ _, by simp⟩
  | succ k ih =>
      obtain ⟨a, l, rfl⟩ := List.exists_cons_of_length_eq_add_one hk
      obtain ⟨b, rest, rfl⟩ := List.exists_cons_of_length_eq_add_one (Nat.succ.inj hk)
      have hlen : (a :: rest).length = k + 1 := Nat.succ.inj hk
      by_cases hab : a.rssi < b.rssi
      · obtain ⟨front, m, hpass, hmoved, hmin⟩ := ih hlen
        have hm : m.rssi ≤ a.rssi := by
          have hmem : a ∈ front ++ [m] := hmoved.perm.mem_iff.2 List.mem_cons_self
          rcases List.mem_append.1 hmem with hmem | hmem
          · exact hmin a hmem
          · exact le_of_eq (by rw [List.mem_singleton.1 hmem])
        refine ⟨b :: front, m, ?_, ?_, ?_⟩
        · have hstep : bubblePass (k + 1) (a :: b :: rest ++ settled) =
              b :: bubblePass k (a :: rest ++ settled) := if_pos hab
          rw [hstep, hpass, List.cons_append]
        · exact (Rearranges.swap (ne_of_lt hab) rest).trans (hmoved.cons b)
        · intro n hn
          rcases List.mem_cons.1 hn with rfl | hn
          · exact le_trans hm (le_of_lt hab)
          · exact hmin n hn
      · obtain ⟨front, m, hpass, hmoved, hmin⟩ := @ih (b :: rest) hlen
        have hm : m.rssi ≤ b.rssi := by
          have hmem : b ∈ front ++ [m] := hmoved.perm.mem_iff.2 List.mem_cons_self
          rcases List.mem_append.1 hmem with hmem | hmem
          · exact hmin b hmem
          · exact le_of_eq (by rw [List.mem_singleton.1 hmem])
        refine ⟨a :: front, m, ?_, hmoved.cons a, ?_⟩
        · have hstep : bubblePass (k + 1) (a :: b :: rest ++ settled) =
              a :: bubblePass k (b :: rest ++ settled) := if_neg hab
          rw [hstep, hpass, List.cons_append]
        · intro n hn
          rcases List.mem_cons.1 hn with rfl | hn
          · exact le_trans hm (not_lt.1 hab)
          · exact hmin n hn

/-- After some passes: as many networks are settled, in their order and behind the
others. -/
structure Settled (l : List Network) (i : ℕ) (current : List Network) : Prop where
  moved : Rearranges Network.rssi l current
  split : ∃ front settled, current = front ++ settled ∧ settled.length = i ∧
    Descending Network.rssi settled ∧ ∀ a ∈ front, ∀ b ∈ settled, b.rssi ≤ a.rssi

theorem Settled.pass {i : ℕ} {current : List Network} (h : Settled l i current)
    (hi : i < l.length) : Settled l (i + 1) (bubblePass (l.length - i - 1) current) := by
  obtain ⟨hmoved, front, settled, rfl, rfl, hdesc, hbehind⟩ := h
  have hlen : front.length = l.length - settled.length - 1 + 1 := by
    have hperm := hmoved.perm.length_eq
    rw [List.length_append] at hperm
    omega
  obtain ⟨front', m, hpass, hmoved', hmin⟩ := bubblePass_settles _ hlen settled
  have hmem (n : Network) (hn : n ∈ front' ++ [m]) : n ∈ front := hmoved'.perm.mem_iff.1 hn
  rw [hpass]
  refine ⟨?_, front', m :: settled, rfl, rfl, ?_, ?_⟩
  · rw [List.append_cons]
    exact hmoved.trans (hmoved'.append settled)
  · exact List.pairwise_cons.2 ⟨fun b hb => hbehind m (hmem m (by simp)) b hb, hdesc⟩
  · intro a ha b hb
    rcases List.mem_cons.1 hb with rfl | hb
    · exact hmin a ha
    · exact hbehind a (hmem a (List.mem_append_left _ ha)) b hb

/-- The bubble sort is a stable sort. -/
theorem sortByRssi_sorts (l : List Network) :
    Rearranges Network.rssi l (sortByRssi l) ∧ Descending Network.rssi (sortByRssi l) := by
  have hpasses (i : ℕ) (hi : i ≤ l.length) : Settled l i ((List.range i).foldl
      (fun current i => bubblePass (l.length - i - 1) current) l) := by
    induction i with
    | zero => exact ⟨Rearranges.refl _ _, l, [], by simp, rfl, List.Pairwise.nil, by simp⟩
    | succ i ih =>
        rw [List.range_succ, List.foldl_append]
        exact (ih (Nat.le_of_succ_le hi)).pass hi
  obtain ⟨hmoved, front, settled, hsplit, hlen, hdesc, hbehind⟩ :=
    hpasses (l.length - 1) (Nat.sub_le _ _)
  refine ⟨hmoved, ?_⟩
  change sortByRssi l = front ++ settled at hsplit
  have hlength : (sortByRssi l).length = l.length := hmoved.perm.length_eq
  have hshort : front.length ≤ 1 := by
    rw [hsplit, List.length_append] at hlength
    omega
  rw [hsplit]
  refine List.pairwise_append.2 ⟨?_, hdesc, hbehind⟩
  cases front with
  | nil => exact List.Pairwise.nil
  | cons a front =>
      have hnil : front.length ≤ 0 := Nat.le_of_succ_le_succ hshort
      obtain rfl : front = [] := List.length_eq_zero_iff.1 (Nat.le_zero.1 hnil)
      exact List.pairwise_singleton _ _

end Sorting

/-- The name and the password. -/
def Network.creds (n : Network) : Str × Str := (n.ssid, n.password)

/-- Before the scan. -/
def Network.unseen (n : Network) : Network := { n with rssi := -100 }

section Scan

variable {aps : List (Str × ℤ)} {networks : List Network} {ssid : Str}

/-- The RSSIs of the access points with an SSID, in the order of the scan. -/
def rssis (aps : List (Str × ℤ)) (ssid : Str) : List ℤ :=
  (aps.filter fun ap => ap.1 = ssid).map Prod.snd

/-- An access point with the SSID was seen. -/
def InRange (aps : List (Str × ℤ)) (ssid : Str) : Prop := rssis aps ssid ≠ []

instance (aps : List (Str × ℤ)) (ssid : Str) : Decidable (InRange aps ssid) :=
  inferInstanceAs (Decidable (_ ≠ _))

/-- The greatest RSSI of an SSID, -100 if it was not seen. -/
def bestRssi (aps : List (Str × ℤ)) (ssid : Str) : ℤ := (rssis aps ssid).max?.getD (-100)

/-- The RSSI of its last access point, -100 if it was not seen. -/
def lastRssi (aps : List (Str × ℤ)) (ssid : Str) : ℤ := (rssis aps ssid).getLast?.getD (-100)

/-- A network with the RSSI the scan gives it. -/
def Network.measured (aps : List (Str × ℤ)) (n : Network) : Network :=
  { n with rssi := lastRssi aps n.ssid }

theorem rssis_append (aps : List (Str × ℤ)) (ap : Str × ℤ) (ssid : Str) :
    rssis (aps ++ [ap]) ssid =
      if ap.1 = ssid then rssis aps ssid ++ [ap.2] else rssis aps ssid := by
  rw [rssis, List.filter_append, List.map_append]
  by_cases h : ap.1 = ssid
  · simp [rssis, h]
  · simp [rssis, h]

/-- The nested loop gives each network the RSSI of the last access point with its
SSID. -/
theorem matchAps_eq (aps : List (Str × ℤ)) (networks : List Network) :
    matchAps aps networks = networks.map fun n =>
      { n with rssi := (rssis aps n.ssid).getLast?.getD n.rssi } := by
  induction aps using List.reverseRecOn with
  | nil =>
      rw [matchAps, List.foldl_nil]
      exact (List.map_id networks).symm
  | append_singleton aps ap ih =>
      have hlast : matchAps (aps ++ [ap]) networks = (matchAps aps networks).map fun n =>
          if ap.1 = n.ssid then { n with rssi := ap.2 } else n := by
        rw [matchAps, List.foldl_append]
        rfl
      rw [hlast, ih, List.map_map]
      apply List.map_congr_left
      intro n _
      rw [Function.comp_apply, rssis_append]
      by_cases h : ap.1 = n.ssid
      · simp [h]
      · simp [h]

theorem matchAps_unseen (aps : List (Str × ℤ)) (networks : List Network) :
    matchAps aps (networks.map Network.unseen) = networks.map (Network.measured aps) := by
  rw [matchAps_eq, List.map_map]
  rfl

/-- The handle after a scan. -/
def ranked (aps : List (Str × ℤ)) (networks : List Network) : List Network :=
  sortByRssi (networks.map (Network.measured aps))

theorem ranked_sorts (aps : List (Str × ℤ)) (networks : List Network) :
    Rearranges Network.rssi (networks.map (Network.measured aps)) (ranked aps networks) ∧
      Descending Network.rssi (ranked aps networks) :=
  sortByRssi_sorts _

/-- What `esp_wifi_scan_get_ap_records` has returned. -/
def scanned : Event → Option (List (Str × ℤ))
  | ⟨_, .scanGetApRecords, r, _⟩ => r
  | _ => none

/-- A call of the scan that has failed. -/
def scanFails : Event → Bool
  | ⟨_, .scanStart, r, _⟩ => !r
  | ⟨_, .scanGetApRecords, r, _⟩ => r.isNone
  | _ => false

variable {M : Machine WifiCall WifiCall.Reply State} {s t : State} {l : List Event}

/-- The network of a call of `esp_wifi_set_config`. -/
def attempted : Event → Option (Str × Str)
  | ⟨_, .setConfig ssid password, _, _⟩ => some (ssid, password)
  | _ => none

/-- What `wifi_creds_scan_and_match` does, the access points being those of the
calls since. -/
theorem wifiCredsScanAndMatch_spec (h : WifiHandle) :
    Leads M (fun x _ l' => match x.1 with
      | .ok => h.initialized = true ∧ ∃ d aps, l' = l ++ d ∧ d.filterMap attempted = [] ∧
          d.filterMap scanned = [aps] ∧ d.any scanFails = false ∧
          x.2 = { h with networks := ranked aps h.networks }
      | .fail => h.initialized = true ∧ ∃ d, l' = l ++ d ∧ d.filterMap attempted = [] ∧
          d.filterMap scanned = [] ∧ d.any scanFails = true ∧
          x.2 = { h with networks := h.networks.map Network.unseen }
      | .invalidState => h.initialized = false ∧ l' = l ∧ x.2 = h
      | _ => False) (wifiCredsScanAndMatch.run h) s l := by
  rw [wifiCredsScanAndMatch, Stateful.run_get_bind]
  by_cases hinit : h.initialized = true
  · rw [if_pos hinit, Stateful.run_modify_bind]
    simp only [call, Stateful.run_call_bind]
    refine leads_call fun started t _ => ?_
    cases started with
    | false => exact ⟨hinit, _, rfl, rfl, rfl, rfl, rfl⟩
    | true =>
        refine leads_call fun aps? u _ => ?_
        rw [List.append_assoc]
        cases aps? with
        | none => exact ⟨hinit, _, rfl, rfl, rfl, rfl, rfl⟩
        | some aps =>
            refine ⟨hinit, _, aps, rfl, rfl, rfl, rfl, ?_⟩
            rw [ranked, ← matchAps_unseen]
            rfl
  · rw [if_neg hinit]
    exact ⟨by simpa using hinit, rfl, rfl⟩

/-- Where all networks have the RSSI -100 the ranking has not moved them. -/
theorem ranked_of_floor (hall : ∀ n ∈ ranked aps networks, n.rssi = -100) :
    ranked aps networks = networks.map Network.unseen := by
  obtain ⟨hmoved, -⟩ := ranked_sorts aps networks
  have hfloor (n : Network) (hn : n ∈ networks) : n.measured aps = n.unseen := by
    have hmem : n.measured aps ∈ ranked aps networks :=
      hmoved.perm.mem_iff.2 (List.mem_map_of_mem hn)
    exact congrArg (fun r => { n with rssi := r }) (hall _ hmem)
  rw [hmoved.eq_of_const fun n hn => hall n (hmoved.perm.mem_iff.2 hn)]
  exact List.map_congr_left hfloor

/-- Whatever the handle holds and whatever the scan returns:
`wifi_creds_scan_and_match` leaves `count` and `initialized` as they are and every
SSID with its password. With the access points of the scan it returns `ESP_OK`, and
the networks, each with the RSSI measured for it, are sorted by their RSSI, the
strongest first, and those with equal RSSI are in the order they were loaded in; so
with no match the order is the old one. After a call of the scan that fails it
returns the error, the order is the old one and every RSSI is -100. -/
theorem wifiCredsScanAndMatch_ranks {h : WifiHandle} {x : EspErr × WifiHandle} {tr : List Event}
    (hrun : Steps M (wifiCredsScanAndMatch.run h) s tr (.pure x) t) :
    x.2.networks.length = h.networks.length ∧ x.2.initialized = h.initialized ∧
    (x.2.networks.map Network.creds).Perm (h.networks.map Network.creds) ∧
    (∀ aps, tr.filterMap scanned = [aps] → x.1 = .ok ∧
      Descending Network.rssi x.2.networks ∧
      Rearranges Network.rssi (h.networks.map (Network.measured aps)) x.2.networks ∧
      ((∀ n ∈ x.2.networks, n.rssi = -100) →
        x.2.networks = h.networks.map fun n => { n with rssi := -100 }) ∧
      ((∀ n ∈ h.networks, ¬ InRange aps n.ssid) →
        x.2.networks = h.networks.map fun n => { n with rssi := -100 })) ∧
    (tr.any scanFails = true → x.1 = .fail ∧
      x.2.networks = h.networks.map fun n => { n with rssi := -100 }) ∧
    (h.initialized = true → (∃ aps, tr.filterMap scanned = [aps]) ∨ tr.any scanFails = true) ∧
    (h.initialized = false → x = (.invalidState, h) ∧ tr = []) := by
  have hspec := (wifiCredsScanAndMatch_spec h).result hrun
  obtain ⟨err, h'⟩ := x
  cases err with
  | ok =>
      obtain ⟨hinit, d, aps, rfl, -, hscanned, hfails, rfl⟩ := hspec
      obtain ⟨hmoved, hdesc⟩ := ranked_sorts aps h.networks
      have hperm : ((ranked aps h.networks).map Network.creds).Perm
          (h.networks.map Network.creds) := by
        have hcreds := hmoved.perm.map Network.creds
        rwa [List.map_map] at hcreds
      refine ⟨?_, rfl, hperm, fun aps' haps => ?_, ?_, fun _ => .inl ⟨aps, hscanned⟩, ?_⟩
      · rw [← List.length_map Network.creds, hperm.length_eq, List.length_map]
      · obtain rfl : aps = aps' := List.head_eq_of_cons_eq (hscanned.symm.trans haps)
        refine ⟨rfl, hdesc, hmoved, ranked_of_floor, fun hout => ranked_of_floor ?_⟩
        intro n hn
        obtain ⟨m, hm, rfl⟩ := List.mem_map.1 (hmoved.perm.mem_iff.1 hn)
        change (rssis aps m.ssid).getLast?.getD (-100) = -100
        rw [not_not.1 (hout m hm)]
        rfl
      · intro hfailed
        rw [hfails] at hfailed
        cases hfailed
      · intro hclosed
        rw [hinit] at hclosed
        cases hclosed
  | fail =>
      obtain ⟨hinit, d, rfl, -, hscanned, hfails, rfl⟩ := hspec
      have hcreds : (h.networks.map Network.unseen).map Network.creds =
          h.networks.map Network.creds := by
        rw [List.map_map]
        rfl
      refine ⟨List.length_map _, rfl, ?_, fun aps haps => ?_, fun _ => ⟨rfl, rfl⟩,
        fun _ => .inr hfails, ?_⟩
      · rw [hcreds]
      · rw [hscanned] at haps
        cases haps
      · intro hclosed
        rw [hinit] at hclosed
        cases hclosed
  | invalidState =>
      obtain ⟨hinit, rfl, rfl⟩ := hspec
      refine ⟨rfl, rfl, List.Perm.refl _, nofun, nofun, fun hopen => ?_, fun _ => ⟨rfl, rfl⟩⟩
      rw [hinit] at hopen
      cases hopen
  | notFound | timeout => exact hspec.elim

end Scan

section Best

variable {aps : List (Str × ℤ)} {networks : List Network} {ssid : Str}

theorem le_bestRssi {r : ℤ} (h : r ∈ rssis aps ssid) : r ≤ bestRssi aps ssid := by
  cases hmax : (rssis aps ssid).max? with
  | none =>
      rw [List.max?_eq_none_iff.1 hmax] at h
      cases h
  | some best =>
      rw [bestRssi, hmax, Option.getD_some]
      exact (List.max?_eq_some_iff.1 hmax).2 r h

theorem bestRssi_mem (h : InRange aps ssid) : bestRssi aps ssid ∈ rssis aps ssid := by
  cases hmax : (rssis aps ssid).max? with
  | none => exact absurd (List.max?_eq_none_iff.1 hmax) h
  | some best =>
      rw [bestRssi, hmax, Option.getD_some]
      exact (List.max?_eq_some_iff.1 hmax).1

theorem bestRssi_of_not_inRange (h : ¬ InRange aps ssid) : bestRssi aps ssid = -100 := by
  rw [bestRssi, not_not.1 h]
  rfl

theorem lastRssi_of_not_inRange (h : ¬ InRange aps ssid) : lastRssi aps ssid = -100 := by
  rw [lastRssi, not_not.1 h]
  rfl

theorem lastRssi_mem (h : InRange aps ssid) : lastRssi aps ssid ∈ rssis aps ssid := by
  rw [lastRssi, List.getLast?_eq_some_getLast h, Option.getD_some]
  exact List.getLast_mem h

/-- The last access point of an SSID is its strongest one. -/
def LastIsBest (aps : List (Str × ℤ)) (ssid : Str) : Prop :=
  ∀ r ∈ rssis aps ssid, r ≤ lastRssi aps ssid

instance (aps : List (Str × ℤ)) (ssid : Str) : Decidable (LastIsBest aps ssid) :=
  inferInstanceAs (Decidable (∀ r ∈ _, _))

theorem lastRssi_eq_bestRssi : lastRssi aps ssid = bestRssi aps ssid ↔ LastIsBest aps ssid := by
  constructor
  · intro heq r hr
    rw [heq]
    exact le_bestRssi hr
  · intro hlast
    by_cases h : InRange aps ssid
    · exact le_antisymm (le_bestRssi (lastRssi_mem h)) (hlast _ (bestRssi_mem h))
    · rw [lastRssi_of_not_inRange h, bestRssi_of_not_inRange h]

/-- Where no saved network is received better than the -100 of those out of range,
the first one with that value is in range. -/
def FloorInRange (aps : List (Str × ℤ)) (networks : List Network) : Prop :=
  (∃ n ∈ networks, InRange aps n.ssid) →
  (∀ n ∈ networks, InRange aps n.ssid → bestRssi aps n.ssid ≤ -100) →
  ∀ n, networks.find? (fun n => bestRssi aps n.ssid = -100) = some n → InRange aps n.ssid

/-- The network `wifi_creds_connect_best` tries first
(`wifiCredsConnectBest_first`). -/
def firstTried (networks : List Network) : Option Network :=
  (blindAttempt networks).find? fun n => !decide (n.rssi ≤ -100)

/-- It is the first one of the ranking. -/
theorem firstTried_of_descending {a : Network} {rest : List Network}
    (h : Descending Network.rssi (a :: rest)) :
    ∃ first, firstTried (a :: rest) = some first ∧ first.creds = a.creds := by
  by_cases ha : -100 < a.rssi
  · refine ⟨a, ?_, rfl⟩
    have hvisible : (a :: rest).any (fun n => -100 < n.rssi) = true := by simp [ha]
    rw [firstTried, blindAttempt, if_pos hvisible, List.find?_cons_of_pos]
    simpa using ha
  · refine ⟨{ a with rssi := -99 }, ?_, rfl⟩
    have hinvisible : ¬ (a :: rest).any (fun n => -100 < n.rssi) = true := by
      rw [List.any_eq_true]
      rintro ⟨n, hn, hlt⟩
      rcases List.mem_cons.1 hn with rfl | hn
      · exact ha (by simpa using hlt)
      · have hle := (List.pairwise_cons.1 h).1 n hn
        exact ha (lt_of_lt_of_le (by simpa using hlt) hle)
    rw [firstTried, blindAttempt, if_neg hinvisible, List.find?_cons_of_pos]
    rfl

/-- The first network of the ranking, where the last access points are the best
ones. -/
theorem ranked_head (hlast : ∀ n ∈ networks, LastIsBest aps n.ssid) {a : Network}
    {rest : List Network} (h : ranked aps networks = a :: rest) :
    (∀ n ∈ networks, bestRssi aps n.ssid ≤ bestRssi aps a.ssid) ∧
      ∃ n, networks.find? (fun n => bestRssi aps n.ssid = bestRssi aps a.ssid) = some n ∧
        n.ssid = a.ssid := by
  obtain ⟨hmoved, hdesc⟩ := ranked_sorts aps networks
  rw [h] at hmoved hdesc
  obtain ⟨hmax, hfind⟩ := hmoved.find_head hdesc
  have hbest (n : Network) (hn : n ∈ networks) :
      (n.measured aps).rssi = bestRssi aps n.ssid := lastRssi_eq_bestRssi.2 (hlast n hn)
  obtain ⟨m, hm, rfl⟩ := List.mem_map.1 (hmoved.perm.mem_iff.1 List.mem_cons_self)
  rw [hbest m hm] at hmax hfind
  refine ⟨fun n hn => ?_, ?_⟩
  · rw [← hbest n hn]
    exact hmax _ (List.mem_map_of_mem hn)
  · rw [List.find?_map, Option.map_eq_some_iff] at hfind
    obtain ⟨n, hn, heq⟩ := hfind
    have hssid : n.ssid = m.ssid := congrArg (fun k => k.ssid) heq
    refine ⟨n, ?_, hssid⟩
    rw [← hn]
    apply List.find?_congr
    intro n hn
    rw [Function.comp_apply, hbest n hn]
    rfl

theorem mem_ranked {a : Network} :
    a ∈ ranked aps networks ↔ ∃ n ∈ networks, n.measured aps = a := by
  rw [(ranked_sorts aps networks).1.perm.mem_iff, List.mem_map]

/-- The first network tried is one in range with the greatest RSSI, where the last
access points are the best ones. -/
theorem firstTried_ranked (hlast : ∀ n ∈ networks, LastIsBest aps n.ssid) :
    ((∃ n ∈ networks, InRange aps n.ssid) →
      ∃ first, firstTried (ranked aps networks) = some first ∧ InRange aps first.ssid ∧
        ∀ n ∈ networks, InRange aps n.ssid → bestRssi aps n.ssid ≤ bestRssi aps first.ssid) ↔
      FloorInRange aps networks := by
  cases hrank : ranked aps networks with
  | nil =>
      have hnone : ¬ ∃ n ∈ networks, InRange aps n.ssid := by
        rintro ⟨n, hn, -⟩
        have hmem : n.measured aps ∈ ranked aps networks := mem_ranked.2 ⟨n, hn, rfl⟩
        rw [hrank] at hmem
        cases hmem
      exact iff_of_true (fun h => absurd h hnone) fun h => absurd h hnone
  | cons a rest =>
      obtain ⟨hmax, n, hfind, hssid⟩ := ranked_head hlast hrank
      have hdesc := (ranked_sorts aps networks).2
      rw [hrank] at hdesc
      obtain ⟨first, hfirst, hcreds⟩ := firstTried_of_descending hdesc
      have hname : first.ssid = a.ssid := congrArg Prod.fst hcreds
      constructor
      · intro hbest hsome hfloor m hm
        obtain ⟨first', hfirst', hin, -⟩ := hbest hsome
        obtain rfl := Option.some.inj (hfirst.symm.trans hfirst')
        rw [hname] at hin
        have hmbest : bestRssi aps m.ssid = -100 := by simpa using List.find?_some hm
        have hle : bestRssi aps a.ssid ≤ -100 := by
          rw [← hssid] at hin ⊢
          exact hfloor n (List.mem_of_find?_eq_some hfind) hin
        have hge := hmax m (List.mem_of_find?_eq_some hm)
        rw [hmbest] at hge
        rw [le_antisymm hle hge, hm] at hfind
        obtain rfl := Option.some.inj hfind
        rwa [hssid]
      · intro hfloor hsome
        have hin : InRange aps a.ssid := by
          by_contra hout
          have ha := bestRssi_of_not_inRange hout
          rw [ha] at hmax hfind
          have hin := hfloor hsome (fun m hm _ => hmax m hm) n hfind
          rw [hssid] at hin
          exact hout hin
        refine ⟨first, hfirst, ?_, fun m hm _ => ?_⟩
        · rwa [hname]
        · rw [hname]
          exact hmax m hm

/-- After a scan whose access points are `aps`: every saved network has the RSSI of
its best access point, or -100 if there is none, and the first one tried is one in
range with the best signal, exactly if the last access point of every saved SSID
is its best one and the first network at the floor of -100 is in range where none
in range is above it. -/
theorem wifiCredsScanAndMatch_best {M : Machine WifiCall WifiCall.Reply State} {s t : State}
    {h : WifiHandle} {x : EspErr × WifiHandle} {tr : List Event}
    (hrun : Steps M (wifiCredsScanAndMatch.run h) s tr (.pure x) t) (hok : x.1 = .ok)
    (haps : tr.filterMap scanned = [aps]) :
    ((∀ n ∈ x.2.networks, n.rssi = bestRssi aps n.ssid) ∧
      ((∃ n ∈ h.networks, InRange aps n.ssid) →
        ∃ first, firstTried x.2.networks = some first ∧ InRange aps first.ssid ∧
          ∀ n ∈ h.networks, InRange aps n.ssid → bestRssi aps n.ssid ≤ bestRssi aps first.ssid)) ↔
      (∀ n ∈ h.networks, LastIsBest aps n.ssid) ∧ FloorInRange aps h.networks := by
  have hspec := (wifiCredsScanAndMatch_spec h).result hrun
  obtain ⟨err, h'⟩ := x
  obtain rfl : err = .ok := hok
  obtain ⟨-, d, aps', rfl, -, haps', -, rfl⟩ := hspec
  obtain rfl : aps' = aps := List.head_eq_of_cons_eq (haps'.symm.trans haps)
  have hlast : (∀ n ∈ ranked aps' h.networks, n.rssi = bestRssi aps' n.ssid) ↔
      ∀ n ∈ h.networks, LastIsBest aps' n.ssid := by
    constructor
    · intro hall n hn
      exact lastRssi_eq_bestRssi.1 (hall _ (mem_ranked.2 ⟨n, hn, rfl⟩))
    · intro hall n hn
      obtain ⟨m, hm, rfl⟩ := mem_ranked.1 hn
      exact lastRssi_eq_bestRssi.2 (hall m hm)
  rw [hlast]
  exact and_congr_right firstTried_ranked

end Best

section Sample

/-- Two access points of one network, the near one first. -/
def meshAps : List (Str × ℤ) :=
  [("home".toList, -40), ("work".toList, -60), ("home".toList, -80)]

/-- A scan that returns `aps`, the event task being idle. -/
def playScan (aps : List (Str × ℤ)) (h : WifiHandle) :=
  playWifi step (fun _ _ => []) aps (wifiCredsScanAndMatch.run h)

theorem steps_playScan (aps : List (Str × ℤ)) (h : WifiHandle) :
    Steps (machine step) (wifiCredsScanAndMatch.run h) idleState (playScan aps h).2.2
      (playScan aps h).1 (playScan aps h).2.1 :=
  steps_playWifi step (fun _ _ => []) aps _

/-- The second network is the stronger one. -/
theorem wifiCredsScanAndMatch_ranks_home : ∃ x t tr,
    Steps (machine step) (wifiCredsScanAndMatch.run savedNetworks) idleState tr (.pure x) t ∧
    tr.filterMap scanned = [meshAps] ∧ x.1 = .ok ∧ Descending Network.rssi x.2.networks ∧
    Rearranges Network.rssi (savedNetworks.networks.map (Network.measured meshAps))
      x.2.networks ∧
    x.2.networks.map Network.ssid = ["work".toList, "home".toList] := by
  have hend : ((playScan meshAps savedNetworks).1.value.map fun x =>
      x.2.networks.map Network.ssid) = some ["work".toList, "home".toList] := by
    decide +kernel
  have haps : (playScan meshAps savedNetworks).2.2.filterMap scanned = [meshAps] := by
    decide +kernel
  obtain ⟨x, hrun, hssids⟩ := (steps_playScan meshAps savedNetworks).returned hend
  obtain ⟨hok, hdesc, hmoved, -⟩ := (wifiCredsScanAndMatch_ranks hrun).2.2.2.1 meshAps haps
  exact ⟨x, _, _, hrun, haps, hok, hdesc, hmoved, hssids⟩

theorem wifiCredsScanAndMatch_best_home : ∃ x t tr,
    Steps (machine step) (wifiCredsScanAndMatch.run savedNetworks) idleState tr (.pure x) t ∧
    ∀ n ∈ x.2.networks, n.rssi = bestRssi visibleAps n.ssid := by
  have hend : ((playScan visibleAps savedNetworks).1.value.map Prod.fst) = some .ok := by
    decide +kernel
  have haps : (playScan visibleAps savedNetworks).2.2.filterMap scanned = [visibleAps] := by
    decide +kernel
  obtain ⟨x, hrun, hok⟩ := (steps_playScan visibleAps savedNetworks).returned hend
  refine ⟨x, _, _, hrun, ((wifiCredsScanAndMatch_best hrun hok haps).2 ⟨?_, ?_⟩).1⟩
  · decide +kernel
  · exact fun _ hfloor => absurd (hfloor ⟨"home".toList, "secret".toList, -100⟩
      (by decide +kernel) (by decide +kernel)) (by decide +kernel)

/-- The far access point of a network takes the place of the near one, and a
network that is received worse is tried first. -/
theorem wifiCredsScanAndMatch_mesh : ∃ x t tr,
    Steps (machine step) (wifiCredsScanAndMatch.run savedNetworks) idleState tr (.pure x) t ∧
    x.1 = .ok ∧ tr.filterMap scanned = [meshAps] ∧
    (¬ ∀ n ∈ x.2.networks, n.rssi = bestRssi meshAps n.ssid) ∧
    ∃ first, firstTried x.2.networks = some first ∧ first.ssid = "work".toList ∧
      bestRssi meshAps "work".toList < bestRssi meshAps "home".toList := by
  have hend : ((playScan meshAps savedNetworks).1.value.map fun x => (x.1, x.2.networks)) =
      some (.ok, [⟨"work".toList, "secret".toList, -60⟩,
        ⟨"home".toList, "secret".toList, -80⟩]) := by
    decide +kernel
  have haps : (playScan meshAps savedNetworks).2.2.filterMap scanned = [meshAps] := by
    decide +kernel
  obtain ⟨x, hrun, hret⟩ := (steps_playScan meshAps savedNetworks).returned hend
  obtain ⟨hok, hnetworks⟩ := Prod.mk.inj hret
  refine ⟨x, _, _, hrun, hok, haps, ?_, ⟨"work".toList, "secret".toList, -60⟩, ?_⟩
  · rw [hnetworks]
    decide +kernel
  · rw [hnetworks]
    decide +kernel

end Sample

end Wifi

end SimiboxDownloader
