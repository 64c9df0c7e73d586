import SimiboxDownloader.Wifi.ConnectBest
import Mathlib.Data.List.Range

/-!
# Loading the saved networks

`wifi_creds_load` fills the array of the handle in place: each string is read into
the slot at `count`, over what an entry that was skipped or an earlier load has left
there. `wifiCredsLoadSlots` is the function on the array; its runs are those of
`wifiCredsLoad` on the list of the first `count` networks (`loadSlots_refines`).
`wifiCredsLoadSlots_entries` says which networks these are.
-/

namespace SimiboxDownloader

namespace Wifi

open Interaction Interaction.Stateful

section Buffers

/-- The terminator of a C string. -/
def nul : Char := Char.ofNat 0

/-- `char[size]` -/
structure Buffer (size : ℕ) where
  chars : List Char
  length_chars : chars.length = size

namespace Buffer

variable {size : ℕ}

/-- What the buffer holds as a C string. -/
def text (b : Buffer size) : Str := b.chars.takeWhile (· ≠ nul)

/-- `nvs_get_str` writes a string with its terminator, if that fits; the rest of the
buffer stays. -/
def write (b : Buffer size) (s : Str) : Buffer size :=
  if h : s.length < size then
    { chars := s ++ nul :: b.chars.drop (s.length + 1)
      length_chars := by
        rw [List.length_append, List.length_cons, List.length_drop, b.length_chars]
        omega }
  else b

/-- Nothing of the old text shows behind the terminator. -/
theorem text_write (b : Buffer size) {s : Str} (h : s.length < size) (hs : nul ∉ s) :
    (b.write s).text = s := by
  have hall : ∀ c ∈ s, decide (c ≠ nul) = true := by
    intro c hc
    exact decide_eq_true fun hnul => hs (hnul ▸ hc)
  rw [text, write, dif_pos h, List.takeWhile_append_of_pos hall,
    List.takeWhile_cons_of_neg (by simp), List.append_nil]

end Buffer

end Buffers

section Slots

/-- `wifi_network_t` -/
structure Slot where
  ssid : Buffer wifiSsidMaxLen
  password : Buffer wifiPassMaxLen
  rssi : ℤ

/-- What a slot holds. -/
def Slot.network (slot : Slot) : Network := ⟨slot.ssid.text, slot.password.text, slot.rssi⟩

/-- `wifi_creds_handle_t`. The array has `wifiMaxNetworks` slots. -/
structure SlotHandle where
  networks : ℕ → Slot
  count : ℕ
  initialized : Bool

namespace SlotHandle

/-- Change the slot at `count`. -/
def modifySlot (h : SlotHandle) (f : Slot → Slot) : SlotHandle :=
  { h with networks := Function.update h.networks h.count (f (h.networks h.count)) }

theorem networks_modifySlot (h : SlotHandle) (f : Slot → Slot) {i : ℕ} (hi : i ≠ h.count) :
    (h.modifySlot f).networks i = h.networks i :=
  Function.update_of_ne hi _ _

/-- The first `count` networks. -/
def handle (h : SlotHandle) : WifiHandle :=
  ⟨(List.range h.count).map fun i => (h.networks i).network, h.initialized⟩

/-- The slot at `count` is not one of them. -/
theorem handle_modifySlot (h : SlotHandle) (f : Slot → Slot) :
    (h.modifySlot f).handle = h.handle := by
  have hslots : (List.range h.count).map (fun i => ((h.modifySlot f).networks i).network) =
      (List.range h.count).map fun i => (h.networks i).network := by
    refine List.map_congr_left fun i hi => ?_
    rw [networks_modifySlot h f (Nat.ne_of_lt (List.mem_range.1 hi))]
  exact congrArg (fun networks => (⟨networks, h.initialized⟩ : WifiHandle)) hslots

theorem handle_count (h : SlotHandle) :
    ({ h with count := h.count + 1 } : SlotHandle).handle =
      { h.handle with networks := h.handle.networks ++ [(h.networks h.count).network] } := by
  simp [handle, List.range_succ]

end SlotHandle

abbrev SlotAction := Interaction.Stateful WifiCall WifiCall.Reply SlotHandle

def slotCall (o : WifiCall) : SlotAction o.Reply := Interaction.Stateful.call o

/-- The loop of `wifi_creds_load` from the index `i` on. -/
def loadSlots : ℕ → ℕ → SlotAction Unit
  | 0, _ => return ()
  | left + 1, i => do
      let ssid? ← slotCall (.nvsGetSsid i)
      match ssid? with
      | none => loadSlots left (i + 1)
      | some ssid => do
          modify fun h => h.modifySlot fun slot => { slot with ssid := slot.ssid.write ssid }
          let password? ← slotCall (.nvsGetPassword i)
          match password? with
          | none => loadSlots left (i + 1)
          | some password => do
              modify fun h => h.modifySlot fun slot =>
                { slot with password := slot.password.write password }
              modify fun h => h.modifySlot fun slot => { slot with rssi := -100 }
              modify fun h => { h with count := h.count + 1 }
              loadSlots left (i + 1)

def wifiCredsLoadSlots : SlotAction EspErr := do
  let h ← get
  if h.initialized then do
    let opened ← slotCall .nvsOpen
    if opened then do
      let count ← slotCall .nvsGetCount
      if count.getD 0 = 0 then return .ok
      else do
        modify fun h => { h with count := 0 }
        loadSlots (min (count.getD 0) wifiMaxNetworks) 0
        return .ok
    else return .ok
  else return .invalidState

end Slots

section Stored

/-- The strings stored are C strings. -/
structure Stored.Valid (stored : Stored) : Prop where
  ssid : ∀ i v, stored.ssid i = some v → nul ∉ v
  password : ∀ i v, stored.password i = some v → nul ∉ v

variable {s t u : State} {α : Type} {tr : List Event}

theorem step_stored {a : Act} (h : step s a = some t) : t.stored = s.stored := by
  cases a with
  | post e =>
      cases e with
      | gotIp attempt =>
          simp only [step, State.post] at h
          split at h
          · cases h
            rfl
          · cases h
      | _ =>
          cases h
          rfl
  | handle =>
      simp only [step, State.handle] at h
      split at h
      · split at h
        · cases h
        all_goals
          cases h
          rfl
      all_goals
        cases h
        rfl

theorem reaches_stored (h : Transition.Reaches step s t) : t.stored = s.stored :=
  h.invariant (fun _ _ _ hs hstep => (step_stored hstep).trans hs) rfl

theorem machine_stored {o : WifiCall} {r : o.Reply} (h : machine step o s r t) :
    t.stored = s.stored := by
  obtain ⟨u, hreaches, heffect⟩ := h
  refine Eq.trans ?_ (reaches_stored hreaches)
  cases o with
  | connect =>
      cases r with
      | false | true =>
          obtain rfl := heffect
          rfl
  | enterWait =>
      obtain ⟨-, rfl⟩ := heffect
      cases r with
      | false | true => rfl
  | staGetApInfo | leaveWait | scanGetApRecords | nvsGetCount | nvsGetSsid | nvsGetPassword =>
      obtain ⟨-, rfl⟩ := heffect
      rfl
  | _ =>
      obtain rfl := heffect
      rfl

/-- A run leaves the namespace as it is. -/
theorem steps_stored {p q : Program WifiCall WifiCall.Reply α}
    (h : Steps (machine step) p s tr q t) :
    t.stored = s.stored ∧ ∀ e ∈ tr, e.before.stored = s.stored := by
  induction h with
  | refl => simp
  | call hm _ ih =>
      have hstored := machine_stored hm
      rw [hstored] at ih
      exact ⟨ih.1, List.forall_mem_cons.2 ⟨rfl, ih.2⟩⟩

/-- A string that was read is stored and fits. -/
theorem ssid_of_machine {i : ℕ} {r : Option Str} (h : machine step (.nvsGetSsid i) s r t) :
    Fetched wifiSsidMaxLen (s.stored.ssid i) r := by
  obtain ⟨u, hreaches, hfetched, -⟩ := h
  rwa [reaches_stored hreaches] at hfetched

/-- A count that was read is the stored one. -/
theorem count_of_machine {c : ℕ} (h : machine step .nvsGetCount s (some c) t) :
    s.stored.count = some c := by
  obtain ⟨u, hreaches, hread, -⟩ := h
  rw [← reaches_stored hreaches]
  rcases hread with hread | hread
  · cases hread
  · exact hread.symm

theorem password_of_machine {i : ℕ} {r : Option Str} (h : machine step (.nvsGetPassword i) s r t) :
    Fetched wifiPassMaxLen (s.stored.password i) r := by
  obtain ⟨u, hreaches, hfetched, -⟩ := h
  rwa [reaches_stored hreaches] at hfetched

theorem Fetched.stored {size : ℕ} {value : Option Str} {v : Str} (h : Fetched size value (some v)) :
    value = some v ∧ v.length < size := by
  obtain h | ⟨rfl, h⟩ := h
  · cases h
  · exact ⟨rfl, h v rfl⟩

end Stored

section Refinement

variable {s t : State} {tr : List Event} {h : SlotHandle}

/-- A slot after a whole iteration. -/
def SlotHandle.store (h : SlotHandle) (ssid password : Str) : SlotHandle :=
  let h := h.modifySlot fun slot => { slot with ssid := slot.ssid.write ssid }
  let h := h.modifySlot fun slot => { slot with password := slot.password.write password }
  let h := h.modifySlot fun slot => { slot with rssi := -100 }
  { h with count := h.count + 1 }

/-- It shows the two strings. -/
theorem SlotHandle.handle_store {ssid password : Str} (hssid : ssid.length < wifiSsidMaxLen)
    (hpassword : password.length < wifiPassMaxLen) (hs : nul ∉ ssid) (hp : nul ∉ password) :
    (h.store ssid password).handle =
      { h.handle with networks := h.handle.networks ++ [⟨ssid, password, -100⟩] } := by
  unfold store
  rw [handle_count]
  simp only [handle_modifySlot]
  simp [modifySlot, Slot.network, Buffer.text_write _ hssid hs, Buffer.text_write _ hpassword hp]

/-- The loop on the array is the loop on the list, and stays within its slots. -/
theorem loadSlots_refines (left i : ℕ) (hvalid : s.stored.Valid) {x : Unit × SlotHandle}
    (hrun : Steps (machine step) ((loadSlots left i).run h) s tr (.pure x) t) :
    Steps (machine step) ((loadNetworks left i).run h.handle) s tr (.pure (x.1, x.2.handle)) t ∧
      ∀ k, h.count + left ≤ k → x.2.networks k = h.networks k := by
  induction left generalizing i h s tr with
  | zero =>
      cases hrun
      exact ⟨Steps.refl _ _, fun _ _ => rfl⟩
  | succ left ih =>
      unfold loadSlots at hrun
      obtain ⟨ssid?, u, tr₁, rfl, hssid, hrest⟩ := steps_call hrun
      have hu : u.stored.Valid := by rwa [machine_stored hssid]
      cases ssid? with
      | none =>
          obtain ⟨hlist, hslots⟩ := ih (i + 1) hu hrest
          exact ⟨Steps.call hssid hlist, fun k hk => hslots k (by omega)⟩
      | some ssid =>
          dsimp only at hrest
          rw [Stateful.run_modify_bind] at hrest
          obtain ⟨password?, v, tr₂, rfl, hpassword, hrest⟩ := steps_call hrest
          have hv : v.stored.Valid := by rwa [machine_stored hpassword]
          cases password? with
          | none =>
              obtain ⟨hlist, hslots⟩ := ih (i + 1) hv hrest
              rw [SlotHandle.handle_modifySlot] at hlist
              refine ⟨Steps.call hssid (Steps.call hpassword hlist), fun k hk => ?_⟩
              have hslot : h.count + left ≤ k := by omega
              rw [hslots k hslot, SlotHandle.networks_modifySlot _ _ (by omega)]
          | some password =>
              change Steps (machine step)
                ((loadSlots left (i + 1)).run (h.store ssid password)) v tr₂ (.pure x) t at hrest
              obtain ⟨hlist, hslots⟩ := ih (i + 1) hv hrest
              obtain ⟨hs, hlen⟩ := (ssid_of_machine hssid).stored
              obtain ⟨hp, hlen'⟩ := (password_of_machine hpassword).stored
              rw [SlotHandle.handle_store hlen hlen' (hvalid.ssid i _ hs)
                (hu.password i _ hp)] at hlist
              refine ⟨Steps.call hssid (Steps.call hpassword hlist), fun k hk => ?_⟩
              have hslot : h.count + 1 + left ≤ k := by omega
              have hne : k ≠ h.count := by omega
              rw [hslots k hslot]
              simp [SlotHandle.store, SlotHandle.modifySlot, Function.update_of_ne hne]

end Refinement

section Reads

variable {s t : State} {tr tr' : List Event} {h : WifiHandle}

/-- What the loop has got for its `i`-th entry. -/
structure Read (tr : List Event) (i : ℕ) (r : Option Str × Option Str) : Prop where
  ssid : ∃ u v, (⟨u, .nvsGetSsid i, r.1, v⟩ : Event) ∈ tr
  /-- The password is read only after the SSID. -/
  password : r.1.isSome = true → ∃ u v, (⟨u, .nvsGetPassword i, r.2, v⟩ : Event) ∈ tr

theorem Read.mono {i : ℕ} {r : Option Str × Option Str} (h : Read tr i r)
    (hsub : ∀ e ∈ tr, e ∈ tr') : Read tr' i r := by
  obtain ⟨⟨u, v, hssid⟩, hpassword⟩ := h
  refine ⟨⟨u, v, hsub _ hssid⟩, fun hr => ?_⟩
  obtain ⟨u', v', hmem⟩ := hpassword hr
  exact ⟨u', v', hsub _ hmem⟩

/-- The network of an entry both of whose strings are readable. -/
def entry : Option Str × Option Str → Option Network
  | (some ssid, some password) => some ⟨ssid, password, -100⟩
  | _ => none

/-- `h'` is `h` with the readable ones of the `n` entries from the `i`-th on appended,
in their order. -/
def Loaded (tr : List Event) (i n : ℕ) (h h' : WifiHandle) : Prop :=
  ∃ reads : List (Option Str × Option Str), reads.length = n ∧
    (∀ k r, reads[k]? = some r → Read tr (i + k) r) ∧
    h' = { h with networks := h.networks ++ reads.filterMap entry }

theorem Loaded.cons {i n : ℕ} {r : Option Str × Option Str} {h₁ h' : WifiHandle}
    (hrest : Loaded tr' (i + 1) n h₁ h') (hr : Read tr i r) (hsub : ∀ e ∈ tr', e ∈ tr)
    (hh : h₁ = { h with networks := h.networks ++ (entry r).toList }) :
    Loaded tr i (n + 1) h h' := by
  obtain ⟨reads, hlength, hreads, rfl⟩ := hrest
  refine ⟨r :: reads, congrArg (· + 1) hlength, ?_, ?_⟩
  · intro k r' hk
    cases k with
    | zero =>
        obtain rfl : r = r' := Option.some.inj hk
        exact hr
    | succ k =>
        have hread := (hreads k r' hk).mono hsub
        rwa [Nat.add_assoc, Nat.add_comm 1 k] at hread
  · rw [hh, List.append_assoc]
    cases hentry : entry r with
    | none => rw [List.filterMap_cons_none hentry, Option.toList_none, List.nil_append]
    | some n => rw [List.filterMap_cons_some hentry, Option.toList_some, List.singleton_append]

/-- The loop appends the readable entries. -/
theorem loadNetworks_reads (left i : ℕ) {x : Unit × WifiHandle}
    (hrun : Steps (machine step) ((loadNetworks left i).run h) s tr (.pure x) t) :
    Loaded tr i left h x.2 := by
  induction left generalizing i h s tr with
  | zero =>
      cases hrun
      exact ⟨[], rfl, by simp, by simp⟩
  | succ left ih =>
      unfold loadNetworks at hrun
      obtain ⟨ssid?, u, tr₁, rfl, hssid, hrest⟩ := steps_call hrun
      cases ssid? with
      | none =>
          have hread : Read (⟨s, .nvsGetSsid i, none, u⟩ :: tr₁) i (none, none) :=
            ⟨⟨s, u, List.mem_cons_self⟩, nofun⟩
          refine (ih (i + 1) hrest).cons hread (fun e he => List.mem_cons_of_mem _ he) ?_
          exact congrArg (fun l => (⟨l, h.initialized⟩ : WifiHandle)) (List.append_nil _).symm
      | some ssid =>
          obtain ⟨password?, v, tr₂, rfl, hpassword, hrest⟩ := steps_call hrest
          have hread : Read (⟨s, .nvsGetSsid i, some ssid, u⟩ ::
              ⟨u, .nvsGetPassword i, password?, v⟩ :: tr₂) i (some ssid, password?) :=
            ⟨⟨s, u, List.mem_cons_self⟩,
              fun _ => ⟨u, v, List.mem_cons_of_mem _ List.mem_cons_self⟩⟩
          have hsub : ∀ e ∈ tr₂, e ∈ (⟨s, .nvsGetSsid i, some ssid, u⟩ ::
              ⟨u, .nvsGetPassword i, password?, v⟩ :: tr₂ : List Event) := fun e he =>
            List.mem_cons_of_mem _ (List.mem_cons_of_mem _ he)
          cases password? with
          | none =>
              refine (ih (i + 1) hrest).cons hread hsub ?_
              exact congrArg (fun l => (⟨l, h.initialized⟩ : WifiHandle)) (List.append_nil _).symm
          | some password => exact (ih (i + 1) hrest).cons hread hsub rfl

end Reads

section Load

variable {s t : State} {tr : List Event} {h : SlotHandle} {x : EspErr × SlotHandle}

/-- The ways `wifi_creds_load` goes: there is no namespace, no count, or a loop. -/
theorem wifiCredsLoadSlots_cases (hinit : h.initialized = true)
    (hrun : Steps (machine step) (wifiCredsLoadSlots.run h) s tr (.pure x) t) :
    (tr = [⟨s, .nvsOpen, false, t⟩] ∧ machine step .nvsOpen s false t ∧ x = (.ok, h)) ∨
      ∃ u count v loop, tr = ⟨s, .nvsOpen, true, u⟩ :: ⟨u, .nvsGetCount, count, v⟩ :: loop ∧
        machine step .nvsOpen s true u ∧ machine step .nvsGetCount u count v ∧ x.1 = .ok ∧
        (count.getD 0 = 0 ∧ loop = [] ∧ v = t ∧ x.2 = h ∨ count.getD 0 ≠ 0 ∧
          Steps (machine step) ((loadSlots (min (count.getD 0) wifiMaxNetworks) 0).run
            { h with count := 0 }) v loop (.pure ((), x.2)) t) := by
  unfold wifiCredsLoadSlots at hrun
  rw [Stateful.run_get_bind, if_pos hinit] at hrun
  obtain ⟨opened, u, tr₁, rfl, hopen, hrest⟩ := steps_call hrun
  cases opened with
  | false =>
      cases hrest
      exact Or.inl ⟨rfl, hopen, rfl⟩
  | true =>
      obtain ⟨count, v, loop, rfl, hcount, hrest⟩ := steps_call hrest
      refine Or.inr ⟨u, count, v, loop, rfl, hopen, hcount, ?_⟩
      split at hrest
      · next hzero =>
          cases hrest
          exact ⟨rfl, Or.inl ⟨hzero, rfl, rfl, rfl⟩⟩
      · next hzero =>
          rw [Stateful.run_modify_bind] at hrest
          obtain ⟨_, h', w, tr₂, tr₃, rfl, hloop, hend⟩ := steps_bind hrest
          cases hend
          rw [List.append_nil]
          exact ⟨rfl, Or.inr ⟨hzero, hloop⟩⟩

/-- The function on the array is the one on the list. -/
theorem wifiCredsLoadSlots_refines (hinit : h.initialized = true) (hvalid : s.stored.Valid)
    (hrun : Steps (machine step) (wifiCredsLoadSlots.run h) s tr (.pure x) t) :
    Steps (machine step) (wifiCredsLoad.run h.handle) s tr (.pure (x.1, x.2.handle)) t := by
  have hinit' : h.handle.initialized = true := hinit
  unfold wifiCredsLoad
  rw [Stateful.run_get_bind, if_pos hinit']
  obtain ⟨rfl, hopen, rfl⟩ | ⟨u, count, v, loop, rfl, hopen, hcount, hok, hend⟩ :=
    wifiCredsLoadSlots_cases hinit hrun
  · exact Steps.call hopen (Steps.refl _ _)
  refine Steps.call hopen (Steps.call hcount ?_)
  rw [hok]
  obtain ⟨hzero, rfl, rfl, hx⟩ | ⟨hzero, hloop⟩ := hend
  · simp only [Program.bind, hzero, hx]
    exact Steps.refl _ _
  · obtain ⟨hlist, -⟩ := loadSlots_refines _ 0
      (by rwa [machine_stored hcount, machine_stored hopen]) hloop
    simp only [Program.bind, if_neg hzero]
    have hwhole := hlist.bind (f := fun y => .pure (EspErr.ok, y.2)) (Steps.refl _ t)
    rw [List.append_nil] at hwhole
    exact hwhole

/-- The count a run has read, 0 when it has read none. -/
def countRead (tr : List Event) : ℕ :=
  (tr.findSome? fun
    | ⟨_, .nvsGetCount, r, _⟩ => r
    | _ => none).getD 0

/-- What of a stored value fits into a buffer of `size` bytes. -/
def fitting (size : ℕ) (value : Option Str) : Option Str := value.filter fun v => v.length < size

/-- The calls answer what is stored. -/
def Faithful : Event → Prop
  | ⟨_, .nvsOpen, r, _⟩ => r = true
  | ⟨s, .nvsGetCount, r, _⟩ => r = s.stored.count
  | ⟨s, .nvsGetSsid i, r, _⟩ => r = fitting wifiSsidMaxLen (s.stored.ssid i)
  | ⟨s, .nvsGetPassword i, r, _⟩ => r = fitting wifiPassMaxLen (s.stored.password i)
  | _ => True

/-- The stored networks that can be loaded. -/
def Stored.networks (stored : Stored) (count : ℕ) : List Network :=
  (List.range (min count wifiMaxNetworks)).filterMap fun i =>
    entry (fitting wifiSsidMaxLen (stored.ssid i), fitting wifiPassMaxLen (stored.password i))

/-- What the loop has got is stored, and fits. -/
theorem Read.stored {i : ℕ} {r : Option Str × Option Str} (hread : Read tr i r)
    (hevents : ∀ e ∈ tr, machine step e.op e.before e.reply e.after)
    (hstored : ∀ e ∈ tr, e.before.stored = s.stored) :
    (∀ v, r.1 = some v → s.stored.ssid i = some v ∧ v.length ≤ 32) ∧
      (r.1.isSome = true → ∀ v, r.2 = some v → s.stored.password i = some v ∧ v.length ≤ 64) := by
  constructor
  · intro v hv
    obtain ⟨u, u', hmem⟩ := hread.ssid
    have hfetched := ssid_of_machine (hevents _ hmem)
    rw [hstored _ hmem, hv] at hfetched
    obtain ⟨hvalue, hlength⟩ := hfetched.stored
    exact ⟨hvalue, Nat.lt_succ_iff.1 hlength⟩
  · intro hr v hv
    obtain ⟨u, u', hmem⟩ := hread.password hr
    have hfetched := password_of_machine (hevents _ hmem)
    rw [hstored _ hmem, hv] at hfetched
    obtain ⟨hvalue, hlength⟩ := hfetched.stored
    exact ⟨hvalue, Nat.lt_succ_iff.1 hlength⟩

/-- With faithful answers it is what is stored that counts. -/
theorem Read.entry_eq {i : ℕ} {r : Option Str × Option Str} (hread : Read tr i r)
    (hfaithful : ∀ e ∈ tr, Faithful e) (hstored : ∀ e ∈ tr, e.before.stored = s.stored) :
    entry r = entry (fitting wifiSsidMaxLen (s.stored.ssid i),
      fitting wifiPassMaxLen (s.stored.password i)) := by
  obtain ⟨u, u', hmem⟩ := hread.ssid
  have hssid : r.1 = fitting wifiSsidMaxLen (u.stored.ssid i) := hfaithful _ hmem
  rw [show u.stored = s.stored from hstored _ hmem] at hssid
  obtain ⟨ssid?, password?⟩ := r
  rw [← hssid]
  cases ssid? with
  | none => rfl
  | some ssid =>
      obtain ⟨w, w', hmem'⟩ := hread.password rfl
      have hpassword : password? = fitting wifiPassMaxLen (w.stored.password i) := hfaithful _ hmem'
      rw [show w.stored = s.stored from hstored _ hmem'] at hpassword
      rw [← hpassword]

theorem filterMap_eq_range {α β : Type} {f : α → Option β} {g : ℕ → Option β} (l : List α)
    (h : ∀ i a, l[i]? = some a → f a = g i) :
    l.filterMap f = (List.range l.length).filterMap g := by
  induction l using List.reverseRecOn with
  | nil => rfl
  | append_singleton l a ih =>
      have hinit : ∀ i b, l[i]? = some b → f b = g i := by
        intro i b hb
        obtain ⟨hi, -⟩ := List.getElem?_eq_some_iff.1 hb
        exact h i b (by rw [List.getElem?_append_left hi, hb])
      have hlast : f a = g l.length := h l.length a (by simp)
      rw [List.filterMap_append, ih hinit, List.length_append, List.length_singleton,
        List.range_succ, List.filterMap_append]
      simp only [List.filterMap_cons, List.filterMap_nil, hlast]

/-- `wifi_creds_load` of an initialized handle, whatever its array held: it returns
`ESP_OK`. Without a count, which also a failing `nvs_open` leaves it without, the handle
is as it was, with the networks of an earlier load if there was one. With one, the
stored one, the first `count` networks are, in order, the entries both of whose strings
could be read, each with its own password; a string that was read is stored and fits.
When the calls answer what is stored, these are all the entries that fit. -/
theorem wifiCredsLoadSlots_entries (hinit : h.initialized = true) (hvalid : s.stored.Valid)
    (hrun : Steps (machine step) (wifiCredsLoadSlots.run h) s tr (.pure x) t) :
    x.1 = .ok ∧ (∀ k, wifiMaxNetworks ≤ k → x.2.networks k = h.networks k) ∧
      (countRead tr = 0 → x.2 = h) ∧
      (countRead tr ≠ 0 → s.stored.count = some (countRead tr) ∧ x.2.count ≤ wifiMaxNetworks ∧
        ∃ reads : List (Option Str × Option Str),
          reads.length = min (countRead tr) wifiMaxNetworks ∧
          (∀ i r, reads[i]? = some r → Read tr i r ∧
            (∀ v, r.1 = some v → s.stored.ssid i = some v ∧ v.length ≤ 32) ∧
            (r.1.isSome = true → ∀ v, r.2 = some v →
              s.stored.password i = some v ∧ v.length ≤ 64)) ∧
          x.2.handle.networks = reads.filterMap entry) ∧
      ((∀ e ∈ tr, Faithful e) → ∀ count, s.stored.count = some count → count ≠ 0 →
        x.2.handle.networks = s.stored.networks count) := by
  have hevents := hrun.events
  obtain ⟨-, hstored⟩ := steps_stored hrun
  obtain ⟨rfl, -, rfl⟩ | ⟨u, count, v, loop, rfl, hopen, hcount, hok, hend⟩ :=
    wifiCredsLoadSlots_cases hinit hrun
  · refine ⟨rfl, fun _ _ => rfl, fun _ => rfl, fun hne => absurd rfl hne, fun hfaithful => ?_⟩
    exact absurd (hfaithful _ List.mem_cons_self) Bool.false_ne_true
  have hread : countRead (⟨s, .nvsOpen, true, u⟩ :: ⟨u, .nvsGetCount, count, v⟩ :: loop) =
      count.getD 0 := by
    cases count with
    | some c => rfl
    | none =>
        obtain ⟨-, rfl, -⟩ | ⟨hzero, -⟩ := hend
        · rfl
        · exact absurd rfl hzero
  have hcount_mem : (⟨u, .nvsGetCount, count, v⟩ : Event) ∈
      (⟨s, .nvsOpen, true, u⟩ :: ⟨u, .nvsGetCount, count, v⟩ :: loop : List Event) :=
    List.mem_cons_of_mem _ List.mem_cons_self
  have hcount_eq (hfaithful : ∀ e ∈ (⟨s, .nvsOpen, true, u⟩ :: ⟨u, .nvsGetCount, count, v⟩ :: loop :
      List Event), Faithful e) : count = s.stored.count := by
    have hanswer : count = u.stored.count := hfaithful _ hcount_mem
    rw [hanswer, show u.stored = s.stored from hstored _ hcount_mem]
  rw [hread]
  obtain ⟨hzero, rfl, rfl, hx⟩ | ⟨hzero, hloop⟩ := hend
  · refine ⟨hok, fun k _ => by rw [hx], fun _ => hx, fun hne => absurd hzero hne, ?_⟩
    intro hfaithful c hc hne
    rw [hcount_eq hfaithful, hc] at hzero
    exact absurd hzero hne
  have hvalid' : v.stored.Valid := by rwa [machine_stored hcount, machine_stored hopen]
  obtain ⟨hlist, hslots⟩ := loadSlots_refines _ 0 hvalid' hloop
  obtain ⟨reads, hlength, hreads, hhandle⟩ := loadNetworks_reads _ 0 hlist
  have hread' (i : ℕ) (r : Option Str × Option Str) (hr : reads[i]? = some r) :
      Read (⟨s, .nvsOpen, true, u⟩ :: ⟨u, .nvsGetCount, count, v⟩ :: loop) i r := by
    have hread := hreads i r hr
    rw [Nat.zero_add] at hread
    exact hread.mono fun e he => List.mem_cons_of_mem _ (List.mem_cons_of_mem _ he)
  have hnetworks : x.2.handle.networks = reads.filterMap entry :=
    congrArg WifiHandle.networks hhandle
  refine ⟨hok, fun k hk => ?_, fun hne => absurd hne hzero,
    fun _ => ⟨?_, ?_, reads, hlength, ?_, hnetworks⟩, ?_⟩
  · refine hslots k ?_
    have := Nat.min_le_right (count.getD 0) wifiMaxNetworks
    dsimp only
    omega
  · cases count with
    | none => exact absurd rfl hzero
    | some c =>
        rw [← machine_stored hopen]
        exact count_of_machine hcount
  · have hcount : x.2.count = x.2.handle.networks.length := by simp [SlotHandle.handle]
    rw [hcount, hnetworks]
    calc (reads.filterMap entry).length ≤ reads.length := List.length_filterMap_le _ _
      _ ≤ wifiMaxNetworks := hlength ▸ Nat.min_le_right _ _
  · exact fun i r hr => ⟨hread' i r hr, (hread' i r hr).stored hevents hstored⟩
  · intro hfaithful c hc hne
    rw [hnetworks, filterMap_eq_range reads
      fun i r hr => (hread' i r hr).entry_eq hfaithful hstored, hlength, hcount_eq hfaithful, hc]
    rfl

end Load

section Sample

/-- Three entries: one without a password, one whose SSID is too long, and a good
one. -/
def threeStored : Stored where
  count := some 3
  ssid := fun i => match i with
    | 0 => some "home".toList
    | 1 => some (List.replicate 33 'x')
    | 2 => some "work".toList
    | _ => none
  password := fun i => match i with
    | 1 => some "other".toList
    | 2 => some "secret".toList
    | _ => none

theorem threeStored_valid : threeStored.Valid where
  ssid := by
    intro i v h
    match i with
    | 0 | 1 | 2 =>
        cases h
        decide
    | i + 3 => cases h
  password := by
    intro i v h
    match i with
    | 1 | 2 =>
        cases h
        decide
    | 0 | i + 3 => cases h

/-- A handle with the networks of an earlier load. -/
def staleHandle : SlotHandle where
  networks := fun _ =>
    { ssid := ⟨List.replicate wifiSsidMaxLen 'o', List.length_replicate⟩
      password := ⟨List.replicate wifiPassMaxLen 'o', List.length_replicate⟩
      rssi := -40 }
  count := 5
  initialized := true

/-- A load into that handle. -/
def playLoad (stored : Stored) :=
  play (fun o s => some (respond [] o s)) (wifiCredsLoadSlots.run staleHandle)
    { idleState with stored := stored }

theorem steps_playLoad (stored : Stored) :
    Steps (machine step) (wifiCredsLoadSlots.run staleHandle) { idleState with stored := stored }
      (playLoad stored).2.2 (playLoad stored).1 (playLoad stored).2.1 := by
  apply steps_play
  intro o s r t h
  obtain ⟨rfl, rfl⟩ := Prod.mk.inj (Option.some.inj h)
  exact ⟨s, Transition.Reaches.refl step s, effect_respond [] o s⟩

theorem wifiCredsLoadSlots_entries_work : ∃ tr x t,
    Steps (machine step) (wifiCredsLoadSlots.run staleHandle)
      { idleState with stored := threeStored } tr (.pure x) t ∧
    x.1 = .ok ∧ x.2.count ≤ wifiMaxNetworks ∧
    x.2.handle.networks = [⟨"work".toList, "secret".toList, -100⟩] ∧
    ∃ reads : List (Option Str × Option Str), reads.length = 3 ∧
      reads.filterMap entry = [⟨"work".toList, "secret".toList, -100⟩] := by
  have hend : (playLoad threeStored).1.value.map (fun x => x.2.handle.networks) =
      some [⟨"work".toList, "secret".toList, -100⟩] := by
    decide +kernel
  have hread : countRead (playLoad threeStored).2.2 = 3 := by
    decide +kernel
  obtain ⟨x, hrun, hnetworks⟩ := (steps_playLoad threeStored).returned hend
  obtain ⟨hok, -, -, hloaded, -⟩ := wifiCredsLoadSlots_entries rfl threeStored_valid hrun
  obtain ⟨-, hcount, reads, hlength, -, hreads⟩ := hloaded (by rw [hread]; decide)
  rw [hread] at hlength
  exact ⟨_, x, _, hrun, hok, hcount, hnetworks, reads, hlength, hreads ▸ hnetworks⟩

end Sample

end Wifi

end SimiboxDownloader
