import SimiboxDownloader.Boot.Counter

/-!
# The network of the last connection

`connect_to_wifi_with_feedback` puts the SSID it ended up on into `boot_state`,
the copy of the record `app_main` keeps. The reports save the other copy, the
one of the boot manager. So the SSID in NVS stays what it was when the record
was loaded. Reads of NVS may fail here; writes succeed.
-/

namespace SimiboxDownloader

namespace Boot

open Interaction

/-- A reading of the key `ssid` takes the place of the one before. -/
def noteSsid (ssid : Str) : Event BootCall BootReply Flash → Str
  | ⟨_, .nvsGetStr .ssid, r, _⟩ => fitting StrKey.ssid.size r
  | _ => ssid

/-- The SSID of the last `boot_mgr_load_state`. -/
def ssidRead (l : Log) : Str := l.foldl noteSsid []

def noteNetwork (network : Option Str) : Event BootCall BootReply Flash → Option Str
  | ⟨_, .connectToWifi, some ssid, _⟩ => some ssid
  | _ => network

/-- The network the boot connected to. -/
def network (l : Log) : Option Str := l.foldl noteNetwork none

@[simp] theorem ssidRead_append (l : Log) (e : Event BootCall BootReply Flash) :
    ssidRead (l ++ [e]) = noteSsid (ssidRead l) e := by
  rw [ssidRead, List.foldl_append]
  rfl

@[simp] theorem network_append (l : Log) (e : Event BootCall BootReply Flash) :
    network (l ++ [e]) = noteNetwork (network l) e := by
  rw [network, List.foldl_append]
  rfl

/-- At the switch of the boot partition: the network is the one on the flash
exactly when the record was loaded with it. -/
def AtSwitch (o : BootCall) (s : Flash × Log) : Prop :=
  o = .otaSetBootPartition → ∀ ssid, network s.2 = some ssid →
    (s.1.stored.str .ssid = some ssid ↔ ssidRead s.2 = ssid)

/-- The judgement of a part of `app_main`. -/
abbrev Tracks {α : Type} (Q : α → Flash × Log → Prop) (p : Program BootCall BootReply α)
    (s : Flash × Log) : Prop :=
  Safe nvsWrites.logged AtSwitch (fun _ => True) Q p s

variable {α : Type} {st : Statics} {f : Flash} {l : Log}

/-- What every call of a part keeps that does not switch. -/
theorem tracks_of_uses {A : BootCall → Prop} {J : Flash × Log → Prop} {p : BootM α}
    {s : Flash × Log} (h : BootUses A p) (hA : ∀ o, A o → o ≠ .otaSetBootPartition)
    (hstep : ∀ o s r t, A o → J s → nvsWrites.logged o s r t → J t) (hs : J s) :
    Tracks (fun _ => J) (p.run st) s := by
  have hsafe := (h st).safe (M := nvsWrites.logged) (C := AtSwitch) (J := J)
    (fun o s r t ho hj hm => ⟨trivial, hstep o s r t ho hj hm⟩)
    (fun o s ho _ hswitch => absurd hswitch (hA o ho)) hs
  exact hsafe.mono (fun _ _ _ _ h => h) (fun _ _ h => h) (fun _ _ => trivial) fun _ _ h => h

/-- The calls of a part that does not connect. -/
def Offline : BootCall → Prop
  | .connectToWifi => False
  | .otaSetBootPartition => False
  | _ => True

theorem Offline.ne_switch {o : BootCall} (h : Offline o) : o ≠ .otaSetBootPartition := by
  rintro rfl
  exact h

theorem offline_of_common {o : BootCall} (h : Common o) : Offline o := by
  cases o with
  | connectToWifi => exact h
  | otaSetBootPartition => exact h
  | _ => trivial

theorem noteNetwork_offline {o : BootCall} (h : Offline o) {f g : Flash} {r : BootReply o}
    (n : Option Str) : noteNetwork n ⟨f, o, r, g⟩ = n := by
  cases o with
  | connectToWifi => exact h.elim
  | _ => rfl

theorem tracks_offline {p : BootM α} {s : Flash × Log} (h : BootUses Offline p)
    (hs : network s.2 = none) : Tracks (fun _ t => network t.2 = none) (p.run st) s := by
  apply tracks_of_uses (J := fun t => network t.2 = none) h (fun _ ho => ho.ne_switch) _ hs
  intro o s r t ho hj hm
  rw [hm.2, network_append, noteNetwork_offline ho, hj]

/-- The calls of a part that does not read the SSID. -/
def Unread : BootCall → Prop
  | .nvsGetStr .ssid => False
  | .otaSetBootPartition => False
  | _ => True

theorem Unread.ne_switch {o : BootCall} (h : Unread o) : o ≠ .otaSetBootPartition := by
  rintro rfl
  exact h

theorem unread_of_common {o : BootCall} (h : Common o) : Unread o := by
  cases o with
  | nvsGetStr key => exact h.elim
  | otaSetBootPartition => exact h
  | _ => trivial

theorem noteSsid_unread {o : BootCall} (h : Unread o) {f g : Flash} {r : BootReply o}
    (ssid : Str) : noteSsid ssid ⟨f, o, r, g⟩ = ssid := by
  cases o with
  | nvsGetStr key =>
      cases key with
      | ssid => exact h.elim
      | folder => rfl
  | _ => rfl

theorem tracks_unread {p : BootM α} {s : Flash × Log} (h : BootUses Unread p) :
    Tracks (fun _ t => ssidRead t.2 = ssidRead s.2) (p.run st) s := by
  apply tracks_of_uses (J := fun t => ssidRead t.2 = ssidRead s.2) h
    (fun _ ho => ho.ne_switch) _ rfl
  intro o s r t ho hj hm
  rw [hm.2, ssidRead_append, noteSsid_unread ho, hj]

/-- The SSID is on the flash, and no write of another one is pending. -/
def Flash.HasSsid (ssid : Str) (f : Flash) : Prop :=
  f.visible.str .ssid = some ssid ∧ f.stored.str .ssid = some ssid

/-- The SSID that was loaded is on the flash. -/
def Settled (s : Flash × Log) : Prop := s.1.HasSsid (ssidRead s.2)

/-- Either the boot did not connect, or the SSID is settled. -/
def Ready (s : Flash × Log) : Prop := network s.2 = none ∨ Settled s

theorem Ready.atSwitch {s : Flash × Log} (h : Ready s) (o : BootCall) : AtSwitch o s := by
  intro _ ssid hnet
  rcases h with h | h
  · rw [h] at hnet
    cases hnet
  · rw [h.2, Option.some.injEq]

/-- The calls behind a report. -/
def BehindReport : BootCall → Prop
  | .nvsGetStr _ => False
  | .nvsSetStr _ _ => False
  | .nvsFlashErase => False
  | .nvsEraseAll _ => False
  | .connectToWifi => False
  | _ => True

theorem behindReport_of_common {o : BootCall} (h : Common o) : BehindReport o := by
  cases o with
  | nvsGetStr | nvsSetStr | nvsFlashErase | nvsEraseAll | connectToWifi => exact h.elim
  | _ => trivial

theorem hasSsid_step {o : BootCall} {f g : Flash} {r : BootReply o} {ssid : Str}
    (ho : BehindReport o) (hf : f.HasSsid ssid) (h : bootMachine o f r g) : g.HasSsid ssid := by
  cases o with
  | nvsSetU8 key value =>
      obtain rfl := h
      cases r with
      | true => exact ⟨by simpa using hf.1, hf.2⟩
      | false => exact hf
  | nvsSetSize value =>
      obtain rfl := h
      cases r with
      | true => exact ⟨by simpa using hf.1, hf.2⟩
      | false => exact hf
  | nvsCommit =>
      obtain rfl := h
      cases r with
      | true => exact ⟨hf.1, hf.1⟩
      | false => exact hf
  | nvsGetStr | nvsSetStr | nvsFlashErase | nvsEraseAll | connectToWifi => exact ho.elim
  | nvsGetU8 | nvsGetSize =>
      obtain rfl := h.1
      exact hf
  | _ =>
      obtain rfl := h
      exact hf

theorem ready_step {o : BootCall} {s t : Flash × Log} {r : BootReply o}
    (ho : BehindReport o) (hs : Ready s) (h : nvsWrites.logged o s r t) : Ready t := by
  obtain ⟨⟨hm, -⟩, hlog⟩ := h
  have hnet : network t.2 = network s.2 := by
    rw [hlog, network_append]
    cases o with
    | connectToWifi => exact ho.elim
    | _ => rfl
  have hread : ssidRead t.2 = ssidRead s.2 := by
    rw [hlog, ssidRead_append]
    cases o with
    | nvsGetStr key => exact ho.elim
    | _ => rfl
  rw [Ready, Settled, hnet, hread]
  exact hs.imp_right fun hs => hasSsid_step ho hs hm

theorem tracks_ready {p : BootM α} {s : Flash × Log} (h : BootUses BehindReport p)
    (hs : Ready s) : Tracks (fun _ => Ready) (p.run st) s := by
  have hsafe := (h st).safe (M := nvsWrites.logged) (C := AtSwitch) (J := Ready)
    (fun o s r t ho hj hm => ⟨trivial, ready_step ho hj hm⟩)
    (fun o s _ hj => hj.atSwitch o) hs
  exact hsafe.mono (fun _ _ _ _ h => h) (fun _ _ h => h) (fun _ _ => trivial) fun _ _ h => h

/-- A saved record is settled when its SSID is the one that was loaded. -/
theorem bootMgrSaveState_tracks {state : BootState} (hopen : st.nvsHandle = true)
    (hssid : state.lastSsid = ssidRead l) :
    Tracks (fun _ => Settled) ((bootMgrSaveState state).run st) (f, l) := by
  have huses : BootUses Unread (bootMgrSaveState state) :=
    bootMgrSaveState_uses (fun _ => unread_of_common) (fun _ => trivial) (fun _ _ => trivial)
      trivial
  have hstored := (@bootMgrSaveState_stores st f state hopen).logged l
  have hread : Tracks (fun _ t => ssidRead t.2 = ssidRead l)
      ((bootMgrSaveState state).run st) (f, l) := tracks_unread (s := (f, l)) huses
  have hboth := hstored.and hread
  apply hboth.mono (fun _ _ _ _ h => h) (fun _ _ h => h.2) (fun _ _ => trivial)
  rintro x ⟨g, l'⟩ ⟨⟨-, rfl⟩, hread⟩
  have hread : ssidRead l' = state.lastSsid := hread.trans hssid.symm
  rw [Settled, hread]
  exact ⟨rfl, rfl⟩

theorem bootMgrReportFailure_tracks {error : UInt32} (hopen : st.nvsHandle = true)
    (hssid : st.current.lastSsid = ssidRead l) :
    Tracks (fun _ => Settled) ((bootMgrReportFailure error).run st) (f, l) := by
  rw [bootMgrReportFailure, Stateful.run_modify_bind, Stateful.run_get_bind]
  exact bootMgrSaveState_tracks hopen hssid

theorem bootMgrReportSuccess_tracks (hopen : st.nvsHandle = true)
    (hssid : st.current.lastSsid = ssidRead l) :
    Tracks (fun _ => Settled) (bootMgrReportSuccess.run st) (f, l) := by
  rw [bootMgrReportSuccess, Stateful.run_modify_bind, Stateful.run_get_bind]
  exact bootMgrSaveState_tracks hopen hssid

/-- Any call but the switch, whatever it replies. -/
theorem tracks_call {Q : α → Flash × Log → Prop} {o : BootCall}
    {next : BootReply o → Program BootCall BootReply α} (ho : o ≠ .otaSetBootPartition)
    (h : ∀ r g, Tracks Q (next r) (g, l ++ [⟨f, o, r, g⟩])) :
    Tracks Q (.call o next) (f, l) :=
  Safe.logged_call (fun hswitch => absurd hswitch ho) fun r g _ => ⟨trivial, h r g⟩

/-- The record that is loaded has the SSID that was read. -/
theorem bootMgrLoadState_tracks (hopen : st.nvsHandle = true) (hl : network l = none) :
    Tracks (fun x s => (∃ state, x = (some state, { st with current := state }) ∧
      state.lastSsid = ssidRead s.2) ∧ network s.2 = none) (bootMgrLoadState.run st) (f, l) := by
  rw [bootMgrLoadState, Stateful.run_get_bind, if_pos hopen]
  simp only [call, Stateful.run_call_bind]
  iterate 9
    refine tracks_call (by decide) fun r g => ?_
  refine ⟨⟨_, rfl, ?_⟩, ?_⟩
  · simp only [ssidRead_append, noteSsid]
  · simp only [network_append, noteNetwork, hl]

theorem bootMgrInit_tracks (hl : network l = none) :
    Tracks (fun x s => (x.1 = true → x.2.nvsHandle = true) ∧ network s.2 = none)
      (bootMgrInit.run st) (f, l) := by
  simp only [bootMgrInit, call, Stateful.run_call_bind]
  refine tracks_call (by decide) fun opened g => ?_
  have hl' : network (l ++ [⟨f, .nvsOpen .bootmgr, opened, g⟩]) = none := by
    simpa [noteNetwork] using hl
  cases opened with
  | false => exact ⟨fun h => absurd h Bool.false_ne_true, hl'⟩
  | true =>
      rw [if_pos rfl, Stateful.run_modify_bind, Stateful.run_bind]
      apply (bootMgrLoadState_tracks rfl hl').bind
      rintro _ s ⟨⟨state, rfl, -⟩, hs⟩
      exact ⟨fun _ => rfl, hs⟩

theorem espErrorCheck_tracks {ok : Bool} :
    Tracks (fun x s => ok = true ∧ x = ((), st) ∧ s = (f, l)) ((espErrorCheck ok).run st)
      (f, l) := by
  cases ok with
  | false => exact tracks_call (by decide) fun r => r.elim
  | true => exact ⟨rfl, rfl, rfl⟩

/-- A download that succeeds leaves both copies of the record alone; one that
fails has been reported. -/
theorem handleDownloadWithRetry_tracks (hopen : st.nvsHandle = true)
    (hssid : st.current.lastSsid = ssidRead l) :
    Tracks (fun x s => if x.1 then x.2 = st ∧ ssidRead s.2 = ssidRead l else Settled s)
      (handleDownloadWithRetry.run st) (f, l) := by
  have hfailed (error : UInt32) (g : Flash) (l' : Log) (h : ssidRead l' = ssidRead l) :
      Tracks (fun x s => if x.1 then x.2 = st ∧ ssidRead s.2 = ssidRead l else Settled s)
        ((do let _ ← bootMgrReportFailure error; return false : BootM Bool).run st) (g, l') := by
    rw [Stateful.run_bind]
    apply (bootMgrReportFailure_tracks hopen (hssid.trans h.symm)).bind
    intro x s hs
    exact hs
  simp only [handleDownloadWithRetry, call, Stateful.run_call_bind]
  refine tracks_call (by decide) fun mounted g => ?_
  cases mounted with
  | false =>
      refine tracks_call (by decide) fun _ g' => ?_
      exact hfailed _ _ _ (by simp only [ssidRead_append, noteSsid])
  | true =>
      refine tracks_call (by simp) fun r g' => ?_
      obtain ⟨success, sdFailed⟩ := r
      refine tracks_call (by simp) fun _ g'' => ?_
      cases success with
      | false => exact hfailed _ _ _ (by simp only [ssidRead_append, noteSsid])
      | true => exact ⟨rfl, by simp only [ssidRead_append, noteSsid]⟩

/-- The download and its report, the device being connected. -/
theorem download_tracks (hopen : st.nvsHandle = true)
    (hssid : st.current.lastSsid = ssidRead l) :
    Tracks (fun _ => Ready) ((do
      if ← handleDownloadWithRetry then
        let _ ← bootMgrReportSuccess
        resetBootCount
        return .downloaded
      else
        return .downloadFailed : BootM Route).run st) (f, l) := by
  have huses : BootUses BehindReport (do resetBootCount; return .downloaded : BootM Route) :=
    (resetBootCount_uses (fun _ => behindReport_of_common) trivial).bind fun _ =>
      Stateful.uses_pure
  rw [Stateful.run_bind]
  apply (handleDownloadWithRetry_tracks hopen hssid).bind
  rintro ⟨success, st'⟩ ⟨f', l'⟩ hdone
  cases success with
  | false => exact Or.inr hdone
  | true =>
      obtain ⟨rfl, hread⟩ := hdone
      rw [if_pos rfl, Stateful.run_bind]
      apply (bootMgrReportSuccess_tracks hopen (hssid.trans hread.symm)).bind
      intro x s hsettled
      exact tracks_ready huses (Or.inr hsettled)

/-- Behind the boot counter. -/
theorem normalBoot_tracks (hl : network l = none) :
    Tracks (fun _ => Ready) (normalBoot.run st) (f, l) := by
  have hfailed (st : Statics) (error : UInt32) (route : Route) (s : Flash × Log)
      (hs : network s.2 = none) : Tracks (fun _ => Ready)
      ((do let _ ← bootMgrReportFailure error; return route : BootM Route).run st) s := by
    have huses : BootUses Offline (bootMgrReportFailure error) :=
      bootMgrReportFailure_uses (fun _ => offline_of_common) (fun _ => trivial)
        (fun _ _ => trivial) (fun _ => trivial) error
    rw [Stateful.run_bind]
    apply (tracks_offline huses hs).bind
    intro x t ht
    exact Or.inl ht
  rw [normalBoot, Stateful.run_bind]
  apply (tracks_offline (ledInit_uses fun _ => offline_of_common) hl).bind
  rintro ⟨-, st⟩ ⟨f, l⟩ hl
  rw [Stateful.run_bind]
  apply (bootMgrInit_tracks hl).bind
  rintro ⟨opened, st⟩ ⟨f, l⟩ ⟨hopen, hl⟩
  rw [Stateful.run_bind]
  apply espErrorCheck_tracks.bind
  rintro _ _ ⟨rfl, rfl, rfl⟩
  rw [Stateful.run_bind]
  apply (bootMgrLoadState_tracks (hopen rfl) hl).bind
  rintro _ ⟨f, l⟩ ⟨⟨state, rfl, hssid⟩, hl⟩
  rw [Stateful.run_modify_bind, Stateful.run_bind, bootMgrNeedsDownload_run, Program.pure_bind]
  by_cases hneeds : state.NeedsDownload
  · simp only [hneeds, decide_true, if_true]
    by_cases hretry : maxRetries ≤ state.retryCount
    · rw [if_pos hretry]
      exact hfailed _ _ _ _ hl
    · rw [if_neg hretry, Stateful.run_bind]
      simp only [connectToWifiWithFeedback, call, Stateful.run_call_bind, Program.call_bind]
      refine tracks_call (by decide) fun connected g => ?_
      cases connected with
      | none => exact hfailed _ _ _ _ (by simpa [noteNetwork] using hl)
      | some ssid =>
          have hssid' : state.lastSsid = ssidRead (l ++ [⟨f, .connectToWifi, some ssid, g⟩]) := by
            simpa [noteSsid] using hssid
          exact download_tracks (hopen rfl) hssid'
  · simp only [hneeds, decide_false]
    exact Or.inl hl

/-- A whole boot. -/
theorem appMain_tracks (st : Statics) (n : Nvs) :
    Tracks (fun _ _ => True) (appMain.run st) (⟨n, []⟩, []) := by
  have hinit : BootUses Offline nvsInit :=
    nvsInit_uses (fun _ => offline_of_common) (fun _ => trivial) trivial
  have hcount : BootUses Offline countBoot :=
    countBoot_uses (fun _ => offline_of_common) trivial fun _ => trivial
  have hsafe : BootUses Offline safeModeBoot :=
    safeModeBoot_uses (fun _ => offline_of_common) trivial
  have hswitch : BootUses BehindReport bootMusicboxAndRestart :=
    bootMusicboxAndRestart_uses (fun _ => behindReport_of_common) trivial
  rw [appMain, beforeRestart, bind_assoc, Stateful.run_bind]
  apply (tracks_offline hinit (s := (⟨n, []⟩, [])) rfl).bind
  rintro ⟨-, st⟩ s hs
  rw [bind_assoc, Stateful.run_bind]
  apply (tracks_offline hcount hs).bind
  rintro ⟨safe, st⟩ s hs
  rw [Stateful.run_bind]
  have hboot : Tracks (fun _ => Ready)
      ((if safe then safeModeBoot else normalBoot).run st) s := by
    cases safe with
    | true => exact (tracks_offline hsafe hs).imp fun _ _ h => Or.inl h
    | false => exact normalBoot_tracks hs
  apply hboot.bind
  intro x t ht
  exact (tracks_ready hswitch ht).imp fun _ _ _ => trivial

/-- When a boot that connected to a network with the SSID `ssid` comes to the
switch of the boot partition, the stored SSID is that one exactly when the
record was already loaded with it: for every record and every outcome of the
download, the NVS writes succeeding. -/
theorem ssid_stored_iff {st : Statics} {n : Nvs} {tr : Log} {f : Flash} {ssid : Str}
    {next : Bool → Program BootCall BootReply (Unit × Statics)}
    (hrun : Steps nvsWrites (appMain.run st) ⟨n, []⟩ tr (.call .otaSetBootPartition next) f)
    (hconnected : network tr = some ssid) :
    f.stored.str .ssid = some ssid ↔ ssidRead tr = ssid := by
  obtain ⟨tr', hlogged⟩ := hrun.logged []
  have hleft := ((appMain_tracks st n).steps trivial hlogged).2
  exact hleft.1 rfl ssid hconnected

/-- A healthy device, up to the switch of the boot partition. -/
def untilSwitch : (o : BootCall) → Flash → Option (BootReply o × Flash)
  | .otaSetBootPartition, _ => none
  | o, f => healthy o f

theorem untilSwitch_writes (o : BootCall) (f : Flash) (r : BootReply o) (g : Flash)
    (h : untilSwitch o f = some (r, g)) : nvsWrites o f r g := by
  cases o with
  | otaSetBootPartition => cases h
  | _ => exact nvsWrites_of_works (healthy_works _ f r g h)

/-- A request on a device that was last connected to `ssid`. -/
def lastConnected (ssid : Str) : Nvs :=
  (requested ['m', 'o', 'z', 'a', 'r', 't'] 0).write (.str .ssid ssid)

theorem ssid_stored_home :
    ∃ tr next f, Steps nvsWrites (appMain.run .fresh) ⟨lastConnected ['h', 'o', 'm', 'e'], []⟩ tr
      (.call .otaSetBootPartition next) f ∧ f.stored.str .ssid = some ['h', 'o', 'm', 'e'] := by
  have hrun := steps_play untilSwitch_writes (appMain.run .fresh)
    ⟨lastConnected ['h', 'o', 'm', 'e'], []⟩
  refine ⟨_, _, _, hrun, ?_⟩
  exact (ssid_stored_iff hrun rfl).2 rfl

/-- A device connects to another network than the last time, downloads and
forgets the new one. -/
theorem ssid_not_stored :
    ∃ tr next f, Steps nvsWrites (appMain.run .fresh) ⟨lastConnected ['w', 'o', 'r', 'k'], []⟩ tr
      (.call .otaSetBootPartition next) f ∧ network tr = some ['h', 'o', 'm', 'e'] ∧
      f.stored.str .ssid ≠ some ['h', 'o', 'm', 'e'] := by
  have hrun := steps_play untilSwitch_writes (appMain.run .fresh)
    ⟨lastConnected ['w', 'o', 'r', 'k'], []⟩
  refine ⟨_, _, _, hrun, rfl, ?_⟩
  decide

end Boot

end SimiboxDownloader
