import SimiboxDownloader.Boot.PowerLoss
import SimiboxDownloader.Boot.Usage

/-!
# A saved record is loaded again

The nine keys are all the record has between two boots. After a
`boot_mgr_save_state` that returned `ESP_OK` every later `boot_mgr_load_state`
finds the record that was saved, however often the boot counter is written in
between and wherever the power is lost. The reports rely on the other direction:
what was loaded is written back unchanged. That fails for one content, an SSID
that fills its array (`report_keeps_iff`).
-/

namespace SimiboxDownloader

namespace Boot

open Interaction

section Save

variable {st : Statics} {f g : Flash} {state : BootState}

/-- A save that returns `ESP_OK` has committed all nine keys. -/
theorem bootMgrSaveState_commits :
    Ends (fun x g => x.1 = true → g = ⟨f.visible.save state, []⟩)
      ((bootMgrSaveState state).run st) f := by
  have hvisible := (@bootMgrSaveState_ends st f state).imp fun x g h =>
    show x.1 = true → g.visible = f.visible.save state from fun hok => by
      obtain ⟨⟨done, -, hall, hvis⟩, -⟩ := h
      rw [hvis, hall hok, BootState.foldl_writes]
  have hcommitted : Ends (fun x g => x.1 = true → g.pending = [])
      ((bootMgrSaveState state).run st) f := by
    rw [bootMgrSaveState, Stateful.run_get_bind]
    split
    · simp only [call, Stateful.run_call_bind]
      iterate 9 refine ⟨trivial, fun _ _ _ => ⟨trivial, ?_⟩⟩
      dsimp only
      split
      · refine ⟨trivial, fun ok t hm => ⟨trivial, ?_⟩⟩
        cases ok with
        | true =>
            intro _
            obtain rfl : t = _ := hm
            rfl
        | false => exact fun hok => absurd hok Bool.false_ne_true
      · exact fun hok => absurd hok Bool.false_ne_true
    · exact fun hok => absurd hok Bool.false_ne_true
  refine (hvisible.and hcommitted).mono (fun _ _ _ _ h => h) (fun _ _ _ => trivial)
    (fun _ _ => trivial) ?_
  rintro x ⟨stored, pending⟩ ⟨hvis, hpending⟩ hok
  obtain rfl : pending = [] := hpending hok
  rw [← hvis hok]
  rfl

end Save

/-- What becomes of the flash after a save: `app_main` counts boots on a handle of
its own, and the device is reset, in any order. -/
inductive Later : Flash → Flash → Prop
  | refl (f : Flash) : Later f f
  | reset {f g h : Flash} : Later f g → g.Reset h → Later f h
  | countBoot {f g h : Flash} {st : Statics} {tr : List (Event BootCall BootReply Flash)}
      {q : Program BootCall BootReply (Bool × Statics)} :
      Later f g → Steps bootMachine (countBoot.run st) g tr q h → Later f h
  | resetBootCount {f g h : Flash} {st : Statics} {tr : List (Event BootCall BootReply Flash)}
      {q : Program BootCall BootReply (Unit × Statics)} :
      Later f g → Steps bootMachine (resetBootCount.run st) g tr q h → Later f h

/-- The record on the flash is `state`, and only boot counts are pending. -/
structure Flash.Keeps (state : BootState) (f : Flash) : Prop where
  stored : f.stored.load = state
  pending : ∀ w ∈ f.pending, ∃ c, w = .u8 .bootCount c

section Later

variable {state : BootState} {f g : Flash}

/-- Boot counts do not change the record. -/
theorem load_foldl_bootCount {ws : List Write} (h : ∀ w ∈ ws, ∃ c, w = .u8 .bootCount c)
    (n : Nvs) : (ws.foldl Nvs.write n).load = n.load := by
  induction ws generalizing n with
  | nil => rfl
  | cons w ws ih =>
      obtain ⟨c, rfl⟩ := h w List.mem_cons_self
      rw [List.foldl_cons, ih fun w hw => h w (List.mem_cons_of_mem _ hw), Nvs.load_bootCount]

theorem Flash.Keeps.visible (h : f.Keeps state) : f.visible.load = state := by
  rw [Flash.visible, load_foldl_bootCount h.pending, h.stored]

theorem Flash.Keeps.reset (h : f.Keeps state) (hr : f.Reset g) : g.Keeps state := by
  obtain ⟨k, rfl⟩ := hr
  refine ⟨?_, by simp⟩
  have htake : ∀ w ∈ f.pending.take k, ∃ c, w = .u8 .bootCount c := fun w hw =>
    h.pending w (List.mem_of_mem_take hw)
  rw [load_foldl_bootCount htake, h.stored]

/-- The calls that leave the record alone. -/
def Counts : BootCall → Prop
  | .nvsSetU8 key _ => key = .bootCount
  | .nvsSetStr _ _ => False
  | .nvsSetSize _ => False
  | .nvsEraseAll _ => False
  | .nvsFlashErase => False
  | _ => True

theorem Flash.Keeps.step {o : BootCall} {r : BootReply o} (h : f.Keeps state) (ho : Counts o)
    (hm : bootMachine o f r g) : g.Keeps state := by
  cases o with
  | nvsSetU8 key value =>
      obtain rfl : key = .bootCount := ho
      cases r with
      | true =>
          obtain rfl : g = f.write (.u8 .bootCount value) := hm
          refine ⟨h.stored, fun w hw => ?_⟩
          rcases List.mem_append.1 hw with hw | hw
          · exact h.pending w hw
          · exact ⟨value, List.mem_singleton.1 hw⟩
      | false =>
          obtain rfl : g = f := hm
          exact h
  | nvsCommit =>
      cases r with
      | true =>
          obtain rfl : g = f.commit := hm
          exact ⟨h.visible, by simp [Flash.commit]⟩
      | false =>
          obtain rfl : g = f := hm
          exact h
  | nvsSetStr | nvsSetSize | nvsEraseAll | nvsFlashErase => exact ho.elim
  | nvsGetU8 | nvsGetStr | nvsGetSize =>
      obtain rfl := hm.1
      exact h
  | _ =>
      obtain rfl : g = f := hm
      exact h

theorem Flash.Keeps.steps {α : Type} {p : BootM α} {st : Statics}
    {tr : List (Event BootCall BootReply Flash)} {q : Program BootCall BootReply (α × Statics)}
    (h : f.Keeps state) (hp : BootUses Counts p) (hrun : Steps bootMachine (p.run st) f tr q g) :
    g.Keeps state := by
  apply hrun.invariant (J := fun f => f.Keeps state) ?_ h
  intro e he hs
  exact hs.step ((hp st).steps hrun (fun _ _ => trivial) e he) (hrun.events e he)

theorem countBoot_counts : BootUses Counts countBoot := by
  refine uses_callBind trivial fun opened => Stateful.uses_ite ?_ Stateful.uses_pure
  refine uses_callBind trivial fun stored => uses_callBind rfl fun _ => ?_
  exact uses_callBind trivial fun _ => Stateful.uses_pure

theorem resetBootCount_counts : BootUses Counts resetBootCount := by
  refine uses_callBind trivial fun opened => Stateful.uses_ite ?_ Stateful.uses_pure
  exact uses_callBind rfl fun _ => uses_callBind trivial fun _ => Stateful.uses_pure

theorem Later.keeps (h : Later f g) (hf : f.Keeps state) : g.Keeps state := by
  induction h with
  | refl => exact hf
  | reset _ hr ih => exact ih.reset hr
  | countBoot _ hrun ih => exact ih.steps countBoot_counts hrun
  | resetBootCount _ hrun ih => exact ih.steps resetBootCount_counts hrun

end Later

/-- The keys of the namespace that are not the record's. -/
def otherKeys : List U8Key := [.bootCount, .musicboxSlot, .downloaderSlot]

/-- Whatever was in NVS before: when `boot_mgr_save_state` returns `ESP_OK`, every
`boot_mgr_load_state` from then on, in the same boot or after any number of
resets and writes of the boot count, returns the record that was saved. The keys
that are not the record's are as they were. -/
theorem saved_loaded {state : BootState} (hstate : state.Storable) {st st' : Statics}
    {f g : Flash} {tr : List (Event BootCall BootReply Flash)}
    (hsave : Steps bootMachine ((bootMgrSaveState state).run st) f tr (.pure (true, st')) g) :
    (∀ key ∈ otherKeys, g.visible.u8 key = f.visible.u8 key) ∧
    ∀ h, Later g h → ∀ st₁ : Statics, st₁.nvsHandle = true → ∀ tr₁ x h₁,
      Steps nvsFinds (bootMgrLoadState.run st₁) h tr₁ (.pure x) h₁ → x.1 = some state := by
  obtain rfl := bootMgrSaveState_commits.result trivial hsave rfl
  constructor
  · intro key hkey
    simp only [otherKeys, List.mem_cons, List.not_mem_nil, or_false] at hkey
    rcases hkey with rfl | rfl | rfl <;> rfl
  · intro h hlater st₁ hopen tr₁ x h₁ hload
    have hkeeps : Flash.Keeps state ⟨f.visible.save state, []⟩ :=
      ⟨Nvs.load_save _ hstate, by simp⟩
    obtain ⟨rfl, -⟩ := (bootMgrLoadState_finds hopen).result trivial hload
    rw [(hlater.keeps hkeeps).visible]

theorem saved_loaded_mozart : ∃ tr x g,
    Steps bootMachine ((bootMgrSaveState (finished "mozart".toList).load).run
      (.loaded (finished "mozart".toList))) ⟨.empty, []⟩ tr (.pure x) g ∧
    ∀ st₁ : Statics, st₁.nvsHandle = true → ∀ tr₁ y h₁,
      Steps nvsFinds (bootMgrLoadState.run st₁) g tr₁ (.pure y) h₁ →
      y.1 = some (finished "mozart".toList).load := by
  have hrun := steps_play (fun o f r g h => (healthy_works o f r g h).1)
    ((bootMgrSaveState (finished "mozart".toList).load).run (.loaded (finished "mozart".toList)))
    ⟨.empty, []⟩
  exact ⟨_, (true, _), _, hrun, (saved_loaded (Nvs.load_storable _) hrun).2 _ (.refl _)⟩

section Reports

/-- The reports of the download. -/
inductive Report
  | success
  | failure (error : UInt32)

def Report.run : Report → BootM Bool
  | .success => bootMgrReportSuccess
  | .failure error => bootMgrReportFailure error

/-- The keys a report is about. -/
def Report.changes : Report → List U8Key
  | .success => [.reason, .error, .progress]
  | .failure _ => [.reason, .error, .retry]

/-- `boot_mgr_init` and a report. -/
def initAndReport (r : Report) : BootM Bool := do
  let _ ← bootMgrInit
  r.run

/-- The record a report saves. -/
def Report.saved (current : BootState) : Report → BootState
  | .success => current.succeeded
  | .failure error => current.failed error

/-- All but the keys in `changed` are as in `n`. -/
structure Nvs.SameBut (changed : List U8Key) (n m : Nvs) : Prop where
  u8 : ∀ key, key ∉ changed → m.u8 key = n.u8 key
  str : m.str = n.str
  size : m.size = n.size

/-- All nine keys of the record are there, and the folder fits its array. -/
structure Nvs.Complete (n : Nvs) : Prop where
  u8 : ∀ key, key ∉ otherKeys → (n.u8 key).isSome = true
  folder : ∃ s, n.str .folder = some s ∧ s.length ≤ 63
  ssid : (n.str .ssid).isSome = true
  size : n.size.isSome = true

/-- The write changes nothing but a key in `changed`. -/
def Write.Harmless (changed : List U8Key) (n : Nvs) : Write → Prop
  | .u8 key value => key ∈ changed ∨ n.u8 key = some value
  | .str key value => n.str key = some value
  | .size value => n.size = some value
  | .eraseAll => False

variable {changed : List U8Key} {n m : Nvs} {f g : Flash}

theorem Nvs.SameBut.write {w : Write} (h : Nvs.SameBut changed n m) (hw : w.Harmless changed n) :
    Nvs.SameBut changed n (m.write w) := by
  cases w with
  | u8 key value =>
      refine ⟨fun k hk => ?_, h.str, h.size⟩
      rw [Nvs.write_u8]
      dsimp only
      by_cases hkey : k = key
      · subst hkey
        rw [Function.update_self, hw.resolve_left hk]
      · rw [Function.update_of_ne hkey, h.u8 k hk]
  | str key value =>
      refine ⟨h.u8, ?_, h.size⟩
      rw [Nvs.write_str, h.str, ← (show n.str key = some value from hw), Function.update_eq_self]
  | size value => exact ⟨h.u8, h.str, (show n.size = some value from hw).symm⟩
  | eraseAll => exact hw.elim

theorem Nvs.SameBut.foldl {ws : List Write} (h : Nvs.SameBut changed n m)
    (hws : ∀ w ∈ ws, w.Harmless changed n) : Nvs.SameBut changed n (ws.foldl Nvs.write m) := by
  induction ws generalizing m with
  | nil => exact h
  | cons w ws ih =>
      exact ih (h.write (hws w List.mem_cons_self)) fun w hw => hws w (List.mem_cons_of_mem _ hw)

/-- Whatever a reset keeps of the pending writes, only keys in `changed` differ. -/
structure Flash.SameBut (changed : List U8Key) (n : Nvs) (f : Flash) : Prop where
  stored : Nvs.SameBut changed n f.stored
  pending : ∀ w ∈ f.pending, w.Harmless changed n

theorem Flash.SameBut.reset (h : f.SameBut changed n) (hr : f.Reset g) :
    Nvs.SameBut changed n g.stored := by
  obtain ⟨k, rfl⟩ := hr
  exact h.stored.foldl fun w hw => h.pending w (List.mem_of_mem_take hw)

theorem Flash.SameBut.write {w : Write} (h : f.SameBut changed n) (hw : w.Harmless changed n) :
    (f.write w).SameBut changed n := by
  refine ⟨h.stored, fun w' hw' => ?_⟩
  rcases List.mem_append.1 hw' with hw' | hw'
  · exact h.pending w' hw'
  · rw [List.mem_singleton.1 hw']
    exact hw

/-- The call of a write. -/
def Write.call : Write → BootCall
  | .u8 key value => .nvsSetU8 key value
  | .str key value => .nvsSetStr key value
  | .size value => .nvsSetSize value
  | .eraseAll => .nvsEraseAll .bootmgr

/-- The calls of a report that changes nothing but keys in `changed`. -/
def Reporting (changed : List U8Key) (n : Nvs) (o : BootCall) : Prop :=
  o = .nvsCommit ∨ ∃ w : Write, w.Harmless changed n ∧ o = w.call

/-- A harmless `nvs_set_*`, whether it succeeds or not. -/
theorem Flash.SameBut.set {w : Write} {ok : Bool} (h : f.SameBut changed n)
    (hw : w.Harmless changed n) (hg : g = if ok then f.write w else f) : g.SameBut changed n := by
  rw [hg]
  split
  · exact h.write hw
  · exact h

theorem Flash.SameBut.step {o : BootCall} {r : BootReply o} (h : f.SameBut changed n)
    (ho : Reporting changed n o) (hm : bootMachine o f r g) : g.SameBut changed n := by
  rcases ho with rfl | ⟨w, hw, rfl⟩
  · obtain rfl : g = if r then f.commit else f := hm
    split
    · exact ⟨h.stored.foldl h.pending, by simp [Flash.commit]⟩
    · exact h
  · cases w with
    | u8 key value =>
        exact h.set hw hm
    | str key value =>
        exact h.set hw hm
    | size value =>
        exact h.set hw hm
    | eraseAll => exact hw.elim

/-- `boot_mgr_save_state` makes the writes of its record and commits them. -/
theorem bootMgrSaveState_writes {A : BootCall → Prop} {state : BootState}
    (hwrites : ∀ w ∈ state.writes, A w.call) (hcommit : A .nvsCommit) :
    BootUses A (bootMgrSaveState state) := by
  simp only [BootState.writes, List.forall_mem_cons] at hwrites
  obtain ⟨h₁, h₂, h₃, h₄, h₅, h₆, h₇, h₈, h₉, -⟩ := hwrites
  refine Stateful.uses_get.bind fun st => Stateful.uses_ite ?_ Stateful.uses_pure
  refine uses_callBind h₁ fun _ => uses_callBind h₂ fun _ => uses_callBind h₃ fun _ => ?_
  refine uses_callBind h₄ fun _ => uses_callBind h₅ fun _ => uses_callBind h₆ fun _ => ?_
  refine uses_callBind h₇ fun _ => uses_callBind h₈ fun _ => uses_callBind h₉ fun _ => ?_
  refine Stateful.uses_ite (uses_callBind hcommit fun ok => ?_) Stateful.uses_pure
  exact Stateful.uses_ite (Stateful.uses_modify.bind fun _ => Stateful.uses_pure)
    Stateful.uses_pure

/-- The writes of a report after the record was loaded. -/
theorem Report.writes_harmless (hn : n.Complete) {ssid : Str} (hssid : n.str .ssid = some ssid)
    (hlen : ssid.length < 32) (r : Report) :
    ∀ w ∈ (r.saved n.load).writes, w.Harmless r.changes n := by
  obtain ⟨hu8, ⟨folder, hfolder, hfits⟩, -, hsize⟩ := hn
  have hkey (key : U8Key) (d : UInt8) (h : key ∉ otherKeys) :
      n.u8 key = some ((n.u8 key).getD d) := by
    obtain ⟨v, hv⟩ := Option.isSome_iff_exists.1 (hu8 key h)
    rw [hv, Option.getD_some]
  have hfolder' : n.str .folder = some (fitting 64 (n.str .folder)) := by
    rw [hfolder, fitting_some (Nat.lt_succ_of_le hfits)]
  have hssid' : n.str .ssid = some (fitting 32 (n.str .ssid)) := by
    rw [hssid, fitting_some hlen]
  have hsize' : n.size = some (n.size.getD 0) := by
    obtain ⟨v, hv⟩ := Option.isSome_iff_exists.1 hsize
    rw [hv, Option.getD_some]
  have hvolume := hkey .volume 6 (by decide)
  have hmaxVol := hkey .maxVol 12 (by decide)
  have hretry := hkey .retry 0 (by decide)
  have hprogress := hkey .progress 0 (by decide)
  cases r with
  | success =>
      simp only [Report.saved, BootState.writes, List.forall_mem_cons]
      exact ⟨Or.inl (by decide), hfolder', Or.inr hretry, Or.inl (by decide), Or.inr hvolume,
        Or.inr hmaxVol, hssid', hsize', Or.inl (by decide), by simp⟩
  | failure error =>
      simp only [Report.saved, BootState.writes, List.forall_mem_cons]
      exact ⟨Or.inl List.mem_cons_self, hfolder', Or.inl (by simp [Report.changes]),
        Or.inl (by simp [Report.changes]), Or.inr hvolume, Or.inr hmaxVol, hssid', hsize',
        Or.inr hprogress, by simp⟩

/-- The calls of `boot_mgr_init`. -/
def ReadsRecord : BootCall → Prop
  | .nvsOpen _ => True
  | .nvsGetU8 _ => True
  | .nvsGetStr _ => True
  | .nvsGetSize => True
  | _ => False

theorem readsRecord_step {o : BootCall} {r : BootReply o} (ho : ReadsRecord o)
    (hm : bootMachine o f r g) : g = f := by
  cases o with
  | nvsOpen => exact hm
  | nvsGetU8 | nvsGetStr | nvsGetSize => exact hm.1
  | _ => exact ho.elim

theorem bootMgrLoadState_reads : BootUses ReadsRecord bootMgrLoadState := by
  refine Stateful.uses_get.bind fun st => Stateful.uses_ite ?_ Stateful.uses_pure
  iterate 9 refine uses_callBind trivial fun _ => ?_
  exact Stateful.uses_modify.bind fun _ => Stateful.uses_pure

theorem bootMgrInit_reads : BootUses ReadsRecord bootMgrInit := by
  refine uses_callBind trivial fun opened => Stateful.uses_ite ?_ Stateful.uses_pure
  refine Stateful.uses_modify.bind fun _ => bootMgrLoadState_reads.bind fun _ => ?_
  exact Stateful.uses_pure

/-- `boot_mgr_init` reads the record and changes nothing. -/
theorem bootMgrInit_finds {st : Statics} (hclosed : st.nvsHandle = false) :
    Safe nvsFinds (fun _ _ => True) (fun g => g = f)
      (fun x g => g = f ∧ (x.2.nvsHandle = true → x.2.current = f.visible.load))
      (bootMgrInit.run st) f := by
  have hsame : Safe nvsFinds (fun _ _ => True) (fun g => g = f) (fun _ g => g = f)
      (bootMgrInit.run st) f := by
    refine (bootMgrInit_reads st).safe ?_ (fun _ _ _ _ => trivial) rfl
    rintro o s r t ho rfl hm
    exact ⟨trivial, readsRecord_step ho hm.1⟩
  have hloads : Finds (fun x _ => x.2.nvsHandle = true → x.2.current = f.visible.load)
      (bootMgrInit.run st) f := by
    refine ⟨trivial, fun opened g hm => ⟨trivial, ?_⟩⟩
    obtain rfl : g = f := hm.1
    cases opened with
    | false =>
        intro hopen
        rw [hclosed] at hopen
        cases hopen
    | true =>
        apply (bootMgrLoadState_finds rfl).bind
        rintro _ _ ⟨rfl, rfl⟩ _
        rfl
  exact (hsame.and hloads).mono (fun _ _ _ _ h => h) (fun _ _ _ => trivial) (fun _ h => h.1)
    fun _ _ h => h

theorem initAndReport_keeps (hn : n.Complete) {ssid : Str} (hssid : n.str .ssid = some ssid)
    (hlen : ssid.length < 32) (r : Report) :
    Safe nvsFinds (fun _ _ => True) (Flash.SameBut r.changes n) (fun _ _ => True)
      ((initAndReport r).run .fresh) ⟨n, []⟩ := by
  have hstart : Flash.SameBut r.changes n ⟨n, []⟩ := ⟨⟨fun _ _ => rfl, rfl, rfl⟩, by simp⟩
  rw [initAndReport, Stateful.run_bind]
  have hinit := @bootMgrInit_finds ⟨n, []⟩ .fresh rfl
  apply (hinit.mono (fun _ _ _ _ h => h) (fun _ _ h => h) ?_ fun _ _ h => h).bind
  swap
  · rintro _ rfl
    exact hstart
  rintro ⟨_, st⟩ _ ⟨rfl, hload⟩
  have hrun : r.run.run st =
      (bootMgrSaveState (r.saved st.current)).run { st with current := r.saved st.current } := by
    cases r with
    | success => rfl
    | failure error => rfl
  rw [hrun]
  by_cases hopen : st.nvsHandle = true
  · rw [hload hopen]
    have huses : BootUses (Reporting r.changes n) (bootMgrSaveState (r.saved n.load)) :=
      bootMgrSaveState_writes
        (fun w hw => Or.inr ⟨w, r.writes_harmless hn hssid hlen w hw, rfl⟩) (Or.inl rfl)
    refine ((huses _).safe ?_ (fun _ _ _ _ => trivial) hstart).imp fun _ _ _ => trivial
    intro o s t u ho hs hm
    exact ⟨trivial, hs.step ho hm.1⟩
  · rw [bootMgrSaveState, Stateful.run_get_bind, if_neg hopen]
    trivial

/-- All nine keys are there, and the folder fits its array. In every run of
`boot_mgr_init` and a report in which NVS finds the keys that are there, whatever
else fails and wherever the power is lost, only the keys of the report differ
afterwards, exactly when the SSID is shorter than its array. -/
theorem report_keeps_iff (hn : n.Complete) {ssid : Str} (hssid : n.str .ssid = some ssid)
    (r : Report) :
    (∀ tr q g g', Steps nvsFinds ((initAndReport r).run .fresh) ⟨n, []⟩ tr q g → g.Reset g' →
      Nvs.SameBut r.changes n g'.stored) ↔ ssid.length < 32 := by
  constructor
  · intro hkeeps
    have hrun := steps_play (fun o f r g h => nvsFinds_of_works (healthy_works o f r g h))
      ((initAndReport r).run .fresh) ⟨n, []⟩
    have hsame := (hkeeps _ _ _ _ hrun ⟨0, rfl⟩).str
    -- what was loaded was written back
    have hwritten : some (fitting 32 (n.str .ssid)) = n.str .ssid := by
      cases r with
      | success => exact congrFun hsame .ssid
      | failure error => exact congrFun hsame .ssid
    rw [hssid] at hwritten
    rw [← Option.some.inj hwritten]
    exact fitting_length _ _ (by decide)
  · intro hlen tr q g g' hrun hreset
    have hstart : Flash.SameBut r.changes n ⟨n, []⟩ := ⟨⟨fun _ _ => rfl, rfl, rfl⟩, by simp⟩
    exact (((initAndReport_keeps hn hssid hlen r).steps hstart hrun).1).reset hreset

/-- A record of a finished download with an SSID. -/
def connected (ssid : Str) : Nvs where
  u8 := fun _ => some 1
  str := fun
    | .folder => some "mozart".toList
    | .ssid => some ssid
  size := some 7

theorem connected_complete (ssid : Str) : (connected ssid).Complete :=
  ⟨fun _ _ => rfl, ⟨_, rfl, by decide⟩, rfl, rfl⟩

theorem report_keeps_home : ∃ tr x g,
    Steps nvsFinds ((initAndReport .success).run .fresh) ⟨connected "home".toList, []⟩ tr
      (.pure x) g ∧
    x.1 = true ∧ Nvs.SameBut [.reason, .error, .progress] (connected "home".toList) g.stored := by
  have hrun := steps_play (fun o f r g h => nvsFinds_of_works (healthy_works o f r g h))
    ((initAndReport .success).run .fresh) ⟨connected "home".toList, []⟩
  refine ⟨_, (true, _), _, hrun, rfl, ?_⟩
  exact (report_keeps_iff (connected_complete _) rfl .success).2 (by decide) _ _ _ _ hrun ⟨0, rfl⟩

/-- An SSID of 32 characters, as many as there can be. -/
def longSsid : Str := List.replicate 32 'x'

/-- The report takes the SSID away. -/
theorem report_not_keeps : ∃ tr x g,
    Steps nvsWorks ((initAndReport .success).run .fresh) ⟨connected longSsid, []⟩ tr (.pure x) g ∧
    x.1 = true ∧ (connected longSsid).str .ssid = some longSsid ∧ g.stored.str .ssid = some [] := by
  have hrun := steps_play healthy_works ((initAndReport .success).run .fresh)
    ⟨connected longSsid, []⟩
  exact ⟨_, (true, _), _, hrun, rfl, rfl, by decide⟩

end Reports

end Boot

end SimiboxDownloader
