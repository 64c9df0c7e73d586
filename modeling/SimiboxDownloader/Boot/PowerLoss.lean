import SimiboxDownloader.Boot.Mutators
import Mathlib.Tactic.IntervalCases

/-!
# Power loss in the middle of a save

The nine keys of the boot record are written one after the other, and the flash
can keep any number of these writes. So the next boot finds the old record with
the first members, in the order they are written, taken from the new one.
-/

namespace SimiboxDownloader

namespace Boot

open Interaction

/-- The first `k` members of `new`, in the order they are written, and the other
ones of `old`. -/
def BootState.tear (old new : BootState) (k : ℕ) : BootState where
  reason := if 0 < k then new.reason else old.reason
  folder := if 1 < k then new.folder else old.folder
  retryCount := if 2 < k then new.retryCount else old.retryCount
  lastError := if 3 < k then new.lastError else old.lastError
  volume := if 4 < k then new.volume else old.volume
  maxVolume := if 5 < k then new.maxVolume else old.maxVolume
  lastSsid := if 6 < k then new.lastSsid else old.lastSsid
  downloadSize := if 7 < k then new.downloadSize else old.downloadSize
  downloadProgress := if 8 < k then new.downloadProgress else old.downloadProgress

theorem BootState.tear_zero (old new : BootState) : old.tear new 0 = old := rfl

theorem BootState.tear_all (old new : BootState) : old.tear new 9 = new := rfl

theorem BootState.length_writes (state : BootState) : state.writes.length = 9 := rfl

/-- What is loaded after the first `k` writes of a save. -/
theorem BootState.load_take_writes (n : Nvs) {new : BootState} (h : new.Storable) {k : ℕ}
    (hk : k ≤ 9) : ((new.writes.take k).foldl Nvs.write n).load = n.load.tear new k := by
  have hreason := toUInt8_toUInt32 h.reason
  have herror := toUInt8_toUInt32 h.lastError
  have hfolder := fitting_some h.folder
  have hssid := fitting_some h.lastSsid
  interval_cases k <;>
    simp [BootState.writes, Nvs.load, BootState.tear, -UInt32.toUInt32_toUInt8, hreason, herror,
      hfolder, hssid]

/-- How far a save got: some of its writes are pending, or all are committed. -/
def Saving (n : Nvs) (new : BootState) (f : Flash) : Prop :=
  (∃ k, f = ⟨n, new.writes.take k⟩) ∨ f = ⟨new.writes.foldl Nvs.write n, []⟩

theorem Saving.take (n : Nvs) (new : BootState) (k : ℕ) : Saving n new ⟨n, new.writes.take k⟩ :=
  Or.inl ⟨k, rfl⟩

/-- A reset in the middle of a save keeps some of the first writes. -/
theorem Saving.reset {n n' : Nvs} {new : BootState} {f : Flash} (h : Saving n new f)
    (hr : f.Reset ⟨n', []⟩) : ∃ k ≤ 9, n' = (new.writes.take k).foldl Nvs.write n := by
  obtain ⟨j, hj⟩ := hr
  have hn : n' = (f.pending.take j).foldl Nvs.write f.stored := congrArg Flash.stored hj
  rcases h with ⟨k, rfl⟩ | rfl
  · refine ⟨min (min j k) 9, Nat.min_le_right _ _, ?_⟩
    rw [hn, List.take_take, ← new.length_writes, ← List.take_eq_take_min]
  · refine ⟨9, Nat.le_refl 9, ?_⟩
    rw [hn, ← new.length_writes, List.take_length, List.take_nil]
    rfl

variable {st : Statics} {n n' : Nvs} {new : BootState}

theorem bootMgrSaveState_saving (new : BootState) :
    Safe nvsWorks (fun _ _ => True) (Saving n new) (fun _ _ => True)
      ((bootMgrSaveState new).run st) ⟨n, []⟩ := by
  rw [bootMgrSaveState, Stateful.run_get_bind]
  by_cases hopen : st.nvsHandle = true
  · rw [if_pos hopen]
    simp only [call, Stateful.run_call_bind]
    refine ⟨trivial, fun r _ h => ?_⟩
    obtain ⟨rfl, rfl⟩ := h
    refine ⟨Saving.take n new 1, trivial, fun r _ h => ?_⟩
    obtain ⟨rfl, rfl⟩ := h
    refine ⟨Saving.take n new 2, trivial, fun r _ h => ?_⟩
    obtain ⟨rfl, rfl⟩ := h
    refine ⟨Saving.take n new 3, trivial, fun r _ h => ?_⟩
    obtain ⟨rfl, rfl⟩ := h
    refine ⟨Saving.take n new 4, trivial, fun r _ h => ?_⟩
    obtain ⟨rfl, rfl⟩ := h
    refine ⟨Saving.take n new 5, trivial, fun r _ h => ?_⟩
    obtain ⟨rfl, rfl⟩ := h
    refine ⟨Saving.take n new 6, trivial, fun r _ h => ?_⟩
    obtain ⟨rfl, rfl⟩ := h
    refine ⟨Saving.take n new 7, trivial, fun r _ h => ?_⟩
    obtain ⟨rfl, rfl⟩ := h
    refine ⟨Saving.take n new 8, trivial, fun r _ h => ?_⟩
    obtain ⟨rfl, rfl⟩ := h
    refine ⟨Saving.take n new 9, trivial, fun r _ h => ?_⟩
    obtain ⟨rfl, rfl⟩ := h
    exact ⟨Or.inr rfl, trivial⟩
  · rw [if_neg hopen]
    trivial

/-- Every number of pending writes is reached. -/
theorem bootMgrSaveState_pending (new : BootState) (hopen : st.nvsHandle = true) :
    ∃ tr q, Steps nvsWorks ((bootMgrSaveState new).run st) ⟨n, []⟩ tr q ⟨n, new.writes⟩ := by
  rw [bootMgrSaveState, Stateful.run_get_bind, if_pos hopen]
  simp only [call, Stateful.run_call_bind]
  refine ⟨_, _, Steps.call ⟨rfl, rfl⟩ <| Steps.call ⟨rfl, rfl⟩ <| Steps.call ⟨rfl, rfl⟩ <|
    Steps.call ⟨rfl, rfl⟩ <| Steps.call ⟨rfl, rfl⟩ <| Steps.call ⟨rfl, rfl⟩ <|
    Steps.call ⟨rfl, rfl⟩ <| Steps.call ⟨rfl, rfl⟩ <| Steps.call ⟨rfl, rfl⟩ <| Steps.refl _ _⟩

/-- What a power loss during a mutator leaves on the flash. -/
theorem powerLoss_iff {m : Mutator} (hopen : st.nvsHandle = true)
    (hsaved : m.saved st.current = some new) :
    (∃ tr q f, Steps nvsWorks (m.run.run st) ⟨n, []⟩ tr q f ∧ f.Reset ⟨n', []⟩) ↔
      ∃ k ≤ 9, n' = (new.writes.take k).foldl Nvs.write n := by
  obtain ⟨st', hopen', hrun⟩ := m.run_of_saved hopen hsaved
  rw [hrun]
  constructor
  · rintro ⟨tr, q, f, hsteps, hreset⟩
    have hsaving := (bootMgrSaveState_saving new).steps (Saving.take n new 0) hsteps
    exact hsaving.1.reset hreset
  · rintro ⟨k, -, rfl⟩
    obtain ⟨tr, q, hsteps⟩ := bootMgrSaveState_pending (n := n) new hopen'
    exact ⟨tr, q, _, hsteps, k, rfl⟩

/-- The power is lost at any point of a mutator that saves a record. What the
next boot then loads is the old record with any number of its members, in the
order they are written, replaced by those of the new one; for no member that is
the old record (`tear_zero`) and for all nine the new one (`tear_all`). -/
theorem loaded_after_powerLoss_iff {m : Mutator} {r : BootState} (hm : m.Storable)
    (hcache : st.current.Storable) (hopen : st.nvsHandle = true)
    (hsaved : m.saved st.current = some new) :
    (∃ tr q f n', Steps nvsWorks (m.run.run st) ⟨n, []⟩ tr q f ∧ f.Reset ⟨n', []⟩ ∧
      n'.load = r) ↔ ∃ k ≤ 9, r = n.load.tear new k := by
  have hnew := m.saved_storable hm hcache hsaved
  constructor
  · rintro ⟨tr, q, f, n', hsteps, hreset, rfl⟩
    obtain ⟨k, hk, rfl⟩ := (powerLoss_iff hopen hsaved).1 ⟨tr, q, f, hsteps, hreset⟩
    exact ⟨k, hk, BootState.load_take_writes n hnew hk⟩
  · rintro ⟨k, hk, rfl⟩
    obtain ⟨tr, q, f, hsteps, hreset⟩ := (powerLoss_iff (n := n) hopen hsaved).2 ⟨k, hk, rfl⟩
    exact ⟨tr, q, f, _, hsteps, hreset, BootState.load_take_writes n hnew hk⟩

/-- A record of a finished download of `folder`. -/
def finished (folder : Str) : Nvs where
  u8 := fun
    | .reason => some reasonDownloadSuccess.toUInt8
    | _ => none
  str := fun
    | .folder => some folder
    | .ssid => none
  size := none

/-- A request for one package after another one was downloaded. -/
def requestBach : Mutator := .requestDownload (some ['b', 'a', 'c', 'h']) 7

/-- The power is lost behind the second write: the size is still the old one. -/
theorem loaded_after_powerLoss_bach :
    ∃ tr q f n', Steps nvsWorks
        (requestBach.run.run (.loaded (finished ['m', 'o', 'z', 'a', 'r', 't'])))
        ⟨finished ['m', 'o', 'z', 'a', 'r', 't'], []⟩ tr q f ∧ f.Reset ⟨n', []⟩ ∧
      n'.load = { (finished ['m', 'o', 'z', 'a', 'r', 't']).load with
        reason := reasonDownloadRequest, folder := ['b', 'a', 'c', 'h'] } :=
  (loaded_after_powerLoss_iff (m := requestBach) trivial (Nvs.load_storable _) rfl rfl).2
    ⟨2, by decide, rfl⟩

/-- The power is lost behind the first write: a request for the package of the
download before. -/
theorem loaded_after_powerLoss_torn :
    ∃ tr q f n', Steps nvsWorks
        (requestBach.run.run (.loaded (finished ['m', 'o', 'z', 'a', 'r', 't'])))
        ⟨finished ['m', 'o', 'z', 'a', 'r', 't'], []⟩ tr q f ∧ f.Reset ⟨n', []⟩ ∧
      n'.load.reason = reasonDownloadRequest ∧
      n'.load.folder = ['m', 'o', 'z', 'a', 'r', 't'] ∧
      n'.load ≠ (finished ['m', 'o', 'z', 'a', 'r', 't']).load ∧
      n'.load ≠ (finished ['m', 'o', 'z', 'a', 'r', 't']).load.requesting
        ['b', 'a', 'c', 'h'] 7 := by
  obtain ⟨tr, q, f, hsteps, hreset⟩ := (@powerLoss_iff
    (.loaded (finished ['m', 'o', 'z', 'a', 'r', 't'])) _ _ _ requestBach rfl rfl).2
    ⟨1, by decide, rfl⟩
  refine ⟨tr, q, f, _, hsteps, hreset, ?_⟩
  decide

end Boot

end SimiboxDownloader
