import SimiboxDownloader.Boot.Request

/-!
# The mutators of the boot manager

The seven functions that change the cached record and the stored one, and what
they leave behind when some of their writes fail. Nothing is rolled back: the
writes that succeeded stay. The functions that pass a record of their own to
`boot_mgr_save_state` keep the cache as it was.
-/

namespace SimiboxDownloader

namespace Boot

open Interaction

/-- The `clean_state` of `boot_mgr_clear_state`. -/
def BootState.clean : BootState where
  reason := reasonNormal
  folder := []
  retryCount := 0
  lastError := errorNone
  volume := 6
  maxVolume := 12
  lastSsid := []
  downloadSize := 0
  downloadProgress := 0

/-- The record `boot_mgr_request_download` saves; `strncpy` keeps 63 characters
of the folder. -/
def BootState.requesting (state : BootState) (folder : Str) (expectedSize : UInt32) : BootState :=
  { state with
    reason := reasonDownloadRequest
    folder := folder.take 63
    retryCount := 0
    lastError := errorNone
    downloadSize := expectedSize
    downloadProgress := 0 }

/-- `boot_mgr_clear_state`. -/
def bootMgrClearState : BootM Bool :=
  bootMgrSaveState .clean

/-- `boot_mgr_request_download`; `none` is the null pointer. -/
def bootMgrRequestDownload (folder : Option Str) (expectedSize : UInt32) : BootM Bool := do
  match folder with
  | none => return false
  | some folder => bootMgrSaveState ((← get).current.requesting folder expectedSize)

/-- `boot_mgr_update_progress`. -/
def bootMgrUpdateProgress (percent : UInt8) : BootM Bool := do
  if (← get).nvsHandle then
    modify fun st => { st with current := { st.current with downloadProgress := percent } }
    if ← call (.nvsSetU8 .progress percent) then call .nvsCommit else return false
  else
    return false

/-- `boot_mgr_set_volume`. -/
def bootMgrSetVolume (vol : UInt8) : BootM Bool := do
  if (← get).nvsHandle then
    modify fun st => { st with current := { st.current with volume := vol } }
    if ← call (.nvsSetU8 .volume vol) then call .nvsCommit else return false
  else
    return false

/-- A call of one of the mutators. -/
inductive Mutator
  | saveState (state : BootState)
  | clearState
  | requestDownload (folder : Option Str) (expectedSize : UInt32)
  | updateProgress (percent : UInt8)
  | reportSuccess
  | reportFailure (error : UInt32)
  | setVolume (vol : UInt8)
  deriving DecidableEq

def Mutator.run : Mutator → BootM Bool
  | .saveState state => bootMgrSaveState state
  | .clearState => bootMgrClearState
  | .requestDownload folder expectedSize => bootMgrRequestDownload folder expectedSize
  | .updateProgress percent => bootMgrUpdateProgress percent
  | .reportSuccess => bootMgrReportSuccess
  | .reportFailure error => bootMgrReportFailure error
  | .setVolume vol => bootMgrSetVolume vol

/-- The writes of `boot_mgr_save_state`, in their order. -/
def BootState.writes (state : BootState) : List Write :=
  [.u8 .reason state.reason.toUInt8, .str .folder state.folder, .u8 .retry state.retryCount,
    .u8 .error state.lastError.toUInt8, .u8 .volume state.volume, .u8 .maxVol state.maxVolume,
    .str .ssid state.lastSsid, .size state.downloadSize, .u8 .progress state.downloadProgress]

/-- The record a mutator hands to `boot_mgr_save_state`, the cached one being
`current`. -/
def Mutator.saved (current : BootState) : Mutator → Option BootState
  | .saveState state => some state
  | .clearState => some .clean
  | .requestDownload folder expectedSize => folder.map fun f => current.requesting f expectedSize
  | .updateProgress _ => none
  | .reportSuccess => some current.succeeded
  | .reportFailure error => some (current.failed error)
  | .setVolume _ => none

/-- The write of a mutator of a single key. -/
def Mutator.keyWrites : Mutator → List Write
  | .updateProgress percent => [.u8 .progress percent]
  | .setVolume vol => [.u8 .volume vol]
  | _ => []

/-- The writes of a mutator. -/
def Mutator.writes (current : BootState) (m : Mutator) : List Write :=
  match m.saved current with
  | some state => state.writes
  | none => m.keyWrites

/-- The cached record with a single member changed. -/
def Mutator.touch (current : BootState) : Mutator → BootState
  | .updateProgress percent => { current with downloadProgress := percent }
  | .setVolume vol => { current with volume := vol }
  | _ => current

/-- The cached record after a mutator that returned `ESP_OK`. -/
def Mutator.next (current : BootState) (m : Mutator) : BootState :=
  (m.saved current).getD (m.touch current)

/-- The mutators that leave the cache alone until the record is saved. -/
def Mutator.WritesFirst : Mutator → Prop
  | .saveState _ => True
  | .clearState => True
  | .requestDownload _ _ => True
  | _ => False

instance (m : Mutator) : Decidable m.WritesFirst := by
  cases m <;> unfold Mutator.WritesFirst <;> infer_instance

theorem BootState.foldl_writes (state : BootState) (n : Nvs) :
    state.writes.foldl Nvs.write n = n.save state := by
  simp only [BootState.writes, List.foldl_cons, List.foldl_nil, Nvs.write_u8, Nvs.write_str,
    Nvs.write_size]
  ext key
  · cases key <;> simp [Nvs.save]
  · cases key <;> simp [Nvs.save]
  · simp [Nvs.save]

/-- Some of the writes `ws` have been made since `f`, all of them if `all`. -/
def Wrote (f g : Flash) (ws : List Write) (all : Bool) : Prop :=
  ∃ done, done.Sublist ws ∧ (all = true → done = ws) ∧ g.visible = done.foldl Nvs.write f.visible

theorem Wrote.refl (f : Flash) : Wrote f f [] true :=
  ⟨[], List.Sublist.refl _, fun _ => rfl, rfl⟩

/-- One more `nvs_set_*`, whether it succeeds or not. -/
theorem Wrote.set {f g : Flash} {ws : List Write} {all : Bool} (h : Wrote f g ws all)
    (w : Write) (ok : Bool) :
    Wrote f (if ok then g.write w else g) (ws ++ [w]) (all && ok) := by
  obtain ⟨done, hsub, hall, hvis⟩ := h
  cases ok with
  | true =>
      refine ⟨done ++ [w], hsub.append (List.Sublist.refl _), ?_, ?_⟩
      · intro h
        rw [hall (by simpa using h)]
      · rw [if_pos rfl, Flash.visible_write, hvis, List.foldl_append]
        rfl
  | false =>
      refine ⟨done, hsub.trans (List.sublist_append_left _ _), ?_, hvis⟩
      rw [Bool.and_false]
      exact fun h => absurd h Bool.false_ne_true

theorem Wrote.commit {f g : Flash} {ws : List Write} {all ok : Bool} (h : Wrote f g ws all) :
    Wrote f (if ok then g.commit else g) ws all := by
  cases ok with
  | true => exact h
  | false => exact h

/-- What a mutator has done when it returns: it made its writes, all of them if
it returned `ESP_OK`; then the cache holds the new record. -/
def Mutates (m : Mutator) (st : Statics) (f : Flash) (x : Bool × Statics) (g : Flash) : Prop :=
  Wrote f g (m.writes st.current) x.1 ∧ (x.1 = true → x.2.current = m.next st.current) ∧
    (m.WritesFirst → x.1 = false → x.2 = st)

/-- A judgement about what a program returns on a device whose calls may fail. -/
abbrev Ends {α : Type} (Q : α → Flash → Prop) (p : Program BootCall BootReply α)
    (f : Flash) : Prop :=
  Safe bootMachine (fun _ _ => True) (fun _ => True) Q p f

section Failures

variable {α : Type} {Q : α → Flash → Prop} {f g : Flash} {ws : List Write} {all : Bool}

theorem Wrote.nvsSetU8 {key : U8Key} {value : UInt8}
    {next : Bool → Program BootCall BootReply α} (h : Wrote f g ws all)
    (hnext : ∀ ok t, Wrote f t (ws ++ [.u8 key value]) (all && ok) → Ends Q (next ok) t) :
    Ends Q (.call (.nvsSetU8 key value) next) g := by
  refine ⟨trivial, ?_⟩
  rintro ok _ rfl
  exact ⟨trivial, hnext ok _ (h.set _ ok)⟩

theorem Wrote.nvsSetStr {key : StrKey} {value : Str}
    {next : Bool → Program BootCall BootReply α} (h : Wrote f g ws all)
    (hnext : ∀ ok t, Wrote f t (ws ++ [.str key value]) (all && ok) → Ends Q (next ok) t) :
    Ends Q (.call (.nvsSetStr key value) next) g := by
  refine ⟨trivial, ?_⟩
  rintro ok _ rfl
  exact ⟨trivial, hnext ok _ (h.set _ ok)⟩

theorem Wrote.nvsSetSize {value : UInt32}
    {next : Bool → Program BootCall BootReply α} (h : Wrote f g ws all)
    (hnext : ∀ ok t, Wrote f t (ws ++ [.size value]) (all && ok) → Ends Q (next ok) t) :
    Ends Q (.call (.nvsSetSize value) next) g := by
  refine ⟨trivial, ?_⟩
  rintro ok _ rfl
  exact ⟨trivial, hnext ok _ (h.set _ ok)⟩

theorem Wrote.nvsCommit {next : Bool → Program BootCall BootReply α} (h : Wrote f g ws all)
    (hnext : ∀ ok t, Wrote f t ws all → Ends Q (next ok) t) :
    Ends Q (.call .nvsCommit next) g := by
  refine ⟨trivial, ?_⟩
  rintro ok _ rfl
  exact ⟨trivial, hnext ok _ h.commit⟩

theorem Wrote.of_false (h : Wrote f g ws all) : Wrote f g ws false := by
  obtain ⟨done, hsub, -, hvis⟩ := h
  exact ⟨done, hsub, fun h => absurd h Bool.false_ne_true, hvis⟩

/-- A call that makes no write at all. -/
theorem Wrote.nothing (f : Flash) (ws : List Write) : Wrote f f ws false :=
  ⟨[], List.nil_sublist _, fun h => absurd h Bool.false_ne_true, rfl⟩

end Failures

section Specs

variable {st : Statics} {f : Flash}

/-- `boot_mgr_save_state`, whichever of its calls fail. -/
theorem bootMgrSaveState_ends (state : BootState) :
    Ends (fun x g => Wrote f g state.writes x.1 ∧
      x.2 = if x.1 then { st with current := state } else st)
      ((bootMgrSaveState state).run st) f := by
  rw [bootMgrSaveState, Stateful.run_get_bind]
  by_cases hopen : st.nvsHandle = true
  · rw [if_pos hopen]
    simp only [call, Stateful.run_call_bind]
    refine (Wrote.refl f).nvsSetU8 fun r₁ _ h => ?_
    refine h.nvsSetStr fun r₂ _ h => ?_
    refine h.nvsSetU8 fun r₃ _ h => ?_
    refine h.nvsSetU8 fun r₄ _ h => ?_
    refine h.nvsSetU8 fun r₅ _ h => ?_
    refine h.nvsSetU8 fun r₆ _ h => ?_
    refine h.nvsSetStr fun r₇ _ h => ?_
    refine h.nvsSetSize fun r₈ _ h => ?_
    refine h.nvsSetU8 fun r₉ _ h => ?_
    rw [Bool.true_and] at h
    by_cases hall : (r₁ && r₂ && r₃ && r₄ && r₅ && r₆ && r₇ && r₈ && r₉) = true
    · rw [if_pos hall]
      refine h.nvsCommit fun ok t h => ?_
      cases ok with
      | true =>
          rw [hall] at h
          exact ⟨h, rfl⟩
      | false => exact ⟨h.of_false, rfl⟩
    · rw [if_neg hall]
      exact ⟨h.of_false, rfl⟩
  · rw [if_neg hopen]
    exact ⟨Wrote.nothing f _, rfl⟩

/-- One key on its own: `boot_mgr_update_progress` and `boot_mgr_set_volume`. -/
theorem setKey_ends {key : U8Key} {value : UInt8} :
    Ends (fun x g => Wrote f g [.u8 key value] x.1 ∧ x.2 = st)
      ((do if ← call (.nvsSetU8 key value) then call .nvsCommit else return false :
        BootM Bool).run st) f := by
  refine (Wrote.refl f).nvsSetU8 fun ok _ h => ?_
  cases ok with
  | true =>
      refine h.nvsCommit fun committed _ h => ?_
      cases committed with
      | true => exact ⟨h, rfl⟩
      | false => exact ⟨h.of_false, rfl⟩
  | false => exact ⟨h.of_false, rfl⟩

theorem Mutator.writes_of_saved {m : Mutator} {current state : BootState}
    (h : m.saved current = some state) : m.writes current = state.writes := by
  rw [Mutator.writes, h]

theorem Mutator.next_of_saved {m : Mutator} {current state : BootState}
    (h : m.saved current = some state) : m.next current = state := by
  rw [Mutator.next, h, Option.getD_some]

/-- A mutator that saves a record is a call of `boot_mgr_save_state`. -/
theorem Mutator.run_of_saved {m : Mutator} {st : Statics} {state : BootState}
    (hopen : st.nvsHandle = true) (h : m.saved st.current = some state) :
    ∃ st' : Statics, st'.nvsHandle = true ∧
      m.run.run st = (bootMgrSaveState state).run st' := by
  cases m with
  | saveState s =>
      cases h
      exact ⟨st, hopen, by rw [Mutator.run]⟩
  | clearState =>
      cases h
      exact ⟨st, hopen, by rw [Mutator.run, bootMgrClearState]⟩
  | requestDownload folder expectedSize =>
      obtain ⟨folder, rfl, rfl⟩ := Option.map_eq_some_iff.1 h
      exact ⟨st, hopen, by rw [Mutator.run, bootMgrRequestDownload, Stateful.run_get_bind]⟩
  | reportSuccess =>
      cases h
      refine ⟨{ st with current := st.current.succeeded }, hopen, ?_⟩
      rw [Mutator.run, bootMgrReportSuccess, Stateful.run_modify_bind, Stateful.run_get_bind]
      rfl
  | reportFailure error =>
      cases h
      refine ⟨{ st with current := st.current.failed error }, hopen, ?_⟩
      rw [Mutator.run, bootMgrReportFailure, Stateful.run_modify_bind, Stateful.run_get_bind]
      rfl
  | updateProgress percent => cases h
  | setVolume vol => cases h

/-- A mutator that hands a record to `boot_mgr_save_state`. -/
theorem mutates_of_saved {m : Mutator} {state : BootState}
    (hm : m.saved st.current = some state) {x : Bool × Statics} {g : Flash}
    (h : Wrote f g state.writes x.1 ∧ x.2 = if x.1 then { st with current := state } else st) :
    Mutates m st f x g := by
  rw [Mutates, Mutator.writes_of_saved hm, Mutator.next_of_saved hm]
  refine ⟨h.1, ?_, ?_⟩
  · intro hok
    rw [h.2, if_pos hok]
  · intro _ hfailed
    rw [h.2, hfailed]
    rfl

theorem bootMgrRequestDownload_mutates (folder : Option Str) (expectedSize : UInt32) :
    Ends (Mutates (.requestDownload folder expectedSize) st f)
      ((bootMgrRequestDownload folder expectedSize).run st) f := by
  cases folder with
  | none => exact ⟨Wrote.nothing f _, fun h => absurd h Bool.false_ne_true, fun _ _ => rfl⟩
  | some folder =>
      rw [bootMgrRequestDownload, Stateful.run_get_bind]
      exact (bootMgrSaveState_ends _).imp fun x g h => mutates_of_saved rfl h

theorem bootMgrReportSuccess_mutates :
    Ends (Mutates .reportSuccess st f) (bootMgrReportSuccess.run st) f := by
  have h := @bootMgrSaveState_ends { st with current := st.current.succeeded } f
    st.current.succeeded
  refine Safe.imp h fun x g h => ⟨h.1, fun hok => ?_, False.elim⟩
  rw [h.2, if_pos hok]
  rfl

theorem bootMgrReportFailure_mutates (error : UInt32) :
    Ends (Mutates (.reportFailure error) st f) ((bootMgrReportFailure error).run st) f := by
  have h := @bootMgrSaveState_ends { st with current := st.current.failed error } f
    (st.current.failed error)
  refine Safe.imp h fun x g h => ⟨h.1, fun hok => ?_, False.elim⟩
  rw [h.2, if_pos hok]
  rfl

theorem bootMgrUpdateProgress_mutates (percent : UInt8) :
    Ends (Mutates (.updateProgress percent) st f) ((bootMgrUpdateProgress percent).run st) f := by
  rw [bootMgrUpdateProgress, Stateful.run_get_bind]
  by_cases hopen : st.nvsHandle = true
  · rw [if_pos hopen, Stateful.run_modify_bind]
    refine setKey_ends.imp fun x g h => ⟨h.1, fun _ => ?_, False.elim⟩
    rw [h.2]
    rfl
  · rw [if_neg hopen]
    exact ⟨Wrote.nothing f _, fun h => absurd h Bool.false_ne_true, fun _ _ => rfl⟩

theorem bootMgrSetVolume_mutates (vol : UInt8) :
    Ends (Mutates (.setVolume vol) st f) ((bootMgrSetVolume vol).run st) f := by
  rw [bootMgrSetVolume, Stateful.run_get_bind]
  by_cases hopen : st.nvsHandle = true
  · rw [if_pos hopen, Stateful.run_modify_bind]
    refine setKey_ends.imp fun x g h => ⟨h.1, fun _ => ?_, False.elim⟩
    rw [h.2]
    rfl
  · rw [if_neg hopen]
    exact ⟨Wrote.nothing f _, fun h => absurd h Bool.false_ne_true, fun _ _ => rfl⟩

/-- What a mutator leaves behind, whichever of its calls fail. -/
theorem mutator_mutates (m : Mutator) : Ends (Mutates m st f) (m.run.run st) f := by
  cases m with
  | saveState state => exact (bootMgrSaveState_ends state).imp fun x g h => mutates_of_saved rfl h
  | clearState => exact (bootMgrSaveState_ends .clean).imp fun x g h => mutates_of_saved rfl h
  | requestDownload folder expectedSize => exact bootMgrRequestDownload_mutates folder expectedSize
  | updateProgress percent => exact bootMgrUpdateProgress_mutates percent
  | reportSuccess => exact bootMgrReportSuccess_mutates
  | reportFailure error => exact bootMgrReportFailure_mutates error
  | setVolume vol => exact bootMgrSetVolume_mutates vol

end Specs

/-- What the types of a `boot_state_t` allow: the enumerations have values below
256 and the strings fit their arrays. -/
structure BootState.Storable (state : BootState) : Prop where
  reason : state.reason.toNat < 256
  lastError : state.lastError.toNat < 256
  folder : state.folder.length < StrKey.folder.size
  lastSsid : state.lastSsid.length < StrKey.ssid.size

/-- The arguments of the call are ones its C types allow. -/
def Mutator.Storable : Mutator → Prop
  | .saveState state => state.Storable
  | .reportFailure error => error.toNat < 256
  | _ => True

theorem fitting_length (size : ℕ) (s : Option Str) (h : 0 < size) :
    (fitting size s).length < size := by
  unfold fitting
  split
  · split
    · assumption
    · exact h
  · exact h

theorem fitting_some {size : ℕ} {s : Str} (h : s.length < size) : fitting size (some s) = s :=
  if_pos h

theorem toNat_getD_lt (v : Option UInt8) : ((v.map UInt8.toUInt32).getD 0).toNat < 256 := by
  cases v with
  | none => decide
  | some v => simpa using v.toNat_lt

/-- A record that was loaded can be stored. -/
theorem Nvs.load_storable (n : Nvs) : n.load.Storable where
  reason := toNat_getD_lt _
  lastError := toNat_getD_lt _
  folder := fitting_length _ _ (by decide)
  lastSsid := fitting_length _ _ (by decide)

theorem toUInt8_toUInt32 {v : UInt32} (h : v.toNat < 256) : v.toUInt8.toUInt32 = v := by
  apply UInt32.toNat_inj.1
  rw [UInt8.toNat_toUInt32, UInt32.toNat_toUInt8]
  exact Nat.mod_eq_of_lt h

/-- What was saved is loaded again. -/
theorem Nvs.load_save (n : Nvs) {state : BootState} (h : state.Storable) :
    (n.save state).load = state := by
  have hreason := toUInt8_toUInt32 h.reason
  have herror := toUInt8_toUInt32 h.lastError
  simp only [Nvs.load, Nvs.save, Option.map_some, Option.getD_some, hreason, herror,
    fitting_some h.folder, fitting_some h.lastSsid]

theorem BootState.storable_zero : BootState.Storable .zero :=
  ⟨by decide, by decide, by decide, by decide⟩

/-- The record a mutator saves can be stored when the cached one can. -/
theorem Mutator.saved_storable {m : Mutator} {current state : BootState} (hm : m.Storable)
    (h : current.Storable) (hsaved : m.saved current = some state) : state.Storable := by
  cases m with
  | saveState s =>
      cases hsaved
      exact hm
  | clearState =>
      cases hsaved
      exact ⟨by decide, by decide, by decide, by decide⟩
  | requestDownload folder expectedSize =>
      obtain ⟨f, rfl, rfl⟩ := Option.map_eq_some_iff.1 hsaved
      have hreason : reasonDownloadRequest.toNat < 256 := by decide
      have herror : errorNone.toNat < 256 := by decide
      refine ⟨hreason, herror, ?_, h.lastSsid⟩
      have hlen : (f.take 63).length ≤ 63 := List.length_take_le 63 f
      exact Nat.lt_succ_of_le hlen
  | reportSuccess =>
      cases hsaved
      have hreason : reasonDownloadSuccess.toNat < 256 := by decide
      have herror : errorNone.toNat < 256 := by decide
      exact ⟨hreason, herror, h.folder, h.lastSsid⟩
  | reportFailure error =>
      cases hsaved
      have hreason : reasonDownloadFailed.toNat < 256 := by decide
      exact ⟨hreason, hm, h.folder, h.lastSsid⟩
  | updateProgress | setVolume => cases hsaved

/-- So the cached record can always be stored. -/
theorem Mutator.next_storable {m : Mutator} {current : BootState} (hm : m.Storable)
    (h : current.Storable) : (m.next current).Storable := by
  cases hsaved : m.saved current with
  | some state =>
      rw [next_of_saved hsaved]
      exact saved_storable hm h hsaved
  | none =>
      cases m with
      | requestDownload folder expectedSize =>
          rw [Mutator.next, hsaved]
          exact h
      | updateProgress percent => exact ⟨h.reason, h.lastError, h.folder, h.lastSsid⟩
      | setVolume vol => exact ⟨h.reason, h.lastError, h.folder, h.lastSsid⟩
      | _ => cases hsaved

theorem Nvs.load_progress (n : Nvs) (percent : UInt8) :
    (n.write (.u8 .progress percent)).load = { n.load with downloadProgress := percent } := by
  simp [Nvs.load]

theorem Nvs.load_volume (n : Nvs) (vol : UInt8) :
    (n.write (.u8 .volume vol)).load = { n.load with volume := vol } := by
  simp [Nvs.load]

/-- All writes of a mutator together store its record. -/
theorem Mutator.load_writes {m : Mutator} {current : BootState} {n : Nvs} (hm : m.Storable)
    (h : current.Storable) (hagree : m.saved current = none → current = n.load) :
    ((m.writes current).foldl Nvs.write n).load = m.next current := by
  cases hsaved : m.saved current with
  | some state =>
      rw [writes_of_saved hsaved, next_of_saved hsaved, BootState.foldl_writes]
      exact Nvs.load_save n (saved_storable hm h hsaved)
  | none =>
      rw [hagree hsaved]
      rw [hagree hsaved] at hsaved
      cases m with
      | requestDownload folder expectedSize =>
          rw [Mutator.writes, Mutator.next, hsaved, Option.getD_none]
          rfl
      | updateProgress percent => exact Nvs.load_progress n percent
      | setVolume vol => exact Nvs.load_volume n vol
      | _ => cases hsaved

/-- Whichever NVS calls fail: a mutator that returns an error has made some of
its writes, in their order, and nothing else; `boot_mgr_save_state`,
`boot_mgr_clear_state` and `boot_mgr_request_download` have then left the cached
record alone. After `ESP_OK` the cached record is what would be loaded; the two
mutators of a single key and a request without a folder need that it was before. -/
theorem mutator_ends {m : Mutator} {st : Statics} {f g : Flash} {x : Bool × Statics}
    {tr : List (Event BootCall BootReply Flash)} (hm : m.Storable)
    (hcache : st.current.Storable) (hrun : Steps bootMachine (m.run.run st) f tr (.pure x) g) :
    (x.1 = false →
      (∃ done : List Write, done.Sublist (m.writes st.current) ∧
        g.visible = done.foldl Nvs.write f.visible) ∧ (m.WritesFirst → x.2 = st)) ∧
    (x.1 = true → (m.saved st.current = none → st.current = f.visible.load) →
      x.2.current = g.visible.load) := by
  obtain ⟨⟨done, hsub, hall, hvis⟩, hnext, hkept⟩ := (mutator_mutates m).result trivial hrun
  constructor
  · intro hfailed
    exact ⟨⟨done, hsub, hvis⟩, fun hfirst => hkept hfirst hfailed⟩
  · intro hok hagree
    rw [hnext hok, hvis, hall hok, Mutator.load_writes hm hcache hagree]

/-- A device on which no folder can be stored. -/
def folderFails : (o : BootCall) → Flash → Option (BootReply o × Flash)
  | .nvsSetStr .folder _, f => some (false, f)
  | o, f => healthy o f

theorem folderFails_machine (o : BootCall) (f : Flash) (r : BootReply o) (g : Flash)
    (h : folderFails o f = some (r, g)) : bootMachine o f r g := by
  cases o with
  | nvsSetStr key value =>
      cases key with
      | folder =>
          cases h
          rfl
      | ssid => exact (healthy_works _ f r g h).1
  | _ => exact (healthy_works _ f r g h).1

/-- The boot manager is open and has loaded `n`. -/
def Statics.loaded (n : Nvs) : Statics := ⟨true, n.load, n.load⟩

theorem mutator_ends_clearState :
    ∃ tr x g, Steps bootMachine (Mutator.clearState.run.run
      (.loaded (requested ['m', 'o', 'z', 'a', 'r', 't'] 0)))
      ⟨requested ['m', 'o', 'z', 'a', 'r', 't'] 0, []⟩ tr (.pure x) g ∧
      x.1 = true ∧ x.2.current = g.visible.load := by
  have hrun := steps_play (fun o f r g h => (healthy_works o f r g h).1)
    (Mutator.clearState.run.run (.loaded (requested ['m', 'o', 'z', 'a', 'r', 't'] 0)))
    ⟨requested ['m', 'o', 'z', 'a', 'r', 't'] 0, []⟩
  refine ⟨_, (true, _), _, hrun, rfl, ?_⟩
  exact (mutator_ends (m := .clearState) trivial (Nvs.load_storable _) hrun).2 rfl
    (fun h => by cases h)

/-- `boot_mgr_clear_state` fails at its second write, and the first one stays. -/
theorem mutator_not_atomic :
    ∃ tr x g, Steps bootMachine (Mutator.clearState.run.run
      (.loaded (requested ['m', 'o', 'z', 'a', 'r', 't'] 0)))
      ⟨requested ['m', 'o', 'z', 'a', 'r', 't'] 0, []⟩ tr (.pure x) g ∧
      x.1 = false ∧ g.visible.u8 .reason ≠
        (requested ['m', 'o', 'z', 'a', 'r', 't'] 0).u8 .reason := by
  have hrun := steps_play folderFails_machine
    (Mutator.clearState.run.run (.loaded (requested ['m', 'o', 'z', 'a', 'r', 't'] 0)))
    ⟨requested ['m', 'o', 'z', 'a', 'r', 't'] 0, []⟩
  refine ⟨_, (false, _), _, hrun, rfl, ?_⟩
  decide

end Boot

end SimiboxDownloader
