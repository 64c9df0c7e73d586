import SimiboxDownloader.Download.Discipline

/-!
# The file loop in a run

A run of `download_simi_folder` makes its calls in three parts: what comes before
the file loop, the loop (a run of `downloadFiles`) and what comes after it
(`downloadSimiFolder_loop`). Only the loop transfers anything or changes the clock.
What holds of every run of `downloadFiles` thus holds of every run of the whole
function.
-/

namespace SimiboxDownloader

namespace Download

open Interaction

variable {α β : Type} {w t : World} {st : Statics}

/-- A call outside the file loop. -/
def Outside : Call → Prop
  | .transfer _ _ _ _ _ => False
  | .dev (.httpOpen _) => False
  | .dev (.setCardClk _) => False
  | .dev (.ledShowDownloadProgress percent) => percent = 0 ∨ percent = 100
  | _ => True

theorem deletesIn_outside : DeletesIn Outside fun _ => True where
  sub := fun _ _ _ _ => trivial
  stat := fun _ _ => trivial
  opendir := fun _ _ => trivial
  unlink := fun _ _ => trivial
  rmdir := fun _ _ => trivial
  diverge := trivial

theorem outside_of_releasing {o : Call} (h : Releasing o) : Outside o := by
  unfold Releasing at h
  split at h
  · trivial
  · trivial
  · trivial
  · trivial
  · exact h.elim

/-- The calls a program makes are those of its runs. -/
theorem Calls.events {A : Call → Prop} {p : Action α}
    {q : Program Call Call.Reply (α × Statics)} {tr : List Event} (h : Calls A p)
    (hrun : Steps machine (p.run st) w tr q t) : ∀ e ∈ tr, A e.op :=
  (h st).steps hrun fun e he => lists_of_machine (hrun.events e he)

/-- A part without calls for the connections leaves the statics alone. -/
theorem Accounts.statics {p : Action α} {x : α × Statics} {tr : List Event}
    (h : Accounts (Unchanged st Ledger.empty) p st Ledger.empty)
    (hrun : Steps machine (p.run st) w tr (.pure x) t) : x.2 = st :=
  (Safe.tracks (N := bookkeeping) (fun _ _ _ _ _ _ => rfl) h hrun).2.1

/-- The list in a response. -/
def listResponse (J : CJson) : Event → Option (List Json)
  | ⟨_, .dev (.httpPerform _), r, _⟩ => listedItems J r
  | _ => none

/-- The list is the one of the response. -/
theorem fetchList_listed {J : CJson} {folder lambdaUrl : Str} {x : Option (List Json) × Statics}
    {tr : List Event}
    (hrun : Steps machine ((fetchList J folder lambdaUrl).run st) w tr (.pure x) t) :
    x.1.toList = tr.filterMap (listResponse J) ∧ x.2 = st := by
  refine ⟨?_, (fetchList_unchanged J folder lambdaUrl).statics hrun⟩
  refine Leads.result (Q := fun x _ l => x.1.toList = l.filterMap (listResponse J)) ?_ hrun
  simp only [fetchList, dev, Stateful.run_call_bind]
  refine leads_call fun client? t₁ _ => ?_
  cases client? with
  | none => rfl
  | some client =>
      refine leads_call fun response t₂ _ => leads_call fun _ t₃ _ => ?_
      change (listedItems J response).toList = _
      cases hitems : listedItems J response with
      | none =>
          have hnone : listResponse J ⟨t₁, .dev (.httpPerform client), response, t₂⟩ = none :=
            hitems
          rw [List.nil_append, List.filterMap_append, List.filterMap_append,
            List.filterMap_cons_none hnone]
          rfl
      | some items =>
          have hsome : listResponse J ⟨t₁, .dev (.httpPerform client), response, t₂⟩ = some items :=
            hitems
          rw [List.nil_append, List.filterMap_append, List.filterMap_append,
            List.filterMap_cons_some hsome]
          rfl

section After

variable {J : CJson} {depth : ℕ} {folder : Str}

theorem verifyAndSwap_outside (contents : List Bytes) :
    Calls Outside (verifyAndSwap J depth folder contents) := by
  have hdel (dir : Str) : Calls Outside (deleteTree depth dir) :=
    deleteTree_calls deletesIn_outside depth trivial
  refine Calls.bind ?_ fun v => ?_
  · exact verifyDownloadIntegrity_calls (fun _ _ => trivial) J trivial
  split
  · refine (deleteExisting_calls deletesIn_outside depth trivial).bind fun _ => ?_
    refine Calls.bind (calls_fs trivial) fun renamed => ?_
    split
    · exact (writeMarker_calls (fun _ _ => trivial) trivial).bind fun _ => calls_pure
    · exact (hdel _).bind fun _ => calls_pure
  · exact (hdel _).bind fun _ => calls_pure

theorem releaseAll_outside : Calls Outside releaseAll :=
  Interaction.Stateful.Uses.mono (Interaction.Stateful.Frames.uses releaseAll_frames)
    (fun _ => outside_of_releasing) fun _ _ hr => hr

end After

/-- The gauges after a finished run. -/
theorem Frames.gauges {A : Call → Prop} {p : Action α} {x : α × Statics} {tr : List Event}
    (h : Frames A p) (hrun : Steps machine (p.run st) w tr (.pure x) t) : x.2.gauges = st.gauges :=
  (Safe.tracks (N := anyReply) (f := fun _ _ _ => ()) (fun _ _ _ _ _ _ => trivial) (h st) hrun).2

/-- `loop` are the calls of the file loop in a run of `tr` that has left `q`: before
the loop the statics showed `gauges`, and after it they still show what they did at
its end. -/
structure FileLoop (folder : Str) (files : List FileItem) (gauges : ℤ × ℤ × ℤ × Bool)
    (tr : List Event) (q : Program Call Call.Reply (FolderEnd × Statics))
    (pre loop post : List Event) : Prop where
  split : tr = pre ++ loop ++ post
  outside : ∀ e ∈ pre ++ post, Outside e.op
  run : ∃ st w q' t, st.gauges = gauges ∧
    Steps machine ((downloadFiles (tmpDir folder) files).run st) w loop q' t ∧
    ∀ x, q = .pure x → ∃ r, q' = .pure r ∧ x.2.gauges = r.2.gauges

section Whole

variable {J : CJson} {depth : ℕ} {folder lambdaUrl : Str} {files : List FileItem}
  {q : Program Call Call.Reply (FolderEnd × Statics)} {tr : List Event}

/-- The part after the loop. -/
def afterLoop (J : CJson) (depth : ℕ) (folder : Str) (result : Except FileEnd (List Bytes)) :
    Action FolderEnd := do
  releaseAll
  match result with
  | .ok contents => do
      dev (.ledShowDownloadProgress 100)
      verifyAndSwap J depth folder contents
  | .error e =>
      if e.result = .sdFailed then return .filesFailed e
      else do
        deleteTree depth (tmpDir folder)
        return .filesFailed e

theorem afterLoop_outside (result : Except FileEnd (List Bytes)) :
    Calls Outside (afterLoop J depth folder result) := by
  refine releaseAll_outside.bind fun _ => ?_
  split
  · refine Calls.bind (Interaction.Stateful.uses_call (Or.inr rfl)) fun _ => ?_
    exact verifyAndSwap_outside _
  · split
    · exact calls_pure
    · exact (deleteTree_calls deletesIn_outside depth trivial).bind fun _ => calls_pure

theorem afterLoop_gauges {result : Except FileEnd (List Bytes)} {x : FolderEnd × Statics}
    (hrun : Steps machine ((afterLoop J depth folder result).run st) w tr (.pure x) t) :
    x.2.gauges = st.gauges := by
  unfold afterLoop at hrun
  rw [Stateful.run_bind] at hrun
  obtain ⟨⟨_, st'⟩, w', tr₁, tr₂, -, hrelease, hrest⟩ := hrun.of_bind_pure
  refine Eq.trans ?_ (releaseAll_frames.gauges hrelease)
  cases result with
  | ok contents =>
      obtain ⟨_, w'', tr₃, -, -, hswap⟩ := hrest.of_call_pure
      rw [(verifyAndSwap_unchanged J depth folder contents).statics hswap]
  | error e =>
      dsimp only at hrest
      split at hrest
      · cases hrest
        rfl
      · rw [Stateful.run_bind] at hrest
        obtain ⟨⟨_, st''⟩, w'', tr₃, tr₄, -, hdel, hend⟩ := hrest.of_bind_pure
        obtain rfl := (deleteTree_unchanged depth (tmpDir folder)).statics hdel
        cases hend
        rfl

/-- Before the files, one of the files, or after them. -/
theorem installFiles_loop
    (hrun : Steps machine ((installFiles J depth folder files).run st) w tr q t) :
    ((∀ e ∈ tr, Outside e.op) ∧ ∀ x, q = .pure x → x.2.gauges = st.gauges) ∨
      ∃ pre loop post, FileLoop folder files st.gauges tr q pre loop post := by
  rw [installFiles, Stateful.run_bind] at hrun
  have hdel : Calls Outside (deleteExisting depth (tmpDir folder)) :=
    deleteExisting_calls deletesIn_outside depth trivial
  obtain ⟨o, next, rfl, hcut⟩ | ⟨⟨_, st'⟩, w₁, tr₁, tr₂, rfl, hfirst, hrest⟩ := hrun.of_bind
  · exact Or.inl ⟨hdel.events hcut, fun _ hx => absurd hx Program.call_bind_ne_pure⟩
  have hbefore := hdel.events hfirst
  obtain rfl := (deleteExisting_unchanged depth (tmpDir folder)).statics hfirst
  cases hrest with
  | refl =>
      refine Or.inl ⟨by simpa using hbefore, fun _ hx => absurd hx ?_⟩
      exact Program.call_ne_pure
  | @call _ _ _ w₂ _ made tr₃ _ hm hrest =>
      have hmkdir : ∀ e ∈ tr₁ ++ [⟨w₁, .fs (.mkdir (tmpDir folder)), made, w₂⟩], Outside e.op := by
        intro e he
        rcases List.mem_append.1 he with he | he
        · exact hbefore e he
        · rw [List.mem_singleton.1 he]
          trivial
      rw [List.append_cons]
      cases made with
      | false =>
          cases hrest
          refine Or.inl ⟨by simpa using hmkdir, ?_⟩
          rintro _ ⟨⟩
          rfl
      | true =>
          right
          change Steps machine ((downloadFiles (tmpDir folder) files >>=
            afterLoop J depth folder).run st') w₂ tr₃ q t at hrest
          rw [Stateful.run_bind] at hrest
          obtain ⟨o, next, rfl, hcut⟩ | ⟨⟨result, st₁⟩, w₃, loop, post, rfl, hloop, hafter⟩ :=
            hrest.of_bind
          · refine ⟨_, tr₃, [], (List.append_nil _).symm, ?_, st', w₂, _, t, rfl, hcut, ?_⟩
            · rwa [List.append_nil]
            · exact fun _ hx => absurd hx Program.call_bind_ne_pure
          · refine ⟨_, loop, post, (List.append_assoc _ _ _).symm, ?_, st', w₂,
              _, w₃, rfl, hloop, ?_⟩
            · intro e he
              rcases List.mem_append.1 he with he | he
              · exact hmkdir e he
              · exact (afterLoop_outside result).events hafter e he
            · rintro x rfl
              exact ⟨(result, st₁), rfl, afterLoop_gauges hafter⟩

/-- The expected size, as the loop knows it. -/
def expectedOf (items : List Json) : ℤ := estimateBytes (fileList items) (expectedBytes items)

/-- With calls before it a loop is still the loop. -/
theorem FileLoop.append {gauges : ℤ × ℤ × ℤ × Bool} {tr₀ pre loop post : List Event}
    (h : FileLoop folder files gauges tr q pre loop post) (h₀ : ∀ e ∈ tr₀, Outside e.op) :
    FileLoop folder files gauges (tr₀ ++ tr) q (tr₀ ++ pre) loop post := by
  refine ⟨?_, ?_, h.run⟩
  · rw [h.split, List.append_assoc, List.append_assoc, List.append_assoc]
  · intro e he
    rw [List.append_assoc] at he
    rcases List.mem_append.1 he with he | he
    · exact h₀ e he
    · exact h.outside e he

theorem fetchList_outside : Calls Outside (fetchList J folder lambdaUrl) := by
  refine Calls.bind (Interaction.Stateful.uses_call trivial) fun client? => ?_
  split
  · exact calls_pure
  · refine Calls.bind (Interaction.Stateful.uses_call trivial) fun response => ?_
    exact Calls.bind (Interaction.Stateful.uses_call trivial) fun _ => calls_pure

/-- A run of `download_simi_folder` does not get to its file loop, or it has the loop
for the list in the response. -/
theorem downloadSimiFolder_loop
    (hrun : Steps machine ((downloadSimiFolder J depth folder lambdaUrl).run st) w tr q t) :
    ((∀ e ∈ tr, Outside e.op) ∧ ∀ x, q = .pure x → x.2.sdFreqKhz = st.sdFreqKhz) ∨
      ∃ items pre loop post, items ∈ pre.filterMap (listResponse J) ∧
        FileLoop folder (fileList items) (0, expectedOf items, st.sdFreqKhz, st.cardHasClk)
          tr q pre loop post := by
  cases hrun with
  | refl =>
      refine Or.inl ⟨by simp, fun _ hx => absurd hx ?_⟩
      exact Program.call_ne_pure
  | @call _ _ _ w₁ _ r tr₁ _ hm hrest =>
      have hled : Outside (.dev (.ledShowDownloadProgress 0)) := Or.inl rfl
      change Steps machine ((fetchList J folder lambdaUrl >>= _).run
          { st with totalExpectedBytes := 0, totalDownloadedBytes := 0 }) w₁ tr₁ q t at hrest
      rw [Stateful.run_bind] at hrest
      obtain ⟨o, next, rfl, hcut⟩ | ⟨⟨items?, st₁⟩, w₂, tr₂, tr₃, rfl, hfetch, hinstall⟩ :=
        hrest.of_bind
      · refine Or.inl ⟨?_, fun _ hx => absurd hx Program.call_bind_ne_pure⟩
        exact List.forall_mem_cons.2 ⟨hled, fetchList_outside.events hcut⟩
      · have hbefore : ∀ e ∈ (⟨w, .dev (.ledShowDownloadProgress 0), r, w₁⟩ :: tr₂ : List Event),
            Outside e.op := List.forall_mem_cons.2 ⟨hled, fetchList_outside.events hfetch⟩
        obtain ⟨hlist, rfl⟩ := fetchList_listed hfetch
        rw [← List.cons_append]
        cases items? with
        | none =>
            cases hinstall
            refine Or.inl ⟨by simpa using hbefore, ?_⟩
            rintro _ ⟨⟩
            rfl
        | some items =>
            have hitems : items ∈ (⟨w, .dev (.ledShowDownloadProgress 0), r, w₁⟩ :: tr₂ :
                List Event).filterMap (listResponse J) := by
              rw [List.filterMap_cons_none rfl, ← hlist]
              exact List.mem_singleton_self items
            change Steps machine ((installList J depth folder items).run _) w₂ tr₃ q t at hinstall
            unfold installList at hinstall
            rw [Stateful.run_modify_bind] at hinstall
            split at hinstall
            · rw [Stateful.run_modify_bind] at hinstall
              obtain ⟨hquiet, hend⟩ | ⟨pre, loop, post, hloop⟩ := installFiles_loop hinstall
              · refine Or.inl ⟨?_, fun x hx => ?_⟩
                · exact List.forall_mem_append.2 ⟨hbefore, hquiet⟩
                · exact congrArg (fun g => g.2.2.1) (hend x hx)
              · refine Or.inr ⟨items, _, loop, post, ?_, hloop.append hbefore⟩
                rw [List.filterMap_append]
                exact List.mem_append_left _ hitems
            · cases hinstall
              refine Or.inl ⟨by simpa using hbefore, ?_⟩
              rintro _ ⟨⟩
              rfl

end Whole

end Download

end SimiboxDownloader
