import SimiboxDownloader.Card.Writing
import SimiboxDownloader.Download.Environment
import SimiboxDownloader.Download.Usage

/-!
# What a file has received

The bytes of a body go through the two tasks, the buffer of the `FILE` and a
`rename`. `FileSpec` says what the calls of a run of `download_file_standalone`
tell about its end: which transfer it made, whether the bytes received are the
content of the file, and what the server announced.

The replies of `fflush`, `fsync` and `fclose` are not looked at. So the file has
the bytes received when none of the three has failed
(`downloadFileStandalone_reports`). A body of unknown length is taken as it came
(`downloadFileStandalone_truncated`).
-/

namespace SimiboxDownloader

namespace Download

open Interaction DirTree

variable {α β : Type} {w t : World} {l l' : List Event}

section Quiet

/-- Only devices are called. -/
def OnlyDev (o : Call) : Prop := ∃ c, o = .dev c

/-- Only devices were called since. -/
structure Quiet (w : World) (l : List Event) (t : World) (l' : List Event) : Prop where
  card : t.card = w.card
  streams : t.streams = w.streams
  log : ∃ d, l' = l ++ d ∧ ∀ e ∈ d, OnlyDev e.op

theorem Quiet.refl (w : World) (l : List Event) : Quiet w l w l :=
  ⟨rfl, rfl, [], by simp, by simp⟩

theorem Quiet.dev {u : World} (h : Quiet w l t l') {c : DevCall} {r : c.Reply}
    (hm : machine (.dev c) t r u) : Quiet w l u (l' ++ [⟨t, .dev c, r, u⟩]) := by
  obtain ⟨hcard, hstreams⟩ := DevStep.card hm
  obtain ⟨hcard', hstreams', d, rfl, hd⟩ := h
  refine ⟨hcard.trans hcard', hstreams.trans hstreams', d ++ [⟨t, .dev c, r, u⟩], ?_, ?_⟩
  · rw [List.append_assoc]
  · intro e he
    rcases List.mem_append.1 he with he | he
    · exact hd e he
    · rw [List.mem_singleton.1 he]
      exact ⟨c, rfl⟩

/-- Marks of calls that are not calls of a device stay as they are. -/
theorem Quiet.any {f : Event → Bool} (h : Quiet w l t l')
    (hf : ∀ w c r t, f ⟨w, .dev c, r, t⟩ = false) : l'.any f = l.any f := by
  obtain ⟨-, -, d, rfl, hd⟩ := h
  have hnone : d.any f = false := by
    rw [List.any_eq_false]
    rintro ⟨s, o, r, t⟩ he
    obtain ⟨c, rfl⟩ : OnlyDev o := hd _ he
    rw [hf s c r t]
    exact Bool.false_ne_true
  rw [List.any_append, hnone, Bool.or_false]

theorem Quiet.mem_filterMap {f : Event → Option β} {b : β} (h : Quiet w l t l')
    (hb : b ∈ l.filterMap f) : b ∈ l'.filterMap f := by
  obtain ⟨-, -, d, rfl, -⟩ := h
  rw [List.filterMap_append]
  exact List.mem_append_left _ hb

theorem quiet_of_calls {p : Action α} (h : Calls OnlyDev p) (st : Statics) (w : World)
    (l : List Event) : Leads machine (fun _ t l' => Quiet w l t l') (p.run st) w l := by
  have hsafe := (h st).safe (M := machine.logged) (C := fun _ _ => True)
    (J := fun s => Quiet w l s.1 s.2) (s := (w, l)) ?_ (fun _ _ _ _ => trivial) (Quiet.refl w l)
  · exact hsafe.mono (fun _ _ _ _ hm => hm) (fun _ _ hc => hc) (fun _ _ => trivial)
      (fun _ _ hq => hq)
  · rintro o ⟨s, k⟩ r ⟨t, k'⟩ ⟨c, rfl⟩ hs ⟨hm, hk⟩
    obtain rfl : k' = k ++ [⟨s, .dev c, r, t⟩] := hk
    exact ⟨lists_of_machine hm, hs.dev hm⟩

theorem onlyDev_dev (c : DevCall) : OnlyDev (.dev c) := ⟨c, rfl⟩

end Quiet

section Marks

/-- A transfer in which every `fwrite` took all it was given. -/
def writtenTransfer : Event → Bool
  | ⟨_, .transfer _ _ _ _ _, r, _⟩ => !r.sdError
  | _ => false

/-- A transfer in which an `fwrite` failed. -/
def sdTransfer : Event → Bool
  | ⟨_, .transfer _ _ _ _ _, r, _⟩ => r.sdError
  | _ => false

/-- The bytes a transfer has received. -/
def transferred : Event → Option Bytes
  | ⟨_, .transfer _ _ _ _ _, r, _⟩ => some r.received
  | _ => none

/-- A failed call that was to write what is left in the buffer. -/
def tailFails : Event → Bool
  | ⟨_, .fs (.fflush _), r, _⟩ => !r
  | ⟨_, .fs (.fsync _), r, _⟩ => !r
  | ⟨_, .fs (.fclose _), r, _⟩ => !r
  | _ => false

/-- A failed `rename` of the `.part` file. -/
def renameFails (outPath : Str) : Event → Bool
  | ⟨_, .fs (.rename src dst), r, _⟩ => decide (src = part outPath ∧ dst = outPath) && !r
  | _ => false

/-- The content length of a response with status 200. -/
def Announced (l : List Event) (clen : ℤ) : Prop :=
  ∃ a b w₁ w₂ w₃ w₄ client, l = a ++ ⟨w₁, .dev (.httpFetchHeaders client), clen, w₂⟩ ::
    ⟨w₃, .dev (.httpGetStatusCode client), (200 : ℤ), w₄⟩ :: b

/-- What `esp_http_client_fetch_headers` has returned. -/
def headersReply : Event → Option ℤ
  | ⟨_, .dev (.httpFetchHeaders _), clen, _⟩ => some clen
  | _ => none

theorem Announced.headersReply {clen : ℤ} (h : Announced l clen) :
    clen ∈ l.filterMap headersReply := by
  obtain ⟨a, b, w₁, w₂, w₃, w₄, client, rfl⟩ := h
  simp [Download.headersReply]

theorem Announced.append {clen : ℤ} (h : Announced l clen) (d : List Event) :
    Announced (l ++ d) clen := by
  obtain ⟨a, b, w₁, w₂, w₃, w₄, client, rfl⟩ := h
  exact ⟨a, b ++ d, w₁, w₂, w₃, w₄, client, by simp⟩

theorem Quiet.announced {clen : ℤ} (h : Quiet w l t l') (ha : Announced l clen) :
    Announced l' clen := by
  obtain ⟨-, -, d, rfl, -⟩ := h
  exact ha.append d

/-- How a run of `download_file_standalone` ended, in the calls it made. -/
structure FileSpec (base : Tree Name Bytes) (outPath : Str) (e : FileEnd) (t : World)
    (l : List Event) : Prop where
  written : l.any writtenTransfer = true ↔
    e = .netError ∨ e = .incomplete ∨ e = .renameFailed ∨ ∃ received, e = .ok received
  sdError : l.any sdTransfer = true ↔ e = .sdError
  renameFailed : l.any (renameFails outPath) = true ↔ e = .renameFailed
  placed : ∀ received, e = .ok received → ∃ p q, resolve (part outPath) = some p ∧
    resolve outPath = some q ∧ Placed base p q (l.any tailFails = false) received t
  complete : ∀ received, e = .ok received → received ∈ l.filterMap transferred ∧
    ∃ clen, Announced l clen ∧ (0 < clen → PingPong.toInt32 received.length = clen) ∧
      PingPong.toInt32 received.length ≠ 0

/-- Nothing has been transferred or written yet. -/
structure Unmarked (outPath : Str) (l : List Event) : Prop where
  written : l.any writtenTransfer = false
  sdError : l.any sdTransfer = false
  renameFailed : l.any (renameFails outPath) = false

variable {base : Tree Name Bytes} {outPath : Str}

theorem Unmarked.quiet (h : Unmarked outPath l) (hq : Quiet w l t l') : Unmarked outPath l' := by
  refine ⟨?_, ?_, ?_⟩
  · rw [hq.any fun _ _ _ _ => rfl, h.written]
  · rw [hq.any fun _ _ _ _ => rfl, h.sdError]
  · rw [hq.any fun _ _ _ _ => rfl, h.renameFailed]

/-- A call that makes none of these marks. -/
theorem Unmarked.step (h : Unmarked outPath l) {e : Event} (hwritten : writtenTransfer e = false)
    (hsd : sdTransfer e = false) (hrename : renameFails outPath e = false) :
    Unmarked outPath (l ++ [e]) := by
  obtain ⟨hw, hs, hr⟩ := h
  constructor <;> simp [*]

/-- Before the transfer no end says that anything was received. -/
theorem Unmarked.spec {e : FileEnd} (h : Unmarked outPath l)
    (he : e = .noResponse ∨ e = .noBuffers ∨ e = .openFailed ∨ e = .noTask) :
    FileSpec base outPath e t l := by
  refine ⟨?_, ?_, ?_, ?_, ?_⟩
  · rw [h.written]
    rcases he with rfl | rfl | rfl | rfl <;> simp
  · rw [h.sdError]
    rcases he with rfl | rfl | rfl | rfl <;> simp
  · rw [h.renameFailed]
    rcases he with rfl | rfl | rfl | rfl <;> simp
  · rintro received rfl
    simp at he
  · rintro received rfl
    simp at he

end Marks

section Stages

variable {base : Tree Name Bytes} {outPath : Str} {p : List Name} {file : ℕ} {st : Statics}

theorem Writing.quiet {sound : Prop} {content : Bytes}
    (h : Writing base file p sound content w) (hq : Quiet w l t l') :
    Writing base file p sound content t :=
  h.of_eq hq.card hq.streams

/-- The connection on which the response has status 200. -/
theorem httpAttempt_leads (url : Str) (left : ℕ) :
    Leads machine (fun x t l' => Quiet w l t l' ∧ ∀ client clen, x.1 = some (client, clen) →
      Announced l' clen) ((httpAttempt url left).run st) w l := by
  have hquiet := quiet_of_calls ((httpAttempt_frames url left).calls onlyDev_dev) st w l
  have hann : Leads machine
      (fun x _ l' => ∀ client clen, x.1 = some (client, clen) → Announced l' clen)
      ((httpAttempt url left).run st) w l := by
    clear hquiet
    induction left generalizing st w l with
    | zero =>
        intro client clen h
        cases h
    | succ left ih =>
        rw [httpAttempt, Stateful.run_bind]
        apply (quiet_of_calls ((getHttpClient_frames url).calls onlyDev_dev) st w l).bind
        rintro ⟨client?, st⟩ t l' -
        cases client? with
        | none =>
            intro client clen h
            cases h
        | some client =>
            simp only [dev, Stateful.run_call_bind]
            refine leads_call fun opened w₁ _ => ?_
            split
            · simp only [Stateful.run_call_bind]
              refine leads_call fun clen w₂ _ => leads_call fun status w₃ _ => ?_
              split
              · next hstatus =>
                  rintro client' clen' h
                  cases h
                  cases hstatus
                  exact ⟨l' ++ [⟨t, .dev (.httpOpen client), opened, w₁⟩], [], w₁, w₂, w₂, w₃,
                    client, by simp⟩
              · rw [Stateful.run_bind]
                apply (quiet_of_calls ((releaseHttpClient_frames _ _).calls onlyDev_dev)
                  st _ _).bind
                rintro ⟨_, st⟩ u l'' -
                split
                · exact ih
                · intro client clen h
                  cases h
            · rw [Stateful.run_bind]
              apply (quiet_of_calls ((releaseHttpClient_frames _ _).calls onlyDev_dev) st _ _).bind
              rintro ⟨_, st⟩ u l'' -
              exact ih
  exact (hquiet.and hann).mono (fun _ _ _ _ hm => hm) (fun _ _ _ => trivial) (fun _ _ => trivial)
    fun _ _ hq => hq

/-- After the transfer, before anything else is called for the file. -/
structure Transferred (outPath : Str) (clen : ℤ) (r : PingPong.Transfer) (l : List Event) :
    Prop where
  written : l.any writtenTransfer = true
  sdError : l.any sdTransfer = false
  renameFailed : l.any (renameFails outPath) = false
  transferred : r.received ∈ l.filterMap transferred
  announced : Announced l clen
  total : r.total = PingPong.toInt32 r.received.length

/-- A call that leaves these marks alone. -/
theorem Transferred.step {clen : ℤ} {r : PingPong.Transfer} (h : Transferred outPath clen r l)
    {e : Event} (hsd : sdTransfer e = false) (hrename : renameFails outPath e = false) :
    Transferred outPath clen r (l ++ [e]) := by
  obtain ⟨hw, hs, hr, ht, ha, htotal⟩ := h
  refine ⟨?_, ?_, ?_, ?_, ha.append _, htotal⟩ <;> simp [*]

theorem Transferred.quiet {clen : ℤ} {r : PingPong.Transfer} (h : Transferred outPath clen r l)
    (hq : Quiet w l t l') : Transferred outPath clen r l' := by
  refine ⟨?_, ?_, ?_, ?_, hq.announced h.announced, h.total⟩
  · rw [hq.any fun _ _ _ _ => rfl, h.written]
  · rw [hq.any fun _ _ _ _ => rfl, h.sdError]
  · rw [hq.any fun _ _ _ _ => rfl, h.renameFailed]
  · exact hq.mem_filterMap h.transferred

/-- An end after the transfer that is not the last. -/
theorem Transferred.spec {clen : ℤ} {r : PingPong.Transfer} {e : FileEnd}
    (h : Transferred outPath clen r l) (he : e = .netError ∨ e = .incomplete) :
    FileSpec base outPath e t l := by
  refine ⟨?_, ?_, ?_, ?_, ?_⟩
  · rw [h.written]
    rcases he with rfl | rfl <;> simp
  · rw [h.sdError]
    rcases he with rfl | rfl <;> simp
  · rw [h.renameFailed]
    rcases he with rfl | rfl <;> simp
  · rintro received rfl
    simp at he
  · rintro received rfl
    simp at he

/-- Flush, sync and close: the file has all that was received, unless one of the
three fails. -/
theorem finishFile_leads {clen : ℤ} {r : PingPong.Transfer}
    (hpart : resolve (part outPath) = some p)
    (hw : Writing base file p (l.any tailFails = false) r.received w)
    (hl : Transferred outPath clen r l) :
    Leads machine (fun x t l' => FileSpec base outPath x.1 t l')
      ((finishFile clen file outPath r).run st) w l := by
  simp only [finishFile, fs, Stateful.run_call_bind]
  refine leads_call fun r₁ w₁ hm₁ => leads_call fun r₂ w₂ hm₂ => leads_call fun r₃ w₃ hm₃ => ?_
  have hl₃ := ((hl.step (e := ⟨w, .fs (.fflush file), r₁, w₁⟩) rfl rfl).step
    (e := ⟨w₁, .fs (.fsync file), r₂, w₂⟩) rfl rfl).step
    (e := ⟨w₂, .fs (.fclose file), r₃, w₃⟩) rfl rfl
  have hw₃ := ((hw.fflush hm₁).fsync hm₂).fclose hm₃
  split
  · simp only [Stateful.run_call_bind]
    refine leads_call fun r₄ w₄ _ => ?_
    exact (hl₃.step rfl rfl).spec (Or.inr rfl)
  · next hlen =>
      simp only [Stateful.run_call_bind]
      refine leads_call fun renamed w₄ hm₄ => ?_
      cases renamed with
      | true =>
          obtain ⟨q, hq, hplaced⟩ := hw₃.rename hpart hm₄
          have hl₄ := hl₃.step (e := ⟨w₃, .fs (.rename (part outPath) outPath), true, w₄⟩) rfl
            (by simp [renameFails])
          rw [if_pos rfl, Stateful.run_bind]
          apply (quiet_of_calls (updateLedProgress_calls onlyDev_dev) st w₄ _).bind
          rintro ⟨_, st'⟩ t l' hquiet
          have hl' := hl₄.quiet hquiet
          refine ⟨?_, ?_, ?_, ?_, ?_⟩
          · simp [hl'.written]
          · simp [hl'.sdError]
          · simp [hl'.renameFailed]
          · rintro received h
            cases h
            refine ⟨p, q, hpart, hq, hplaced.of_eq hquiet.card ?_⟩
            rw [hquiet.any fun _ _ _ _ => rfl]
            simp [tailFails, and_assoc]
          · rintro received h
            cases h
            rw [not_or, not_and, not_not] at hlen
            rw [← hl'.total]
            exact ⟨hl'.transferred, clen, hl'.announced, hlen⟩
      | false =>
          rw [if_neg Bool.false_ne_true]
          simp only [Stateful.run_call_bind]
          refine leads_call fun r₅ w₅ _ => ?_
          refine ⟨?_, ?_, ?_, ?_, ?_⟩
          · simp [hl.written]
          · simp [sdTransfer, hl.sdError]
          · simp [renameFails]
          · rintro received h
            cases h
          · rintro received h
            cases h

theorem transferFile_leads {client : ℕ} {clen : ℤ} (hpart : resolve (part outPath) = some p)
    (hw : Writing base file p True [] w) (hl : Unmarked outPath l) (ha : Announced l clen) :
    Leads machine (fun x t l' => FileSpec base outPath x.1 t l')
      ((transferFile client clen file outPath).run st) w l := by
  rw [transferFile, Stateful.run_get_bind, Stateful.run_call_bind]
  refine leads_call fun r w₁ hm₁ => ?_
  have hw₁ := hw.transfer hm₁
  obtain ⟨houtcome, -⟩ := hm₁
  rw [Stateful.run_modify_bind, Stateful.run_bind]
  apply (quiet_of_calls ((releaseHttpClient_frames client _).calls onlyDev_dev) _ w₁ _).bind
  rintro ⟨_, st'⟩ w₂ l₂ hquiet
  have hwritten := hquiet.any (f := writtenTransfer) fun _ _ _ _ => rfl
  have hsdError := hquiet.any (f := sdTransfer) fun _ _ _ _ => rfl
  have hrenameFailed := hquiet.any (f := renameFails outPath) fun _ _ _ _ => rfl
  rw [List.any_append] at hwritten hsdError hrenameFailed
  by_cases hsd : r.sdError = true
  · rw [if_pos hsd]
    simp only [fs, Stateful.run_call_bind]
    refine leads_call fun r₃ w₃ _ => ?_
    refine ⟨?_, ?_, ?_, ?_, ?_⟩
    · simp [hwritten, hl.written, writtenTransfer, hsd]
    · simp [hsdError, sdTransfer, hsd]
    · simp [hrenameFailed, hl.renameFailed, renameFails]
    · rintro received h
      cases h
    · rintro received h
      cases h
  · rw [Bool.not_eq_true] at hsd
    have hl₂ : Transferred outPath clen r l₂ := by
      refine ⟨?_, ?_, ?_, ?_, hquiet.announced (ha.append _), houtcome.total⟩
      · simp [hwritten, writtenTransfer, hsd]
      · simp [hsdError, hl.sdError, sdTransfer, hsd]
      · simp [hrenameFailed, hl.renameFailed, renameFails]
      · exact hquiet.mem_filterMap (by simp [transferred])
    rw [if_neg (by simp [hsd])]
    by_cases hnet : r.netError = true
    · rw [if_pos hnet]
      simp only [fs, Stateful.run_call_bind]
      refine leads_call fun _ _ _ => leads_call fun _ _ _ => leads_call fun _ _ _ => ?_
      exact (((hl₂.step rfl rfl).step rfl rfl).step rfl rfl).spec (Or.inl rfl)
    · rw [if_neg hnet]
      rw [Bool.not_eq_true] at hnet
      apply finishFile_leads hpart ?_ hl₂
      rw [← houtcome.accepted hnet hsd]
      exact (hw₁.quiet hquiet).mono fun _ => trivial

theorem receiveFile_leads {client : ℕ} {clen : ℤ} (hl : Unmarked outPath l)
    (ha : Announced l clen) : Leads machine (fun x t l' => FileSpec w.card outPath x.1 t l')
      ((receiveFile client clen outPath).run st) w l := by
  simp only [receiveFile, fs, Stateful.run_call_bind]
  refine leads_call fun file? w₁ hm₁ => ?_
  have hl₁ := hl.step (e := ⟨w, .fs (.fopen (part outPath) .wb), file?, w₁⟩) rfl rfl rfl
  cases file? with
  | none =>
      rw [Stateful.run_bind]
      apply (quiet_of_calls ((releaseHttpClient_frames client true).calls onlyDev_dev) st w₁ _).bind
      rintro ⟨_, st'⟩ w₂ l₂ hquiet
      exact (hl₁.quiet hquiet).spec (by simp)
  | some file =>
      obtain ⟨p, hpart, hw₁⟩ := writing_of_fopen hm₁
      rw [Stateful.run_bind]
      apply (quiet_of_calls (ensureSdWriterTask_frames.calls onlyDev_dev) st w₁ _).bind
      rintro ⟨running, st'⟩ w₂ l₂ hquiet
      cases running with
      | true =>
          rw [if_pos rfl]
          exact transferFile_leads hpart (hw₁.quiet hquiet) (hl₁.quiet hquiet)
            (hquiet.announced (ha.append _))
      | false =>
          rw [if_neg Bool.false_ne_true]
          simp only [Stateful.run_call_bind]
          refine leads_call fun r w₃ _ => ?_
          rw [Stateful.run_bind]
          apply (quiet_of_calls ((releaseHttpClient_frames client true).calls onlyDev_dev)
            st' w₃ _).bind
          rintro ⟨_, st''⟩ w₄ l₄ hquiet'
          exact (((hl₁.quiet hquiet).step rfl rfl rfl).quiet hquiet').spec (by simp)

/-- A run of `download_file_standalone`, however its calls go. -/
theorem downloadFileStandalone_leads (url : Str) (hl : Unmarked outPath l) :
    Leads machine (fun x t l' => FileSpec w.card outPath x.1 t l')
      ((downloadFileStandalone url outPath).run st) w l := by
  rw [downloadFileStandalone, Stateful.run_bind]
  apply (httpAttempt_leads url 2).bind
  rintro ⟨response, st₁⟩ w₁ l₁ ⟨hquiet₁, hann⟩
  cases response with
  | none => exact (hl.quiet hquiet₁).spec (Or.inl rfl)
  | some response =>
      obtain ⟨client, clen⟩ := response
      rw [Stateful.run_bind]
      apply (quiet_of_calls (ensurePingpongBuffers_frames.calls onlyDev_dev) st₁ w₁ l₁).bind
      rintro ⟨_, st₂⟩ w₂ l₂ hquiet₂
      have hl₂ := (hl.quiet hquiet₁).quiet hquiet₂
      have hcard : w₂.card = w.card := hquiet₂.card.trans hquiet₁.card
      rw [Stateful.run_get_bind]
      split
      · rw [← hcard]
        exact receiveFile_leads hl₂ (hquiet₂.announced (hann client clen rfl))
      · rw [Stateful.run_bind]
        apply (quiet_of_calls ((releaseHttpClient_frames client true).calls onlyDev_dev)
          st₂ w₂ l₂).bind
        rintro ⟨_, st₃⟩ w₃ l₃ hquiet₃
        exact (hl₂.quiet hquiet₃).spec (by simp)

end Stages

/-- The content of the file at a path. -/
def fileAt (t : Tree Name Bytes) (path : Str) : Option Bytes :=
  match (resolve path).bind t.get with
  | some (.file data) => some data
  | _ => none

theorem fileAt_eq_some {c : Tree Name Bytes} {path : Str} {data : Bytes} :
    fileAt c path = some data ↔ ∃ x, resolve path = some x ∧ c.get x = some (.file data) := by
  rw [fileAt]
  constructor
  · intro h
    split at h
    · next data' hget =>
        cases h
        exact Option.bind_eq_some_iff.1 hget
    · cases h
  · rintro ⟨x, hx, hget⟩
    rw [hx, Option.bind_some, hget]

theorem Placed.fileAt {base : Tree Name Bytes} {p q : List Name} {sound : Prop} {content : Bytes}
    {path : Str} (h : Placed base p q sound content w) (hq : resolve path = some q)
    (hs : sound) : fileAt w.card path = some content := by
  obtain ⟨data, hdata, hsound⟩ := h.file
  rw [Download.fileAt, hq, Option.bind_some, hdata, hsound hs]

section Runs

variable {url outPath : Str} {st : Statics} {tr : List Event} {x : FileEnd × Statics}

theorem downloadFileStandalone_spec
    (hrun : Steps machine ((downloadFileStandalone url outPath).run st) w tr (.pure x) t) :
    FileSpec w.card outPath x.1 t tr :=
  (downloadFileStandalone_leads url ⟨rfl, rfl, rfl⟩).result hrun

/-- In every run that ends, whatever its calls return: `DlResult::OK` means that
the file holds the bytes received, and an error of the card in an `fwrite`, a
flush, a sync or a close gives `SD_FAILED`, exactly when none of the last three
failed after a transfer the card took, or the `rename` failed as well. -/
theorem downloadFileStandalone_reports
    (hrun : Steps machine ((downloadFileStandalone url outPath).run st) w tr (.pure x) t) :
    ((∀ received, x.1 = .ok received →
        received ∈ tr.filterMap transferred ∧ fileAt t.card outPath = some received) ∧
      (tr.any sdTransfer = true → x.1.result = .sdFailed) ∧
      (tr.any writtenTransfer = true → tr.any tailFails = true → x.1.result = .sdFailed)) ↔
      ¬ (tr.any writtenTransfer = true ∧ tr.any tailFails = true) ∨
        tr.any (renameFails outPath) = true := by
  have hspec := downloadFileStandalone_spec hrun
  constructor
  · rintro ⟨-, -, htail⟩
    by_cases h : tr.any writtenTransfer = true ∧ tr.any tailFails = true
    · right
      rw [hspec.renameFailed]
      have hresult := htail h.1 h.2
      rcases hspec.written.1 h.1 with he | he | he | ⟨received, he⟩
      · rw [he] at hresult
        cases hresult
      · rw [he] at hresult
        cases hresult
      · exact he
      · rw [he] at hresult
        cases hresult
    · exact Or.inl h
  · intro h
    refine ⟨fun received hok => ?_, fun hsd => ?_, fun hwritten htail => ?_⟩
    · obtain ⟨p, q, -, hq, hplaced⟩ := hspec.placed received hok
      refine ⟨(hspec.complete received hok).1, hplaced.fileAt hq ?_⟩
      rcases h with h | h
      · have hwritten := hspec.written.2 (Or.inr (Or.inr (Or.inr ⟨received, hok⟩)))
        rw [← Bool.not_eq_true]
        exact fun htail => h ⟨hwritten, htail⟩
      · rw [hspec.renameFailed.1 h] at hok
        cases hok
    · rw [hspec.sdError.1 hsd]
      rfl
    · rcases h with h | h
      · exact absurd ⟨hwritten, htail⟩ h
      · rw [hspec.renameFailed.1 h]
        rfl

/-- In every run that ends with `DlResult::OK`: the bytes received are a non-empty
part of the body from its start, and all of it when every response came with its
length; where no flush, sync or close failed they are the content of the file. -/
theorem downloadFileStandalone_whole {body received : Bytes}
    (hrun : Steps machine ((downloadFileStandalone url outPath).run st) w tr (.pure x) t)
    (hclen : ∀ clen, Announced tr clen → 0 < clen → clen = body.length)
    (hbody : ∀ bytes ∈ tr.filterMap transferred, bytes <+: body) (hok : x.1 = .ok received) :
    received <+: body ∧ received ≠ [] ∧
      ((∀ clen, Announced tr clen → 0 < clen) → received = body) ∧
      (tr.any tailFails = false → fileAt t.card outPath = some received) := by
  have hspec := downloadFileStandalone_spec hrun
  obtain ⟨hreceived, clen, hann, hlength, hne⟩ := hspec.complete received hok
  have hsub := hbody received hreceived
  refine ⟨hsub, ?_, ?_, ?_⟩
  · rintro rfl
    exact hne PingPong.toInt32_zero
  · intro hpos
    apply hsub.eq_of_length
    have htotal := hlength (hpos clen hann)
    rw [hclen clen hann (hpos clen hann)] at htotal
    -- the counter of an `int` is never above the length it counts
    have hle := PingPong.toInt32_le (Int.natCast_nonneg received.length)
    have := hsub.length_le
    omega
  · intro htail
    obtain ⟨p, q, -, hq, hplaced⟩ := hspec.placed received hok
    exact hplaced.fileAt hq htail

end Runs

section Sample

/-- Download one file to `/sdcard/mozart.tmp/a.mp3`. -/
def playFile (env : Env) (fate : Call → World → Fate) :=
  Interaction.play (serve env fate)
    ((downloadFileStandalone "https://a.example/1".toList "/sdcard/mozart.tmp/a.mp3".toList).run
      (Statics.boot true 10000)) (World.boot (cardOf [("/sdcard/mozart.tmp".toList, .dir)]))

theorem steps_playFile (env : Env) (fate : Call → World → Fate) :
    Steps machine
      ((downloadFileStandalone "https://a.example/1".toList "/sdcard/mozart.tmp/a.mp3".toList).run
        (Statics.boot true 10000)) (World.boot (cardOf [("/sdcard/mozart.tmp".toList, .dir)]))
      (playFile env fate).2.2 (playFile env fate).1 (playFile env fate).2.1 :=
  steps_play (fun o w r t h => machine_of_serve o w r t h) _ _

/-- The connection of a body of two bytes without a length breaks off after the
first. -/
def chunked : Env where
  list := []
  body := fun _ => [7]
  clen := fun _ => 0

/-- A card that does not take what is left in the buffer. -/
def stuck (o : Call) (_ : World) : Fate :=
  match o with
  | .fs (.fflush _) => .fails
  | .fs (.fclose _) => .fails
  | _ => .ok

theorem downloadFileStandalone_reports_mozart : ∃ tr x t,
    Steps machine
      ((downloadFileStandalone "https://a.example/1".toList "/sdcard/mozart.tmp/a.mp3".toList).run
        (Statics.boot true 10000)) (World.boot (cardOf [("/sdcard/mozart.tmp".toList, .dir)]))
      tr (.pure x) t ∧
    x.1 = .ok [7, 8] ∧ fileAt t.card "/sdcard/mozart.tmp/a.mp3".toList = some [7, 8] := by
  have hend : (playFile mozart.env fun _ _ => .ok).1.value.map Prod.fst = some (.ok [7, 8]) := by
    decide +kernel
  have htail : (playFile mozart.env fun _ _ => .ok).2.2.any tailFails = false := by
    decide +kernel
  obtain ⟨x, hrun, hok⟩ := (steps_playFile mozart.env fun _ _ => .ok).returned hend
  refine ⟨_, x, _, hrun, hok, ?_⟩
  refine (((downloadFileStandalone_reports hrun).2 (Or.inl ?_)).1 _ hok).2
  rw [htail]
  exact fun h => Bool.false_ne_true h.2

/-- `fflush` and `fclose` fail, and nothing of the file is on the card. -/
theorem downloadFileStandalone_loses : ∃ tr x t,
    Steps machine
      ((downloadFileStandalone "https://a.example/1".toList "/sdcard/mozart.tmp/a.mp3".toList).run
        (Statics.boot true 10000)) (World.boot (cardOf [("/sdcard/mozart.tmp".toList, .dir)]))
      tr (.pure x) t ∧
    x.1 = .ok [7, 8] ∧ x.1.result = .ok ∧ tr.any tailFails = true ∧
      fileAt t.card "/sdcard/mozart.tmp/a.mp3".toList = some [] := by
  have hend : (playFile mozart.env stuck).1.value.map Prod.fst = some (.ok [7, 8]) := by
    decide +kernel
  obtain ⟨x, hrun, hok⟩ := (steps_playFile mozart.env stuck).returned hend
  refine ⟨_, x, _, hrun, hok, ?_, ?_, ?_⟩
  · rw [hok]
    rfl
  · decide +kernel
  · decide +kernel

theorem downloadFileStandalone_whole_mozart : ∃ tr x t,
    Steps machine
      ((downloadFileStandalone "https://a.example/1".toList "/sdcard/mozart.tmp/a.mp3".toList).run
        (Statics.boot true 10000)) (World.boot (cardOf [("/sdcard/mozart.tmp".toList, .dir)]))
      tr (.pure x) t ∧
    x.1 = .ok [7, 8] ∧ fileAt t.card "/sdcard/mozart.tmp/a.mp3".toList = some [7, 8] := by
  have hend : (playFile mozart.env fun _ _ => .ok).1.value.map Prod.fst = some (.ok [7, 8]) := by
    decide +kernel
  have hclens : ∀ clen ∈ (playFile mozart.env fun _ _ => .ok).2.2.filterMap headersReply,
      clen = 2 := by
    decide +kernel
  have hbody : ∀ bytes ∈ (playFile mozart.env fun _ _ => .ok).2.2.filterMap transferred,
      bytes <+: [7, 8] := by
    decide +kernel
  obtain ⟨x, hrun, hok⟩ := (steps_playFile mozart.env fun _ _ => .ok).returned hend
  refine ⟨_, x, _, hrun, hok, ?_⟩
  refine (downloadFileStandalone_whole hrun ?_ hbody hok).2.2.2 ?_
  · exact fun clen h _ => hclens clen h.headersReply
  · decide +kernel

/-- Half of a chunked body is accepted. -/
theorem downloadFileStandalone_truncated : ∃ tr x t,
    Steps machine
      ((downloadFileStandalone "https://a.example/1".toList "/sdcard/mozart.tmp/a.mp3".toList).run
        (Statics.boot true 10000)) (World.boot (cardOf [("/sdcard/mozart.tmp".toList, .dir)]))
      tr (.pure x) t ∧
    (∀ clen, Announced tr clen → clen ≤ 0) ∧
    (∀ bytes ∈ tr.filterMap transferred, bytes <+: [7, 8]) ∧ x.1.result = .ok ∧
      fileAt t.card "/sdcard/mozart.tmp/a.mp3".toList = some [7] := by
  have hend : (playFile chunked fun _ _ => .ok).1.value.map Prod.fst = some (.ok [7]) := by
    decide +kernel
  have hclens : ∀ clen ∈ (playFile chunked fun _ _ => .ok).2.2.filterMap headersReply,
      clen ≤ 0 := by
    decide +kernel
  obtain ⟨x, hrun, hok⟩ := (steps_playFile chunked fun _ _ => .ok).returned hend
  refine ⟨_, x, _, hrun, fun clen h => hclens clen h.headersReply, ?_, ?_, ?_⟩
  · decide +kernel
  · rw [hok]
    rfl
  · decide +kernel

end Sample

end Download

end SimiboxDownloader
