import SimiboxDownloader.Download.Loop
import SimiboxDownloader.Download.Received

/-!
# The progress shown

`update_led_progress` narrows the percentage to eight bits and clamps it then. What
it shows is the progress as long as the percentage is below 256, or its last eight
bits make at least 100 (`updateLedProgress_true`). `downloadSimiFolder_progress`
says so of all updates of a run: those of the file loop and those for every read.
-/

namespace SimiboxDownloader

namespace PingPong

/-- The counter after each of the reads that returned `chunks`. -/
def counters : ℤ → List (List Byte) → List ℤ
  | _, [] => []
  | downloaded, chunk :: chunks =>
      (downloaded + chunk.length) :: counters (downloaded + chunk.length) chunks

theorem counters_append (downloaded : ℤ) (chunks : List (List Byte)) (chunk : List Byte) :
    counters downloaded (chunks ++ [chunk]) =
      counters downloaded chunks ++ [downloaded + chunks.flatten.length + chunk.length] := by
  induction chunks generalizing downloaded with
  | nil => simp [counters]
  | cons c chunks ih =>
      rw [List.cons_append, counters, ih, counters, List.cons_append, List.flatten_cons,
        List.length_append, Int.natCast_add, Int.add_assoc downloaded c.length]

theorem counters_bounds (downloaded : ℤ) (chunks : List (List Byte)) :
    (∀ d ∈ counters downloaded chunks, downloaded ≤ d ∧ d ≤ downloaded + chunks.flatten.length) ∧
      (counters downloaded chunks).Pairwise (· ≤ ·) := by
  induction chunks generalizing downloaded with
  | nil => simp [counters]
  | cons chunk chunks ih =>
      obtain ⟨hrange, hsorted⟩ := ih (downloaded + chunk.length)
      rw [counters, List.flatten_cons, List.length_append, Int.natCast_add]
      constructor
      · intro d hd
        rcases List.mem_cons.1 hd with rfl | hd
        · omega
        · have := hrange d hd
          omega
      · exact List.pairwise_cons.2 ⟨fun d hd => (hrange d hd).1, hsorted⟩

/-- In every state of a session the percentages shown last are those after each of
the reads of the current file. -/
theorem Session.shown {cap : ℕ} {s : State} (hs : Session cap s) :
    ∃ before chunks, (∀ chunk ∈ chunks, chunk ≠ []) ∧ chunks.flatten = s.net.received ∧
      s.net.shown = before ++ (counters (s.net.downloaded - s.net.received.length) chunks).flatMap
        (updateLedProgress · s.net.expected) := by
  refine Transition.Reaches.invariant
    (P := fun s => ∃ before chunks, (∀ chunk ∈ chunks, chunk ≠ []) ∧
    chunks.flatten = s.net.received ∧ s.net.shown = before ++
      (counters (s.net.downloaded - s.net.received.length) chunks).flatMap
        (updateLedProgress · s.net.expected)) ?_ hs ⟨[], [], by simp, rfl, rfl⟩
  rintro s (i | k) t ⟨before, chunks, hne, hflat, hshown⟩ h
  · cases netMove_of_netStep h with
    | readData bs hpc hlt hbs hle =>
        refine ⟨before, chunks ++ [bs], ?_, ?_, ?_⟩
        · intro chunk hchunk
          rcases List.mem_append.1 hchunk with hchunk | hchunk
          · exact hne chunk hchunk
          · rwa [List.mem_singleton.1 hchunk]
        · rw [List.flatten_append, hflat, List.flatten_singleton]
        · have hbase : s.net.downloaded + bs.length - (s.net.received ++ bs).length =
              s.net.downloaded - s.net.received.length := by
            rw [List.length_append, Int.natCast_add]
            omega
          have hnow : s.net.downloaded - s.net.received.length + chunks.flatten.length + bs.length =
              s.net.downloaded + bs.length := by
            rw [hflat]
            omega
          dsimp only
          rw [hbase, counters_append, hnow, List.flatMap_append, ← List.append_assoc, ← hshown,
            List.flatMap_singleton]
    | openNext | openFirst => exact ⟨s.net.shown, [], by simp, rfl, (List.append_nil _).symm⟩
    | _ => exact ⟨before, chunks, hne, hflat, hshown⟩
  · cases writerMove_of_writerStep h <;> exact ⟨before, chunks, hne, hflat, hshown⟩

end PingPong

namespace Download

open Interaction Interaction.Stateful

/-- The counters and the clock, as the calls and their replies tell them. -/
structure Gauge where
  downloaded : ℤ
  clock : ℤ

namespace Gauge

def next : (o : Call) → Gauge → o.Reply → Gauge
  | .transfer _ _ _ _ _, g, r => { g with downloaded := g.downloaded + r.received.length }
  | .dev (.setCardClk freqKhz), g, ok => if ok then { g with clock := freqKhz } else g
  | _, g, _ => g

/-- What is shown follows from the counters, and the ping-pong loop starts with
them. -/
def Shows (expected : ℤ) : Call → Gauge → Prop
  | .dev (.ledShowDownloadProgress percent), g =>
      PingPong.updateLedProgress g.downloaded expected = [percent]
  | .transfer _ _ _ downloaded expected', g => downloaded = g.downloaded ∧ expected' = expected
  | .dev (.setCardClk _), _ => False
  | .diverge, _ => False
  | _, _ => True

/-- The clock only goes down the ladder. -/
def Lowers (expected : ℤ) : Call → Gauge → Prop
  | .dev (.setCardClk freqKhz), g => 0 ≤ freqKhz ∧ freqKhz = sdNextLowerFreq g.clock
  | o, g => Shows expected o g

end Gauge

/-- Any reply, and the gauge after it. -/
def gauging : Machine Call Call.Reply Gauge := fun o g r g' => g' = Gauge.next o g r

/-- The statics hold what the calls tell, with this clock. -/
structure Reads (expected clock : ℤ) (st : Statics) (g : Gauge) : Prop where
  downloaded : st.totalDownloadedBytes = g.downloaded
  expected : st.totalExpectedBytes = expected
  freq : st.sdFreqKhz = clock
  driver : g.clock = clock

/-- The calls follow `C`, and in the end the statics hold what the calls tell. -/
abbrev Tracks {α : Type} (C : Call → Gauge → Prop) (expected : ℤ) (clock : Gauge → ℤ)
    (p : Action α) (st : Statics) (g : Gauge) : Prop :=
  Ensures gauging C (fun _ st' g' => Reads expected (clock g') st' g') p st g

section File

variable {α β : Type} {C : Call → Gauge → Prop} {expected clock : ℤ} {now : Gauge → ℤ}
  {st : Statics} {g : Gauge}

theorem tracks_call {o : Call} {k : o.Reply → Action β} (ho : C o g)
    (hk : ∀ r, Tracks C expected now (k r) st (Gauge.next o g r)) :
    Tracks C expected now (Interaction.Stateful.call o >>= k) st g := by
  apply ensures_call ho
  rintro r _ rfl
  exact hk r

theorem tracks_fs {c : FsCall} {k : c.Reply → Action β} (ho : C (.fs c) g)
    (hk : ∀ r, Tracks C expected now (k r) st g) : Tracks C expected now (fs c >>= k) st g :=
  tracks_call ho hk

/-- Plumbing changes nothing of this. -/
theorem Frames.tracks {p : Action α} (h : Frames Plumbing p) (hst : Reads expected clock st g) :
    Tracks (Gauge.Shows expected) expected (fun _ => clock) p st g := by
  have hgauge (o : Call) (g : Gauge) (r : o.Reply) (ho : Plumbing o) : Gauge.next o g r = g := by
    cases o with
    | dev c =>
        cases c with
        | setCardClk => exact ho.elim
        | _ => rfl
    | _ => exact ho.elim
  have hshows (o : Call) (g : Gauge) (ho : Plumbing o) : Gauge.Shows expected o g := by
    cases o with
    | dev c =>
        cases c with
        | setCardClk => exact ho.elim
        | ledShowDownloadProgress => exact ho.elim
        | _ => trivial
    | _ => exact ho.elim
  refine (Stateful.Frames.ensures (J := fun g' => g' = g) h
    (fun o g ho _ => hshows o g ho) ?_ rfl).imp ?_
  · rintro o _ r _ ho rfl rfl
    exact hgauge o _ r ho
  · rintro _ st' _ ⟨hsame, rfl⟩
    simp only [Statics.gauges, Prod.mk.injEq] at hsame
    obtain ⟨hdownloaded, hexpected, hclock, -⟩ := hsame
    exact ⟨hdownloaded.trans hst.downloaded, hexpected.trans hst.expected, hclock.trans hst.freq,
      hst.driver⟩

theorem updateLedProgress_tracks (hst : Reads expected clock st g) :
    Tracks (Gauge.Shows expected) expected (fun _ => clock) updateLedProgress st g := by
  unfold updateLedProgress
  apply ensures_get
  split
  · next percent rest hshown =>
      rw [hst.downloaded, hst.expected] at hshown
      have hrest : rest = [] := by
        rw [PingPong.updateLedProgress] at hshown
        split at hshown
        · exact (List.cons.inj hshown).2.symm
        · cases hshown
      rw [hrest] at hshown
      exact ⟨hshown, fun _ _ ht => ⟨trivial, ht ▸ hst⟩⟩
  · exact ensures_pure hst

theorem finishFile_tracks (clen : ℤ) (file : ℕ) (outPath : Str) (r : PingPong.Transfer)
    (hst : Reads expected clock st g) :
    Tracks (Gauge.Shows expected) expected (fun _ => clock)
      (finishFile clen file outPath r) st g := by
  refine tracks_fs trivial fun _ => tracks_fs trivial fun _ => tracks_fs trivial fun _ => ?_
  split
  · exact tracks_fs trivial fun _ => ensures_pure hst
  · refine tracks_fs trivial fun renamed => ?_
    split
    · exact (updateLedProgress_tracks hst).bind fun _ _ _ h => ensures_pure h
    · exact tracks_fs trivial fun _ => ensures_pure hst

theorem transferFile_tracks (client : ℕ) (clen : ℤ) (file : ℕ) (outPath : Str)
    (hst : Reads expected clock st g) :
    Tracks (Gauge.Shows expected) expected (fun _ => clock)
      (transferFile client clen file outPath) st g := by
  apply ensures_get
  refine tracks_call ⟨hst.downloaded, hst.expected⟩ fun r => ?_
  apply ensures_modify
  have hst' : Reads expected clock
      { st with totalDownloadedBytes := st.totalDownloadedBytes + r.received.length }
      { g with downloaded := g.downloaded + r.received.length } :=
    ⟨congrArg (· + (r.received.length : ℤ)) hst.downloaded, hst.expected, hst.freq,
      hst.driver⟩
  apply ((releaseHttpClient_frames client (r.sdError || r.netError)).tracks hst').bind
  intro _ st g hst
  split
  · exact tracks_fs trivial fun _ => ensures_pure hst
  · split
    · refine tracks_fs trivial fun _ => tracks_fs trivial fun _ => ?_
      exact tracks_fs trivial fun _ => ensures_pure hst
    · exact finishFile_tracks clen file outPath r hst

theorem downloadFileStandalone_tracks (url outPath : Str) (hst : Reads expected clock st g) :
    Tracks (Gauge.Shows expected) expected (fun _ => clock)
      (downloadFileStandalone url outPath) st g := by
  apply ((httpAttempt_frames url 2).tracks hst).bind
  intro response st g hst
  cases response with
  | none => exact ensures_pure hst
  | some response =>
      have hrelease {γ : Type} {a : γ} {st : Statics} {g : Gauge}
          (hst : Reads expected clock st g) :
          Tracks (Gauge.Shows expected) expected (fun _ => clock)
            (releaseHttpClient response.1 true >>= fun _ => pure a) st g :=
        ((releaseHttpClient_frames response.1 true).tracks hst).bind fun _ _ _ h => ensures_pure h
      apply (ensurePingpongBuffers_frames.tracks hst).bind
      intro _ st g hst
      apply ensures_get
      split
      · refine tracks_fs trivial fun file? => ?_
        cases file? with
        | none => exact hrelease hst
        | some file =>
            apply (ensureSdWriterTask_frames.tracks hst).bind
            intro running st g hst
            split
            · exact transferFile_tracks response.1 response.2 file outPath hst
            · exact tracks_fs trivial fun _ => hrelease hst
      · exact hrelease hst

end File

section Clock

/-- The rungs of the ladder below a clock. -/
def rungsBelow (clock : ℤ) : ℕ := (sdFreqLadder.filter fun freq => freq < clock).length

theorem rungsBelow_le (clock : ℤ) : rungsBelow clock ≤ sdFreqLadder.length :=
  List.length_filter_le _ _

/-- The next clock is one rung down. -/
theorem rungsBelow_next {clock : ℤ} (h : 0 ≤ sdNextLowerFreq clock) :
    sdNextLowerFreq clock < clock ∧ rungsBelow (sdNextLowerFreq clock) + 1 = rungsBelow clock := by
  by_cases h₁ : 20000 < clock
  · simp [sdNextLowerFreq, rungsBelow, sdFreqLadder, h₁, show 10000 < clock by omega,
      show 4000 < clock by omega]
  · by_cases h₂ : 10000 < clock
    · simp [sdNextLowerFreq, rungsBelow, sdFreqLadder, h₁, h₂, show 4000 < clock by omega]
    · by_cases h₃ : 4000 < clock
      · simp [sdNextLowerFreq, rungsBelow, sdFreqLadder, h₁, h₂, h₃]
      · simp [sdNextLowerFreq, sdFreqLadder, h₁, h₂, h₃] at h

end Clock

section Loop

variable {α β : Type} {expected : ℤ} {st : Statics} {g : Gauge}

/-- Where the clock is not changed. -/
theorem Tracks.lowers {clock : ℤ} {p : Action α}
    (h : Tracks (Gauge.Shows expected) expected (fun _ => clock) p st g) :
    Ensures gauging (Gauge.Lowers expected)
      (fun _ st' g' => Reads expected clock st' g') p st g := by
  refine Safe.mono h (fun _ _ _ _ hm => hm) ?_ (fun _ hi => hi) fun _ _ hq => hq
  intro o g ho
  cases o with
  | dev c =>
      cases c with
      | setCardClk => exact ho.elim
      | _ => exact ho
  | _ => exact ho

theorem setSdFreq_tracks {freqKhz : ℤ} (hfreq : 0 ≤ freqKhz ∧ freqKhz = sdNextLowerFreq g.clock) :
    Ensures gauging (Gauge.Lowers expected)
      (fun ok st' g' => st' = st ∧ g' = if ok then { g with clock := freqKhz } else g)
      (setSdFreq freqKhz) st g := by
  unfold setSdFreq
  apply ensures_get
  split
  · exact ⟨hfreq, fun ok _ hg => ⟨trivial, rfl, hg⟩⟩
  · exact ensures_pure ⟨rfl, rfl⟩

/-- The clock goes down a rung before the loop goes round. -/
theorem lowerClock_tracks (url outPath : Str) {again : FileEnd → Action FileEnd} {e : FileEnd}
    {clock : ℤ} (hst : Reads expected clock st g)
    (hagain : ∀ e' st' g' clock', rungsBelow clock' < rungsBelow clock →
      Reads expected clock' st' g' →
      Tracks (Gauge.Lowers expected) expected Gauge.clock (again e') st' g') :
    Tracks (Gauge.Lowers expected) expected Gauge.clock (lowerClock url outPath again e) st g := by
  have hend : Tracks (Gauge.Lowers expected) expected Gauge.clock (pure e) st g := by
    refine ensures_pure ?_
    rwa [hst.driver]
  unfold lowerClock
  split
  · apply ensures_get
    rw [hst.freq]
    split
    · exact hend
    · next hneg =>
        have hpos := Int.not_lt.1 hneg
        obtain ⟨-, hrungs⟩ := rungsBelow_next hpos
        have hfreq : 0 ≤ sdNextLowerFreq clock ∧
            sdNextLowerFreq clock = sdNextLowerFreq g.clock := by
          rw [hst.driver]
          exact ⟨hpos, rfl⟩
        apply (setSdFreq_tracks hfreq).bind
        rintro ok st _ ⟨rfl, rfl⟩
        cases ok with
        | false => exact hend
        | true =>
            have hst' : Reads expected (sdNextLowerFreq clock)
                { st with sdFreqKhz := sdNextLowerFreq clock }
                { g with clock := sdNextLowerFreq clock } :=
              ⟨hst.downloaded, hst.expected, rfl, rfl⟩
            refine ensures_modify (tracks_fs trivial fun _ => ?_)
            apply (downloadFileStandalone_tracks url outPath hst').lowers.bind
            intro e' st g hst
            exact hagain e' st g _ (by omega) hst
  · exact hend

/-- The loop is over before its bound. -/
theorem retryFile_tracks (url outPath : Str) (n : ℕ) (e : FileEnd) {clock : ℤ}
    (hst : Reads expected clock st g) (hn : rungsBelow clock ≤ n) :
    Tracks (Gauge.Lowers expected) expected Gauge.clock (retryFile url outPath n e) st g := by
  induction n generalizing e st g clock with
  | zero =>
      refine lowerClock_tracks url outPath hst fun _ _ _ _ hlt => ?_
      omega
  | succ n ih =>
      refine lowerClock_tracks url outPath hst fun e' st' g' clock' hlt hst' => ?_
      exact ih e' hst' (by omega)

theorem downloadFiles_tracks (dir : Str) (files : List FileItem) {clock : ℤ}
    (hst : Reads expected clock st g) :
    Tracks (Gauge.Lowers expected) expected Gauge.clock (downloadFiles dir files) st g := by
  induction files generalizing st g clock with
  | nil =>
      refine ensures_pure ?_
      rwa [hst.driver]
  | cons item items ih =>
      apply (updateLedProgress_tracks hst).lowers.bind
      intro _ st g hst
      have hfile : Tracks (Gauge.Lowers expected) expected Gauge.clock
          (downloadFile item.url (sub dir item.name)) st g := by
        apply (downloadFileStandalone_tracks _ _ hst).lowers.bind
        intro e st g hst
        exact retryFile_tracks _ _ _ e hst (rungsBelow_le clock)
      apply hfile.bind
      intro e st g hst
      cases e with
      | ok received =>
          refine tracks_fs trivial fun _ => (ih hst).bind fun rest st g hst => ?_
          exact ensures_pure hst
      | _ => exact ensures_pure hst

end Loop

section Percent

variable {expected downloaded : ℤ}

/-- The progress in percent. -/
def trueProgress (downloaded expected : ℤ) : ℕ := min 100 (downloaded * 100 / expected).toNat

/-- The percentage does not lose its place when it is narrowed to eight bits. -/
def FitsByte (downloaded expected : ℤ) : Prop :=
  downloaded * 100 / expected < 256 ∨ 100 ≤ downloaded * 100 / expected % 256

instance (downloaded expected : ℤ) : Decidable (FitsByte downloaded expected) :=
  inferInstanceAs (Decidable (_ ∨ _))

/-- The percentage shown. -/
def shownProgress (downloaded expected : ℤ) : ℕ :=
  min 100 (downloaded * 100 / expected % 256).toNat

theorem updateLedProgress_eq (hd : 0 ≤ downloaded) (he : 0 < expected) :
    PingPong.updateLedProgress downloaded expected = [shownProgress downloaded expected] := by
  have hd' : 0 ≤ downloaded * 100 := by omega
  rw [PingPong.updateLedProgress, if_pos he, Int.tdiv_eq_ediv_of_nonneg hd', shownProgress]

theorem shownProgress_true (hd : 0 ≤ downloaded) (he : 0 < expected) :
    shownProgress downloaded expected = trueProgress downloaded expected ↔
      FitsByte downloaded expected := by
  have hq : 0 ≤ downloaded * 100 / expected := Int.ediv_nonneg (by omega) (Int.le_of_lt he)
  rw [shownProgress, trueProgress, FitsByte]
  generalize downloaded * 100 / expected = q at hq
  omega

theorem trueProgress_mono {downloaded' : ℤ} (he : 0 < expected) (h : downloaded ≤ downloaded') :
    trueProgress downloaded expected ≤ trueProgress downloaded' expected := by
  have hq : downloaded * 100 / expected ≤ downloaded' * 100 / expected :=
    Int.ediv_le_ediv he (by omega)
  rw [trueProgress, trueProgress]
  omega

end Percent

section Shown

/-- The counter is `downloaded` before the calls; `ds` are its values when
`update_led_progress` runs, there and after each read of the transfers, and `ps` the
percentages shown then. -/
inductive Shown : ℤ → List Event → List ℤ → List ℕ → Prop
  | nil (downloaded : ℤ) : Shown downloaded [] [] []
  | led {downloaded : ℤ} {s t : World} {percent : ℕ} {r : Unit} {tr : List Event} {ds : List ℤ}
      {ps : List ℕ} : Shown downloaded tr ds ps →
      Shown downloaded (⟨s, .dev (.ledShowDownloadProgress percent), r, t⟩ :: tr)
        (downloaded :: ds) (percent :: ps)
  | transfer {downloaded d e : ℤ} {s t : World} {client file capacity : ℕ} {r : PingPong.Transfer}
      {tr : List Event} {ds : List ℤ} {ps : List ℕ} (chunks : List Bytes) :
      (∀ chunk ∈ chunks, chunk ≠ []) → chunks.flatten = r.received →
      Shown (downloaded + r.received.length) tr ds ps →
      Shown downloaded (⟨s, .transfer client file capacity d e, r, t⟩ :: tr)
        (PingPong.counters d chunks ++ ds)
        ((PingPong.counters d chunks).flatMap (PingPong.updateLedProgress · e) ++ ps)
  | other {downloaded : ℤ} {ev : Event} {tr : List Event} {ds : List ℤ} {ps : List ℕ} :
      (∀ percent, ev.op ≠ .dev (.ledShowDownloadProgress percent)) →
      (∀ client file capacity d e, ev.op ≠ .transfer client file capacity d e) →
      Shown downloaded tr ds ps → Shown downloaded (ev :: tr) ds ps

variable {expected downloaded : ℤ} {tr : List Event} {ds : List ℤ} {ps : List ℕ}

theorem calls_tail {C : Call → Gauge → Prop} {g : Gauge} {ev : Event}
    (h : ∀ l e l', ev :: tr = l ++ e :: l' → C e.op (track Gauge.next g l)) :
    ∀ l e l', tr = l ++ e :: l' →
      C e.op (track Gauge.next (Gauge.next ev.op g ev.reply) l) :=
  fun l e l' hl => h (ev :: l) e l' (congrArg (ev :: ·) hl)

theorem Gauge.next_downloaded {o : Call} {g : Gauge} {r : o.Reply}
    (h : ∀ client file capacity d e, o ≠ .transfer client file capacity d e) :
    (Gauge.next o g r).downloaded = g.downloaded := by
  cases o with
  | dev c =>
      cases c with
      | setCardClk freqKhz =>
          cases r with
          | false => rfl
          | true => rfl
      | _ => rfl
  | transfer => exact absurd rfl (h _ _ _ _ _)
  | _ => rfl

/-- Calls that show what follows from the counters: so do the percentages, and the
counters only grow. -/
theorem Shown.updates (h : Shown downloaded tr ds ps) {g : Gauge} (hg : g.downloaded = downloaded)
    (hcalls : ∀ l ev l', tr = l ++ ev :: l' →
      Gauge.Lowers expected ev.op (track Gauge.next g l)) :
    ps = ds.flatMap (PingPong.updateLedProgress · expected) ∧ (∀ d ∈ ds, downloaded ≤ d) ∧
      ds.Pairwise (· ≤ ·) := by
  induction h generalizing g with
  | nil => simp
  | led _ ih =>
      have hhead := hcalls [] _ _ rfl
      change PingPong.updateLedProgress g.downloaded expected = [_] at hhead
      rw [hg] at hhead
      obtain ⟨hps, hle, hsorted⟩ := ih hg (calls_tail hcalls)
      refine ⟨?_, List.forall_mem_cons.2 ⟨Int.le_refl _, hle⟩, List.pairwise_cons.2 ⟨hle, hsorted⟩⟩
      rw [List.flatMap_cons, hhead, ← hps]
      rfl
  | @transfer downloaded d e _ _ _ _ _ r _ _ _ chunks hne hflat _ ih =>
      obtain ⟨hd, rfl⟩ : d = g.downloaded ∧ e = expected := hcalls [] _ _ rfl
      obtain rfl := hd.trans hg
      have hg' : g.downloaded + r.received.length = d + r.received.length :=
        congrArg (· + (r.received.length : ℤ)) hg
      obtain ⟨hps, hle, hsorted⟩ := ih (g := { g with
        downloaded := g.downloaded + r.received.length }) hg' (calls_tail hcalls)
      obtain ⟨hrange, hsorted'⟩ := PingPong.counters_bounds d chunks
      rw [hflat] at hrange
      refine ⟨?_, ?_, List.pairwise_append.2 ⟨hsorted', hsorted, ?_⟩⟩
      · rw [List.flatMap_append, ← hps]
      · intro x hx
        rcases List.mem_append.1 hx with hx | hx
        · exact (hrange x hx).1
        · have := hle x hx
          omega
      · intro x hx y hy
        exact Int.le_trans (hrange x hx).2 (hle y hy)
  | other hled htransfer _ ih =>
      exact ih ((Gauge.next_downloaded htransfer).trans hg) (calls_tail hcalls)

/-- The percentages are the true ones, and never decrease, exactly if each fits into
a byte in this sense. -/
theorem shown_true (he : 0 < expected) (hds : ∀ d ∈ ds, 0 ≤ d) (hsorted : ds.Pairwise (· ≤ ·))
    (hps : ps = ds.flatMap (PingPong.updateLedProgress · expected)) :
    (ps = ds.map (trueProgress · expected) ∧ ps.Pairwise (· ≤ ·)) ↔
      ∀ d ∈ ds, FitsByte d expected := by
  have hshown : ps = ds.map (shownProgress · expected) := by
    rw [hps, List.map_eq_flatMap]
    exact List.flatMap_congr fun d hd => updateLedProgress_eq (hds d hd) he
  rw [hshown, List.map_inj_left]
  constructor
  · intro h d hd
    exact (shownProgress_true (hds d hd) he).1 (h.1 d hd)
  · intro h
    have htrue : ∀ d ∈ ds, shownProgress d expected = trueProgress d expected :=
      fun d hd => (shownProgress_true (hds d hd) he).2 (h d hd)
    refine ⟨htrue, ?_⟩
    rw [List.map_inj_left.2 htrue]
    exact hsorted.map _ fun _ _ => trueProgress_mono he

end Shown

/-- In every run of `download_simi_folder`, for every response to the list request,
every way the bodies are read and every SD retry: outside the file loop only 0 and
100 are shown. In the loop each percentage shown by `update_led_progress` is that of
the bytes downloaded, clamped to 100, and none is smaller than the one before,
exactly if every percentage is below 256 or its last eight bits make at least 100. -/
theorem downloadSimiFolder_progress {J : CJson} {depth : ℕ} {folder lambdaUrl : Str} {st : Statics}
    {w t : World} {tr : List Event} {q : Program Call Call.Reply (FolderEnd × Statics)}
    (hrun : Steps machine ((downloadSimiFolder J depth folder lambdaUrl).run st) w tr q t) :
    (∀ ev ∈ tr, Outside ev.op) ∨
      ∃ items pre loop post, items ∈ pre.filterMap (listResponse J) ∧ tr = pre ++ loop ++ post ∧
        (∀ ev ∈ pre ++ post, Outside ev.op) ∧
        ∀ ds ps, 0 < expectedOf items → Shown 0 loop ds ps →
          ((ps = ds.map (trueProgress · (expectedOf items)) ∧ ps.Pairwise (· ≤ ·)) ↔
            ∀ d ∈ ds, FitsByte d (expectedOf items)) := by
  obtain ⟨houtside, -⟩ | ⟨items, pre, loop, post, hitems, hloop⟩ := downloadSimiFolder_loop hrun
  · exact Or.inl houtside
  refine Or.inr ⟨items, pre, loop, post, hitems, hloop.split, hloop.outside, ?_⟩
  intro ds ps he hshown
  obtain ⟨st', w', q', t', hgauges, hrun', -⟩ := hloop.run
  have hst : Reads (expectedOf items) st'.sdFreqKhz st' ⟨0, st'.sdFreqKhz⟩ :=
    ⟨congrArg Prod.fst hgauges, congrArg (fun g => g.2.1) hgauges, rfl, rfl⟩
  obtain ⟨hcalls, -⟩ := Safe.tracks (N := gauging) (f := Gauge.next)
    (fun _ _ _ _ _ _ => rfl) (downloadFiles_tracks (tmpDir folder) (fileList items) hst) hrun'
  obtain ⟨hps, hds, hsorted⟩ := hshown.updates rfl hcalls
  exact shown_true he hds hsorted hps

section Sample

/-- Every call succeeds. -/
def succeeding (_ : Call) (_ : World) : Fate := .ok

/-- A body that is not empty has been received. -/
def Carries (tr : List Event) : Prop := ∃ body ∈ tr.filterMap transferred, body ≠ []

instance (tr : List Event) : Decidable (Carries tr) :=
  inferInstanceAs (Decidable (∃ body ∈ _, _))

theorem not_carries_of_outside {tr : List Event} (h : ∀ ev ∈ tr, Outside ev.op) :
    ¬ Carries tr := by
  rintro ⟨body, hbody, -⟩
  obtain ⟨ev, hev, hreceived⟩ := List.mem_filterMap.1 hbody
  unfold transferred at hreceived
  split at hreceived
  · exact h _ hev
  · cases hreceived

theorem carries_append {tr tr' : List Event} :
    Carries (tr ++ tr') ↔ Carries tr ∨ Carries tr' := by
  simp only [Carries, List.filterMap_append, List.mem_append, or_and_right, exists_or]

theorem carries_cons_of_none {ev : Event} {tr : List Event} (h : transferred ev = none) :
    Carries (ev :: tr) ↔ Carries tr := by
  rw [Carries, List.filterMap_cons_none h, Carries]

/-- The division in which every body comes in a single read. -/
theorem shown_whole (downloaded : ℤ) (tr : List Event) :
    ∃ ds ps, Shown downloaded tr ds ps ∧ (Carries tr → ds ≠ []) := by
  induction tr generalizing downloaded with
  | nil => exact ⟨[], [], Shown.nil _, fun h => absurd h (not_carries_of_outside nofun)⟩
  | cons ev tr ih =>
      obtain ⟨s, o, r, t⟩ := ev
      cases o with
      | transfer client file capacity d e =>
          obtain ⟨ds, ps, hshown, hreads⟩ := ih (downloaded + r.received.length)
          by_cases hr : r.received = []
          · refine ⟨ds, ps, Shown.transfer [] nofun hr.symm hshown, fun h => hreads ?_⟩
            obtain ⟨body, hbody, hbody'⟩ := h
            rcases List.mem_cons.1 hbody with rfl | hbody
            · exact absurd hr hbody'
            · exact ⟨body, hbody, hbody'⟩
          · refine ⟨_, _, Shown.transfer [r.received] ?_ (by simp) hshown, fun _ => nofun⟩
            intro chunk hchunk
            rwa [List.mem_singleton.1 hchunk]
      | dev c =>
          obtain ⟨ds, ps, hshown, hreads⟩ := ih downloaded
          cases c with
          | ledShowDownloadProgress percent => exact ⟨_, _, Shown.led hshown, fun _ => nofun⟩
          | _ => exact ⟨ds, ps, Shown.other nofun nofun hshown,
              fun h => hreads ((carries_cons_of_none rfl).1 h)⟩
      | _ =>
          obtain ⟨ds, ps, hshown, hreads⟩ := ih downloaded
          exact ⟨ds, ps, Shown.other nofun nofun hshown,
            fun h => hreads ((carries_cons_of_none rfl).1 h)⟩

theorem downloadSimiFolder_progress_mozart : ∃ q t tr,
    Steps machine
      ((downloadSimiFolder mozart.cjson 4 "mozart".toList "https://api.example".toList).run
      (Statics.boot true 10000)) (World.boot (cardOf [])) tr q t ∧
    ∃ items pre loop post ds ps, items ∈ pre.filterMap (listResponse mozart.cjson) ∧
      tr = pre ++ loop ++ post ∧ 0 < expectedOf items ∧ Shown 0 loop ds ps ∧ ds ≠ [] ∧
      ((ps = ds.map (trueProgress · (expectedOf items)) ∧ ps.Pairwise (· ≤ ·)) ↔
        ∀ d ∈ ds, FitsByte d (expectedOf items)) := by
  have hrun := mozart.steps_play succeeding "mozart".toList (cardOf [])
  have hcarries : Carries (mozart.play succeeding "mozart".toList (cardOf [])).2.2 := by
    decide +kernel
  have hexpected : ∀ items ∈ (mozart.play succeeding "mozart".toList (cardOf [])).2.2.filterMap
      (listResponse mozart.cjson), 0 < expectedOf items := by
    decide +kernel
  obtain ⟨items, pre, loop, post, hitems, hsplit, houtside, hprogress⟩ :=
    (downloadSimiFolder_progress hrun).resolve_left fun houtside =>
      not_carries_of_outside houtside hcarries
  have hloop : Carries loop := by
    rw [hsplit, carries_append, carries_append] at hcarries
    rcases hcarries with (hpre | hloop) | hpost
    · exact absurd hpre (not_carries_of_outside fun ev hev =>
        houtside ev (List.mem_append_left _ hev))
    · exact hloop
    · exact absurd hpost (not_carries_of_outside fun ev hev =>
        houtside ev (List.mem_append_right _ hev))
  have hpositive : 0 < expectedOf items := by
    refine hexpected items ?_
    rw [hsplit, List.append_assoc, List.filterMap_append]
    exact List.mem_append_left _ hitems
  obtain ⟨ds, ps, hshown, hreads⟩ := shown_whole 0 loop
  exact ⟨_, _, _, hrun, items, pre, loop, post, ds, ps, hitems, hsplit, hpositive, hshown,
    hreads hloop, hprogress ds ps hpositive hshown⟩

/-- A package with a song of 20 bytes. -/
def song : Sample where
  files := [("manifest.json".toList, "https://a.example/0".toList,
      ascii "\x7b\"files\":[\x7b\"name\":\"a.mp3\",\"size\":20\x7d]\x7d".toList),
    ("a.mp3".toList, "https://a.example/1".toList, List.replicate 20 7)]
  entries := [("a.mp3".toList, 20)]

/-- The list says that each of its files has 10 bytes. -/
def sizedText : Bytes :=
  ascii (renderArray (song.files.map fun f => "\x7b\"filename\":\"".toList ++ f.1 ++
    "\",\"url\":\"".toList ++ f.2.1 ++ "\",\"size\":10\x7d".toList))

def sizedItems : List Json :=
  song.files.map fun f => .obj [("filename".toList, .str f.1), ("url".toList, .str f.2.1),
    ("size".toList, .num 10 10)]

def sizedCJson : CJson where
  parse := fun text =>
    if text = sizedText then some (.arr sizedItems)
    else if text = song.manifestText then some song.manifestJson
    else none
  parse_nil := by simp [sizedText, Sample.manifestText, renderArray, ascii]

/-- A download of the song, with the sizes of that list. -/
def playSized (folder : Str) :=
  Interaction.play (serve { song.env with list := sizedText } succeeding)
    ((downloadSimiFolder sizedCJson 4 folder "https://api.example".toList).run
      (Statics.boot true 10000)) (World.boot (cardOf []))

theorem steps_playSized (folder : Str) :
    Steps machine ((downloadSimiFolder sizedCJson 4 folder "https://api.example".toList).run
      (Statics.boot true 10000)) (World.boot (cardOf [])) (playSized folder).2.2
      (playSized folder).1 (playSized folder).2.1 :=
  steps_play (fun o w r t h => machine_of_serve o w r t h) _ _

/-- The percentage of a call of `led_show_download_progress`. -/
def ledPercent : Event → Option ℕ
  | ⟨_, .dev (.ledShowDownloadProgress percent), _, _⟩ => some percent
  | _ => none

/-- With sizes that are too small the LED goes back from 100 to 34. -/
theorem downloadSimiFolder_progress_falls : ∃ q t tr,
    Steps machine
      ((downloadSimiFolder sizedCJson 4 "mozart".toList "https://api.example".toList).run
      (Statics.boot true 10000)) (World.boot (cardOf [])) tr q t ∧
    tr.filterMap ledPercent = [0, 0, 100, 100, 34, 100] ∧
    (tr.filterMap transferred).map List.length = [38, 20] ∧ expectedOf sizedItems = 20 ∧
    shownProgress (38 + 20) 20 = 34 ∧ trueProgress (38 + 20) 20 = 100 := by
  have hled : (playSized "mozart".toList).2.2.filterMap ledPercent = [0, 0, 100, 100, 34, 100] := by
    decide +kernel
  have hreceived : ((playSized "mozart".toList).2.2.filterMap transferred).map List.length =
      [38, 20] := by
    decide +kernel
  exact ⟨_, _, _, steps_playSized "mozart".toList, hled, hreceived, by decide +kernel, by decide,
    by decide⟩

end Sample

end Download

end SimiboxDownloader
