import SimiboxDownloader.PingPong.Content

/-!
# Whole sessions

The invariants of `Handshake` and `Content` hold in every state of a session.
From them: the ping-pong loop neither overwrites what the writer still reads
nor loses a byte (`session_transfers`), and the hand-over of the job record
stays synchronised over any number of files (`session_synchronised`).
-/

namespace SimiboxDownloader

namespace PingPong

/-- All that is known about a state in which the writer task is in use. -/
structure Coherent (cap : ℕ) (s : State) : Prop where
  handshake : ∃ τ, Handshake τ s
  layout : Layout cap s
  content : Content s

theorem coherent_init (cap : ℕ) : Coherent cap init where
  handshake := ⟨_, handshake_init⟩
  layout := layout_init cap
  content := by
    intro hin
    simp [NetPc.InFile, init] at hin

/-- Every state of a session is coherent, or the session is at its end. -/
theorem Session.coherent {cap : ℕ} {s : State} (hs : Session cap s) :
    Coherent cap s ∨ Stopping s := by
  refine Transition.Reaches.invariant (P := fun s => Coherent cap s ∨ Stopping s)
    ?_ hs (Or.inl (coherent_init cap))
  rintro s (i | k) t (⟨⟨τ, hτ⟩, hl, hc⟩ | hstop) h
  · have hmove := netMove_of_netStep h
    have hl' := hl.netMove hτ hmove
    have hc' := hc.netMove hτ hl hmove
    rcases hτ.netMove hmove with h' | h' | h'
    exacts [Or.inl ⟨⟨_, h'⟩, hl', hc'⟩, Or.inl ⟨⟨_, h'⟩, hl', hc'⟩, Or.inr h']
  · exact Or.inr (hstop.netMove (netMove_of_netStep h))
  · have hmove := writerMove_of_writerStep h
    have hl' := hl.writerMove hτ hmove
    have hc' := hc.writerMove hτ hl hmove
    rcases hτ.writerMove hmove with h' | h'
    exacts [Or.inl ⟨⟨_, h'⟩, hl', hc'⟩, Or.inl ⟨⟨_, h'⟩, hl', hc'⟩]
  · exact Or.inr (hstop.writerMove (writerMove_of_writerStep h))

/-- The writer has not yet read all of the half-buffer `b`: the job that is
posted or being written lies in it. -/
def WriterReads (s : State) (b : BufIx) : Prop :=
  (s.writer.pc = .waiting ∧ s.job.semJobReady = true ∨ s.writer.pc = .testStop ∨
      s.writer.pc = .loadData) ∧ s.job.data = b ∨
    (s.writer.pc = .loadLen ∨ s.writer.pc.Draining) ∧ s.writer.data = b

attribute [local grind =] WriterReads NetPc.InFile WriterPc.Draining WriterPc.HasJob
  NetPc.Stopping NetTask.awaits WriterPc.Loaded

/-- The half-buffer that is being filled is not the one the writer reads. -/
theorem Layout.not_writerReads {cap : ℕ} {s : State} (hl : Layout cap s)
    (hpc : s.net.pc = .fill) : ¬ WriterReads s s.net.cur := by
  have hother := hl.writes_other hpc
  have hloaded := hl.loaded
  grind -ring -linarith -order -ac

/-- Only the read of the loop stores to a half-buffer, from `buf_filled` on. -/
theorem netStep_sBuf {cap : ℕ} {s t : State} {i : NetInput} {b : BufIx} {off : ℕ}
    (h : netStep cap s i = some t) (hne : t.sBuf b off ≠ s.sBuf b off) :
    s.net.pc = .fill ∧ b = s.net.cur ∧ off < cap := by
  cases netMove_of_netStep h with
  | readData bs hpc hlt _ hle =>
      have hb : b = s.net.cur := by
        by_contra hb
        simp [hb] at hne
      subst hb
      refine ⟨hpc, rfl, ?_⟩
      by_contra hoff
      have hnone : bs[off - s.net.bufFilled]? = none := by
        rw [List.getElem?_eq_none_iff]
        omega
      simp [Memory.store, hnone] at hne
  | _ => simp at hne

/-- Once its loop and final wait are over without an error, a file holds what
the reads returned. -/
theorem Content.released {τ : Turn} {s : State} (hc : Content s) (hs : Handshake τ s)
    (hpc : s.net.pc = .release) (hnet : s.net.netError = false) (hsd : s.net.sdError = false) :
    s.files s.net.file = s.net.received := by
  obtain rfl := hs.turn_net (by simp [NetTask.awaits, hpc])
  have hidle := hs.idle (by simp)
  have hdone : s.job.semJobDone = false := hs.done
  have hhandle := hs.handle (by simp [hpc])
  have hok : ¬ Failed s := by simp [Failed, hnet, hsd, hidle, hhandle, hdone, hpc]
  have hcar := hc (by simp [NetPc.InFile, hpc]) hok
  rw [carried, hs.undrained_nil (by simp) (by simp)] at hcar
  simpa [filling, NetPc.Filling, hpc] using hcar

/-- In every state of every session: the read of the loop is handed a part of
the buffer that lies within its capacity and that the writer does not read, no
step of the net task stores elsewhere, and a file whose loop and final wait
ended without an error holds the bytes the reads returned, in order. -/
theorem session_transfers {cap : ℕ} {s : State} (hs : Session cap s) :
    (s.net.pc = .fill → ¬ WriterReads s s.net.cur ∧ s.net.bufFilled ≤ cap) ∧
      (∀ i t, netStep cap s i = some t → ∀ b off, t.sBuf b off ≠ s.sBuf b off →
        ¬ WriterReads s b ∧ off < cap) ∧
      (s.net.pc = .release → s.net.netError = false → s.net.sdError = false →
        s.files s.net.file = s.net.received) := by
  rcases hs.coherent with ⟨⟨τ, hτ⟩, hl, hc⟩ | hstop
  · refine ⟨fun hpc => ⟨hl.not_writerReads hpc, hl.fits⟩, ?_, ?_⟩
    · intro i t h b off hne
      obtain ⟨hpc, rfl, hoff⟩ := netStep_sBuf h hne
      exact ⟨hl.not_writerReads hpc, hoff⟩
    · exact hc.released hτ
  · have hpc := hstop.stopping
    refine ⟨by grind -ring -linarith -order -ac, ?_, by grind⟩
    intro i t h b off hne
    have := (netStep_sBuf h hne).1
    grind -ring -linarith -order -ac

/-- The actions for one file of three bytes with half-buffers of two: the writer
drains the first two, with a short `fwrite`, while the third is read. -/
def oneFile : List Act :=
  [.net (.nextFile true 0 3), .net (.read (.data [1, 2])), .net .go, .net .go, .net .go,
    .net .go, .net .go, .net .go, .net .go, .net .go, .writer 0, .net .go, .writer 0,
    .net (.read (.data [3])), .writer 0, .writer 0, .writer 0, .net (.read (.data [])),
    .net .go, .writer 1, .net .go, .writer 1, .writer 0, .writer 0, .writer 0, .writer 0,
    .net .go, .net .go, .net .go, .net .go, .net .go, .net .go, .net .go, .net .go,
    .writer 0, .writer 0, .net .go, .writer 0, .writer 0, .writer 0, .writer 1, .writer 0,
    .writer 0, .writer 0, .writer 0, .net .go, .net .go]

theorem session_transfers_oneFile :
    ∃ s, Transition.run (step 2) init oneFile = some s ∧ s.net.received = [1, 2, 3] ∧
      s.files 1 = [1, 2, 3] := by
  refine ⟨_, rfl, rfl, ?_⟩
  exact (session_transfers (@Transition.Reaches.of_run _ _ (step 2) _ _ oneFile rfl)).2.2
    rfl rfl rfl

/-- What the hand-over of the job record guarantees in one state. -/
structure Synchronised (s : State) : Prop where
  oneJob : s.net.taken ≤ s.job.no ∧ s.job.no ≤ s.net.taken + 1
  giveReady : s.net.pc = .giveReady ∨ s.net.pc = .stopGive → s.job.semJobReady = false
  giveDone : s.writer.pc = .giveDone → s.job.semJobDone = false
  ownVerdict : s.net.pc = .takeDone ∨ s.net.pc = .takeFinal → s.job.semJobDone = true →
    s.verdict = (s.job.no, s.job.sdError)
  ownError : s.net.pc = .testError ∨ s.net.pc = .finalError →
    s.net.taken = s.job.no ∧ s.verdict = (s.job.no, s.job.sdError)
  noDeadlock : ¬ ((s.net.pc = .takeDone ∨ s.net.pc = .takeFinal) ∧
    s.job.semJobDone = false ∧ s.writer.pc = .waiting ∧ s.job.semJobReady = false)
  close : s.net.pc = .release → ¬ s.writer.pc.HasJob ∧ s.job.semJobReady = false
  returned : s.net.pc = .idle ∨ s.net.pc = .stopFlag → s.job.semJobReady = false ∧
    s.job.semJobDone = false ∧ ¬ s.writer.pc.HasJob ∧ s.net.taken = s.job.no
  stop : s.net.pc = .stopGive ∨ s.net.pc.Stopping →
    ¬ s.writer.pc.Loaded ∧ s.writer.pc ≠ .loadData

attribute [local grind cases eager] Handshake Stopping

theorem Handshake.synchronised {τ : Turn} {s : State} (hs : Handshake τ s) :
    Synchronised s := by
  cases τ <;> constructor <;> grind -ring -linarith -order -ac

theorem Stopping.synchronised {s : State} (hs : Stopping s) : Synchronised s := by
  constructor <;> grind -ring -linarith -order -ac

/-- The hand-over is synchronised in every state of every session. -/
theorem session_synchronised {cap : ℕ} {s : State} (hs : Session cap s) :
    Synchronised s := by
  rcases hs.handshake with ⟨τ, hτ⟩ | hstop
  · exact hτ.synchronised
  · exact hstop.synchronised

theorem session_synchronised_oneFile :
    ∃ s, Transition.run (step 2) init (oneFile.take 26) = some s ∧ s.net.pc = .takeDone ∧
      s.job.semJobDone = true ∧ s.verdict = (1, false) := by
  refine ⟨_, rfl, rfl, rfl, ?_⟩
  exact (session_synchronised
    (@Transition.Reaches.of_run _ _ (step 2) _ _ (oneFile.take 26) rfl)).ownVerdict
    (Or.inl rfl) rfl

end PingPong

end SimiboxDownloader
