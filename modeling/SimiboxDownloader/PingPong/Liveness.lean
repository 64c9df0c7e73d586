import SimiboxDownloader.Library.Amortized
import SimiboxDownloader.PingPong.Round

/-!
# A session makes progress

In every session, over any number of files and with any results of the reads and of
`fwrite`: until the net task has ended some task can do its next statement, whatever the
environment answers to it (`canMove_of_session`), and the statements done are bounded by
the bytes that were read and the files that were opened (`effort_step`). So the tasks
neither block each other nor spin (`session_lives`).
-/

namespace SimiboxDownloader

namespace PingPong

open Transition

section Effort

/-- The writer's part of the statements left. -/
def writerEffort (s : State) : ℕ :=
  match s.writer.pc with
  | .waiting =>
      if s.job.semJobReady then if s.job.stop then 2 else 3 * s.job.len + 12 else 0
  | .testStop => if s.job.stop then 1 else 3 * s.job.len + 11
  | .loadData => 3 * s.job.len + 10
  | .loadLen => 3 * s.job.len + 9
  | .copy => 3 * (s.writer.remaining - s.writer.offset) + 8
  | .write => 3 * (s.writer.remaining - s.writer.offset) + 7
  | .rewrite => 3 * (s.writer.remaining - s.writer.offset) + 6
  | .setError => 3
  | .setDone => 2
  | .giveDone => 1
  | .absent | .exited => 0

/-- The net task's part. A byte of the buffer counts for less once the writer has it. -/
def netEffort (n : NetTask) : ℕ :=
  match n.pc with
  | .fill => 40 * n.bufFilled + 21
  | .filled => 40 * n.bufFilled + 20
  | .testPending => 40 * n.bufFilled + 19
  | .takeDone => 40 * n.bufFilled + 18
  | .testError => 40 * n.bufFilled + 17
  | .setData => 40 * n.bufFilled + 16
  | .setLen => 40 * n.bufFilled + 15
  | .setError => 40 * n.bufFilled + 14
  | .setDone => 40 * n.bufFilled + 13
  | .giveReady => 40 * n.bufFilled + 12
  | .swap => 20 * n.bufFilled + 11
  | .testFinal => 10
  | .takeFinal => 9
  | .finalError => 8
  | .release => 7
  | .idle => 6
  | .stopFlag => 5
  | .stopGive => 4
  | .stopDelete => 1
  | .ended => 0

/-- A bound on the statements left when nothing more is read and no file is opened. -/
def effort (s : State) : ℕ := netEffort s.net + writerEffort s

/-- What an action adds to it. -/
def Act.cost : Act → ℕ
  | .net (.read (.data bs)) => 41 * bs.length
  | .net (.nextFile _ _ _) => 16
  | _ => 0

/-- The buffer that is handed to the writer is not empty. -/
def Nonempty (s : State) : Prop :=
  s.net.pc = .testPending ∨ s.net.pc = .takeDone ∨ s.net.pc = .testError ∨
    s.net.pc = .setData ∨ s.net.pc = .setLen ∨ s.net.pc = .setError ∨ s.net.pc = .setDone ∨
    s.net.pc = .giveReady ∨ s.net.pc = .swap → 0 < s.net.bufFilled

/-- A state of a session, with what its effort depends on. -/
structure Lively (cap : ℕ) (s : State) : Prop where
  session : Session cap s
  filled : Nonempty s
  copies : s.writer.pc = .write → s.writer.offset < s.writer.remaining

attribute [local grind =] Nonempty NetTask.openFile SdWriteJob.start

theorem Lively.step {cap : ℕ} {s t : State} {a : Act} (hs : Lively cap s)
    (h : PingPong.step cap s a = some t) : Lively cap t := by
  obtain ⟨hsession, hfilled, hcopies⟩ := hs
  cases a with
  | net i =>
      cases netMove_of_netStep h with
      | _ => refine ⟨hsession.tail h, ?_, ?_⟩ <;> grind -ring -linarith -order -ac
  | writer k =>
      cases writerMove_of_writerStep h with
      | _ =>
          refine ⟨hsession.tail h, hfilled, ?_⟩
          grind -ring -linarith -order -ac

theorem lively_init (cap : ℕ) : Lively cap init :=
  ⟨Reaches.refl _ _, by grind -ring -linarith -order -ac [init], by simp [init]⟩

attribute [local grind =] effort netEffort writerEffort bounceSize Act.cost NetTask.awaits
  NetPc.Stopping WriterPc.HasJob WriterPc.Draining

/-- A statement of the net task is paid for. -/
theorem effort_netStep {cap : ℕ} (hcap : 0 < cap) {s t : State} {i : NetInput}
    (hs : Lively cap s) (h : netStep cap s i = some t) :
    effort t + 1 ≤ effort s + (Act.net i).cost := by
  obtain ⟨hsession, hfilled, -⟩ := hs
  rcases hsession.coherent with ⟨⟨τ, hτ⟩, hl, -⟩ | hstop
  · have hidle := hτ.idle
    have hready := hτ.ready
    have hdone := hτ.done
    have hawaits := hτ.awaits
    have hhandle := hτ.handle
    have hstop := hτ.stop
    have hlen := hl.len
    revert h
    fun_cases netStep cap s i
    case case8 hfill hlt bs hle hne =>
      rintro ⟨⟩
      have hpos : 0 < bs.length := List.length_pos_of_ne_nil hne
      grind -ring -linarith -order -ac
    all_goals
      rintro ⟨⟩ <;> grind -ring -linarith -order -ac
  · have hstopping := hstop.stopping
    cases netMove_of_netStep h with
    | stopDelete hpc => grind -ring -linarith -order -ac
    | _ => grind -ring -linarith -order -ac

/-- So is one of the writer. -/
theorem effort_writerStep {cap : ℕ} {s t : State} {k : ℕ} (hs : Lively cap s)
    (h : writerStep s k = some t) : effort t + 1 ≤ effort s := by
  have hmove := writerMove_of_writerStep h
  rcases hs.session.coherent with ⟨⟨τ, hτ⟩, hl, -⟩ | hstop
  · have hstop := hτ.stop
    have hbusy := hτ.turn_writer
    have hposted := hτ.turn_posted
    have hawaits := hτ.awaits
    have hcopies := hs.copies
    have hremaining := hl.remaining
    have hchunk := hl.chunk
    have hwritten := hl.written
    cases hmove with
    | _ => grind -ring -linarith -order -ac
  · have hstopping := hstop.stopping
    have hwriter := hstop.writer
    cases hmove with
    | _ => grind -ring -linarith -order -ac

end Effort

section Moves

/-- What the environment can answer to the statement of the net task. -/
def Answers (cap : ℕ) (s : State) : NetInput → Prop
  | .nextFile _ _ _ => s.net.pc = .idle
  | .stop => s.net.pc = .idle
  | .read .error => s.net.pc = .fill ∧ s.net.bufFilled < cap
  | .read (.data bs) => s.net.pc = .fill ∧ s.net.bufFilled < cap ∧
      bs.length ≤ cap - s.net.bufFilled
  | .go => s.net.pc ≠ .idle ∧ (s.net.pc = .fill → cap ≤ s.net.bufFilled)

/-- The net task can do its statement, whatever it is answered. -/
def NetMoves (cap : ℕ) (s : State) : Prop :=
  (∃ i, Answers cap s i) ∧ ∀ i, Answers cap s i → ∃ t, netStep cap s i = some t

/-- So can the writer, however much of what it gives to `fwrite` is accepted. -/
def WriterMoves (s : State) : Prop :=
  ∀ k, (∀ c ∈ s.writer.fwrite, k ≤ c.count) → ∃ t, writerStep s k = some t

theorem exists_answers (cap : ℕ) (s : State) : ∃ i, Answers cap s i := by
  by_cases hidle : s.net.pc = .idle
  · exact ⟨.stop, hidle⟩
  by_cases hfill : s.net.pc = .fill ∧ s.net.bufFilled < cap
  · exact ⟨.read .error, hfill⟩
  · exact ⟨.go, hidle, fun hpc => Nat.le_of_not_lt fun hlt => hfill ⟨hpc, hlt⟩⟩

/-- The net task waits for nothing but `sem_job_done`. -/
theorem netMoves {cap : ℕ} {s : State} (hended : s.net.pc ≠ .ended)
    (hdone : s.net.pc = .takeDone ∨ s.net.pc = .takeFinal → s.job.semJobDone = true) :
    NetMoves cap s := by
  refine ⟨exists_answers cap s, fun i hi => ?_⟩
  rw [← Option.isSome_iff_exists]
  cases i with
  | nextFile started downloaded expected =>
      have hpc : s.net.pc = .idle := hi
      simp only [netStep, hpc]
      split
      · rfl
      · split
        · rfl
        · rfl
  | stop =>
      have hpc : s.net.pc = .idle := hi
      simp only [netStep, hpc]
      split
      · rfl
      · rfl
  | read result =>
      cases result with
      | error =>
          obtain ⟨hpc, hlt⟩ := hi
          simp only [netStep, hpc, if_pos hlt]
          rfl
      | data bs =>
          obtain ⟨hpc, hlt, hle⟩ := hi
          simp only [netStep, hpc, if_pos hlt, if_pos hle]
          split
          · rfl
          · rfl
  | go =>
      obtain ⟨hidle, hfull⟩ := hi
      cases hpc : s.net.pc with
      | idle => exact absurd hpc hidle
      | ended => exact absurd hpc hended
      | fill =>
          have hge := hfull hpc
          simp only [netStep, hpc, if_neg (Nat.not_lt.2 hge)]
          rfl
      | takeDone | takeFinal =>
          have htaken := hdone (by simp [hpc])
          simp only [netStep, hpc, if_pos htaken]
          rfl
      | filled | testPending | testError | swap | testFinal =>
          simp only [netStep, hpc]
          split
          · rfl
          · rfl
      | _ =>
          simp only [netStep, hpc]
          rfl

/-- While the net task waits for `sem_job_done` the writer has something to do. -/
theorem Handshake.writerMoves {cap : ℕ} {τ : Turn} {s : State} (hs : Handshake τ s)
    (hl : Layout cap s) (hpc : s.net.pc = .takeDone ∨ s.net.pc = .takeFinal)
    (hdone : s.job.semJobDone = false) : WriterMoves s := by
  intro k hk
  have hawaits : s.net.awaits = true := by
    rcases hpc with hpc | hpc
    · rw [NetTask.awaits, hpc]
    · rw [NetTask.awaits, hpc]
  have hreported := hs.done
  rw [hdone] at hreported
  cases τ with
  | net => exact absurd rfl (hs.turn_ne_net hawaits)
  | reported => exact absurd hreported (by decide)
  | writer => exact exists_writerStep (hs.busy rfl) hl.written hk
  | posted =>
      -- the signal is pending, and the writer waits for it
      have hhandle : s.net.handle = true := by
        apply hs.handle
        rcases hpc with hpc | hpc
        · simp [hpc]
        · simp [hpc]
      have hwaiting := hs.idle (by decide)
      have hready := hs.ready
      rw [if_pos hhandle] at hwaiting
      rw [← Option.isSome_iff_exists]
      simp only [writerStep, hwaiting, hready, decide_true, if_true]
      rfl

/-- Until the net task has ended some task can do its next statement. -/
theorem canMove_of_session {cap : ℕ} {s : State} (hs : Session cap s)
    (hended : s.net.pc ≠ .ended) : NetMoves cap s ∨ WriterMoves s := by
  by_cases hwaits : (s.net.pc = .takeDone ∨ s.net.pc = .takeFinal) ∧ s.job.semJobDone = false
  · obtain ⟨hpc, hdone⟩ := hwaits
    rcases hs.coherent with ⟨⟨τ, hτ⟩, hl, -⟩ | hstop
    · exact Or.inr (hτ.writerMoves hl hpc hdone)
    · rcases hstop.stopping with hstopping | hstopping
      · rw [hstopping] at hpc
        simp at hpc
      · exact absurd hstopping hended
  · left
    refine netMoves hended fun hpc => ?_
    rw [← Bool.not_eq_false]
    exact fun hdone => hwaits ⟨hpc, hdone⟩

end Moves

section Sessions

/-- The bytes the reads of a session have returned. -/
def bytesRead : List Act → ℕ
  | [] => 0
  | .net (.read (.data bs)) :: as => bs.length + bytesRead as
  | _ :: as => bytesRead as

/-- The calls of `download_file_standalone` that came to the loop. -/
def filesOpened : List Act → ℕ
  | [] => 0
  | .net (.nextFile _ _ _) :: as => filesOpened as + 1
  | _ :: as => filesOpened as

theorem income_eq (as : List Act) :
    income Act.cost as = 41 * bytesRead as + 16 * filesOpened as := by
  induction as with
  | nil => rfl
  | cons a as ih =>
      rw [income_cons, ih]
      match a with
      | .net (.read (.data bs)) =>
          simp only [Act.cost, bytesRead, filesOpened]
          omega
      | .net (.nextFile started downloaded expected) =>
          simp only [Act.cost, bytesRead, filesOpened]
          omega
      | .net (.read .error) | .net .go | .net .stop | .writer k =>
          simp only [Act.cost, bytesRead, filesOpened, Nat.zero_add]

theorem effort_step {cap : ℕ} (hcap : 0 < cap) :
    Pays (PingPong.step cap) (Lively cap) effort Act.cost := by
  intro s a t hs h
  cases a with
  | net i => exact effort_netStep hcap hs h
  | writer k => exact effort_writerStep hs h

/-- In every run of a session, with any results of the reads, of `fwrite` and of the
start of the writer and in any order of the two tasks: the number of statements done is
bounded by the bytes read and the files opened, and until the net task has ended some
task can do its next one, whatever it is answered. -/
theorem session_lives {cap : ℕ} (hcap : 0 < cap) {as : List Act} {s : State}
    (hrun : run (PingPong.step cap) init as = some s) :
    as.length ≤ 41 * bytesRead as + 16 * filesOpened as + 6 ∧
      (s.net.pc ≠ .ended → NetMoves cap s ∨ WriterMoves s) := by
  refine ⟨?_, canMove_of_session (Reaches.of_run hrun)⟩
  have hbound := (effort_step hcap).length_le (fun _ _ _ hs h => hs.step h) (lively_init cap) hrun
  have hstart : effort init = 6 := rfl
  rw [income_eq, hstart] at hbound
  omega

theorem session_lives_oneFile :
    oneFile.length ≤ 145 ∧ ∃ s, run (PingPong.step 2) init oneFile = some s ∧
      (NetMoves 2 s ∨ WriterMoves s) := by
  have hcap : 0 < 2 := by decide
  have hrun : (run (PingPong.step 2) init oneFile).isSome = true := rfl
  obtain ⟨s, hs⟩ := Option.isSome_iff_exists.1 hrun
  obtain ⟨hlength, hmoves⟩ := session_lives hcap hs
  have hends : (run (PingPong.step 2) init oneFile).all fun s => s.net.pc ≠ .ended := rfl
  refine ⟨hlength, s, hs, hmoves ?_⟩
  rw [hs] at hends
  exact of_decide_eq_true hends

end Sessions

end PingPong

end SimiboxDownloader
