import SimiboxDownloader.PingPong.Moves

/-!
# The hand-over of the job record

The record `s_sd_job` is in one of four places: with the net task, posted to the
writer (`sem_job_ready` given), with the writer, or reported back
(`sem_job_done` given). `Turn` is that abstract protocol, a cycle of four
states. `Handshake τ s` says that the program counters, the two semaphores and
the pending flag of `s` agree with the place `τ`, and every step of a task
either leaves the place alone or moves it to the next one. Once
`stop_sd_writer_task` has given `sem_job_ready` for the last time the writer
only leaves, which is `Stopping`.
-/

namespace SimiboxDownloader

namespace PingPong

/-- Where the job record is. -/
inductive Turn
  | net
  | posted
  | writer
  | reported
  deriving DecidableEq

/-- The next place of the job record. -/
def Turn.next : Turn → Turn
  | .net => .posted
  | .posted => .writer
  | .writer => .reported
  | .reported => .net

/-- The writer has taken a job and not yet reported it. -/
def WriterPc.HasJob (pc : WriterPc) : Prop :=
  pc ≠ .absent ∧ pc ≠ .waiting ∧ pc ≠ .exited

/-- The writer has a job and has read its number. -/
def WriterPc.Loaded (pc : WriterPc) : Prop :=
  pc.HasJob ∧ pc ≠ .testStop ∧ pc ≠ .loadData

/-- The net task has a job out: it must take `sem_job_done` before it may kick
off another one. -/
def NetTask.awaits (n : NetTask) : Bool :=
  match n.pc with
  | .takeDone | .swap | .takeFinal => true
  | .fill | .filled | .testPending | .testFinal => n.sdWritePending
  | _ => false

/-- `stop_sd_writer_task` has woken the writer to exit, or there is none. -/
def NetPc.Stopping (pc : NetPc) : Prop := pc = .stopDelete ∨ pc = .ended

/-- The state agrees with the place `τ` of the job record. -/
structure Handshake (τ : Turn) (s : State) : Prop where
  running : ¬ s.net.pc.Stopping
  ready : s.job.semJobReady = decide (τ = .posted)
  done : s.job.semJobDone = decide (τ = .reported)
  busy : τ = .writer → s.writer.pc.HasJob
  idle : τ ≠ .writer → s.writer.pc = if s.net.handle then .waiting else .absent
  awaits : s.net.awaits = decide (τ ≠ .net)
  handle : s.net.pc ≠ .idle → s.net.handle = true
  kicked : s.net.pc = .giveReady ∨ s.net.pc = .swap → s.net.sdWritePending = true
  waited : s.net.pc = .testError → s.net.sdWritePending = false
  stop : s.job.stop = true ↔ s.net.pc = .stopGive
  count : s.net.taken + (if τ = .net then 0 else 1) = s.job.no
  number : s.writer.pc.Loaded → s.writer.no = s.job.no
  error : s.writer.pc = .setDone ∨ s.writer.pc = .giveDone → s.job.sdError = s.writer.error
  verdict : τ = .reported ∨ s.net.pc = .testError ∨ s.net.pc = .finalError →
    s.verdict = (s.job.no, s.job.sdError)

/-- The writer has nothing left to do but to see the stop flag and exit. -/
structure Stopping (s : State) : Prop where
  stopping : s.net.pc.Stopping
  count : s.net.taken = s.job.no
  done : s.job.semJobDone = false
  ready : s.job.semJobReady = true → s.writer.pc = .waiting ∧ s.job.stop = true
  ended : s.net.pc = .ended → s.job.semJobReady = false
  writer : s.writer.pc = .absent ∨ s.writer.pc = .waiting ∨ s.writer.pc = .exited ∨
    s.writer.pc = .testStop ∧ s.job.stop = true

attribute [local grind =] NetTask.awaits NetTask.openFile SdWriteJob.start Turn.next
  NetPc.Stopping WriterPc.HasJob WriterPc.Loaded
attribute [local grind cases eager] Handshake Stopping

theorem Handshake.turn_net {τ : Turn} {s : State} (hs : Handshake τ s)
    (h : s.net.awaits = false) : τ = .net := by
  simpa [h] using hs.awaits

theorem Handshake.turn_ne_net {τ : Turn} {s : State} (hs : Handshake τ s)
    (h : s.net.awaits = true) : τ ≠ .net := by
  simpa [h] using hs.awaits

theorem Handshake.turn_reported {τ : Turn} {s : State} (hs : Handshake τ s)
    (h : s.job.semJobDone = true) : τ = .reported := by
  simpa [h] using hs.done.symm

theorem Handshake.turn_posted {τ : Turn} {s : State} (hs : Handshake τ s)
    (h : s.job.semJobReady = true) : τ = .posted := by
  simpa [h] using hs.ready.symm

theorem Handshake.turn_writer {τ : Turn} {s : State} (hs : Handshake τ s)
    (h : s.writer.pc.HasJob) : τ = .writer := by
  by_contra hne
  have hidle := hs.idle hne
  have hab := h.1
  have hwa := h.2.1
  split at hidle <;> contradiction

/-- At the start nothing is out. -/
theorem handshake_init : Handshake .net init := by
  constructor <;> grind -ring -linarith -order -ac [init]

/-- A step of the net task leaves the job record where it is or hands it on. -/
theorem Handshake.netMove {cap : ℕ} {τ : Turn} {s t : State} (hs : Handshake τ s)
    (h : NetMove cap s t) : Handshake τ t ∨ Handshake τ.next t ∨ Stopping t := by
  have hnet := hs.turn_net
  cases h with
  | takeDone hpc hd | takeFinal hpc hd =>
      -- the signal of the writer brings the record back
      obtain rfl := hs.turn_reported hd
      right; left
      constructor <;> grind -ring -linarith -order -ac
  | giveReady hpc =>
      -- the signal to the writer posts it
      obtain rfl := hnet (by simp [NetTask.awaits, hpc])
      right; left
      constructor <;> grind -ring -linarith -order -ac
  | stopNoTask | stopGive =>
      right; right
      constructor <;> grind -ring -linarith -order -ac
  | stopDelete hpc => exact absurd (Or.inl hpc) hs.running
  | _ =>
      left
      constructor <;> grind -ring -linarith -order -ac

/-- A step of the writer task leaves the job record where it is or hands it on. -/
theorem Handshake.writerMove {τ : Turn} {s t : State} (hs : Handshake τ s)
    (h : WriterMove s t) : Handshake τ t ∨ Handshake τ.next t := by
  have hwriter := hs.turn_writer
  cases h with
  | take hpc hr =>
      obtain rfl := hs.turn_posted hr
      right
      constructor <;> grind -ring -linarith -order -ac
  | giveDone hpc =>
      obtain rfl := hwriter (by simp [WriterPc.HasJob, hpc])
      right
      constructor <;> grind -ring -linarith -order -ac
  | _ =>
      left
      constructor <;> grind -ring -linarith -order -ac

theorem Stopping.netMove {cap : ℕ} {s t : State} (hs : Stopping s)
    (h : NetMove cap s t) : Stopping t := by
  have hstop := hs.stopping
  cases h with
  | stopDelete => constructor <;> grind -ring -linarith -order -ac
  | _ => grind -ring -linarith -order -ac

theorem Stopping.writerMove {s t : State} (hs : Stopping s) (h : WriterMove s t) :
    Stopping t := by
  cases h <;> constructor <;> grind -ring -linarith -order -ac

/-- In every state of a session the job record is in one of its four places, or
the session is at its end. -/
theorem Session.handshake {cap : ℕ} {s : State} (hs : Session cap s) :
    (∃ τ, Handshake τ s) ∨ Stopping s := by
  refine Transition.Reaches.invariant (P := fun s => (∃ τ, Handshake τ s) ∨ Stopping s)
    ?_ hs (Or.inl ⟨_, handshake_init⟩)
  rintro s (i | k) t (⟨τ, hτ⟩ | hstop) h
  · rcases hτ.netMove (netMove_of_netStep h) with h' | h' | h'
    exacts [Or.inl ⟨_, h'⟩, Or.inl ⟨_, h'⟩, Or.inr h']
  · exact Or.inr (hstop.netMove (netMove_of_netStep h))
  · rcases hτ.writerMove (writerMove_of_writerStep h) with h' | h'
    exacts [Or.inl ⟨_, h'⟩, Or.inl ⟨_, h'⟩]
  · exact Or.inr (hstop.writerMove (writerMove_of_writerStep h))

end PingPong

end SimiboxDownloader
