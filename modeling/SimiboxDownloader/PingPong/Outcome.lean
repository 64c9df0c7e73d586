import SimiboxDownloader.PingPong.Session

/-!
# The transfer of one file

`FileOutcome` is what the ping-pong loop of one file can end with, over every
session; it is all the rest of `download_file_standalone` sees of the two tasks.

A transfer is undisturbed when the reads deliver a body to its end and `fwrite`
accepts what it is given. Then every step decreases `work`, and as long as the
loop is not over some task can move: whatever the order of the steps, the
transfer ends, with the whole body received and no error
(`fileOutcome_undisturbed`).
-/

namespace SimiboxDownloader

namespace PingPong

/-- What is left of a transfer when its loop and final wait are over. -/
structure Transfer where
  received : List Byte
  accepted : List Byte
  total : ℤ
  netError : Bool
  sdError : Bool

/-- A transfer that starts with the progress statics `downloaded` and `expected`
can end with `r`. -/
def FileOutcome (cap : ℕ) (downloaded expected : ℤ) (r : Transfer) : Prop :=
  ∃ s, Session cap s ∧ s.net.pc = .release ∧
    s.net.downloaded = downloaded + s.net.received.length ∧ s.net.expected = expected ∧
    r = ⟨s.net.received, s.files s.net.file, s.net.total, s.net.netError, s.net.sdError⟩

theorem toInt32_add (x y : ℤ) : toInt32 (toInt32 x + y) = toInt32 (x + y) := by
  simp only [toInt32, Int.bmod_add_bmod]

theorem toInt32_zero : toInt32 0 = 0 := by
  simp [toInt32]

theorem toInt32_le {x : ℤ} (h : 0 ≤ x) : toInt32 x ≤ x := by
  rw [toInt32, Int.bmod_def]
  omega

/-- `total` counts the bytes received, as an `int`. -/
theorem Session.total {cap : ℕ} {s : State} (hs : Session cap s) :
    s.net.total = toInt32 s.net.received.length := by
  refine Transition.Reaches.invariant
    (P := fun s => s.net.total = toInt32 s.net.received.length) ?_ hs toInt32_zero.symm
  rintro s (i | k) t ih h
  · cases netMove_of_netStep h with
    | readData bs hpc =>
        change toInt32 (s.net.total + bs.length) = _
        rw [ih, toInt32_add]
        simp
    | openNext | openFirst => exact toInt32_zero.symm
    | _ => exact ih
  · cases writerMove_of_writerStep h <;> exact ih

theorem FileOutcome.total {cap : ℕ} {d e : ℤ} {r : Transfer} (h : FileOutcome cap d e r) :
    r.total = toInt32 r.received.length := by
  obtain ⟨s, hs, -, -, -, rfl⟩ := h
  exact hs.total

/-- Without an error `fwrite` has accepted all that was received. -/
theorem FileOutcome.accepted {cap : ℕ} {d e : ℤ} {r : Transfer} (h : FileOutcome cap d e r)
    (hnet : r.netError = false) (hsd : r.sdError = false) : r.accepted = r.received := by
  obtain ⟨s, hs, hpc, -, -, rfl⟩ := h
  rcases hs.coherent with ⟨⟨τ, hτ⟩, -, hc⟩ | hstop
  · exact hc.released hτ hpc hnet hsd
  · rcases hstop.stopping with h | h <;> rw [hpc] at h <;> cases h

/-- The environment delivers `body` to the reads, and `fwrite` accepts whole
chunks. -/
def Delivers (body : List Byte) (s : State) : Act → Prop
  | .net .go => True
  | .net (.read (.data bs)) =>
      s.net.received ++ bs <+: body ∧ (bs = [] → s.net.received = body)
  | .writer accepted => s.writer.pc = .write → accepted = s.writer.chunk
  | _ => False

/-- The file being transferred has received a part of `body`, all of it once a
buffer was not filled, and nothing has gone wrong. -/
structure Undisturbed (cap : ℕ) (body : List Byte) (downloaded expected : ℤ) (s : State) :
    Prop where
  session : Session cap s
  inFile : s.net.pc.InFile
  received : s.net.received <+: body
  downloaded : s.net.downloaded = downloaded + s.net.received.length
  expected : s.net.expected = expected
  noError : ¬ Failed s
  noRetry : s.writer.pc ≠ .rewrite
  whole : s.net.pc ≠ .fill → s.net.bufFilled < cap → s.net.received = body
  last : s.net.pc = .testFinal ∨ s.net.pc = .takeFinal ∨ s.net.pc = .finalError ∨
    s.net.pc = .release → s.net.bufFilled < cap
  kicks : s.net.pc = .testPending ∨ s.net.pc = .takeDone ∨ s.net.pc = .testError ∨
    s.net.pc = .setData ∨ s.net.pc = .setLen ∨ s.net.pc = .setError ∨ s.net.pc = .setDone ∨
    s.net.pc = .giveReady ∨ s.net.pc = .swap → 0 < s.net.bufFilled
  copies : s.writer.pc = .write → s.writer.offset < s.writer.remaining

attribute [local grind =] NetPc.InFile Failed WriterPc.HasJob WriterPc.Draining NetTask.awaits

theorem Undisturbed.coherent {cap : ℕ} {body : List Byte} {d e : ℤ} {s : State}
    (hu : Undisturbed cap body d e s) : Coherent cap s := by
  rcases hu.session.coherent with hcoh | hstop
  · exact hcoh
  · have hstopping := hstop.stopping
    have hin := hu.inFile
    rw [NetPc.Stopping] at hstopping
    grind -ring -linarith -order -ac

/-- An undisturbed transfer stays undisturbed. -/
theorem Undisturbed.step {cap : ℕ} (hcap : 0 < cap) {body : List Byte} {d e : ℤ}
    {s t : State} {a : Act} (hu : Undisturbed cap body d e s) (hpc : s.net.pc ≠ .release)
    (ha : Delivers body s a) (h : step cap s a = some t) : Undisturbed cap body d e t := by
  obtain ⟨⟨τ, hτ⟩, hl, -⟩ := hu.coherent
  have herr := hτ.error
  have hrem := hl.remaining
  have hsession : Session cap t := Transition.Reaches.tail hu.session h
  obtain ⟨-, hin, hreceived, hdownloaded, hexpected, hok, hretry, hwhole, hlast, hkicks,
    hcopies⟩ := hu
  match a with
  | .net i =>
      revert ha h
      simp only [PingPong.step]
      fun_cases netStep cap s i <;> rintro ha ⟨⟩ <;> simp only [Delivers] at ha <;>
        constructor <;> grind -ring -linarith -order -ac
  | .writer k =>
      revert ha h
      simp only [PingPong.step, Delivers]
      fun_cases writerStep s k <;> rintro ha ⟨⟩ <;>
        constructor <;> grind -ring -linarith -order -ac

/-- An upper bound of the steps the writer has to do for its job. -/
def writerWork (s : State) : ℕ :=
  match s.writer.pc with
  | .waiting => if s.job.semJobReady then 3 * s.job.len + 10 else 0
  | .testStop => 3 * s.job.len + 9
  | .loadData => 3 * s.job.len + 8
  | .loadLen => 3 * s.job.len + 7
  | .copy => 3 * (s.writer.remaining - s.writer.offset) + 5
  | .write => 3 * (s.writer.remaining - s.writer.offset) + 4
  | .setError => 3
  | .setDone => 2
  | .giveDone => 1
  | _ => 0

/-- The same for the net task, the bytes it has yet to read aside. A byte in the
buffer counts for more as long as the writer has not been given it. -/
def netWork (n : NetTask) : ℕ :=
  match n.pc with
  | .fill => 40 * n.bufFilled + 15
  | .filled => 40 * n.bufFilled + 14
  | .testPending => 40 * n.bufFilled + 13
  | .takeDone => 40 * n.bufFilled + 12
  | .testError => 40 * n.bufFilled + 11
  | .setData => 40 * n.bufFilled + 10
  | .setLen => 40 * n.bufFilled + 9
  | .setError => 40 * n.bufFilled + 8
  | .setDone => 40 * n.bufFilled + 7
  | .giveReady => 40 * n.bufFilled + 6
  | .swap => 20 * n.bufFilled + 5
  | .testFinal => 4
  | .takeFinal => 3
  | .finalError => 2
  | _ => 1

/-- An upper bound of the steps left in the transfer of `body`. -/
def work (body : List Byte) (s : State) : ℕ :=
  50 * (body.length - s.net.received.length) + netWork s.net + writerWork s

attribute [local grind =] work netWork writerWork bounceSize

/-- Every step of an undisturbed transfer leaves less to do. -/
theorem Undisturbed.work_lt {cap : ℕ} {body : List Byte} {d e : ℤ}
    {s t : State} {a : Act} (hu : Undisturbed cap body d e s) (hpc : s.net.pc ≠ .release)
    (ha : Delivers body s a) (h : PingPong.step cap s a = some t) :
    work body t < work body s := by
  obtain ⟨⟨τ, hτ⟩, hl, -⟩ := hu.coherent
  have hidle := hτ.idle
  have hready := hτ.ready
  have hdone := hτ.done
  have hbusy := hτ.busy
  have hawaits := hτ.awaits
  have hhandle := hτ.handle
  have hlen := hl.len
  have hrem := hl.remaining
  have hchunk := hl.chunk
  have hin := hu.inFile
  have hretry := hu.noRetry
  have hkicks := hu.kicks
  have hcopies := hu.copies
  match a with
  | .net i =>
      revert ha h
      simp only [PingPong.step]
      fun_cases netStep cap s i
      case case8 hfill hlt bs hle hne =>
        rintro ⟨hpre, -⟩ ⟨⟩
        have hpos : 0 < bs.length := List.length_pos_of_ne_nil hne
        have hlength := hpre.length_le
        grind -ring -linarith -order -ac
      all_goals
        rintro ha ⟨⟩ <;> simp only [Delivers] at ha <;> grind -ring -linarith -order -ac
  | .writer k =>
      revert ha h
      simp only [PingPong.step, Delivers]
      fun_cases writerStep s k <;> rintro ha ⟨⟩ <;>
        grind -ring -linarith -order -ac

/-- While the net task waits for `sem_job_done` the writer can move. -/
theorem Undisturbed.writer_progress {cap : ℕ} {body : List Byte} {d e : ℤ} {s : State}
    (hu : Undisturbed cap body d e s) (hawaits : s.net.awaits = true)
    (hdone : s.job.semJobDone = false) :
    ∃ k, Delivers body s (.writer k) ∧ (writerStep s k).isSome := by
  obtain ⟨⟨τ, hτ⟩, -, -⟩ := hu.coherent
  have hnet := hτ.turn_ne_net hawaits
  have hnoRetry := hu.noRetry
  refine ⟨s.writer.chunk, fun _ => rfl, ?_⟩
  by_cases hwriter : τ = .writer
  · obtain ⟨hab, hwa, hex⟩ := hτ.busy hwriter
    cases hpc : s.writer.pc <;> simp_all [writerStep] <;> split <;> rfl
  · have hidle := hτ.idle hwriter
    have hhandle := hτ.handle fun h => by simp [NetTask.awaits, h] at hawaits
    have hready := hτ.ready
    have hdone' := hτ.done
    cases τ <;> simp_all [writerStep]

/-- As long as the loop is not over, some task can move. -/
theorem Undisturbed.progress {cap : ℕ} {body : List Byte} {d e : ℤ} {s : State}
    (hu : Undisturbed cap body d e s) (hpc : s.net.pc ≠ .release) :
    ∃ a t, Delivers body s a ∧ PingPong.step cap s a = some t := by
  suffices h : ∃ a, Delivers body s a ∧ (PingPong.step cap s a).isSome by
    obtain ⟨a, ha, h⟩ := h
    obtain ⟨t, ht⟩ := Option.isSome_iff_exists.1 h
    exact ⟨a, t, ha, ht⟩
  have hin := hu.inFile
  rw [NetPc.InFile] at hin
  cases hp : s.net.pc with
  | fill =>
      by_cases hlt : s.net.bufFilled < cap
      · obtain ⟨rest, hrest⟩ := hu.received
        refine ⟨.net (.read (.data (rest.take (cap - s.net.bufFilled)))), ⟨?_, ?_⟩, ?_⟩
        · rw [← hrest, List.prefix_append_right_inj]
          exact List.take_prefix _ _
        · intro hnil
          rcases List.take_eq_nil_iff.1 hnil with h | h
          · omega
          · rw [← hrest, h, List.append_nil]
        · have hle : (rest.take (cap - s.net.bufFilled)).length ≤ cap - s.net.bufFilled :=
            List.length_take_le _ _
          simp only [PingPong.step, netStep, hp, if_pos hlt, if_pos hle]
          split <;> rfl
      · exact ⟨.net .go, trivial, by simp [PingPong.step, netStep, hp, hlt]⟩
  | takeDone | takeFinal =>
      by_cases hdone : s.job.semJobDone = true
      · exact ⟨.net .go, trivial, by simp [PingPong.step, netStep, hp, hdone]⟩
      · obtain ⟨k, hk, h⟩ := hu.writer_progress (by simp [NetTask.awaits, hp])
          (eq_false_of_ne_true hdone)
        exact ⟨.writer k, hk, h⟩
  | idle | stopFlag | stopGive | stopDelete | ended | release => simp_all
  | _ =>
      refine ⟨.net .go, trivial, ?_⟩
      simp only [PingPong.step, netStep, hp]
      first
        | rfl
        | split <;> rfl

/-- Every undisturbed transfer has an end. -/
theorem Undisturbed.ends {cap : ℕ} (hcap : 0 < cap) {body : List Byte} {d e : ℤ} {s : State}
    (hu : Undisturbed cap body d e s) :
    ∃ t, Undisturbed cap body d e t ∧ t.net.pc = .release := by
  induction hn : work body s using Nat.strong_induction_on generalizing s with
  | _ n ih =>
      by_cases hpc : s.net.pc = .release
      · exact ⟨s, hu, hpc⟩
      · obtain ⟨a, t, ha, h⟩ := hu.progress hpc
        have hlt := hu.work_lt hpc ha h
        exact ih _ (hn ▸ hlt) (hu.step hcap hpc ha h) rfl

/-- A transfer can end with the whole of any body and no error. -/
theorem fileOutcome_undisturbed {cap : ℕ} (hcap : 0 < cap) (d e : ℤ) (body : List Byte) :
    FileOutcome cap d e ⟨body, body, toInt32 body.length, false, false⟩ := by
  have hopen : PingPong.step cap init (.net (.nextFile true d e)) = some
      { init with net := init.net.openFile d e,
                  job := { init.job.start with file := 1 },
                  writer := { init.writer with pc := .waiting } } := rfl
  have hstart : Undisturbed cap body d e
      { init with net := init.net.openFile d e,
                  job := { init.job.start with file := 1 },
                  writer := { init.writer with pc := .waiting } } := by
    refine ⟨Transition.Reaches.tail (Transition.Reaches.refl _ _) hopen, ?_, ?_, ?_, rfl, ?_,
      ?_, ?_, ?_, ?_, ?_⟩ <;>
      simp [init, NetTask.openFile, SdWriteJob.start, NetPc.InFile, Failed]
  obtain ⟨t, hu, hpc⟩ := hstart.ends hcap
  have hrec : t.net.received = body := hu.whole (by simp [hpc]) (hu.last (by simp [hpc]))
  have hok : t.net.netError = false ∧ t.net.sdError = false := by
    have := hu.noError
    simp_all [Failed]
  refine ⟨t, hu.session, hpc, hu.downloaded, hu.expected, ?_⟩
  have hacc := hu.coherent
  obtain ⟨⟨τ, hτ⟩, -, hc⟩ := hacc
  rw [hc.released hτ hpc hok.1 hok.2, hu.session.total, hrec, hok.1, hok.2]

end PingPong

end SimiboxDownloader
