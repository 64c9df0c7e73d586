import SimiboxDownloader.PingPong.Tasks

/-!
# What one step of a task can do

`NetMove` and `WriterMove` list the steps of the two tasks, one constructor for
each way a statement can go, with the condition under which it goes that way.
`netMove_of_netStep` and `writerMove_of_writerStep` say that the step functions
do nothing else; every invariant of the session is proved from these lists.
-/

namespace SimiboxDownloader

namespace PingPong

/-- The steps of the net task from `s`. -/
inductive NetMove (cap : ℕ) (s : State) : State → Prop
  | openNext {downloaded expected : ℤ} (hpc : s.net.pc = .idle) (hh : s.net.handle = true) :
      NetMove cap s { s with net := s.net.openFile downloaded expected,
                             job := { s.job with file := s.net.file + 1 } }
  | openFirst {downloaded expected : ℤ} (hpc : s.net.pc = .idle)
      (hh : s.net.handle = false) :
      NetMove cap s { s with net := s.net.openFile downloaded expected,
                             job := { s.job.start with file := s.net.file + 1 },
                             writer := { s.writer with pc := .waiting } }
  | openFailed (hpc : s.net.pc = .idle) (hh : s.net.handle = false) :
      NetMove cap s { s with net := { s.net with file := s.net.file + 1 },
                             job := s.job.start }
  | stopTask (hpc : s.net.pc = .idle) (hh : s.net.handle = true) :
      NetMove cap s { s with net := { s.net with pc := .stopFlag } }
  | stopNoTask (hpc : s.net.pc = .idle) (hh : s.net.handle = false) :
      NetMove cap s { s with net := { s.net with pc := .stopDelete } }
  | readError (hpc : s.net.pc = .fill) (hlt : s.net.bufFilled < cap) :
      NetMove cap s { s with net := { s.net with netError := true, pc := .filled } }
  | readEnd (hpc : s.net.pc = .fill) (hlt : s.net.bufFilled < cap) :
      NetMove cap s { s with net := { s.net with pc := .filled } }
  | readData (bs : List Byte) (hpc : s.net.pc = .fill) (hlt : s.net.bufFilled < cap)
      (hne : bs ≠ []) (hle : bs.length ≤ cap - s.net.bufFilled) :
      NetMove cap s { s with
        sBuf := Function.update s.sBuf s.net.cur
          (Memory.store (s.sBuf s.net.cur) s.net.bufFilled bs),
        net := { s.net with
          bufFilled := s.net.bufFilled + bs.length,
          total := toInt32 (s.net.total + bs.length),
          downloaded := s.net.downloaded + bs.length,
          received := s.net.received ++ bs,
          shown := s.net.shown ++
            updateLedProgress (s.net.downloaded + bs.length) s.net.expected } }
  | full (hpc : s.net.pc = .fill) (hge : ¬ s.net.bufFilled < cap) :
      NetMove cap s { s with net := { s.net with pc := .filled } }
  | leave (hpc : s.net.pc = .filled) (hl : s.net.netError = true ∨ s.net.bufFilled = 0) :
      NetMove cap s { s with net := { s.net with pc := .testFinal } }
  | keep (hpc : s.net.pc = .filled) (hl : ¬ (s.net.netError = true ∨ s.net.bufFilled = 0)) :
      NetMove cap s { s with net := { s.net with pc := .testPending } }
  | mustWait (hpc : s.net.pc = .testPending) (hp : s.net.sdWritePending = true) :
      NetMove cap s { s with net := { s.net with pc := .takeDone } }
  | mayKick (hpc : s.net.pc = .testPending) (hp : s.net.sdWritePending = false) :
      NetMove cap s { s with net := { s.net with pc := .setData } }
  | takeDone (hpc : s.net.pc = .takeDone) (hd : s.job.semJobDone = true) :
      NetMove cap s { s with job := { s.job with semJobDone := false },
                             net := { s.net with sdWritePending := false,
                                                 taken := s.net.taken + 1, pc := .testError } }
  | errorSeen (hpc : s.net.pc = .testError) (he : s.job.sdError = true) :
      NetMove cap s { s with net := { s.net with sdError := true, pc := .testFinal } }
  | noError (hpc : s.net.pc = .testError) (he : s.job.sdError = false) :
      NetMove cap s { s with net := { s.net with pc := .setData } }
  | setData (hpc : s.net.pc = .setData) :
      NetMove cap s { s with job := { s.job with data := s.net.cur },
                             net := { s.net with pc := .setLen } }
  | setLen (hpc : s.net.pc = .setLen) :
      NetMove cap s { s with job := { s.job with len := s.net.bufFilled },
                             net := { s.net with pc := .setError } }
  | setError (hpc : s.net.pc = .setError) :
      NetMove cap s { s with job := { s.job with sdError := false },
                             net := { s.net with pc := .setDone } }
  | setDone (hpc : s.net.pc = .setDone) :
      NetMove cap s { s with job := { s.job with done := false },
                             net := { s.net with sdWritePending := true, pc := .giveReady } }
  | giveReady (hpc : s.net.pc = .giveReady) :
      NetMove cap s { s with job := { s.job with semJobReady := true, no := s.job.no + 1 },
                             net := { s.net with pc := .swap } }
  | swapLast (hpc : s.net.pc = .swap) (hlt : s.net.bufFilled < cap) :
      NetMove cap s { s with net := { s.net with cur := other s.net.cur, pc := .testFinal } }
  | swapMore (hpc : s.net.pc = .swap) (hge : ¬ s.net.bufFilled < cap) :
      NetMove cap s { s with net := { s.net with cur := other s.net.cur, bufFilled := 0,
                                                 pc := .fill } }
  | finalWait (hpc : s.net.pc = .testFinal) (hp : s.net.sdWritePending = true) :
      NetMove cap s { s with net := { s.net with pc := .takeFinal } }
  | finalSkip (hpc : s.net.pc = .testFinal) (hp : s.net.sdWritePending = false) :
      NetMove cap s { s with net := { s.net with pc := .release } }
  | takeFinal (hpc : s.net.pc = .takeFinal) (hd : s.job.semJobDone = true) :
      NetMove cap s { s with job := { s.job with semJobDone := false },
                             net := { s.net with sdWritePending := false,
                                                 taken := s.net.taken + 1,
                                                 pc := .finalError } }
  | finalError (hpc : s.net.pc = .finalError) :
      NetMove cap s { s with net := { s.net with sdError := s.net.sdError || s.job.sdError,
                                                 pc := .release } }
  | close (hpc : s.net.pc = .release) :
      NetMove cap s { s with net := { s.net with pc := .idle } }
  | stopFlag (hpc : s.net.pc = .stopFlag) :
      NetMove cap s { s with job := { s.job with stop := true },
                             net := { s.net with pc := .stopGive } }
  | stopGive (hpc : s.net.pc = .stopGive) :
      NetMove cap s { s with job := { s.job with semJobReady := true },
                             net := { s.net with pc := .stopDelete } }
  | stopDelete (hpc : s.net.pc = .stopDelete) :
      NetMove cap s { s with job := { s.job with semJobReady := false, semJobDone := false },
                             net := { s.net with handle := false, pc := .ended } }

/-- The steps of the writer task from `s`. -/
inductive WriterMove (s : State) : State → Prop
  | take (hpc : s.writer.pc = .waiting) (hr : s.job.semJobReady = true) :
      WriterMove s { s with job := { s.job with semJobReady := false },
                            writer := { s.writer with pc := .testStop } }
  | exit (hpc : s.writer.pc = .testStop) (hs : s.job.stop = true) :
      WriterMove s { s with writer := { s.writer with pc := .exited } }
  | accept (hpc : s.writer.pc = .testStop) (hs : s.job.stop = false) :
      WriterMove s { s with writer := { s.writer with pc := .loadData } }
  | loadData (hpc : s.writer.pc = .loadData) :
      WriterMove s { s with writer := { s.writer with data := s.job.data, no := s.job.no,
                                                      pc := .loadLen } }
  | loadLen (hpc : s.writer.pc = .loadLen) :
      WriterMove s { s with writer := { s.writer with remaining := s.job.len, offset := 0,
                                                      error := false, pc := .copy } }
  | copy (hpc : s.writer.pc = .copy) (hlt : s.writer.offset < s.writer.remaining) :
      WriterMove s { s with writer := { s.writer with
        chunk := min bounceSize (s.writer.remaining - s.writer.offset),
        bounce := Memory.slice (s.sBuf s.writer.data) s.writer.offset
          (min bounceSize (s.writer.remaining - s.writer.offset)),
        pc := .write } }
  | drained (hpc : s.writer.pc = .copy) (hge : ¬ s.writer.offset < s.writer.remaining) :
      WriterMove s { s with writer := { s.writer with pc := .setError } }
  | writeAll (hpc : s.writer.pc = .write) :
      WriterMove s { s with
        files := Function.update s.files s.job.file
          (s.files s.job.file ++ s.writer.bounce.take s.writer.chunk),
        writer := { s.writer with offset := s.writer.offset + s.writer.chunk, pc := .copy } }
  | writeShort (k : ℕ) (hpc : s.writer.pc = .write) (hlt : k < s.writer.chunk) :
      WriterMove s { s with
        files := Function.update s.files s.job.file
          (s.files s.job.file ++ s.writer.bounce.take k),
        writer := { s.writer with written := k, pc := .rewrite } }
  | rewriteAll (k : ℕ) (hpc : s.writer.pc = .rewrite)
      (heq : s.writer.written + k = s.writer.chunk) :
      WriterMove s { s with
        files := Function.update s.files s.job.file
          (s.files s.job.file ++ (s.writer.bounce.drop s.writer.written).take k),
        writer := { s.writer with offset := s.writer.offset + s.writer.chunk, pc := .copy } }
  | rewriteShort (k : ℕ) (hpc : s.writer.pc = .rewrite)
      (hlt : s.writer.written + k < s.writer.chunk) :
      WriterMove s { s with
        files := Function.update s.files s.job.file
          (s.files s.job.file ++ (s.writer.bounce.drop s.writer.written).take k),
        writer := { s.writer with error := true, pc := .setError } }
  | setError (hpc : s.writer.pc = .setError) :
      WriterMove s { s with job := { s.job with sdError := s.writer.error },
                            writer := { s.writer with pc := .setDone } }
  | setDone (hpc : s.writer.pc = .setDone) :
      WriterMove s { s with job := { s.job with done := true },
                            writer := { s.writer with pc := .giveDone } }
  | giveDone (hpc : s.writer.pc = .giveDone) :
      WriterMove s { s with job := { s.job with semJobDone := true },
                            verdict := (s.writer.no, s.writer.error),
                            writer := { s.writer with pc := .waiting } }

/-- The net task does nothing but the listed moves. -/
theorem netMove_of_netStep {cap : ℕ} {s t : State} {i : NetInput}
    (h : netStep cap s i = some t) : NetMove cap s t := by
  revert h
  fun_cases netStep cap s i <;> rintro ⟨⟩
  case case1 hpc hh => exact .openNext hpc hh
  case case2 hpc hh => exact .openFirst hpc (eq_false_of_ne_true hh)
  case case3 hpc hh _ => exact .openFailed hpc (eq_false_of_ne_true hh)
  case case4 hpc hh => exact .stopTask hpc hh
  case case5 hpc hh => exact .stopNoTask hpc (eq_false_of_ne_true hh)
  case case6 hpc hlt => exact .readError hpc hlt
  case case7 hpc hlt _ => exact .readEnd hpc hlt
  case case8 hpc hlt bs hle hne => exact .readData bs hpc hlt hne hle
  case case12 hpc hge => exact .full hpc hge
  case case13 hpc hl => exact .leave hpc hl
  case case14 hpc hl => exact .keep hpc hl
  case case15 hpc hp => exact .mustWait hpc hp
  case case16 hpc hp => exact .mayKick hpc (eq_false_of_ne_true hp)
  case case17 hpc hd => exact .takeDone hpc hd
  case case19 hpc he => exact .errorSeen hpc he
  case case20 hpc he => exact .noError hpc (eq_false_of_ne_true he)
  case case21 hpc => exact .setData hpc
  case case22 hpc => exact .setLen hpc
  case case23 hpc => exact .setError hpc
  case case24 hpc => exact .setDone hpc
  case case25 hpc => exact .giveReady hpc
  case case26 hpc hlt => exact .swapLast hpc hlt
  case case27 hpc hge => exact .swapMore hpc hge
  case case28 hpc hp => exact .finalWait hpc hp
  case case29 hpc hp => exact .finalSkip hpc (eq_false_of_ne_true hp)
  case case30 hpc hd => exact .takeFinal hpc hd
  case case32 hpc => exact .finalError hpc
  case case33 hpc => exact .close hpc
  case case34 hpc => exact .stopFlag hpc
  case case35 hpc => exact .stopGive hpc
  case case36 hpc => exact .stopDelete hpc

/-- The writer task does nothing but the listed moves. -/
theorem writerMove_of_writerStep {s t : State} {k : ℕ}
    (h : writerStep s k = some t) : WriterMove s t := by
  revert h
  fun_cases writerStep s k <;> rintro ⟨⟩
  case case2 hpc hr => exact .take hpc hr
  case case4 hpc hs => exact .exit hpc hs
  case case5 hpc hs => exact .accept hpc (eq_false_of_ne_true hs)
  case case6 hpc => exact .loadData hpc
  case case7 hpc => exact .loadLen hpc
  case case8 hpc hlt => exact .copy hpc hlt
  case case9 hpc hge => exact .drained hpc hge
  case case10 hpc hk =>
    rw [hk]
    exact .writeAll hpc
  case case11 hpc _ hlt => exact .writeShort k hpc hlt
  case case13 hpc heq => exact .rewriteAll k hpc heq
  case case14 hpc _ hlt => exact .rewriteShort k hpc hlt
  case case16 hpc => exact .setError hpc
  case case17 hpc => exact .setDone hpc
  case case18 hpc => exact .giveDone hpc

end PingPong

end SimiboxDownloader
