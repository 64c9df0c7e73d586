import SimiboxDownloader.Library.Transition
import SimiboxDownloader.Library.Memory
import Mathlib.Algebra.Group.Int.Defs
import Mathlib.Algebra.Group.Nat.Defs
import Mathlib.Data.Int.Basic

/-!
# The net task and the SD writer task

The two tasks of a download session, as a step function over their shared
memory. The net task runs the file loop of `download_simi_folder` and, for each
file, the ping-pong loop of `download_file_standalone`; the writer task runs
`sd_writer_task`. They share the two half-buffers `s_buf`, the record
`s_sd_job` and its two binary semaphores.

Every access to the shared memory is a step of its own, so an interleaving of
the tasks is a list of actions, each naming the task that moves and what the
environment answers it: `esp_http_client_read` to the net task, `fwrite` to the
writer. The actions before the loop (HTTP set-up, buffer allocation) and after
it touch nothing that is shared and appear as one step each.
-/

namespace SimiboxDownloader

namespace PingPong

abbrev Byte := UInt8

/-- The two half-buffers have the indices 0 and 1. -/
abbrev BufIx := Fin 2

/-- `1 - cur`, the other half-buffer. -/
def other (cur : BufIx) : BufIx := 1 - cur

/-- Size of the writer's `dram_bounce`. -/
def bounceSize : ℕ := 32768

/-- Where the net task stands: each value is one statement that reads or writes
shared memory, in program order. -/
inductive NetPc
  /-- in the file loop, no file open -/
  | idle
  /-- `while (buf_filled < s_buf_capacity)` and the read in it -/
  | fill
  /-- `if (net_error || buf_filled == 0) break;` -/
  | filled
  /-- `if (sd_write_pending)` -/
  | testPending
  /-- `xSemaphoreTake(s_sd_job.sem_job_done)` in the loop -/
  | takeDone
  /-- `if (s_sd_job.sd_error)` in the loop -/
  | testError
  /-- `s_sd_job.data = s_buf[cur];` -/
  | setData
  /-- `s_sd_job.len = buf_filled;` -/
  | setLen
  /-- `s_sd_job.sd_error = false;` -/
  | setError
  /-- `s_sd_job.done = false;` and `sd_write_pending = true;` -/
  | setDone
  /-- `xSemaphoreGive(s_sd_job.sem_job_ready)` in the loop -/
  | giveReady
  /-- `cur = 1 - cur;` and `if (buf_filled < s_buf_capacity) break;` -/
  | swap
  /-- `if (sd_write_pending)` after the loop -/
  | testFinal
  /-- `xSemaphoreTake(s_sd_job.sem_job_done)` after the loop -/
  | takeFinal
  /-- `if (s_sd_job.sd_error)` after the loop -/
  | finalError
  /-- the loop and the final wait are over, the file is still open -/
  | release
  /-- `s_sd_job.stop = true;` in `stop_sd_writer_task` -/
  | stopFlag
  /-- `xSemaphoreGive(s_sd_job.sem_job_ready)` in `stop_sd_writer_task` -/
  | stopGive
  /-- `vTaskDelay(pdMS_TO_TICKS(100))` and the deletion of the semaphores -/
  | stopDelete
  | ended
  deriving DecidableEq, Repr

/-- Where the writer task stands. -/
inductive WriterPc
  /-- the task was not created -/
  | absent
  /-- `xSemaphoreTake(job->sem_job_ready)` -/
  | waiting
  /-- `if (job->stop) break;` -/
  | testStop
  /-- `data = job->data` -/
  | loadData
  /-- `remaining = job->len` -/
  | loadLen
  /-- `while (offset < remaining)` and the copy into `dram_bounce` -/
  | copy
  /-- the first `fwrite` of a chunk -/
  | write
  /-- the `fwrite` that retries the rest of a chunk -/
  | rewrite
  /-- `job->sd_error = error;` -/
  | setError
  /-- `job->done = true;` -/
  | setDone
  /-- `xSemaphoreGive(job->sem_job_done)` -/
  | giveDone
  | exited
  deriving DecidableEq, Repr

/-- `struct SdWriteJob`. `file` is the number of the `FILE`, and `no` counts the
jobs kicked off; the code has no such counter, it names jobs in statements. -/
structure SdWriteJob where
  file : ℕ
  data : BufIx
  len : ℕ
  sdError : Bool
  done : Bool
  semJobReady : Bool
  semJobDone : Bool
  stop : Bool
  no : ℕ

/-- The locals of `download_file_standalone` and the statics its loop updates.
`received` lists the bytes the reads of the current file returned, `shown` the
percentages handed to `led_show_download_progress`, and `taken` counts the
takes of `sem_job_done`; the code keeps none of the three. -/
structure NetTask where
  pc : NetPc
  handle : Bool
  file : ℕ
  cur : BufIx
  bufFilled : ℕ
  netError : Bool
  sdError : Bool
  sdWritePending : Bool
  total : ℤ
  downloaded : ℤ
  expected : ℤ
  received : List Byte
  shown : List ℕ
  taken : ℕ

/-- The locals of `sd_writer_task`, with the number of the job it works on. -/
structure WriterTask where
  pc : WriterPc
  data : BufIx
  remaining : ℕ
  offset : ℕ
  chunk : ℕ
  written : ℕ
  error : Bool
  bounce : List Byte
  no : ℕ

/-- The shared memory and both tasks. `files k` lists the bytes `fwrite`
accepted for the `k`-th file, `verdict` the number of the job finished last and
the `error` it ended with. -/
structure State where
  net : NetTask
  writer : WriterTask
  job : SdWriteJob
  sBuf : BufIx → ℕ → Byte
  files : ℕ → List Byte
  verdict : ℕ × Bool

/-- What `esp_http_client_read` returns: a negative value, or the bytes it
stored (none of them for a return value of zero). -/
inductive ReadResult
  | error
  | data (bytes : List Byte)
  deriving DecidableEq

/-- What the environment answers to the net task. -/
inductive NetInput
  /-- the statement asks nothing of the environment -/
  | go
  /-- the return of `esp_http_client_read` -/
  | read (result : ReadResult)
  /-- another call of `download_file_standalone` got a client, buffers and an
  open file; `started` is the result of `start_sd_writer_task`, and the two
  numbers are the progress statics at that time -/
  | nextFile (started : Bool) (downloaded expected : ℤ)
  /-- the file loop is over -/
  | stop
  deriving DecidableEq

/-- An action: the task that moves, with its environment's answer. -/
inductive Act
  | net (input : NetInput)
  | writer (accepted : ℕ)
  deriving DecidableEq

/-- A C++ `int` after an addition, in two's complement. -/
def toInt32 (x : ℤ) : ℤ := Int.bmod x (2 ^ 32)

/-- `update_led_progress`: the percentage it shows, narrowed to a `uint8_t`
before it is clamped; nothing without an expected size. -/
def updateLedProgress (downloaded expected : ℤ) : List ℕ :=
  if 0 < expected then
    [min 100 (Int.toNat (((downloaded * 100).tdiv expected) % 256))]
  else []

/-- `start_sd_writer_task` at its first lines: fresh semaphores, no error. -/
def SdWriteJob.start (j : SdWriteJob) : SdWriteJob :=
  { j with semJobReady := false, semJobDone := false, stop := false,
           sdError := false, done := true }

/-- The net task at the head of the loop with a new file open. -/
def NetTask.openFile (n : NetTask) (downloaded expected : ℤ) : NetTask :=
  { n with pc := .fill, handle := true, file := n.file + 1, cur := 0,
           bufFilled := 0, netError := false, sdError := false,
           sdWritePending := false, total := 0, downloaded := downloaded,
           expected := expected, received := [] }

/-- One statement of the net task. It is `none` when the statement has to wait
(an empty semaphore) or asks the environment something else; `cap` is
`s_buf_capacity`. -/
def netStep (cap : ℕ) (s : State) (i : NetInput) : Option State :=
  let n := s.net
  match n.pc, i with
  | .idle, .nextFile started downloaded expected =>
      if n.handle then
        some { s with net := n.openFile downloaded expected,
                      job := { s.job with file := n.file + 1 } }
      else if started then
        some { s with net := n.openFile downloaded expected,
                      job := { s.job.start with file := n.file + 1 },
                      writer := { s.writer with pc := .waiting } }
      else
        -- `fclose(f)` and `DlResult::OTHER_FAILED`: no task, no loop
        some { s with net := { n with file := n.file + 1 }, job := s.job.start }
  | .idle, .stop =>
      if n.handle then some { s with net := { n with pc := .stopFlag } }
      else some { s with net := { n with pc := .stopDelete } }
  | .fill, .read result =>
      if n.bufFilled < cap then
        match result with
        | .error => some { s with net := { n with netError := true, pc := .filled } }
        | .data bs =>
            -- the client returns at most the length it was asked for
            if bs.length ≤ cap - n.bufFilled then
              if bs = [] then some { s with net := { n with pc := .filled } }
              else
                some { s with
                  sBuf := Function.update s.sBuf n.cur
                    (Memory.store (s.sBuf n.cur) n.bufFilled bs),
                  net := { n with
                    bufFilled := n.bufFilled + bs.length,
                    total := toInt32 (n.total + bs.length),
                    downloaded := n.downloaded + bs.length,
                    received := n.received ++ bs,
                    shown := n.shown ++
                      updateLedProgress (n.downloaded + bs.length) n.expected } }
            else none
      else none
  | .fill, .go =>
      if n.bufFilled < cap then none else some { s with net := { n with pc := .filled } }
  | .filled, .go =>
      if n.netError = true ∨ n.bufFilled = 0 then
        some { s with net := { n with pc := .testFinal } }
      else some { s with net := { n with pc := .testPending } }
  | .testPending, .go =>
      if n.sdWritePending then some { s with net := { n with pc := .takeDone } }
      else some { s with net := { n with pc := .setData } }
  | .takeDone, .go =>
      if s.job.semJobDone then
        some { s with job := { s.job with semJobDone := false },
                      net := { n with sdWritePending := false, taken := n.taken + 1,
                                      pc := .testError } }
      else none
  | .testError, .go =>
      if s.job.sdError then some { s with net := { n with sdError := true, pc := .testFinal } }
      else some { s with net := { n with pc := .setData } }
  | .setData, .go =>
      some { s with job := { s.job with data := n.cur }, net := { n with pc := .setLen } }
  | .setLen, .go =>
      some { s with job := { s.job with len := n.bufFilled }, net := { n with pc := .setError } }
  | .setError, .go =>
      some { s with job := { s.job with sdError := false }, net := { n with pc := .setDone } }
  | .setDone, .go =>
      some { s with job := { s.job with done := false },
                    net := { n with sdWritePending := true, pc := .giveReady } }
  | .giveReady, .go =>
      some { s with job := { s.job with semJobReady := true, no := s.job.no + 1 },
                    net := { n with pc := .swap } }
  | .swap, .go =>
      if n.bufFilled < cap then
        some { s with net := { n with cur := other n.cur, pc := .testFinal } }
      else some { s with net := { n with cur := other n.cur, bufFilled := 0, pc := .fill } }
  | .testFinal, .go =>
      if n.sdWritePending then some { s with net := { n with pc := .takeFinal } }
      else some { s with net := { n with pc := .release } }
  | .takeFinal, .go =>
      if s.job.semJobDone then
        some { s with job := { s.job with semJobDone := false },
                      net := { n with sdWritePending := false, taken := n.taken + 1,
                                      pc := .finalError } }
      else none
  | .finalError, .go =>
      some { s with net := { n with sdError := n.sdError || s.job.sdError, pc := .release } }
  | .release, .go =>
      -- `release_http_client`, then `fclose(f)` on every path, then `return`
      some { s with net := { n with pc := .idle } }
  | .stopFlag, .go =>
      some { s with job := { s.job with stop := true }, net := { n with pc := .stopGive } }
  | .stopGive, .go =>
      some { s with job := { s.job with semJobReady := true },
                    net := { n with pc := .stopDelete } }
  | .stopDelete, .go =>
      some { s with job := { s.job with semJobReady := false, semJobDone := false },
                    net := { n with handle := false, pc := .ended } }
  | _, _ => none

/-- One statement of the writer task; `accepted` is what `fwrite` returns, where
it is called. -/
def writerStep (s : State) (accepted : ℕ) : Option State :=
  let w := s.writer
  match w.pc with
  | .absent => none
  | .waiting =>
      if s.job.semJobReady then
        some { s with job := { s.job with semJobReady := false },
                      writer := { w with pc := .testStop } }
      else none
  | .testStop =>
      if s.job.stop then some { s with writer := { w with pc := .exited } }
      else some { s with writer := { w with pc := .loadData } }
  | .loadData =>
      some { s with writer := { w with data := s.job.data, no := s.job.no, pc := .loadLen } }
  | .loadLen =>
      some { s with writer := { w with remaining := s.job.len, offset := 0, error := false,
                                       pc := .copy } }
  | .copy =>
      if w.offset < w.remaining then
        some { s with writer := { w with
          chunk := min bounceSize (w.remaining - w.offset),
          bounce := Memory.slice (s.sBuf w.data) w.offset
            (min bounceSize (w.remaining - w.offset)),
          pc := .write } }
      else some { s with writer := { w with pc := .setError } }
  | .write =>
      if accepted = w.chunk then
        some { s with
          files := Function.update s.files s.job.file
            (s.files s.job.file ++ w.bounce.take accepted),
          writer := { w with offset := w.offset + w.chunk, pc := .copy } }
      else if accepted < w.chunk then
        some { s with
          files := Function.update s.files s.job.file
            (s.files s.job.file ++ w.bounce.take accepted),
          writer := { w with written := accepted, pc := .rewrite } }
      else none
  | .rewrite =>
      if w.written + accepted = w.chunk then
        some { s with
          files := Function.update s.files s.job.file
            (s.files s.job.file ++ (w.bounce.drop w.written).take accepted),
          writer := { w with offset := w.offset + w.chunk, pc := .copy } }
      else if w.written + accepted < w.chunk then
        some { s with
          files := Function.update s.files s.job.file
            (s.files s.job.file ++ (w.bounce.drop w.written).take accepted),
          writer := { w with error := true, pc := .setError } }
      else none
  | .setError =>
      some { s with job := { s.job with sdError := w.error },
                    writer := { w with pc := .setDone } }
  | .setDone =>
      some { s with job := { s.job with done := true }, writer := { w with pc := .giveDone } }
  | .giveDone =>
      some { s with job := { s.job with semJobDone := true }, verdict := (w.no, w.error),
                    writer := { w with pc := .waiting } }
  | .exited => none

/-- One action of either task. -/
def step (cap : ℕ) (s : State) : Act → Option State
  | .net i => netStep cap s i
  | .writer accepted => writerStep s accepted

/-- The start of a session: no file, no task, nothing allocated or written. -/
def init : State where
  net := { pc := .idle, handle := false, file := 0, cur := 0, bufFilled := 0,
           netError := false, sdError := false, sdWritePending := false, total := 0,
           downloaded := 0, expected := 0, received := [], shown := [], taken := 0 }
  writer := { pc := .absent, data := 0, remaining := 0, offset := 0, chunk := 0,
              written := 0, error := false, bounce := [], no := 0 }
  job := { file := 0, data := 0, len := 0, sdError := false, done := false,
           semJobReady := false, semJobDone := false, stop := false, no := 0 }
  sBuf := fun _ _ => 0
  files := fun _ => []
  verdict := (0, false)

/-- The states of a session with half-buffers of `cap` bytes, over every
interleaving of the two tasks and every answer of the environment. -/
def Session (cap : ℕ) (s : State) : Prop :=
  Transition.Reaches (step cap) init s

end PingPong

end SimiboxDownloader
