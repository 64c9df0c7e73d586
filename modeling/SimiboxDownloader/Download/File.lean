import SimiboxDownloader.Download.Transport

/-!
# Downloading one file

`download_file_standalone`, and the loop of `download_simi_folder` that repeats
it at a lower clock after an SD error. `FileEnd` says at which statement the
function returned; `FileEnd.result` is the `DlResult` it returns there.
-/

namespace SimiboxDownloader

namespace Download

/-- `enum class DlResult` -/
inductive DlResult
  | ok
  | sdFailed
  | netFailed
  | otherFailed
  deriving DecidableEq

/-- Where `download_file_standalone` returned; `received` are the bytes the reads
returned. -/
inductive FileEnd
  /-- no client, or no response with status 200 -/
  | noResponse
  | noBuffers
  /-- the `fopen` of the `.part` file failed -/
  | openFailed
  | noTask
  | sdError
  | netError
  /-- `(clen > 0 && total != clen) || total == 0` -/
  | incomplete
  /-- the `rename` of the `.part` file failed -/
  | renameFailed
  | ok (received : Bytes)
  deriving DecidableEq

def FileEnd.result : FileEnd → DlResult
  | .noResponse => .netFailed
  | .noBuffers => .otherFailed
  | .openFailed => .sdFailed
  | .noTask => .otherFailed
  | .sdError => .sdFailed
  | .netError => .netFailed
  | .incomplete => .otherFailed
  | .renameFailed => .sdFailed
  | .ok _ => .ok

/-- The normal path: flush, sync, close, check the length and rename. -/
def finishFile (clen : ℤ) (file : ℕ) (outPath : Str) (r : PingPong.Transfer) :
    Action FileEnd := do
  let _ ← fs (.fflush file)
  let _ ← fs (.fsync file)
  let _ ← fs (.fclose file)
  if 0 < clen ∧ r.total ≠ clen ∨ r.total = 0 then do
    let _ ← fs (.unlink (part outPath))
    return .incomplete
  else do
    let renamed ← fs (.rename (part outPath) outPath)
    if renamed then do
      updateLedProgress
      return .ok r.received
    else do
      let _ ← fs (.unlink (part outPath))
      return .renameFailed

/-- The ping-pong loop and what follows it. -/
def transferFile (client : ℕ) (clen : ℤ) (file : ℕ) (outPath : Str) : Action FileEnd := do
  let st ← get
  let r ← Interaction.Stateful.call
    (Call.transfer client file st.bufCapacity st.totalDownloadedBytes st.totalExpectedBytes)
  modify fun st =>
    { st with totalDownloadedBytes := st.totalDownloadedBytes + r.received.length }
  releaseHttpClient client (r.sdError || r.netError)
  if r.sdError then do
    let _ ← fs (.fclose file)
    return .sdError
  else if r.netError then do
    let _ ← fs (.fflush file)
    let _ ← fs (.fclose file)
    let _ ← fs (.unlink (part outPath))
    return .netError
  else finishFile clen file outPath r

/-- `if (!s_sd_task_handle) { if (!start_sd_writer_task()) ... }` -/
def ensureSdWriterTask : Action Bool := do
  let st ← get
  if st.sdTaskHandle then return true else startSdWriterTask

/-- From the `fopen` of the `.part` file on. -/
def receiveFile (client : ℕ) (clen : ℤ) (outPath : Str) : Action FileEnd := do
  let file? ← fs (.fopen (part outPath) .wb)
  match file? with
  | none => do
      releaseHttpClient client true
      return .openFailed
  | some file => do
      let running ← ensureSdWriterTask
      if running then transferFile client clen file outPath
      else do
        let _ ← fs (.fclose file)
        releaseHttpClient client true
        return .noTask

def downloadFileStandalone (url outPath : Str) : Action FileEnd := do
  let response ← httpAttempt url 2
  match response with
  | none => return .noResponse
  | some (client, clen) => do
      ensurePingpongBuffers
      let st ← get
      if st.buf0.isSome ∧ st.buf1.isSome then receiveFile client clen outPath
      else do
        releaseHttpClient client true
        return .noBuffers

/-- The body of `while (result == DlResult::SD_FAILED)`; `again` is the loop. -/
def lowerClock (url outPath : Str) (again : FileEnd → Action FileEnd) (e : FileEnd) :
    Action FileEnd :=
  if e.result = .sdFailed then do
    let st ← get
    if sdNextLowerFreq st.sdFreqKhz < 0 then return e
    else do
      let changed ← setSdFreq (sdNextLowerFreq st.sdFreqKhz)
      if changed then do
        modify fun s => { s with sdFreqKhz := sdNextLowerFreq st.sdFreqKhz }
        let _ ← fs (.remove (part outPath))
        let e' ← downloadFileStandalone url outPath
        again e'
      else return e
  else return e

/-- The loop, with the number of times it can go round. -/
def retryFile (url outPath : Str) : ℕ → FileEnd → Action FileEnd
  | 0 => lowerClock url outPath fun _ => diverge
  | n + 1 => lowerClock url outPath (retryFile url outPath n)

/-- A file, first at the current clock and then down the ladder. -/
def downloadFile (url outPath : Str) : Action FileEnd := do
  let e ← downloadFileStandalone url outPath
  retryFile url outPath sdFreqLadder.length e

end Download

end SimiboxDownloader
