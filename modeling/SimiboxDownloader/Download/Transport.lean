import SimiboxDownloader.Card.Calls

/-!
# Connections, buffers, the writer task and the LED

The static variables of `simibox_download.cpp` and the functions that manage
them: the connection pool, the ping-pong buffers, the writer task, the progress
LED and the clock of the card.
-/

namespace SimiboxDownloader

namespace Download

/-- The static variables. `cardHasClk` is `s_card && s_card->host.set_card_clk`. -/
structure Statics where
  httpClient : Option ℕ
  httpBaseHost : Str
  totalExpectedBytes : ℤ
  totalDownloadedBytes : ℤ
  buf0 : Option ℕ
  buf1 : Option ℕ
  bufCapacity : ℕ
  semJobReady : Option ℕ
  semJobDone : Option ℕ
  sdTaskHandle : Bool
  cardHasClk : Bool
  sdFreqKhz : ℤ

/-- The static variables after boot and `mount_sd` at `sdFreqKhz`. -/
def Statics.boot (cardHasClk : Bool) (sdFreqKhz : ℤ) : Statics where
  httpClient := none
  httpBaseHost := []
  totalExpectedBytes := 0
  totalDownloadedBytes := 0
  buf0 := none
  buf1 := none
  bufCapacity := 0
  semJobReady := none
  semJobDone := none
  sdTaskHandle := false
  cardHasClk := cardHasClk
  sdFreqKhz := sdFreqKhz

/-- Programs of the downloader. -/
abbrev Action := Interaction.Stateful Call Call.Reply Statics

def dev (c : DevCall) : Action c.Reply := Interaction.Stateful.call (Call.dev c)

def fs (c : FsCall) : Action c.Reply := Interaction.Stateful.call (Call.fs c)

section Rules

variable {σ β : Type} {M : Interaction.Machine Call Call.Reply σ} {C : Call → σ → Prop}
  {Q : β → Statics → σ → Prop} {st : Statics} {s : σ}

theorem ensures_dev {c : DevCall} {k : c.Reply → Action β} (ho : C (.dev c) s)
    (hk : ∀ r t, M (.dev c) s r t → Interaction.Stateful.Ensures M C Q (k r) st t) :
    Interaction.Stateful.Ensures M C Q (dev c >>= k) st s :=
  Interaction.Stateful.ensures_call ho hk

theorem ensures_fs {c : FsCall} {k : c.Reply → Action β} (ho : C (.fs c) s)
    (hk : ∀ r t, M (.fs c) s r t → Interaction.Stateful.Ensures M C Q (k r) st t) :
    Interaction.Stateful.Ensures M C Q (fs c >>= k) st s :=
  Interaction.Stateful.ensures_call ho hk

end Rules

def diverge {α : Type} : Action α :=
  Interaction.Stateful.call Call.diverge >>= fun r => nomatch r

/-- `SD_FREQ_LADDER` -/
def sdFreqLadder : List ℤ := [20000, 10000, 4000]

/-- The highest rung strictly below `cur`, or -1. -/
def sdNextLowerFreq (cur : ℤ) : ℤ :=
  (sdFreqLadder.find? fun freq => freq < cur).getD (-1)

def setSdFreq (freqKhz : ℤ) : Action Bool := do
  let st ← get
  if st.cardHasClk then dev (.setCardClk freqKhz) else return false

/-- What follows the first `"://"`. -/
def afterScheme : Str → Option Str
  | [] => none
  | c :: s => if "://".toList <+: c :: s then some ((c :: s).drop 3) else afterScheme s

def extractHost (url : Str) : Str :=
  match afterScheme url with
  | some rest => rest.takeWhile (· ≠ '/')
  | none => []

/-- The end of `get_http_client`: a client of its own for the new host. -/
def initHttpClient (url : Str) : Action (Option ℕ) := do
  let client ← dev (.httpInit url)
  modify fun st => { st with httpClient := client, httpBaseHost := extractHost url }
  return client

def getHttpClient (url : Str) : Action (Option ℕ) := do
  let st ← get
  match st.httpClient with
  | some client =>
      if st.httpBaseHost = extractHost url then do
        -- the result of `esp_http_client_set_url` is not looked at
        let _ ← dev (.httpSetUrl client url)
        return some client
      else do
        dev (.httpCleanup client)
        initHttpClient url
  | none => initHttpClient url

def releaseHttpClient (client : ℕ) (forceCleanup : Bool) : Action Unit := do
  let st ← get
  if forceCleanup = false ∧ st.httpClient = some client then return ()
  else do
    dev (.httpClose client)
    dev (.httpCleanup client)
    modify fun st =>
      if st.httpClient = some client then { st with httpClient := none, httpBaseHost := [] }
      else st

def cleanupHttpPool : Action Unit := do
  let st ← get
  match st.httpClient with
  | some client => do
      dev (.httpCleanup client)
      modify fun st => { st with httpClient := none, httpBaseHost := [] }
  | none => return ()

/-- The loop over `attempt` with `left` attempts to go: a client on which the
response has status 200, and its content length. -/
def httpAttempt (url : Str) : ℕ → Action (Option (ℕ × ℤ))
  | 0 => return none
  | left + 1 => do
      let client? ← getHttpClient url
      match client? with
      | none => return none
      | some client => do
          let opened ← dev (.httpOpen client)
          if opened then do
            let clen ← dev (.httpFetchHeaders client)
            let status ← dev (.httpGetStatusCode client)
            if status = 200 then return some (client, clen)
            else do
              releaseHttpClient client true
              if status ≤ 0 then httpAttempt url left else return none
          else do
            releaseHttpClient client true
            httpAttempt url left

/-- `free(s_buf[i])`, where there is one. -/
def freeBuffer : Option ℕ → Action Unit
  | some buf => dev (.free buf)
  | none => return ()

/-- `try_halves`: half of `PSRAM_STAGING_BUFFER_SIZE`, 1 MB and 512 KB. -/
def tryHalves : List ℕ := [1572864, 1048576, 524288]

def allocBuffers : List ℕ → Action Unit
  | [] => return ()
  | half :: rest => do
      let buf0 ← dev (.heapCapsMalloc half)
      let buf1 ← dev (.heapCapsMalloc half)
      if buf0.isSome ∧ buf1.isSome then
        modify fun st => { st with buf0 := buf0, buf1 := buf1, bufCapacity := half }
      else do
        freeBuffer buf0
        freeBuffer buf1
        modify fun st => { st with buf0 := none, buf1 := none }
        allocBuffers rest

def ensurePingpongBuffers : Action Unit := do
  let st ← get
  if st.buf0.isSome then return () else allocBuffers tryHalves

def freePingpongBuffers : Action Unit := do
  let st ← get
  freeBuffer st.buf0
  freeBuffer st.buf1
  modify fun st => { st with buf0 := none, buf1 := none, bufCapacity := 0 }

def startSdWriterTask : Action Bool := do
  let ready ← dev .semaphoreCreateBinary
  let done ← dev .semaphoreCreateBinary
  modify fun st => { st with semJobReady := ready, semJobDone := done }
  if ready.isSome ∧ done.isSome then do
    let created ← dev .taskCreate
    modify fun st => { st with sdTaskHandle := created }
    return created
  else return false

/-- `vSemaphoreDelete`, where there is one. -/
def deleteSemaphore : Option ℕ → Action Unit
  | some sem => dev (.semaphoreDelete sem)
  | none => return ()

/-- `xSemaphoreGive(s_sd_job.sem_job_ready)` for a writer task that is running. -/
def wakeWriter (st : Statics) : Action Unit :=
  match st.sdTaskHandle, st.semJobReady with
  | true, some sem => dev (.semaphoreGive sem)
  | _, _ => return ()

def stopSdWriterTask : Action Unit := do
  let st ← get
  wakeWriter st
  deleteSemaphore st.semJobReady
  deleteSemaphore st.semJobDone
  modify fun st => { st with sdTaskHandle := false, semJobReady := none, semJobDone := none }

/-- `update_led_progress`; nothing is shown without an expected size. -/
def updateLedProgress : Action Unit := do
  let st ← get
  match PingPong.updateLedProgress st.totalDownloadedBytes st.totalExpectedBytes with
  | percent :: _ => dev (.ledShowDownloadProgress percent)
  | [] => return ()

end Download

end SimiboxDownloader
