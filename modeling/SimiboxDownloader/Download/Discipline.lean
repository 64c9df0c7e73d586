import SimiboxDownloader.Download.Environment
import SimiboxDownloader.Download.Ledger

/-!
# A session gives back what it takes

The functions that download files and folders, on the ledger. Between two files
the pool may hold a drained client, the buffers and the writer task (`Resting`);
before and after `download_simi_folder` nothing is held.
-/

namespace SimiboxDownloader

namespace Download

open Interaction Interaction.Stateful

section File

variable {st : Statics} {L : Ledger} {file client : ℕ} {failed : Prop}

/-- What is held between two files. -/
structure Resting (st : Statics) (L : Ledger) (failed : Prop) : Prop where
  stock : Stock st L [] failed
  pool : Pool st L
  drained : L.Drained

theorem Resting.mono {failed' : Prop} (h : Resting st L failed) (hf : failed → failed') :
    Resting st L failed' :=
  ⟨h.stock.mono hf, h.pool, h.drained⟩

theorem Stock.counters {files : List ℕ} (h : Stock st L files failed)
    (downloaded expected freq : ℤ) :
    Stock { st with totalDownloadedBytes := downloaded, totalExpectedBytes := expected,
                    sdFreqKhz := freq } L files failed :=
  ⟨h.files, h.buffers, h.paired, h.capacity, h.semaphores, h.task, h.running, h.waiting⟩

theorem Stock.fclose (h : Stock st L [file] failed) :
    Stock st { L with files := L.files.erase file } [] failed :=
  ⟨by simp [h.files], h.buffers, h.paired, h.capacity, h.semaphores, h.task, h.running, h.waiting⟩

theorem Stock.fopen (h : Stock st L [] failed) (file : ℕ) :
    Stock st { L with files := L.files ++ [file] } [file] failed :=
  ⟨by simp [h.files], h.buffers, h.paired, h.capacity, h.semaphores, h.task, h.running, h.waiting⟩

theorem Stock.mem_files (h : Stock st L [file] failed) : file ∈ L.files := by
  simp [h.files]

/-- The statics and what is held are still `st` and `L`. -/
abbrev Unchanged {α : Type} (st : Statics) (L : Ledger) : α → Statics → Ledger → Prop :=
  fun _ st' L' => st' = st ∧ L' = L

theorem updateLedProgress_unchanged : Accounts (Unchanged st L) updateLedProgress st L := by
  unfold updateLedProgress
  apply ensures_get
  split
  · exact accounts_dev_end (c := .ledShowDownloadProgress _) trivial fun _ => ⟨rfl, rfl⟩
  · exact ensures_pure ⟨rfl, rfl⟩

theorem setSdFreq_unchanged (freqKhz : ℤ) : Accounts (Unchanged st L) (setSdFreq freqKhz) st L := by
  unfold setSdFreq
  apply ensures_get
  split
  · exact accounts_dev_end (c := .setCardClk _) trivial fun _ => ⟨rfl, rfl⟩
  · exact ensures_pure ⟨rfl, rfl⟩

theorem finishFile_accounts (clen : ℤ) (outPath : Str) (r : PingPong.Transfer)
    (hs : Stock st L [file] False) (hp : Pool st L) (hd : L.Drained) :
    Accounts (fun _ st' L' => Resting st' L' False) (finishFile clen file outPath r) st L := by
  have hfile := hs.mem_files
  have hrest : Resting st { L with files := L.files.erase file } False :=
    ⟨hs.fclose, ⟨hp.clients, hp.host⟩, hd⟩
  refine accounts_fs hfile fun _ => accounts_fs hfile fun _ => accounts_fs hfile fun _ => ?_
  split
  · exact accounts_fs trivial fun _ => ensures_pure hrest
  · refine accounts_fs trivial fun renamed => ?_
    split
    · apply updateLedProgress_unchanged.bind
      rintro _ _ _ ⟨rfl, rfl⟩
      exact ensures_pure hrest
    · exact accounts_fs trivial fun _ => ensures_pure hrest

/-- The client of a transfer without an error can be used again. -/
theorem transferFile_accounts (clen : ℤ) (outPath : Str) (hs : Stock st L [file] False)
    (hp : Pool st L) (hc : st.httpClient = some client) (hbuf : st.buf0.isSome = true)
    (htask : st.sdTaskHandle = true) :
    Accounts (fun _ st' L' => Resting st' L' False) (transferFile client clen file outPath)
      st L := by
  have hbuffers : L.buffers.length = 2 := by
    rw [hs.buffers, List.length_append, Option.length_toList, Option.length_toList, ← hs.paired,
      hbuf]
    rfl
  have hsemaphores : L.semaphores.length = 2 := by
    rw [hs.semaphores, List.length_append, Option.length_toList, Option.length_toList,
      (hs.running htask).1, (hs.running htask).2]
    rfl
  have htask' := hs.task.trans htask
  apply ensures_get
  refine accounts_call ⟨hp.live hc, hs.mem_files, hbuffers, hsemaphores, htask'⟩ fun r => ?_
  apply ensures_modify
  have hs' := (hs.withClients (L.onClient client fun k =>
    { k with response := some (st.bufCapacity, r) }).clients).counters
      (st.totalDownloadedBytes + r.received.length) st.totalExpectedBytes st.sdFreqKhz
  have hp' : Pool { st with totalDownloadedBytes := st.totalDownloadedBytes + r.received.length }
      (L.onClient client fun k => { k with response := some (st.bufCapacity, r) }) := by
    obtain ⟨hids, hhost⟩ := hp.onClient client
      (f := fun k => { k with response := some (st.bufCapacity, r) }) fun _ => rfl
    exact ⟨hids, hhost⟩
  have hdrained : (r.sdError || r.netError) = false →
      (L.onClient client fun k => { k with response := some (st.bufCapacity, r) }).Drained := by
    intro herr
    obtain ⟨hsd, hnet⟩ := Bool.or_eq_false_iff.1 herr
    obtain ⟨k, hk, -⟩ := hp.single hc
    intro c hmem
    simp only [Ledger.onClient, hk, List.map_cons, if_true, List.map_nil,
      List.mem_singleton] at hmem
    rw [hmem]
    exact ⟨_, r, rfl, hnet, PingPong.readToEnd_of_ok (hs.capacity hbuf) hnet hsd⟩
  apply (releaseHttpClient_accounts hs' hp' hc hdrained).bind
  rintro _ st L ⟨hs, hp, hd⟩
  have hfile := hs.mem_files
  have hrest : Resting st { L with files := L.files.erase file } False :=
    ⟨hs.fclose, ⟨hp.clients, hp.host⟩, hd⟩
  split
  · exact accounts_fs hfile fun _ => ensures_pure hrest
  · split
    · refine accounts_fs hfile fun _ => accounts_fs hfile fun _ => ?_
      exact accounts_fs trivial fun _ => ensures_pure hrest
    · exact finishFile_accounts clen outPath r hs hp hd

/-- The `FILE` is closed on every way out. -/
theorem receiveFile_accounts (clen : ℤ) (outPath : Str) (hs : Stock st L [] False)
    (hp : Pool st L) (hc : st.httpClient = some client) (hbuf : st.buf0.isSome = true) :
    Accounts (fun e st' L' => Resting st' L' (e = .noTask)) (receiveFile client clen outPath)
      st L := by
  refine accounts_fs trivial fun file? => ?_
  cases file? with
  | none =>
      apply (releaseHttpClient_accounts hs hp hc (by simp)).bind
      rintro _ st L ⟨hs, hp, hd⟩
      exact ensures_pure ⟨hs.mono False.elim, hp, hd⟩
  | some file =>
      have hp' : Pool st { L with files := L.files ++ [file] } := ⟨hp.clients, hp.host⟩
      apply (ensureSdWriterTask_accounts (hs.fopen file)).bind
      rintro running st L ⟨hs, hsame, htask, hbuf'⟩
      have hp := hp'.same hsame
      have hc := hsame.client.trans hc
      cases running with
      | true =>
          apply (transferFile_accounts clen outPath (hs.mono nofun) hp hc ?_ (htask rfl)).imp
          · exact fun _ _ _ h => h.mono False.elim
          · rw [hbuf', hbuf]
      | false =>
          refine accounts_fs hs.mem_files fun _ => ?_
          have hp' : Pool st { L with files := L.files.erase file } := ⟨hp.clients, hp.host⟩
          apply (releaseHttpClient_accounts hs.fclose hp' hc (by simp)).bind
          rintro _ st L ⟨hs, hp, hd⟩
          exact ensures_pure ⟨hs.mono fun _ => rfl, hp, hd⟩

theorem downloadFileStandalone_accounts (url outPath : Str) (h : Resting st L False) :
    Accounts (fun e st' L' => Resting st' L' (e = .noTask)) (downloadFileStandalone url outPath)
      st L := by
  apply (httpAttempt_accounts url 2 h.stock h.pool h.drained).bind
  rintro response st L ⟨hs, hp, hd, hc⟩
  cases response with
  | none => exact ensures_pure ⟨hs.mono False.elim, hp, hd rfl⟩
  | some response =>
      apply (ensurePingpongBuffers_accounts hs).bind
      rintro _ st' L' ⟨hs, hsame⟩
      have hp := hp.same hsame
      have hc := hsame.client.trans (hc response rfl)
      apply ensures_get
      split
      · next hboth => exact receiveFile_accounts response.2 outPath hs hp hc hboth.1
      · apply (releaseHttpClient_accounts hs hp hc (by simp)).bind
        rintro _ st L ⟨hs, hp, hd⟩
        exact ensures_pure ⟨hs.mono False.elim, hp, hd⟩

/-- The file is tried again only when no semaphore is left behind. -/
theorem lowerClock_accounts (url outPath : Str) {again : FileEnd → Action FileEnd}
    (hagain : ∀ {e st L}, Resting st L (e = .noTask) →
      Accounts (fun e' st' L' => Resting st' L' (e' = .noTask)) (again e) st L) {e : FileEnd}
    (h : Resting st L (e = .noTask)) :
    Accounts (fun e' st' L' => Resting st' L' (e' = .noTask)) (lowerClock url outPath again e)
      st L := by
  unfold lowerClock
  split
  · next hsd =>
      have hrest : Resting st L False := h.mono fun he => by
        rw [he] at hsd
        cases hsd
      apply ensures_get
      split
      · exact ensures_pure h
      · apply (setSdFreq_unchanged _).bind
        rintro changed _ _ ⟨rfl, rfl⟩
        split
        · refine ensures_modify (accounts_fs trivial fun _ => ?_)
          refine (downloadFileStandalone_accounts url outPath ?_).bind fun e st L h => hagain h
          exact ⟨hrest.stock.counters _ _ _, ⟨hrest.pool.clients, hrest.pool.host⟩, hrest.drained⟩
        · exact ensures_pure h
  · exact ensures_pure h

theorem retryFile_accounts (url outPath : Str) (n : ℕ) {e : FileEnd}
    (h : Resting st L (e = .noTask)) :
    Accounts (fun e' st' L' => Resting st' L' (e' = .noTask)) (retryFile url outPath n e) st L := by
  induction n generalizing e st L with
  | zero => exact lowerClock_accounts url outPath (fun _ => accounts_diverge) h
  | succ n ih => exact lowerClock_accounts url outPath ih h

theorem downloadFile_accounts (url outPath : Str) (h : Resting st L False) :
    Accounts (fun e st' L' => Resting st' L' (e = .noTask)) (downloadFile url outPath) st L :=
  (downloadFileStandalone_accounts url outPath h).bind fun _ _ _ h =>
    retryFile_accounts url outPath _ h

theorem downloadFiles_accounts (dir : Str) (files : List FileItem) (h : Resting st L False) :
    Accounts (fun _ st' L' => Resting st' L' True) (downloadFiles dir files) st L := by
  induction files generalizing st L with
  | nil => exact ensures_pure (h.mono False.elim)
  | cons item items ih =>
      apply updateLedProgress_unchanged.bind
      rintro _ _ _ ⟨rfl, rfl⟩
      apply (downloadFile_accounts item.url (sub dir item.name) h).bind
      intro e st L h
      cases e with
      | ok received =>
          refine accounts_fs trivial fun _ => (ih (h.mono nofun)).bind fun rest st L h => ?_
          exact ensures_pure h
      | _ => exact ensures_pure (h.mono fun _ => trivial)

end File

section Folder

variable {st : Statics} {L : Ledger} {failed : Prop}

/-- The statics name nothing that is held. -/
structure Idle (st : Statics) : Prop where
  httpClient : st.httpClient = none
  buf0 : st.buf0 = none
  buf1 : st.buf1 = none
  semJobReady : st.semJobReady = none
  semJobDone : st.semJobDone = none
  sdTaskHandle : st.sdTaskHandle = false

/-- Between two downloads. -/
def AtRest (st : Statics) (L : Ledger) : Prop :=
  Idle st ∧ L = Ledger.empty

theorem Idle.resting (h : Idle st) : Resting st Ledger.empty False := by
  obtain ⟨hclient, hbuf₀, hbuf₁, hready, hdone, htask⟩ := h
  refine ⟨⟨rfl, ?_, ?_, ?_, ?_, htask.symm, ?_, fun _ _ => ⟨hready, hdone⟩⟩,
    Pool.of_none hclient rfl, by simp [Ledger.Drained, Ledger.empty]⟩
  · rw [hbuf₀, hbuf₁]
    rfl
  · rw [hbuf₀, hbuf₁]
  · simp [hbuf₀]
  · rw [hready, hdone]
    rfl
  · simp [htask]

theorem cleanupHttpPool_accounts (hs : Stock st L [] failed) (hp : Pool st L) :
    Accounts (fun _ st' L' => Stock st' L' [] failed ∧ st'.httpClient = none ∧ L'.clients = [])
      cleanupHttpPool st L := by
  unfold cleanupHttpPool
  apply ensures_get
  cases hc : st.httpClient with
  | none =>
      have hids := hp.clients
      rw [hc, Option.toList_none, List.map_eq_nil_iff] at hids
      exact ensures_pure ⟨hs, hc, hids⟩
  | some client =>
      refine accounts_dev (hp.live hc) fun _ => ensures_modify_end ?_
      exact ⟨(hs.withClients _).withPool _ _, rfl, cleanup_clients hp hc⟩

theorem wakeWriter_accounts (hs : Stock st L [] failed) :
    Accounts (fun _ st' L' => st' = st ∧ L' = { L with task := false }) (wakeWriter st) st L := by
  unfold wakeWriter
  have htask := hs.task
  split
  · next sem hrun hsem =>
      have hmem : sem ∈ L.semaphores := by
        simp [hs.semaphores, hsem]
      exact accounts_dev_end (c := .semaphoreGive sem) ⟨hmem, htask.trans hrun⟩ fun _ => ⟨rfl, rfl⟩
  · next hno =>
      refine ensures_pure ⟨rfl, ?_⟩
      cases hrun : st.sdTaskHandle with
      | false => rw [← hrun, ← htask]
      | true =>
          obtain ⟨sem, hsem⟩ := Option.isSome_iff_exists.1 (hs.running hrun).1
          exact absurd hsem (hno sem hrun)

theorem stopSdWriterTask_accounts (hs : Stock st L [] failed) :
    Accounts (fun _ st' L' =>
        st' = { st with sdTaskHandle := false, semJobReady := none, semJobDone := none } ∧
        L' = { L with semaphores := [], task := false }) stopSdWriterTask st L := by
  apply ensures_get
  apply (wakeWriter_accounts hs).bind
  rintro _ st' _ ⟨rfl, rfl⟩
  have hsem : ({ L with task := false } : Ledger).semaphores = _ := hs.semaphores
  apply (deleteSemaphore_accounts hsem).bind
  rintro _ st'' _ ⟨rfl, rfl⟩
  apply (deleteSemaphore_accounts (List.append_nil _).symm).bind
  rintro _ _ _ ⟨rfl, rfl⟩
  exact ensures_modify_end ⟨rfl, rfl⟩

/-- Everything held between two files is given back. -/
theorem releaseAll_accounts (h : Resting st L failed) :
    Accounts (fun _ => AtRest) releaseAll st L := by
  apply (cleanupHttpPool_accounts h.stock h.pool).bind
  rintro _ st ⟨clients, files, buffers, semaphores, task⟩ ⟨hs, hc, rfl⟩
  apply (stopSdWriterTask_accounts hs).bind
  rintro _ _ _ ⟨rfl, rfl⟩
  obtain rfl : files = [] := hs.files
  have hbuf : (Ledger.mk [] [] buffers [] false).buffers = _ := hs.buffers
  apply ensures_get
  apply (freeBuffer_accounts hbuf).bind
  rintro _ _ _ ⟨rfl, rfl⟩
  apply (freeBuffer_accounts (List.append_nil _).symm).bind
  rintro _ _ _ ⟨rfl, rfl⟩
  exact ensures_modify_end ⟨⟨hc, rfl, rfl, rfl, rfl, rfl⟩, rfl⟩

theorem deleteEntries_unchanged {recurse : Str → Action Unit}
    (hrec : ∀ dir, Accounts (Unchanged st L) (recurse dir) st L) (dir : Str) (names : List Str) :
    Accounts (Unchanged st L) (deleteEntries recurse dir names) st L := by
  induction names with
  | nil => exact ensures_pure ⟨rfl, rfl⟩
  | cons name names ih =>
      unfold deleteEntries
      split
      · exact ih
      · refine accounts_fs trivial fun info => ?_
        split
        · apply (hrec _).bind
          rintro _ _ _ ⟨rfl, rfl⟩
          exact ih
        · exact accounts_fs trivial fun _ => ih

theorem deleteTree_unchanged (depth : ℕ) (dir : Str) :
    Accounts (Unchanged st L) (deleteTree depth dir) st L := by
  induction depth generalizing dir with
  | zero => exact ⟨trivial, nofun⟩
  | succ depth ih =>
      refine accounts_fs trivial fun names? => ?_
      cases names? with
      | none => exact ensures_pure ⟨rfl, rfl⟩
      | some names =>
          apply (deleteEntries_unchanged ih dir names).bind
          rintro _ _ _ ⟨rfl, rfl⟩
          exact accounts_fs trivial fun _ => ensures_pure ⟨rfl, rfl⟩

theorem deleteExisting_unchanged (depth : ℕ) (dir : Str) :
    Accounts (Unchanged st L) (deleteExisting depth dir) st L := by
  refine accounts_fs trivial fun info => ?_
  split
  · exact deleteTree_unchanged depth dir
  · exact ensures_pure ⟨rfl, rfl⟩

theorem readTextFile_unchanged (path : Str) :
    Accounts (Unchanged st Ledger.empty) (readTextFile path) st Ledger.empty := by
  refine accounts_fs trivial fun file? => ?_
  cases file? with
  | none => exact ensures_pure ⟨rfl, rfl⟩
  | some file =>
      have hfile : file ∈ (Ledger.next (.fs (.fopen path .rb)) Ledger.empty (some file)).files := by
        simp [Ledger.next, Ledger.empty]
      have hclose : Ledger.next (.fs (.fclose file))
          (Ledger.next (.fs (.fopen path .rb)) Ledger.empty (some file)) true = Ledger.empty := by
        simp [Ledger.next, Ledger.empty]
      refine accounts_fs hfile fun _ => accounts_fs hfile fun size? => accounts_fs hfile fun _ => ?_
      cases size? with
      | none => exact accounts_fs hfile fun _ => ensures_pure ⟨rfl, hclose⟩
      | some size =>
          exact accounts_fs hfile fun _ => accounts_fs hfile fun _ => ensures_pure ⟨rfl, hclose⟩

theorem verifyItems_unchanged (dir : Str) (items : List Json) :
    Accounts (Unchanged st L) (verifyItems dir items) st L := by
  induction items with
  | nil => exact ensures_pure ⟨rfl, rfl⟩
  | cons item items ih =>
      have hitem : Accounts (Unchanged st L) (verifyItem dir item) st L := by
        unfold verifyItem
        split
        · exact accounts_fs trivial fun _ => ensures_pure ⟨rfl, rfl⟩
        · exact ensures_pure ⟨rfl, rfl⟩
      apply hitem.bind
      rintro _ _ _ ⟨rfl, rfl⟩
      exact ih.bind fun _ _ _ h => ensures_pure h

theorem verifyDownloadIntegrity_unchanged (J : CJson) (dir : Str) :
    Accounts (Unchanged st Ledger.empty) (verifyDownloadIntegrity J dir) st Ledger.empty := by
  apply (readTextFile_unchanged _).bind
  rintro read _ _ ⟨rfl, rfl⟩
  cases read with
  | openFailed => exact ensures_pure ⟨rfl, rfl⟩
  | failed => exact ensures_pure ⟨rfl, rfl⟩
  | text content =>
      dsimp only
      split
      · exact (verifyItems_unchanged dir _).bind fun _ _ _ h => ensures_pure h
      · exact ensures_pure ⟨rfl, rfl⟩

theorem writeMarker_unchanged (path : Str) :
    Accounts (Unchanged st Ledger.empty) (writeMarker path) st Ledger.empty := by
  refine accounts_fs trivial fun file? => ?_
  cases file? with
  | none => exact ensures_pure ⟨rfl, rfl⟩
  | some file =>
      have hfile : file ∈ (Ledger.next (.fs (.fopen path .wb)) Ledger.empty (some file)).files := by
        simp [Ledger.next, Ledger.empty]
      refine accounts_fs hfile fun _ => accounts_fs hfile fun _ => accounts_fs hfile fun _ => ?_
      refine accounts_fs hfile fun _ => ensures_pure ⟨rfl, ?_⟩
      simp [Ledger.next, Ledger.empty]

theorem swapFolder_unchanged (depth : ℕ) (folder : Str) (contents : List Bytes) :
    Accounts (Unchanged st Ledger.empty) (swapFolder depth folder contents) st Ledger.empty := by
  apply (deleteExisting_unchanged depth _).bind
  rintro _ _ _ ⟨rfl, rfl⟩
  refine accounts_fs trivial fun renamed => ?_
  split
  · exact (writeMarker_unchanged _).bind fun _ _ _ h => ensures_pure h
  · exact (deleteTree_unchanged depth _).bind fun _ _ _ h => ensures_pure h

theorem verifyAndSwap_unchanged (J : CJson) (depth : ℕ) (folder : Str) (contents : List Bytes) :
    Accounts (Unchanged st Ledger.empty) (verifyAndSwap J depth folder contents)
      st Ledger.empty := by
  apply (verifyDownloadIntegrity_unchanged J _).bind
  rintro v _ _ ⟨rfl, rfl⟩
  cases v with
  | ok => exact swapFolder_unchanged depth folder contents
  | _ => exact (deleteTree_unchanged depth _).bind fun _ _ _ h => ensures_pure h

theorem Accounts.atRest {α : Type} {p : Action α} (hst : Idle st)
    (h : Accounts (Unchanged st Ledger.empty) p st Ledger.empty) :
    Accounts (fun _ => AtRest) p st Ledger.empty := by
  apply h.imp
  rintro _ _ _ ⟨rfl, rfl⟩
  exact ⟨hst, rfl⟩

theorem installFiles_accounts (J : CJson) (depth : ℕ) (folder : Str) (files : List FileItem)
    (h : Idle st) :
    Accounts (fun _ => AtRest) (installFiles J depth folder files) st Ledger.empty := by
  apply (deleteExisting_unchanged depth _).bind
  rintro _ _ _ ⟨rfl, rfl⟩
  refine accounts_fs trivial fun made => ?_
  split
  · apply (downloadFiles_accounts _ files h.resting).bind
    intro result st L hrest
    apply (releaseAll_accounts hrest).bind
    rintro _ st _ ⟨hst, rfl⟩
    cases result with
    | ok contents =>
        exact accounts_dev trivial fun _ =>
          (verifyAndSwap_unchanged J depth folder contents).atRest hst
    | error e =>
        dsimp only
        split
        · exact ensures_pure ⟨hst, rfl⟩
        · exact Accounts.atRest hst ((deleteTree_unchanged depth _).bind fun _ _ _ h =>
            ensures_pure h)
  · exact ensures_pure ⟨h, rfl⟩

/-- The client of the list is a client of its own. -/
theorem fetchList_unchanged (J : CJson) (folder lambdaUrl : Str) :
    Accounts (Unchanged st Ledger.empty) (fetchList J folder lambdaUrl) st Ledger.empty := by
  refine accounts_dev rfl fun client? => ?_
  cases client? with
  | none => exact ensures_pure ⟨rfl, rfl⟩
  | some client =>
      have hlive : (Ledger.next (.dev (.httpInit (lambdaUrl ++ "/?folder=".toList ++ folder)))
          Ledger.empty (some client)).Live client := by
        simp [Ledger.Live, Ledger.next, Ledger.empty]
      refine accounts_dev hlive fun response => accounts_dev hlive fun _ => ensures_pure ⟨rfl, ?_⟩
      simp [Ledger.next, Ledger.empty]

theorem downloadSimiFolder_accounts (J : CJson) (depth : ℕ) (folder lambdaUrl : Str)
    (h : Idle st) :
    Accounts (fun _ => AtRest) (downloadSimiFolder J depth folder lambdaUrl) st Ledger.empty := by
  have hcounters (downloaded expected : ℤ) (st : Statics) (h : Idle st) :
      Idle { st with totalDownloadedBytes := downloaded, totalExpectedBytes := expected } :=
    ⟨h.httpClient, h.buf0, h.buf1, h.semJobReady, h.semJobDone, h.sdTaskHandle⟩
  refine ensures_modify (accounts_dev trivial fun _ => ?_)
  apply (fetchList_unchanged J folder lambdaUrl).bind
  rintro items? _ _ ⟨rfl, rfl⟩
  have h := hcounters 0 0 st h
  cases items? with
  | none => exact ensures_pure ⟨h, rfl⟩
  | some items =>
      apply ensures_modify
      have h := hcounters 0 (expectedBytes items) _ h
      split
      · exact ensures_modify (installFiles_accounts J depth folder _ (hcounters 0 _ _ h))
      · exact ensures_pure ⟨h, rfl⟩

end Folder

/-- One call of `download_simi_folder`, and what `mount_sd` has set before. -/
structure Request where
  folder : Str
  lambdaUrl : Str
  cardHasClk : Bool
  sdFreqKhz : ℤ

/-- Calls of `download_simi_folder`, one after the other. -/
def downloadFolders (J : CJson) (depth : ℕ) : List Request → Action Unit
  | [] => return ()
  | request :: requests => do
      modify fun st =>
        { st with cardHasClk := request.cardHasClk, sdFreqKhz := request.sdFreqKhz }
      let _ ← downloadSimiFolder J depth request.folder request.lambdaUrl
      downloadFolders J depth requests

theorem downloadFolders_accounts (J : CJson) (depth : ℕ) (requests : List Request)
    {st : Statics} (h : Idle st) :
    Accounts (fun _ => AtRest) (downloadFolders J depth requests) st Ledger.empty := by
  induction requests generalizing st with
  | nil => exact ensures_pure ⟨h, rfl⟩
  | cons request requests ih =>
      have hmount : Idle { st with
          cardHasClk := request.cardHasClk, sdFreqKhz := request.sdFreqKhz } :=
        ⟨h.httpClient, h.buf0, h.buf1, h.semJobReady, h.semJobDone, h.sdTaskHandle⟩
      refine ensures_modify ((downloadSimiFolder_accounts J depth _ _ hmount).bind ?_)
      rintro _ st _ ⟨hst, rfl⟩
      exact ih hst

/-- For every sequence of downloads, every list and whichever calls fail: each
call is in order for what is held when it is made. So a client, a `FILE`, a
buffer or a semaphore is not used or given back unless it is held, there is one
client at a time, and a client gets a new URL only for its host and after its
response was read to the end. When the last download returns nothing is held. -/
theorem downloadFolders_ledger {J : CJson} {depth : ℕ} {requests : List Request}
    {cardHasClk : Bool} {freqKhz : ℤ} {w t : World} {tr : List Event}
    {q : Interaction.Program Call Call.Reply (Unit × Statics)}
    (hrun : Steps machine ((downloadFolders J depth requests).run (Statics.boot cardHasClk freqKhz))
      w tr q t) :
    (∀ l e l', tr = l ++ e :: l' → Ledger.Allows e.op (Ledger.of l)) ∧
      ∀ x, q = .pure x → Idle x.2 ∧ Ledger.of tr = Ledger.empty := by
  have hboot : Idle (Statics.boot cardHasClk freqKhz) := ⟨rfl, rfl, rfl, rfl, rfl, rfl⟩
  have haccounts := downloadFolders_accounts J depth requests hboot
  have hnext (o : Call) (s : World) (r : o.Reply) (t : World) (L : Ledger) (_ : machine o s r t) :
      bookkeeping o L r (Ledger.next o L r) := rfl
  obtain ⟨hcalls, hrest⟩ := Safe.tracks hnext haccounts hrun
  refine ⟨hcalls, ?_⟩
  rintro x rfl
  exact hrest

/-- `mozart`, and again. -/
def twice : List Request :=
  [⟨"mozart".toList, "https://api.example".toList, true, 10000⟩,
    ⟨"mozart".toList, "https://api.example".toList, true, 10000⟩]

/-- Download from the server of `mozart` with every call succeeding. -/
def playFolders (requests : List Request) :=
  play (serve mozart.env fun _ _ => .ok)
    ((downloadFolders mozart.cjson 4 requests).run (Statics.boot true 10000))
    (World.boot (cardOf []))

theorem steps_playFolders (requests : List Request) :
    Steps machine ((downloadFolders mozart.cjson 4 requests).run (Statics.boot true 10000))
      (World.boot (cardOf [])) (playFolders requests).2.2 (playFolders requests).1
      (playFolders requests).2.1 :=
  steps_play (fun o w r t h => machine_of_serve o w r t h) _ _

theorem downloadFolders_ledger_twice : ∃ tr x t,
    Steps machine ((downloadFolders mozart.cjson 4 twice).run (Statics.boot true 10000))
      (World.boot (cardOf [])) tr (.pure x) t ∧
    (∀ l e l', tr = l ++ e :: l' → Ledger.Allows e.op (Ledger.of l)) ∧
      Idle x.2 ∧ Ledger.of tr = Ledger.empty := by
  have hend : (playFolders twice).1.value.map Prod.fst = some () := by
    decide +kernel
  obtain ⟨x, hrun, -⟩ := (steps_playFolders twice).returned hend
  obtain ⟨hcalls, hrest⟩ := downloadFolders_ledger hrun
  exact ⟨_, x, _, hrun, hcalls, hrest x rfl⟩

end Download

end SimiboxDownloader
