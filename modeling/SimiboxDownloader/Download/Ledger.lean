import SimiboxDownloader.Download.Usage
import SimiboxDownloader.PingPong.Drained

/-!
# What a download holds

A `Ledger` lists the HTTP clients, the open files, the buffers and the
semaphores a download holds, and whether its writer task runs. It follows from
the calls and their replies. `Ledger.Allows` says which calls are in order: only
what is held is used or given back, so nothing is given back twice; there is one
client at a time; and a client gets a new URL only on the host it is connected
to, after its response was read to the end.

The statics and the local variables say what is held (`Stock`, `Pool`). Every
function keeps that, whatever its calls return, and `download_simi_folder` ends
with nothing held (`downloadFolders_ledger`).
-/

namespace SimiboxDownloader

namespace Download

open Interaction Interaction.Stateful

/-- A live client: the host it is connected to, and the transfer of the response
to its last request with the capacity of its buffers. -/
structure Client where
  host : Str
  response : Option (ℕ × PingPong.Transfer)

/-- The response was read without an error until a read returned zero. -/
def Client.Drained (k : Client) : Prop :=
  ∃ cap r, k.response = some (cap, r) ∧ r.netError = false ∧ PingPong.ReadToEnd cap r

/-- What is held. -/
structure Ledger where
  clients : List (ℕ × Client)
  files : List ℕ
  buffers : List ℕ
  semaphores : List ℕ
  task : Bool

namespace Ledger

/-- Nothing is held. -/
def empty : Ledger := ⟨[], [], [], [], false⟩

/-- Change the client `client`. -/
def onClient (L : Ledger) (client : ℕ) (f : Client → Client) : Ledger :=
  { L with clients := L.clients.map fun c => if c.1 = client then (c.1, f c.2) else c }

/-- `client` is live. -/
def Live (L : Ledger) (client : ℕ) : Prop :=
  client ∈ L.clients.map Prod.fst

/-- What is held after a call. -/
def next : (o : Call) → Ledger → o.Reply → Ledger
  | .dev (.httpInit url), L, some client =>
      { L with clients := L.clients ++ [(client, ⟨extractHost url, none⟩)] }
  | .dev (.httpSetUrl client url), L, true => L.onClient client fun k =>
      { k with host := extractHost url }
  | .dev (.httpOpen client), L, _ => L.onClient client fun k => { k with response := none }
  | .dev (.httpCleanup client), L, _ =>
      { L with clients := L.clients.filter fun c => c.1 ≠ client }
  | .dev (.heapCapsMalloc _), L, some buf => { L with buffers := L.buffers ++ [buf] }
  | .dev (.free buf), L, _ => { L with buffers := L.buffers.erase buf }
  | .dev .semaphoreCreateBinary, L, some sem => { L with semaphores := L.semaphores ++ [sem] }
  | .dev (.semaphoreDelete sem), L, _ => { L with semaphores := L.semaphores.erase sem }
  | .dev .taskCreate, L, true => { L with task := true }
  -- the task wakes up without a job and deletes itself
  | .dev (.semaphoreGive _), L, _ => { L with task := false }
  | .fs (.fopen _ _), L, some file => { L with files := L.files ++ [file] }
  | .fs (.fclose file), L, _ => { L with files := L.files.erase file }
  | .transfer client _ capacity _ _, L, r => L.onClient client fun k =>
      { k with response := some (capacity, r) }
  | _, L, _ => L

/-- Which calls are in order. -/
def Allows : Call → Ledger → Prop
  | .dev (.httpInit _), L => L.clients = []
  | .dev (.httpSetUrl client url), L =>
      ∃ k, (client, k) ∈ L.clients ∧ k.host = extractHost url ∧ k.Drained
  | .dev (.httpOpen client), L => L.Live client
  | .dev (.httpFetchHeaders client), L => L.Live client
  | .dev (.httpGetStatusCode client), L => L.Live client
  | .dev (.httpClose client), L => L.Live client
  | .dev (.httpCleanup client), L => L.Live client
  | .dev (.httpPerform client), L => L.Live client
  | .dev (.free buf), L => buf ∈ L.buffers
  | .dev (.semaphoreGive sem), L => sem ∈ L.semaphores ∧ L.task = true
  | .dev (.semaphoreDelete sem), L => sem ∈ L.semaphores
  | .dev .taskCreate, L => L.task = false
  | .fs (.fputs _ file), L => file ∈ L.files
  | .fs (.fflush file), L => file ∈ L.files
  | .fs (.fsync file), L => file ∈ L.files
  | .fs (.fclose file), L => file ∈ L.files
  | .fs (.fseek file _), L => file ∈ L.files
  | .fs (.ftell file), L => file ∈ L.files
  | .fs (.fread file _), L => file ∈ L.files
  | .transfer client file _ _ _, L =>
      L.Live client ∧ file ∈ L.files ∧ L.buffers.length = 2 ∧ L.semaphores.length = 2 ∧
        L.task = true
  | _, _ => True

/-- The ledger after the calls of a run. -/
def of (tr : List Event) : Ledger := track next empty tr

end Ledger

/-- Any reply, and what is held after it. -/
def bookkeeping : Machine Call Call.Reply Ledger :=
  fun o L r L' => L' = Ledger.next o L r

/-- All calls of the program are in order, and `Q` holds of what it returns, of
the statics and of what is held then. -/
abbrev Accounts {α : Type} (Q : α → Statics → Ledger → Prop) (p : Action α) (st : Statics)
    (L : Ledger) : Prop :=
  Ensures bookkeeping Ledger.Allows Q p st L

section Rules

variable {β : Type} {st : Statics} {L : Ledger} {Q : β → Statics → Ledger → Prop}

theorem accounts_diverge : Accounts Q diverge st L := ⟨trivial, nofun⟩

/-- A call and what follows it. -/
theorem accounts_call {o : Call} {k : o.Reply → Action β} (ho : Ledger.Allows o L)
    (hk : ∀ r, Accounts Q (k r) st (Ledger.next o L r)) :
    Accounts Q (call o >>= k) st L := by
  apply ensures_call ho
  rintro r _ rfl
  exact hk r

theorem accounts_dev {c : DevCall} {k : c.Reply → Action β} (ho : Ledger.Allows (.dev c) L)
    (hk : ∀ r, Accounts Q (k r) st (Ledger.next (.dev c) L r)) :
    Accounts Q (dev c >>= k) st L :=
  accounts_call ho hk

theorem accounts_dev_end {c : DevCall} {Q : c.Reply → Statics → Ledger → Prop}
    (ho : Ledger.Allows (.dev c) L) (hQ : ∀ r, Q r st (Ledger.next (.dev c) L r)) :
    Accounts Q (dev c) st L := by
  rw [← bind_pure (dev c)]
  exact accounts_dev ho fun r => ensures_pure (hQ r)

theorem accounts_fs {c : FsCall} {k : c.Reply → Action β} (ho : Ledger.Allows (.fs c) L)
    (hk : ∀ r, Accounts Q (k r) st (Ledger.next (.fs c) L r)) :
    Accounts Q (fs c >>= k) st L :=
  accounts_call ho hk

end Rules

section Pool

variable {st : Statics} {L : Ledger} {files : List ℕ} {failed : Prop} {client : ℕ}

/-- The statics and the local `FILE` name what is held besides the client. A task
that could not be started leaves semaphores behind (`failed`). -/
structure Stock (st : Statics) (L : Ledger) (files : List ℕ) (failed : Prop) : Prop where
  files : L.files = files
  buffers : L.buffers = st.buf0.toList ++ st.buf1.toList
  paired : st.buf0.isSome = st.buf1.isSome
  capacity : st.buf0.isSome = true → 0 < st.bufCapacity
  semaphores : L.semaphores = st.semJobReady.toList ++ st.semJobDone.toList
  task : L.task = st.sdTaskHandle
  running : st.sdTaskHandle = true → st.semJobReady.isSome = true ∧ st.semJobDone.isSome = true
  waiting : ¬ failed → st.sdTaskHandle = false → st.semJobReady = none ∧ st.semJobDone = none

/-- The client of the pool is the live one. -/
structure Pool (st : Statics) (L : Ledger) : Prop where
  clients : L.clients.map Prod.fst = st.httpClient.toList
  host : ∀ c ∈ L.clients, c.2.host = st.httpBaseHost

/-- Every response was read to its end. -/
def Ledger.Drained (L : Ledger) : Prop :=
  ∀ c ∈ L.clients, c.2.Drained

theorem Stock.withClients (h : Stock st L files failed) (clients : List (ℕ × Client)) :
    Stock st { L with clients := clients } files failed :=
  ⟨h.files, h.buffers, h.paired, h.capacity, h.semaphores, h.task, h.running, h.waiting⟩

theorem Stock.withPool (h : Stock st L files failed) (client? : Option ℕ) (host : Str) :
    Stock { st with httpClient := client?, httpBaseHost := host } L files failed :=
  ⟨h.files, h.buffers, h.paired, h.capacity, h.semaphores, h.task, h.running, h.waiting⟩

theorem Pool.single (h : Pool st L) (hc : st.httpClient = some client) :
    ∃ k, L.clients = [(client, k)] ∧ k.host = st.httpBaseHost := by
  have hids := h.clients
  rw [hc, Option.toList_some] at hids
  obtain ⟨⟨c, k⟩, hk, rfl⟩ := List.map_eq_singleton_iff.1 hids
  exact ⟨k, hk, h.host (c, k) (by simp [hk])⟩

theorem Pool.live (h : Pool st L) (hc : st.httpClient = some client) : L.Live client := by
  obtain ⟨k, hk, -⟩ := h.single hc
  simp [Ledger.Live, hk]

/-- A call on the client of the pool. -/
theorem Pool.onClient (h : Pool st L) (client : ℕ) {f : Client → Client}
    (hf : ∀ k, (f k).host = k.host) :
    Pool st (L.onClient client f) := by
  obtain ⟨hids, hhost⟩ := h
  constructor
  · rw [Ledger.onClient, List.map_map, ← hids]
    apply List.map_congr_left
    intro c _
    dsimp only [Function.comp_apply]
    split <;> rfl
  · intro c hc
    obtain ⟨d, hd, rfl⟩ := List.mem_map.1 hc
    split
    · rw [hf, hhost d hd]
    · exact hhost d hd

theorem Pool.of_none (h : st.httpClient = none) (hL : L.clients = []) : Pool st L := by
  constructor
  · rw [h, hL]
    rfl
  · simp [hL]

theorem Pool.drained_of_none (h : Pool st L) (hc : st.httpClient = none) : L.Drained := by
  have hids := h.clients
  rw [hc, Option.toList_none, List.map_eq_nil_iff] at hids
  simp [Ledger.Drained, hids]

theorem initHttpClient_accounts (url : Str) (hs : Stock st L files failed)
    (hL : L.clients = []) :
    Accounts (fun x st' L' => Stock st' L' files failed ∧ Pool st' L' ∧ st'.httpClient = x)
      (initHttpClient url) st L := by
  refine accounts_dev hL fun client? => ensures_modify (ensures_pure ?_)
  cases client? with
  | none => exact ⟨hs.withPool _ _, Pool.of_none rfl hL, rfl⟩
  | some client =>
      refine ⟨(hs.withClients _).withPool _ _, ⟨?_, ?_⟩, rfl⟩
      · simp [Ledger.next, hL]
      · simp [Ledger.next, hL]

theorem cleanup_clients (h : Pool st L) (hc : st.httpClient = some client) :
    (L.clients.filter fun c => decide (c.1 ≠ client)) = [] := by
  obtain ⟨k, hk, -⟩ := h.single hc
  simp [hk]

/-- The client of the pool gets a new URL only where that is in order. -/
theorem getHttpClient_accounts (url : Str) (hs : Stock st L files failed) (hp : Pool st L)
    (hd : L.Drained) :
    Accounts (fun x st' L' => Stock st' L' files failed ∧ Pool st' L' ∧ st'.httpClient = x)
      (getHttpClient url) st L := by
  unfold getHttpClient
  apply ensures_get
  cases hc : st.httpClient with
  | none =>
      have hids := hp.clients
      rw [hc, Option.toList_none, List.map_eq_nil_iff] at hids
      exact initHttpClient_accounts url hs hids
  | some client =>
      obtain ⟨k, hk, hhost⟩ := hp.single hc
      have hmem : (client, k) ∈ L.clients := by
        simp [hk]
      dsimp only
      by_cases heq : st.httpBaseHost = extractHost url
      · rw [if_pos heq]
        refine accounts_dev ⟨k, hmem, hhost.trans heq, hd _ hmem⟩ fun r => ensures_pure ?_
        cases r with
        | false => exact ⟨hs, hp, hc⟩
        | true =>
            refine ⟨hs.withClients _, ⟨?_, ?_⟩, hc⟩
            · simp [Ledger.next, Ledger.onClient, hk, hc]
            · simp [Ledger.next, Ledger.onClient, hk, heq]
      · rw [if_neg heq]
        refine accounts_dev (hp.live hc) fun _ => ?_
        exact initHttpClient_accounts url (hs.withClients _) (cleanup_clients hp hc)

/-- The client of the pool is given back, or stays there for the next request. -/
theorem releaseHttpClient_accounts {force : Bool} (hs : Stock st L files failed)
    (hp : Pool st L) (hc : st.httpClient = some client) (hd : force = false → L.Drained) :
    Accounts (fun _ st' L' => Stock st' L' files failed ∧ Pool st' L' ∧ L'.Drained)
      (releaseHttpClient client force) st L := by
  unfold releaseHttpClient
  apply ensures_get
  split
  · next h => exact ensures_pure ⟨hs, hp, hd h.1⟩
  · refine accounts_dev (hp.live hc) fun _ => accounts_dev (hp.live hc) fun _ => ?_
    change Stock (if st.httpClient = some client then _ else st) _ _ _ ∧
      Pool (if st.httpClient = some client then _ else st) _ ∧ _
    rw [if_pos hc]
    have hnone := cleanup_clients hp hc
    refine ⟨(hs.withClients _).withPool _ _, Pool.of_none rfl hnone, ?_⟩
    intro c hmem
    change c ∈ List.filter _ L.clients at hmem
    rw [hnone] at hmem
    cases hmem

/-- The connection on which there is a response. -/
theorem httpAttempt_accounts (url : Str) (left : ℕ) (hs : Stock st L files failed)
    (hp : Pool st L) (hd : L.Drained) :
    Accounts (fun x st' L' => Stock st' L' files failed ∧ Pool st' L' ∧
        (x = none → L'.Drained) ∧ ∀ c, x = some c → st'.httpClient = some c.1)
      (httpAttempt url left) st L := by
  induction left generalizing st L with
  | zero => exact ensures_pure ⟨hs, hp, fun _ => hd, by simp⟩
  | succ left ih =>
      apply (getHttpClient_accounts url hs hp hd).bind
      rintro client? st L ⟨hs, hp, hc⟩
      cases client? with
      | none => exact ensures_pure ⟨hs, hp, fun _ => hp.drained_of_none hc, by simp⟩
      | some client =>
          refine accounts_dev (hp.live hc) fun opened => ?_
          have hs := hs.withClients (L.onClient client fun k => { k with response := none }).clients
          have hp := hp.onClient client (f := fun k => { k with response := none }) fun _ => rfl
          split
          · refine accounts_dev (hp.live hc) fun clen => accounts_dev (hp.live hc) fun status => ?_
            split
            · refine ensures_pure ⟨hs, hp, by simp, ?_⟩
              rintro _ ⟨⟩
              exact hc
            · apply (releaseHttpClient_accounts hs hp hc (by simp)).bind
              rintro _ st L ⟨hs, hp, hd⟩
              split
              · exact ih hs hp hd
              · exact ensures_pure ⟨hs, hp, fun _ => hd, by simp⟩
          · apply (releaseHttpClient_accounts hs hp hc (by simp)).bind
            rintro _ st L ⟨hs, hp, hd⟩
            exact ih hs hp hd

end Pool

section Buffers

variable {st st' : Statics} {L L' : Ledger} {files : List ℕ} {failed : Prop}

/-- The pool is the same as before. -/
structure SamePool (st : Statics) (L : Ledger) (st' : Statics) (L' : Ledger) : Prop where
  client : st'.httpClient = st.httpClient
  host : st'.httpBaseHost = st.httpBaseHost
  clients : L'.clients = L.clients

theorem Pool.same (h : Pool st L) (hsame : SamePool st L st' L') : Pool st' L' := by
  obtain ⟨hclient, hhost, hclients⟩ := hsame
  constructor
  · rw [hclients, hclient, h.clients]
  · rw [hclients, hhost]
    exact h.host

theorem Stock.mono {failed' : Prop} (h : Stock st L files failed) (hf : failed → failed') :
    Stock st L files failed' :=
  { h with waiting := fun hn => h.waiting fun hf' => hn (hf hf') }

theorem next_heapCapsMalloc (size : ℕ) (buf : Option ℕ) :
    Ledger.next (.dev (.heapCapsMalloc size)) L buf =
      { L with buffers := L.buffers ++ buf.toList } := by
  cases buf <;> simp [Ledger.next]

theorem next_semaphoreCreateBinary (sem : Option ℕ) :
    Ledger.next (.dev .semaphoreCreateBinary) L sem =
      { L with semaphores := L.semaphores ++ sem.toList } := by
  cases sem <;> simp [Ledger.next]

theorem freeBuffer_accounts {buf : Option ℕ} {rest : List ℕ}
    (h : L.buffers = buf.toList ++ rest) :
    Accounts (fun _ st' L' => st' = st ∧ L' = { L with buffers := rest })
      (freeBuffer buf) st L := by
  cases buf with
  | none =>
      have hrest : L.buffers = rest := h
      refine ensures_pure ⟨rfl, ?_⟩
      rw [← hrest]
  | some buf =>
      have hrest : L.buffers = buf :: rest := h
      refine accounts_dev_end (c := .free buf) ?_ fun _ => ⟨rfl, ?_⟩
      · simp [Ledger.Allows, hrest]
      · simp [Ledger.next, hrest]

theorem deleteSemaphore_accounts {sem : Option ℕ} {rest : List ℕ}
    (h : L.semaphores = sem.toList ++ rest) :
    Accounts (fun _ st' L' => st' = st ∧ L' = { L with semaphores := rest })
      (deleteSemaphore sem) st L := by
  cases sem with
  | none =>
      have hrest : L.semaphores = rest := h
      refine ensures_pure ⟨rfl, ?_⟩
      rw [← hrest]
  | some sem =>
      have hrest : L.semaphores = sem :: rest := h
      refine accounts_dev_end (c := .semaphoreDelete sem) ?_ fun _ => ⟨rfl, ?_⟩
      · simp [Ledger.Allows, hrest]
      · simp [Ledger.next, hrest]

/-- Both halves or none. -/
theorem allocBuffers_accounts {halves : List ℕ} (hpos : ∀ half ∈ halves, 0 < half)
    (hs : Stock st L files failed) (h₀ : st.buf0 = none) (h₁ : st.buf1 = none) :
    Accounts (fun _ st' L' => Stock st' L' files failed ∧ SamePool st L st' L')
      (allocBuffers halves) st L := by
  induction halves generalizing st L with
  | nil => exact ensures_pure ⟨hs, rfl, rfl, rfl⟩
  | cons half rest ih =>
      have hempty : L.buffers = [] := by
        rw [hs.buffers, h₀, h₁]
        rfl
      refine accounts_dev trivial fun buf₀ => accounts_dev trivial fun buf₁ => ?_
      rw [next_heapCapsMalloc, next_heapCapsMalloc]
      dsimp only
      rw [hempty, List.nil_append]
      split
      · next hboth =>
          refine ensures_modify_end ⟨?_, rfl, rfl, rfl⟩
          refine { hs with buffers := rfl, paired := ?_, capacity := ?_ }
          · exact hboth.1.trans hboth.2.symm
          · exact fun _ => hpos half List.mem_cons_self
      · apply (freeBuffer_accounts rfl).bind
        rintro _ _ _ ⟨rfl, rfl⟩
        apply (freeBuffer_accounts (List.append_nil _).symm).bind
        rintro _ _ _ ⟨rfl, rfl⟩
        refine ensures_modify ((ih (fun h hh => hpos h (List.mem_cons_of_mem _ hh))
          ?_ rfl rfl).imp ?_)
        · exact { hs with buffers := rfl, paired := rfl, capacity := nofun }
        · rintro _ st' L' ⟨hs', hclient, hhost, hclients⟩
          exact ⟨hs', hclient, hhost, hclients⟩

theorem ensurePingpongBuffers_accounts (hs : Stock st L files failed) :
    Accounts (fun _ st' L' => Stock st' L' files failed ∧ SamePool st L st' L')
      ensurePingpongBuffers st L := by
  apply ensures_get
  split
  · exact ensures_pure ⟨hs, rfl, rfl, rfl⟩
  · next hnone =>
      have hpaired := hs.paired
      rw [Bool.not_eq_true] at hnone
      rw [hnone] at hpaired
      apply allocBuffers_accounts
      · decide
      · exact hs
      · simpa using hnone
      · simpa using hpaired.symm

/-- The writer task runs, or what is held is known. -/
theorem ensureSdWriterTask_accounts (hs : Stock st L files False) :
    Accounts (fun x st' L' => Stock st' L' files (x = false) ∧ SamePool st L st' L' ∧
        (x = true → st'.sdTaskHandle = true) ∧ st'.buf0 = st.buf0)
      ensureSdWriterTask st L := by
  apply ensures_get
  by_cases htask : st.sdTaskHandle = true
  · rw [if_pos htask]
    exact ensures_pure ⟨hs.mono False.elim, ⟨rfl, rfl, rfl⟩, fun _ => htask, rfl⟩
  · rw [if_neg htask]
    rw [Bool.not_eq_true] at htask
    obtain ⟨hready, hdone⟩ := hs.waiting not_false htask
    have hempty : L.semaphores = [] := by
      rw [hs.semaphores, hready, hdone]
      rfl
    refine accounts_dev trivial fun ready => accounts_dev trivial fun done => ensures_modify ?_
    rw [next_semaphoreCreateBinary, next_semaphoreCreateBinary]
    dsimp only
    rw [hempty, List.nil_append]
    split
    · next hboth =>
        refine accounts_dev (hs.task.trans htask) fun created => ensures_modify (ensures_pure ?_)
        cases created with
        | false =>
            refine ⟨?_, ⟨rfl, rfl, rfl⟩, nofun, rfl⟩
            exact { hs with
              semaphores := rfl
              task := hs.task.trans htask
              running := nofun
              waiting := fun hf => absurd rfl hf }
        | true =>
            refine ⟨?_, ⟨rfl, rfl, rfl⟩, fun _ => rfl, rfl⟩
            exact { hs with
              semaphores := rfl
              task := rfl
              running := fun _ => hboth
              waiting := nofun }
    · refine ensures_pure ⟨?_, ⟨rfl, rfl, rfl⟩, nofun, rfl⟩
      exact { hs with
        semaphores := rfl
        running := fun h => absurd (htask.symm.trans h) Bool.false_ne_true
        waiting := fun hf => absurd rfl hf }

end Buffers

end Download

end SimiboxDownloader
