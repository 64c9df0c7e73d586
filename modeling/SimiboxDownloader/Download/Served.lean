import SimiboxDownloader.Download.Installed

/-!
# What is installed is what is served

One client fetches many files: it keeps its host and is given one URL after the other,
and the result of `esp_http_client_set_url` is not looked at. As long as that call does
not fail, every transfer of a file is made on a client that has the URL of the file
(`downloadFileStandalone_receives`). So if the clients receive what is served at their
URLs, then the files that a successful download has installed are the bodies at their
URLs (`downloadSimiFolder_serves`). When it fails, a file takes the bytes of another one
(`downloadSimiFolder_mixes`).
-/

namespace SimiboxDownloader

namespace Download

open Interaction Interaction.Stateful DirTree

variable {body : Str → Bytes} {url outPath : Str} {st st' : Statics} {w t : World}
  {l tr : List Event}

section Server

/-- A client gets the URL it is given, and what it receives is the start of the body at
its URL. -/
def Serves (body : Str → Bytes) : Event → Prop
  | ⟨_, .dev (.httpSetUrl _ _), set, _⟩ => set = true
  | ⟨w, .transfer client _ _ _ _, r, _⟩ =>
      ∀ url, w.urls client = some url → r.received <+: body url
  | _ => True

/-- The content length of a response from `url` with status 200. -/
def AnnouncedBy (url : Str) (l : List Event) (clen : ℤ) : Prop :=
  ∃ a b w₁ w₂ w₃ w₄ client, w₁.urls client = some url ∧
    l = a ++ ⟨w₁, .dev (.httpFetchHeaders client), clen, w₂⟩ ::
      ⟨w₃, .dev (.httpGetStatusCode client), (200 : ℤ), w₄⟩ :: b

/-- The network in a run: `body` is what is served, and the length that comes with a
response is that of its body. -/
structure Served (body : Str → Bytes) (tr : List Event) : Prop where
  serves : ∀ e ∈ tr, Serves body e
  lengths : ∀ url clen, AnnouncedBy url tr clen → 0 < clen → clen = (body url).length

theorem AnnouncedBy.part {clen : ℤ} (h : AnnouncedBy url l clen) (hl : l <:+: tr) :
    AnnouncedBy url tr clen := by
  obtain ⟨a, b, w₁, w₂, w₃, w₄, client, hurl, rfl⟩ := h
  obtain ⟨before, after, rfl⟩ := hl
  exact ⟨before ++ a, b ++ after, w₁, w₂, w₃, w₄, client, hurl, by simp⟩

theorem Served.part (h : Served body tr) (hl : l <:+: tr) : Served body l :=
  ⟨fun e he => h.serves e (hl.subset he), fun url clen hann =>
    h.lengths url clen (hann.part hl)⟩

end Server

section Urls

@[simp] theorem append_urls (w : World) (p : List Name) (data : Bytes) :
    (w.append p data).urls = w.urls := by
  unfold World.append
  split
  · rfl
  · rfl

@[simp] theorem flush_urls (w : World) (file k : ℕ) (rest : Bytes) :
    (w.flush file k rest).urls = w.urls := by
  unfold World.flush
  split
  · exact append_urls w _ _
  · rfl

@[simp] theorem buffer_urls (w : World) (file : ℕ) (data : Bytes) :
    (w.buffer file data).urls = w.urls := by
  unfold World.buffer
  split
  · rfl
  · rfl

theorem unlink_urls (w : World) (path : Str) : (w.unlink path).2.urls = w.urls := by
  unfold World.unlink
  split
  · split
    · rfl
    · rfl
  · rfl

theorem fsDo_urls (c : FsCall) (w : World) : (fsDo c w).2.urls = w.urls := by
  cases c with
  | stat | opendir | fputs | fsync | ftell => simp [fsDo]
  | unlink path | rmdir path | remove path => exact unlink_urls w path
  | fopen path mode =>
      cases mode with
      | wb | rb =>
          simp only [fsDo]
          repeat' split
          all_goals rfl
  | mkdir path | rename src dst | fseek file toEnd | fread file count =>
      simp only [fsDo]
      repeat' split
      all_goals rfl
  | fflush file | fclose file =>
      simp only [fsDo]
      split
      · simp [World.setStream]
      · rfl

theorem FsFault.urls {c : FsCall} {r : c.Reply} (h : FsFault c w r t) : t.urls = w.urls := by
  cases c with
  | opendir path => rw [h.1]
  | fread file count =>
      obtain ⟨s, data, -, -, -, rfl⟩ := h
      rfl
  | fputs text file =>
      obtain ⟨-, k, rfl⟩ := h
      exact buffer_urls w file _
  | fflush file =>
      obtain ⟨-, k, rest, rfl, -⟩ := h
      exact flush_urls w file k rest
  | fclose file =>
      obtain ⟨-, k, rfl⟩ := h
      exact flush_urls w file k []
  | _ => rw [h.2]

/-- The clients keep their URLs. -/
def KeepsUrls : Call → Prop
  | .dev (.httpInit _) => False
  | .dev (.httpSetUrl _ _) => False
  | .dev (.httpCleanup _) => False
  | _ => True

theorem urls_of_machine {o : Call} {r : o.Reply} (ho : KeepsUrls o) (hm : machine o w r t) :
    t.urls = w.urls := by
  cases o with
  | dev c =>
      cases c with
      | httpInit | httpSetUrl | httpCleanup => exact ho.elim
      | heapCapsMalloc | semaphoreCreateBinary =>
          rcases hm with ⟨-, rfl⟩ | ⟨-, rfl⟩
          · rfl
          · rfl
      | _ => rw [show t = w from hm]
  | fs c =>
      rcases hm with hm | hm
      · by_cases hdir : ∃ path, c = .opendir path
        · obtain ⟨path, rfl⟩ := hdir
          rw [hm.1]
        · have heq : (r, t) = fsDo c w := by
            cases c with
            | opendir path => exact absurd ⟨path, rfl⟩ hdir
            | _ => exact hm
          rw [show t = (fsDo c w).2 from congrArg Prod.snd heq, fsDo_urls]
      · exact hm.urls
  | transfer client file capacity downloaded expected =>
      obtain ⟨-, s, k, -, rfl⟩ := hm
      rw [flush_urls, buffer_urls]
  | diverge => exact r.elim

theorem Calls.urls {α : Type} {p : Action α} {q : Program Call Call.Reply (α × Statics)}
    (h : Calls KeepsUrls p) (hrun : Steps machine (p.run st) w tr q t) : t.urls = w.urls := by
  refine hrun.invariant (J := fun s => s.urls = w.urls) (fun e he hs => ?_) rfl
  exact (urls_of_machine (h.events hrun e he) (hrun.events e he)).trans hs

end Urls

section Routing

variable {client file : ℕ} {clen : ℤ} {received : Bytes}

theorem initHttpClient_routes
    (hrun : Steps machine ((initHttpClient url).run st) w tr (.pure (some client, st')) t) :
    t.urls client = some url := by
  obtain ⟨client?, w₁, tr₁, rfl, hm, hrest⟩ := steps_call hrun
  cases hrest
  rcases hm with ⟨hnone, -⟩ | ⟨hsome, rfl⟩
  · cases hnone
  · cases hsome
    exact Function.update_self _ _ _

/-- The client for a request has its URL, be it a new one or the one of the pool. -/
theorem getHttpClient_routes
    (hrun : Steps machine ((getHttpClient url).run st) w tr (.pure (some client, st')) t)
    (hserves : ∀ e ∈ tr, Serves body e) : t.urls client = some url := by
  unfold getHttpClient at hrun
  rw [run_get_bind] at hrun
  split at hrun
  · next pooled _ =>
      split at hrun
      · obtain ⟨set, w₁, tr₁, rfl, hm, hrest⟩ := steps_call hrun
        cases hrest
        have hset : set = true := hserves _ List.mem_cons_self
        rcases hm with ⟨hfalse, -⟩ | ⟨-, rfl⟩
        · rw [hfalse] at hset
          cases hset
        · exact Function.update_self _ _ _
      · obtain ⟨_, w₁, tr₁, rfl, -, hrest⟩ := steps_call hrun
        exact initHttpClient_routes hrest
  · exact initHttpClient_routes hrun

/-- The response is the one of the URL. -/
theorem httpAttempt_routes {left : ℕ}
    (hrun : Steps machine ((httpAttempt url left).run st) w tr (.pure (some (client, clen), st')) t)
    (hserves : ∀ e ∈ tr, Serves body e) : t.urls client = some url ∧ AnnouncedBy url tr clen := by
  induction left generalizing st w tr with
  | zero => cases hrun
  | succ left ih =>
      have hagain {st : Statics} {w : World} {tr₁ tr₂ : List Event}
          (hrun : Steps machine ((httpAttempt url left).run st) w tr₂
            (.pure (some (client, clen), st')) t) (hmem : ∀ e ∈ tr₁ ++ tr₂, Serves body e) :
          t.urls client = some url ∧ AnnouncedBy url (tr₁ ++ tr₂) clen := by
        obtain ⟨hurl, hann⟩ := ih hrun fun e he => hmem e (List.mem_append_right tr₁ he)
        exact ⟨hurl, hann.part (List.suffix_append tr₁ tr₂).isInfix⟩
      rw [httpAttempt] at hrun
      obtain ⟨client?, st₁, w₁, tr₁, tr₂, rfl, hget, hrest⟩ := steps_bind hrun
      cases client? with
      | none => cases hrest
      | some client' =>
          have hurl := getHttpClient_routes hget fun e he =>
            hserves e (List.mem_append_left tr₂ he)
          obtain ⟨opened, w₂, tr₃, rfl, hopen, hrest⟩ := steps_call hrest
          cases opened with
          | true =>
              obtain ⟨clen', w₃, tr₄, rfl, hheaders, hrest⟩ := steps_call hrest
              obtain ⟨status, w₄, tr₅, rfl, hstatus, hrest⟩ := steps_call hrest
              have hopen : w₂ = w₁ := hopen
              have hheaders : w₃ = w₂ := hheaders
              have hstatus : w₄ = w₃ := hstatus
              by_cases hok : status = (200 : ℤ)
              · rw [if_pos hok] at hrest
                cases hrest
                cases hok
                rw [← hopen] at hurl
                refine ⟨?_, tr₁ ++ [⟨w₁, .dev (.httpOpen client), true, w₂⟩], [], w₂, w₃, w₃, t,
                  client, hurl, ?_⟩
                · rw [hstatus, hheaders, hurl]
                · rw [List.append_assoc, List.singleton_append]
              · rw [if_neg hok] at hrest
                obtain ⟨_, st₂, w₅, tr₆, tr₇, rfl, -, hrest⟩ := steps_bind hrest
                split at hrest
                · rw [← List.cons_append, ← List.cons_append, ← List.cons_append,
                    ← List.append_assoc] at hserves ⊢
                  exact hagain hrest hserves
                · cases hrest
          | false =>
              obtain ⟨_, st₂, w₅, tr₆, tr₇, rfl, -, hrest⟩ := steps_bind hrest
              rw [← List.cons_append, ← List.append_assoc] at hserves ⊢
              exact hagain hrest hserves

/-- After the transfer only its reply says what was received, and whether that is as
long as it should be. -/
theorem finishFile_receives {r : PingPong.Transfer}
    (hrun : Steps machine ((finishFile clen file outPath r).run st) w tr
      (.pure (.ok received, st')) t) :
    r.received = received ∧ (0 < clen → r.total = clen) ∧ r.total ≠ 0 := by
  obtain ⟨_, w₁, tr₁, rfl, -, hrest⟩ := steps_call hrun
  obtain ⟨_, w₂, tr₂, rfl, -, hrest⟩ := steps_call hrest
  obtain ⟨_, w₃, tr₃, rfl, -, hrest⟩ := steps_call hrest
  split at hrest
  · obtain ⟨_, w₄, tr₄, rfl, -, hrest⟩ := steps_call hrest
    cases hrest
  · next hlen =>
      obtain ⟨renamed, w₄, tr₄, rfl, -, hrest⟩ := steps_call hrest
      cases renamed with
      | true =>
          obtain ⟨_, st₁, w₅, tr₅, tr₆, rfl, -, hend⟩ := steps_bind hrest
          cases hend
          rw [not_or, not_and, not_not] at hlen
          exact ⟨rfl, hlen⟩
      | false =>
          obtain ⟨_, w₅, tr₅, rfl, -, hend⟩ := steps_call hrest
          cases hend

/-- What a transfer has received, when all of it was written to the file. -/
theorem transferFile_receives (hurl : w.urls client = some url)
    (hrun : Steps machine ((transferFile client clen file outPath).run st) w tr
      (.pure (.ok received, st')) t) (hserves : ∀ e ∈ tr, Serves body e) :
    received <+: body url ∧ (0 < clen → PingPong.toInt32 received.length = clen) ∧
      PingPong.toInt32 received.length ≠ 0 := by
  rw [transferFile, run_get_bind] at hrun
  obtain ⟨r, w₁, tr₁, rfl, hm, hrest⟩ := steps_call hrun
  have hsub : r.received <+: body url := hserves _ List.mem_cons_self url hurl
  rw [run_modify_bind] at hrest
  obtain ⟨_, st₂, w₂, tr₂, tr₃, rfl, -, hrest⟩ := steps_bind hrest
  split at hrest
  · obtain ⟨_, w₃, tr₄, rfl, -, hend⟩ := steps_call hrest
    cases hend
  · split at hrest
    · obtain ⟨_, w₃, tr₄, rfl, -, hrest⟩ := steps_call hrest
      obtain ⟨_, w₄, tr₅, rfl, -, hrest⟩ := steps_call hrest
      obtain ⟨_, w₅, tr₆, rfl, -, hend⟩ := steps_call hrest
      cases hend
    · obtain ⟨rfl, hlength, hne⟩ := finishFile_receives hrest
      rw [hm.1.total] at hlength hne
      exact ⟨hsub, hlength, hne⟩

theorem keepsUrls_dev (c : DevCall) (hc : KeepsUrls (.dev c)) : Calls KeepsUrls (dev c) :=
  uses_call hc

theorem freeBuffer_keepsUrls (buf : Option ℕ) : Calls KeepsUrls (freeBuffer buf) := by
  cases buf with
  | none => exact calls_pure
  | some buf => exact keepsUrls_dev (.free buf) trivial

theorem allocBuffers_keepsUrls (halves : List ℕ) : Calls KeepsUrls (allocBuffers halves) := by
  induction halves with
  | nil => exact calls_pure
  | cons half rest ih =>
      have hmalloc := keepsUrls_dev (.heapCapsMalloc half) trivial
      refine hmalloc.bind fun _ => hmalloc.bind fun _ => ?_
      split
      · exact calls_modify
      · refine (freeBuffer_keepsUrls _).bind fun _ => (freeBuffer_keepsUrls _).bind fun _ => ?_
        exact calls_modify.bind fun _ => ih

theorem ensurePingpongBuffers_keepsUrls : Calls KeepsUrls ensurePingpongBuffers := by
  refine calls_get.bind fun st => ?_
  split
  · exact calls_pure
  · exact allocBuffers_keepsUrls _

theorem ensureSdWriterTask_keepsUrls : Calls KeepsUrls ensureSdWriterTask := by
  refine calls_get.bind fun st => ?_
  split
  · exact calls_pure
  · have hcreate := keepsUrls_dev .semaphoreCreateBinary trivial
    refine hcreate.bind fun _ => hcreate.bind fun _ => calls_modify.bind fun _ => ?_
    split
    · exact (keepsUrls_dev .taskCreate trivial).bind fun _ => calls_modify.bind fun _ => calls_pure
    · exact calls_pure

theorem receiveFile_receives (hurl : w.urls client = some url)
    (hrun : Steps machine ((receiveFile client clen outPath).run st) w tr
      (.pure (.ok received, st')) t) (hserves : ∀ e ∈ tr, Serves body e) :
    received <+: body url ∧ (0 < clen → PingPong.toInt32 received.length = clen) ∧
      PingPong.toInt32 received.length ≠ 0 := by
  obtain ⟨file?, w₁, tr₁, rfl, hopen, hrest⟩ := steps_call hrun
  have hurls₁ : w₁.urls = w.urls :=
    urls_of_machine (o := .fs (.fopen (part outPath) .wb)) trivial hopen
  cases file? with
  | none =>
      obtain ⟨_, st₂, w₂, tr₂, tr₃, rfl, -, hend⟩ := steps_bind hrest
      cases hend
  | some file =>
      obtain ⟨running, st₂, w₂, tr₂, tr₃, rfl, htask, hrest⟩ := steps_bind hrest
      have hurls₂ := ensureSdWriterTask_keepsUrls.urls htask
      cases running with
      | true =>
          have hurl₂ : w₂.urls client = some url := by
            rw [hurls₂, hurls₁, hurl]
          refine transferFile_receives hurl₂ hrest fun e he => hserves e ?_
          exact List.mem_cons_of_mem _ (List.mem_append_right tr₂ he)
      | false =>
          obtain ⟨_, w₃, tr₄, rfl, -, hrest⟩ := steps_call hrest
          obtain ⟨_, st₃, w₄, tr₅, tr₆, rfl, -, hend⟩ := steps_bind hrest
          cases hend

/-- In every run that ends with `DlResult::OK`: what was received is a non-empty part of
the body at the URL of the file from its start, and all of it when every response of this
URL came with its length. -/
theorem downloadFileStandalone_receives
    (hrun : Steps machine ((downloadFileStandalone url outPath).run st) w tr
      (.pure (.ok received, st')) t) (hserved : Served body tr) :
    received <+: body url ∧ received ≠ [] ∧
      ((∀ clen, AnnouncedBy url tr clen → 0 < clen) → received = body url) := by
  obtain ⟨response, st₁, w₁, tr₁, tr₂, rfl, hattempt, hrest⟩ := steps_bind hrun
  cases response with
  | none => cases hrest
  | some response =>
      obtain ⟨client, clen⟩ := response
      obtain ⟨hurl, hann⟩ := httpAttempt_routes hattempt fun e he =>
        hserved.serves e (List.mem_append_left tr₂ he)
      obtain ⟨_, st₂, w₂, tr₃, tr₄, rfl, hbuffers, hrest⟩ := steps_bind hrest
      rw [← ensurePingpongBuffers_keepsUrls.urls hbuffers] at hurl
      rw [run_get_bind] at hrest
      split at hrest
      · obtain ⟨hsub, hlength, hne⟩ := receiveFile_receives hurl hrest fun e he =>
          hserved.serves e (List.mem_append_right tr₁ (List.mem_append_right tr₃ he))
        refine ⟨hsub, ?_, fun hpos => ?_⟩
        · rintro rfl
          exact hne PingPong.toInt32_zero
        · have hann' := hann.part (List.prefix_append tr₁ (tr₃ ++ tr₄)).isInfix
          have hclen := hserved.lengths url clen hann' (hpos clen hann')
          have htotal := hlength (hpos clen hann')
          rw [hclen] at htotal
          apply hsub.eq_of_length
          -- the counter of an `int` is never above the length it counts
          have hle := PingPong.toInt32_le (Int.natCast_nonneg received.length)
          have := hsub.length_le
          omega
      · obtain ⟨_, st₃, w₃, tr₅, tr₆, rfl, -, hend⟩ := steps_bind hrest
        cases hend

end Routing

section Folder

variable {J : CJson} {depth : ℕ} {folder lambdaUrl : Str} {x : FolderEnd × Statics}

/-- The file at the path is a non-empty part of the body at `url` from its start, and all
of it when every response of this URL came with its length. -/
def HoldsBody (body : Str → Bytes) (tr : List Event) (card : Tree Name Bytes)
    (path url : Str) : Prop :=
  ∃ data, fileAt card path = some data ∧ data <+: body url ∧ data ≠ [] ∧
    ((∀ clen, AnnouncedBy url tr clen → 0 < clen) → data = body url)

theorem Installed.holdsBody {files before after : List FileItem} {item : FileItem}
    (h : Installed J folder files tr t) (hserved : Served body tr)
    (htail : tr.any tailFails = false) (heq : files = before ++ item :: after)
    (hmarker : rel item.name ≠ rel okMarker)
    (hlater : ∀ later ∈ after, rel (part later.name) ≠ rel item.name) :
    HoldsBody body tr t.card (sub (finalDir folder) item.name) item.url := by
  obtain ⟨received, seg, data, hseg, ⟨st₁, w₁, ⟨e, st₂⟩, w₂, hrun, rfl⟩, hdata, hsound⟩ :=
    h.files before item after heq hmarker hlater
  have hwritten : seg.any tailFails = false := by
    rw [List.any_eq_false] at htail ⊢
    exact fun e he => htail e (hseg.subset he)
  obtain rfl := hsound hwritten
  obtain ⟨hsub, hne, hall⟩ := downloadFileStandalone_receives hrun (hserved.part hseg)
  exact ⟨data, hdata, hsub, hne, fun hpos => hall fun clen hann => hpos clen (hann.part hseg)⟩

/-- In every run that returns true and in which no flush, sync or close has failed: every
file of the list has the body at its own URL, with the exceptions of `Installed`. -/
theorem downloadSimiFolder_serves (hclosed : ∀ f, w.writer f = none)
    (hrun : Steps machine ((downloadSimiFolder J depth folder lambdaUrl).run st) w tr (.pure x) t)
    (hserved : Served body tr) (htail : tr.any tailFails = false) (hret : x.1.ret = true) :
    ∃ items ∈ tr.filterMap (listResponse J), ∀ before item after,
      fileList items = before ++ item :: after → rel item.name ≠ rel okMarker →
      (∀ later ∈ after, rel (part later.name) ≠ rel item.name) →
      HoldsBody body tr t.card (sub (finalDir folder) item.name) item.url := by
  obtain ⟨fetch, install, w₁, rfl, hquiet, hstages⟩ := downloadSimiFolder_fetches hrun
  rcases hstages with ⟨-, -, -, hend⟩ | ⟨-, items, st', hitems, hinstall⟩
  · rcases hend with hend | hend
    · rw [hend] at hret
      cases hret
    · rw [hend] at hret
      cases hret
  · have hclosed' : ∀ f, w₁.writer f = none := by
      intro f
      rw [World.writer, hquiet.streams]
      exact hclosed f
    have hinstalled : Installed J folder (fileList items) (fetch ++ install) t :=
      (installFiles_installs hclosed' hinstall hret).prepend
    refine ⟨items, ?_, fun before item after heq hmarker hlater => ?_⟩
    · rw [List.filterMap_append]
      exact List.mem_append_left _ hitems
    · exact hinstalled.holdsBody hserved htail heq hmarker hlater

end Folder

section Sample

/-- What the server of a package sends. -/
def serving (p : Sample) : Machine Call Call.Reply World :=
  fun o w r t => serve p.env (fun _ _ => .ok) o w = some (r, t)

theorem serves_of_serving {p : Sample} {e : Event}
    (h : serving p e.op e.before e.reply e.after) : Serves p.env.body e := by
  obtain ⟨w, o, r, t⟩ := e
  cases o with
  | dev c =>
      cases c with
      | httpSetUrl client url => exact (Prod.mk.inj (Option.some.inj h)).1.symm
      | _ => trivial
  | fs c => trivial
  | transfer client file capacity downloaded expected =>
      intro url hurl
      simp only [serving, serve, hurl] at h
      split at h
      · next url' s hurl' hs =>
          cases hurl'
          split at h
          · obtain ⟨rfl, -⟩ := Prod.mk.inj (Option.some.inj h)
            exact List.prefix_refl _
          · cases h
      · cases h
  | diverge => trivial

theorem Sample.clen_eq (p : Sample) (url : Str) :
    p.env.clen url = ((p.env.body url).length : ℤ) := by
  simp only [Sample.env]
  cases p.files.find? fun f => f.2.1 = url with
  | none => rfl
  | some f => rfl

theorem served_of_serving {p : Sample} {q r : Program Call Call.Reply (FolderEnd × Statics)}
    (h : Steps (serving p) q w tr r t) : Served p.env.body tr := by
  refine ⟨fun e he => serves_of_serving (h.events e he), ?_⟩
  rintro url clen ⟨a, b, w₁, w₂, w₃, w₄, client, hurl, rfl⟩ -
  have hheaders := h.events _ (List.mem_append_right a List.mem_cons_self)
  have hclen : ((w₁.urls client).map p.env.clen).getD 0 = clen :=
    (Prod.mk.inj (Option.some.inj hheaders)).1
  rw [← hclen, hurl]
  exact p.clen_eq url

theorem downloadSimiFolder_serves_mozart : ∃ tr x t,
    Steps machine
      ((downloadSimiFolder mozart.cjson 4 "mozart".toList "https://api.example".toList).run
        (Statics.boot true 10000)) (World.boot (cardOf [])) tr (.pure x) t ∧ x.1.ret = true ∧
    ∃ items ∈ tr.filterMap (listResponse mozart.cjson), ∀ before item after,
      fileList items = before ++ item :: after → rel item.name ≠ rel okMarker →
      (∀ later ∈ after, rel (part later.name) ≠ rel item.name) →
      HoldsBody mozart.env.body tr t.card (sub (finalDir "mozart".toList) item.name) item.url := by
  have hend : (mozart.play (fun _ _ => .ok) "mozart".toList (cardOf [])).1.value.map
      (fun x => x.1.ret) = some true := by
    decide +kernel
  have htail : (mozart.play (fun _ _ => .ok) "mozart".toList (cardOf [])).2.2.any
      tailFails = false := by
    decide +kernel
  have hserving : Steps (serving mozart)
      ((downloadSimiFolder mozart.cjson 4 "mozart".toList "https://api.example".toList).run
        (Statics.boot true 10000)) (World.boot (cardOf []))
      (mozart.play (fun _ _ => .ok) "mozart".toList (cardOf [])).2.2
      (mozart.play (fun _ _ => .ok) "mozart".toList (cardOf [])).1
      (mozart.play (fun _ _ => .ok) "mozart".toList (cardOf [])).2.1 :=
    steps_play (fun _ _ _ _ h => h) _ _
  obtain ⟨x, hrun, hret⟩ :=
    (mozart.steps_play (fun _ _ => .ok) "mozart".toList (cardOf [])).returned hend
  exact ⟨_, x, _, hrun, hret,
    downloadSimiFolder_serves (fun _ => rfl) hrun (served_of_serving hserving) htail hret⟩

/-- A package of two songs. -/
def haydn : Sample where
  files := [("manifest.json".toList, "https://a.example/0".toList,
      (Sample.mk [] [("a.mp3".toList, 2), ("b.mp3".toList, 2)]).manifestText),
    ("a.mp3".toList, "https://a.example/1".toList, [7, 8]),
    ("b.mp3".toList, "https://a.example/2".toList, [9, 9])]
  entries := [("a.mp3".toList, 2), ("b.mp3".toList, 2)]

/-- The client of the pool keeps its URL before the second song. -/
def stale : (o : Call) → World → Option (o.Reply × World)
  | .dev (.httpSetUrl client url), w =>
      if url = "https://a.example/2".toList then some (false, w)
      else serve haydn.env (fun _ _ => .ok) (.dev (.httpSetUrl client url)) w
  | o, w => serve haydn.env (fun _ _ => .ok) o w

theorem machine_of_stale (o : Call) (w : World) (r : o.Reply) (t : World)
    (h : stale o w = some (r, t)) : machine o w r t := by
  unfold stale at h
  split at h
  · split at h
    · obtain ⟨rfl, rfl⟩ := Prod.mk.inj (Option.some.inj h)
      exact Or.inl ⟨rfl, rfl⟩
    · exact machine_of_serve _ w r t h
  · exact machine_of_serve _ w r t h

/-- A run that returns true with the first song in the place of the second. -/
theorem downloadSimiFolder_mixes : ∃ tr x t,
    Steps machine
      ((downloadSimiFolder haydn.cjson 4 "haydn".toList "https://api.example".toList).run
        (Statics.boot true 10000)) (World.boot (cardOf [])) tr (.pure x) t ∧ x.1.ret = true ∧
    fileAt t.card (sub (finalDir "haydn".toList) "b.mp3".toList) = some [7, 8] := by
  have hrun : Steps machine
      ((downloadSimiFolder haydn.cjson 4 "haydn".toList "https://api.example".toList).run
        (Statics.boot true 10000)) (World.boot (cardOf [])) (play stale
          ((downloadSimiFolder haydn.cjson 4 "haydn".toList "https://api.example".toList).run
            (Statics.boot true 10000)) (World.boot (cardOf []))).2.2 _ _ :=
    steps_play machine_of_stale _ _
  have hend : (play stale
      ((downloadSimiFolder haydn.cjson 4 "haydn".toList "https://api.example".toList).run
        (Statics.boot true 10000)) (World.boot (cardOf []))).1.value.map
      (fun x => x.1.ret) = some true := by
    decide +kernel
  obtain ⟨x, hrun, hret⟩ := hrun.returned hend
  refine ⟨_, x, _, hrun, hret, ?_⟩
  decide +kernel

end Sample

end Download

end SimiboxDownloader
