import SimiboxDownloader.Download.Counting
import SimiboxDownloader.Download.Discipline
import SimiboxDownloader.Download.Failures

/-!
# When every call succeeds

`Works` says of a call that it succeeds: the server answers with its list and its
bodies, there is memory, and the file system does what its rules allow. No run of such
calls is stuck (`Answered`), and a file of the list is put where it belongs
(`downloadFile_works`).
-/

namespace SimiboxDownloader

namespace Download

open Interaction Interaction.Stateful DirTree

/-- What the server has: the response to the list request, and for every URL the body
and the content length that comes with it. -/
structure Server where
  list : ListResponse
  body : Str → Bytes
  clen : Str → ℤ

/-- The rules of the file system: `mkdir` fails only where something is, `rename` only
when there is something at its target, `rmdir` only when the directory is not empty. -/
def Granted : (c : FsCall) → World → c.Reply → Prop
  | .mkdir path, s, r => r = false → isThere s.card path = true
  | .rename _ dst, s, r => r = false → isThere s.card dst = true
  | .rmdir path, s, r => r = false → ∀ x, resolve path = some x →
      s.card.get x = none ∨ s.card.children x ≠ []
  | _, _, _ => True

/-- The call succeeds. -/
def Works (v : Server) : Event → Prop
  | ⟨s, .fs c, r, t⟩ => FsOk c s r t ∧ Granted c s r
  | ⟨_, .dev (.httpInit _), r, _⟩ => r.isSome = true
  | ⟨_, .dev (.httpSetUrl _ _), r, _⟩ => r = true
  | ⟨_, .dev (.httpOpen _), r, _⟩ => r = true
  | ⟨s, .dev (.httpFetchHeaders client), r, _⟩ => ∀ url ∈ s.urls client, r = v.clen url
  | ⟨_, .dev (.httpGetStatusCode _), r, _⟩ => r = 200
  | ⟨_, .dev (.httpPerform _), r, _⟩ => r = v.list
  | ⟨_, .dev (.heapCapsMalloc _), r, _⟩ => r.isSome = true
  | ⟨_, .dev .semaphoreCreateBinary, r, _⟩ => r.isSome = true
  | ⟨_, .dev .taskCreate, r, _⟩ => r = true
  | ⟨_, .dev (.setCardClk _), r, _⟩ => r = true
  | ⟨s, .transfer client _ _ _ _, r, _⟩ => ∀ url ∈ s.urls client,
      r.received = v.body url ∧ r.netError = false ∧ r.sdError = false
  | _ => True

/-- The system in which every call succeeds. -/
def working (v : Server) : Machine Call Call.Reply World :=
  machine.restrict (Works v)

/-- The call can succeed, if `R` holds. -/
def Answered (v : Server) (R : Prop) (o : Call) (s : World) : Prop :=
  R → ∃ r t, working v o s r t

section Calls

variable {v : Server} {R : Prop} {s t u : World}

theorem answered_dev (c : DevCall) : Answered v R (.dev c) s := by
  intro _
  cases c with
  | httpInit | heapCapsMalloc | semaphoreCreateBinary =>
      exact ⟨some s.next, _, Or.inr ⟨rfl, rfl⟩, rfl⟩
  | httpSetUrl => exact ⟨true, _, Or.inr ⟨rfl, rfl⟩, rfl⟩
  | httpOpen | taskCreate | setCardClk => exact ⟨true, s, rfl, rfl⟩
  | httpGetStatusCode => exact ⟨200, s, rfl, rfl⟩
  | httpPerform => exact ⟨v.list, s, rfl, rfl⟩
  | httpFetchHeaders client =>
      refine ⟨((s.urls client).map v.clen).getD 0, s, rfl, fun url hurl => ?_⟩
      rw [Option.mem_def.1 hurl]
      rfl
  | httpClose | httpCleanup | free | semaphoreGive | semaphoreDelete | ledShowDownloadProgress =>
      exact ⟨(), _, rfl, trivial⟩

theorem answered_fs {c : FsCall} (h : R → Granted c s (fsDo c s).1) : Answered v R (.fs c) s :=
  fun hR => ⟨_, _, Or.inl (fsOk_fsDo c s), fsOk_fsDo c s, h hR⟩

/-- Neither the card nor an open file has changed. -/
structure Same (s t : World) : Prop where
  card : t.card = s.card
  streams : t.streams = s.streams

theorem Same.refl (s : World) : Same s s := ⟨rfl, rfl⟩

theorem Same.trans (h : Same s t) (h' : Same t u) : Same s u :=
  ⟨h'.card.trans h.card, h'.streams.trans h.streams⟩

theorem same_dev {c : DevCall} {r : c.Reply} (hm : working v (.dev c) s r t) : Same s t :=
  ⟨(DevStep.card hm.1).1, (DevStep.card hm.1).2⟩

/-- Only devices are called. -/
theorem Calls.same {α : Type} {p : Action α} {st : Statics} (h : Calls OnlyDev p) (w : World) :
    Ensures (working v) (Answered v R) (fun _ _ t => Same w t) p st w := by
  have hsafe := (h st).safe (M := working v) (C := Answered v R) (J := Same w) ?_ ?_ (Same.refl w)
  · exact hsafe.forget
  · rintro o s r t ⟨c, rfl⟩ hs hm
    exact ⟨lists_of_machine hm.1, hs.trans (same_dev hm)⟩
  · rintro o s ⟨c, rfl⟩ -
    exact answered_dev c

end Calls

section Files

variable {v : Server} {R : Prop} {st : Statics} {w s : World} {base : Tree Name Bytes}
  {file : ℕ} {p q x : List Name} {content : Bytes} {url outPath : Str}

/-- The buffers are there or will be. -/
def Ready (st : Statics) : Prop :=
  st.buf0.isSome = true → st.buf1.isSome = true ∧ 0 < st.bufCapacity

theorem Idle.ready (h : Idle st) : Ready st := by
  intro hbuf
  rw [h.buf0] at hbuf
  cases hbuf

theorem initHttpClient_works (hst : Ready st) :
    Ensures (working v) (Answered v R) (fun r st' t => Ready st' ∧ Same w t ∧
      ∃ client, r = some client ∧ t.urls client = some url) (initHttpClient url) st w := by
  refine ensures_dev (answered_dev _) fun r t hm => ensures_modify ⟨hst, same_dev hm, ?_⟩
  obtain ⟨⟨rfl, -⟩ | ⟨rfl, rfl⟩, hr⟩ := hm
  · cases hr
  · exact ⟨w.next, rfl, Function.update_self _ _ _⟩

theorem getHttpClient_works (hst : Ready st) :
    Ensures (working v) (Answered v R) (fun r st' t => Ready st' ∧ Same w t ∧
      ∃ client, r = some client ∧ t.urls client = some url) (getHttpClient url) st w := by
  unfold getHttpClient
  apply ensures_get
  split
  · next client hclient =>
      split
      · refine ensures_dev (answered_dev _) fun r t hm => ensures_pure ⟨hst, same_dev hm, ?_⟩
        obtain ⟨⟨rfl, -⟩ | ⟨rfl, rfl⟩, hr⟩ := hm
        · cases hr
        · exact ⟨client, rfl, Function.update_self _ _ _⟩
      · refine ensures_dev (answered_dev _) fun r t hm => ?_
        apply (initHttpClient_works hst).imp
        rintro _ _ u ⟨hst', hsame, hclient⟩
        exact ⟨hst', (same_dev hm).trans hsame, hclient⟩
  · exact initHttpClient_works hst

theorem httpAttempt_works (left : ℕ) (hst : Ready st) :
    Ensures (working v) (Answered v R) (fun r st' t => Ready st' ∧ Same w t ∧
      ∃ client, r = some (client, v.clen url) ∧ t.urls client = some url)
      (httpAttempt url (left + 1)) st w := by
  unfold httpAttempt
  apply (getHttpClient_works hst).bind
  rintro _ st s ⟨hst, hsame, client, rfl, hurl⟩
  refine ensures_dev (answered_dev _) fun opened s₁ hm₁ => ?_
  obtain ⟨rfl, hopened⟩ := hm₁
  obtain rfl : opened = true := hopened
  refine ensures_dev (answered_dev _) fun clen s₂ hm₂ => ?_
  obtain ⟨rfl, hclen⟩ := hm₂
  obtain rfl : clen = v.clen url := hclen url hurl
  refine ensures_dev (answered_dev _) fun status s₃ hm₃ => ?_
  obtain ⟨rfl, hstatus⟩ := hm₃
  obtain rfl : status = 200 := hstatus
  exact ensures_pure ⟨hst, hsame, client, rfl, hurl⟩

/-- Handles are made, the clients keep their URLs. -/
structure Makes (s t : World) : Prop extends Same s t where
  urls : t.urls = s.urls

theorem Makes.trans {t u : World} (h : Makes s t) (h' : Makes t u) : Makes s u :=
  ⟨h.toSame.trans h'.toSame, h'.urls.trans h.urls⟩

theorem ensurePingpongBuffers_works (hst : Ready st) :
    Ensures (working v) (Answered v R) (fun _ st' t => Ready st' ∧ st'.buf0.isSome = true ∧
      Makes w t) ensurePingpongBuffers st w := by
  have hmalloc {half : ℕ} {s t : World} {r : Option ℕ}
      (hm : working v (.dev (.heapCapsMalloc half)) s r t) : r.isSome = true ∧ Makes s t := by
    refine ⟨hm.2, same_dev hm, ?_⟩
    rcases hm.1 with ⟨-, rfl⟩ | ⟨-, rfl⟩ <;> rfl
  unfold ensurePingpongBuffers
  apply ensures_get
  split
  · next hbuf => exact ensures_pure ⟨hst, hbuf, Same.refl w, rfl⟩
  · refine ensures_dev (answered_dev _) fun buf0 s₁ hm₁ => ?_
    refine ensures_dev (answered_dev _) fun buf1 s₂ hm₂ => ?_
    rw [if_pos ⟨(hmalloc hm₁).1, (hmalloc hm₂).1⟩]
    refine ensures_modify_end ⟨fun _ => ⟨(hmalloc hm₂).1, ?_⟩, (hmalloc hm₁).1,
      (hmalloc hm₁).2.trans (hmalloc hm₂).2⟩
    exact Nat.succ_pos 1572863

theorem ensureSdWriterTask_works (hst : Ready st) :
    Ensures (working v) (Answered v R) (fun running st' t => running = true ∧ Ready st' ∧
      st'.buf0 = st.buf0 ∧ Makes w t) ensureSdWriterTask st w := by
  have hmake {s t : World} {r : Option ℕ}
      (hm : working v (.dev .semaphoreCreateBinary) s r t) : r.isSome = true ∧ Makes s t := by
    refine ⟨hm.2, same_dev hm, ?_⟩
    rcases hm.1 with ⟨-, rfl⟩ | ⟨-, rfl⟩ <;> rfl
  unfold ensureSdWriterTask
  apply ensures_get
  split
  · exact ensures_pure ⟨rfl, hst, rfl, Same.refl w, rfl⟩
  · refine ensures_dev (answered_dev _) fun ready s₁ hm₁ => ?_
    refine ensures_dev (answered_dev _) fun done s₂ hm₂ => ?_
    apply ensures_modify
    rw [if_pos ⟨(hmake hm₁).1, (hmake hm₂).1⟩]
    refine ensures_dev (answered_dev _) fun created s₃ hm₃ => ensures_modify ⟨hm₃.2, hst, rfl, ?_⟩
    have hlast : s₃ = s₂ := hm₃.1
    rw [hlast]
    exact (hmake hm₁).2.trans (hmake hm₂).2

theorem updateLedProgress_works :
    Ensures (working v) (Answered v R) (fun _ st' t => st' = st ∧ Same w t) updateLedProgress st
      w := by
  unfold updateLedProgress
  apply ensures_get
  split
  · exact ⟨answered_dev _, fun _ t hm => ⟨trivial, rfl, same_dev hm⟩⟩
  · exact ensures_pure ⟨rfl, Same.refl w⟩

theorem releaseHttpClient_works {client : ℕ} {force : Bool} :
    Ensures (working v) (Answered v R) (fun _ st' t => (Ready st → Ready st') ∧ Same w t)
      (releaseHttpClient client force) st w := by
  unfold releaseHttpClient
  apply ensures_get
  split
  · exact ensures_pure ⟨id, Same.refl w⟩
  · refine ensures_dev (answered_dev _) fun _ s₁ hm₁ => ?_
    refine ensures_dev (answered_dev _) fun _ s₂ hm₂ => ensures_modify_end ⟨fun hst => ?_, ?_⟩
    · split
      · exact hst
      · exact hst
    · exact (same_dev hm₁).trans (same_dev hm₂)

theorem Writing.streams {sound : Prop} (h : Writing base file p sound content w) :
    ∃ s, w.streams file = some s := by
  obtain ⟨s, -, hs, -⟩ := h.stream
  exact ⟨s, (World.writer_eq_some.1 hs).1⟩

theorem Writing.fputs_works {sound : Prop} {text : Bytes} {r : Bool} {t : World}
    (h : Writing base file p sound content w) (hm : FsOk (.fputs text file) w r t) : r = true := by
  obtain ⟨s, -, hs, -⟩ := h.stream
  have hr : r = (w.writer file).isSome := congrArg Prod.fst hm
  rw [hr, hs]
  rfl

theorem Writing.fflush_works {sound : Prop} {r : Bool} {t : World}
    (h : Writing base file p sound content w) (hm : FsOk (.fflush file) w r t) : r = true := by
  obtain ⟨s, hs⟩ := h.streams
  have hrt : (r, t) = fsDo (.fflush file) w := hm
  simp only [fsDo, hs] at hrt
  exact (Prod.mk.inj hrt).1

theorem Writing.fsync_works {sound : Prop} {r : Bool} {t : World}
    (h : Writing base file p sound content w) (hm : FsOk (.fsync file) w r t) : r = true := by
  obtain ⟨s, hs⟩ := h.streams
  have hr : r = (w.streams file).isSome := congrArg Prod.fst hm
  rw [hr, hs]
  rfl

theorem Writing.fclose_works {sound : Prop} {r : Bool} {t : World}
    (h : Writing base file p sound content w) (hm : FsOk (.fclose file) w r t) : r = true := by
  obtain ⟨s, hs⟩ := h.streams
  have hrt : (r, t) = fsDo (.fclose file) w := hm
  simp only [fsDo, hs] at hrt
  exact (Prod.mk.inj hrt).1

theorem fopen_works {path : Str} {r : Option ℕ} {t : World} (hp : resolve path = some p)
    (hput : w.card.CanPut p) (hm : FsOk (.fopen path .wb) w r t) : ∃ f, r = some f := by
  have hrt : (r, t) = fsDo (.fopen path .wb) w := hm
  simp only [fsDo, hp, if_pos hput] at hrt
  exact ⟨_, (Prod.mk.inj hrt).1⟩

theorem fopen_urls {path : Str} {r : Option ℕ} {t : World} (hm : FsOk (.fopen path .wb) w r t) :
    t.urls = w.urls := by
  have ht : t = (fsDo (.fopen path .wb) w).2 := hm.eq
  rw [ht]
  simp only [fsDo]
  split
  · split <;> rfl
  · rfl

theorem rename_works {src dst : Str} {r : Bool} {t : World} (hp : resolve src = some p)
    (hx : resolve dst = some x) (hmove : w.card.CanMove p x)
    (hm : FsOk (.rename src dst) w r t) : r = true := by
  have hrt : (r, t) = fsDo (.rename src dst) w := hm
  simp only [fsDo, hp, hx, if_pos hmove] at hrt
  exact (Prod.mk.inj hrt).1

/-- A file can be moved to an absent path in a directory. -/
theorem canMove_of_file {c : Tree Name Bytes} {data : Bytes} {n : Name}
    (hp : c.get p = some (.file data)) (hdir : c.get q = some .dir)
    (hx : c.get (q ++ [n]) = none) : c.CanMove p (q ++ [n]) := by
  refine ⟨(Tree.canPut_of_file hp).1, by rw [hp]; rfl, by simp, ?_, hx, ?_⟩
  · rw [List.dropLast_concat]
    exact Tree.isDir_iff.2 hdir
  · rw [List.prefix_concat_iff]
    rintro (rfl | ⟨r, rfl⟩)
    · rw [hp] at hx
      cases hx
    · by_cases hr : r = []
      · rw [hr, List.append_nil, hp] at hdir
        cases hdir
      · rw [Tree.get_of_prefix (by rw [hdir]; rfl) hr] at hp
        cases hp

/-- The body of `url` can be received as a whole: it is not empty, the counter holds its
length, and a length that is announced is its own. -/
structure Server.Delivers (v : Server) (url : Str) : Prop where
  nonempty : v.body url ≠ []
  small : (v.body url).length < 2 ^ 31
  whole : 0 < v.clen url → v.clen url = (v.body url).length

/-- The file and its `.part` are the entries `n` and `m` of `q`. -/
structure Spot (q : List Name) (n m : Name) (outPath : Str) : Prop where
  ne : n ≠ m
  file : resolve outPath = some (q ++ [n])
  part : resolve (part outPath) = some (q ++ [m])

/-- The directory is there, and nothing where the file and its `.part` are to be. -/
structure Vacant (q : List Name) (n m : Name) (c : Tree Name Bytes) : Prop where
  dir : c.get q = some .dir
  file : c.get (q ++ [n]) = none
  part : c.get (q ++ [m]) = none

theorem Vacant.canPut {n m : Name} {c : Tree Name Bytes} (h : Vacant q n m c) :
    c.CanPut (q ++ [m]) := by
  refine ⟨by simp, ?_, ?_⟩
  · rw [List.dropLast_concat]
    exact Tree.isDir_iff.2 h.dir
  · rw [Tree.isDir, h.part]

section Target

variable {n m : Name} (hspot : Spot q n m outPath) (hdelivers : v.Delivers url)

include hspot hdelivers

theorem finishFile_works {r : PingPong.Transfer} (hbase : Vacant q n m base)
    (htotal : r.total = (v.body url).length) (hreceived : r.received = v.body url)
    (hst : Ready st) (hw : Writing base file (q ++ [m]) True (v.body url) w) :
    Ensures (working v) (Answered v R) (fun e st' t => e = .ok (v.body url) ∧ Ready st' ∧
      Placed base (q ++ [m]) (q ++ [n]) True (v.body url) t)
      (finishFile (v.clen url) file outPath r) st w := by
  obtain ⟨hnm, hout, hpart⟩ := hspot
  obtain ⟨hne, -, hclen⟩ := hdelivers
  refine ensures_fs (answered_fs fun _ => trivial) fun flushed w₁ hm₁ => ?_
  obtain rfl := hw.fflush_works hm₁.2.1
  have hw₁ := (hw.fflush hm₁.1).mono fun h : True => ⟨h, rfl⟩
  refine ensures_fs (answered_fs fun _ => trivial) fun synced w₂ hm₂ => ?_
  obtain rfl := hw₁.fsync_works hm₂.2.1
  have hw₂ := (hw₁.fsync hm₂.1).mono fun h : True => ⟨h, rfl⟩
  refine ensures_fs (answered_fs fun _ => trivial) fun closed w₃ hm₃ => ?_
  obtain rfl := hw₂.fclose_works hm₃.2.1
  obtain ⟨helse, data, hdata, hsound⟩ := hw₂.fclose hm₃.1
  have hlength : 0 < (v.body url).length := List.length_pos_iff.2 hne
  rw [if_neg (by rw [htotal]; omega)]
  have hdir : w₃.card.get q = some .dir := by
    rw [helse q (by simp), hbase.dir]
  have hfile : w₃.card.get (q ++ [n]) = none := by
    rw [helse _ (by simpa using hnm), hbase.file]
  have hmove := canMove_of_file hdata hdir hfile
  refine ensures_fs (answered_fs fun _ => ?_) fun renamed w₄ hm₄ => ?_
  · rw [Granted, rename_works hpart hout hmove (fsOk_fsDo _ w₃)]
    exact nofun
  · obtain rfl := rename_works hpart hout hmove hm₄.2.1
    obtain ⟨x, hx, hplaced⟩ := Written.rename ⟨helse, data, hdata, hsound⟩ hpart hm₄.1
    rw [hout] at hx
    cases hx
    apply updateLedProgress_works.bind
    rintro _ _ t ⟨rfl, hsame⟩
    rw [hreceived]
    exact ensures_pure ⟨rfl, hst, hplaced.of_eq hsame.card fun _ => ⟨trivial, rfl⟩⟩

theorem transferFile_works {client : ℕ} (hbase : Vacant q n m base)
    (hurl : w.urls client = some url) (hst : Ready st) (hbuf : st.buf0.isSome = true)
    (hw : Writing base file (q ++ [m]) True [] w) :
    Ensures (working v) (Answered v R) (fun e st' t => e = .ok (v.body url) ∧ Ready st' ∧
      Placed base (q ++ [m]) (q ++ [n]) True (v.body url) t)
      (transferFile client (v.clen url) file outPath) st w := by
  apply ensures_get
  refine ensures_call (fun _ => ?_) fun r w₁ hm₁ => ?_
  · obtain ⟨s, -, hs, -⟩ := hw.stream
    refine ⟨wholeBody (v.body url), _, ⟨PingPong.fileOutcome_undisturbed (hst hbuf).2 _ _ _, s, 0,
      hs, rfl⟩, fun url' hurl' => ?_⟩
    rw [hurl] at hurl'
    cases hurl'
    exact ⟨rfl, rfl, rfl⟩
  · have hsmall := hdelivers.small
    obtain ⟨hreceived, hnet, hsd⟩ := hm₁.2 url hurl
    have houtcome := hm₁.1.1
    have hw₁ := hw.transfer hm₁.1
    rw [List.nil_append, houtcome.accepted hnet hsd, hreceived] at hw₁
    have htotal : r.total = (v.body url).length := by
      rw [houtcome.total, hreceived, PingPong.toInt32_eq_iff (by omega) (by omega)]
      omega
    apply ensures_modify
    apply releaseHttpClient_works.bind
    rintro _ st' w₂ ⟨hst', hsame⟩
    rw [hnet, hsd, if_neg Bool.false_ne_true, if_neg Bool.false_ne_true]
    exact finishFile_works hspot hdelivers hbase htotal hreceived (hst' hst)
      (hw₁.of_eq hsame.card hsame.streams)

theorem receiveFile_works {client : ℕ} (hvacant : Vacant q n m w.card)
    (hurl : w.urls client = some url) (hst : Ready st) (hbuf : st.buf0.isSome = true) :
    Ensures (working v) (Answered v R) (fun e st' t => e = .ok (v.body url) ∧ Ready st' ∧
      Placed w.card (q ++ [m]) (q ++ [n]) True (v.body url) t)
      (receiveFile client (v.clen url) outPath) st w := by
  refine ensures_fs (answered_fs fun _ => trivial) fun file? w₁ hm₁ => ?_
  obtain ⟨file, rfl⟩ := fopen_works hspot.part hvacant.canPut hm₁.2.1
  obtain ⟨x, hx, hw₁⟩ := writing_of_fopen hm₁.1
  rw [hspot.part] at hx
  cases hx
  have hurl₁ : w₁.urls client = some url := by
    rw [fopen_urls hm₁.2.1, hurl]
  apply (ensureSdWriterTask_works hst).bind
  rintro _ st' w₂ ⟨rfl, hst', hbuf', hmakes⟩
  rw [if_pos rfl]
  rw [← hmakes.urls] at hurl₁
  rw [← hbuf'] at hbuf
  exact transferFile_works hspot hdelivers hvacant hurl₁ hst' hbuf
    (hw₁.of_eq hmakes.card hmakes.streams)

theorem downloadFileStandalone_works (hvacant : Vacant q n m w.card) (hst : Ready st) :
    Ensures (working v) (Answered v R) (fun e st' t => e = .ok (v.body url) ∧ Ready st' ∧
      Placed w.card (q ++ [m]) (q ++ [n]) True (v.body url) t)
      (downloadFileStandalone url outPath) st w := by
  apply (httpAttempt_works 1 hst).bind
  rintro _ st₁ w₁ ⟨hst₁, hsame, client, rfl, hurl⟩
  apply (ensurePingpongBuffers_works hst₁).bind
  rintro _ st₂ w₂ ⟨hst₂, hbuf, hmakes⟩
  apply ensures_get
  rw [if_pos ⟨hbuf, (hst₂ hbuf).1⟩]
  have hcard : w₂.card = w.card := (hsame.trans hmakes.toSame).card
  rw [← hcard] at hvacant ⊢
  rw [← hmakes.urls] at hurl
  exact receiveFile_works hspot hdelivers hvacant hurl hst₂ hbuf

/-- A file that was downloaded is not tried again. -/
theorem downloadFile_works (hvacant : Vacant q n m w.card) (hst : Ready st) :
    Ensures (working v) (Answered v R) (fun e st' t => e = .ok (v.body url) ∧ Ready st' ∧
      Placed w.card (q ++ [m]) (q ++ [n]) True (v.body url) t) (downloadFile url outPath) st w := by
  apply (downloadFileStandalone_works hspot hdelivers hvacant hst).bind
  rintro _ st' t ⟨rfl, hst', hplaced⟩
  exact ensures_pure ⟨rfl, hst', hplaced⟩

end Target

end Files

end Download

end SimiboxDownloader
