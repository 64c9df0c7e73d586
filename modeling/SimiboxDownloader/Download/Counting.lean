import SimiboxDownloader.Download.Received

/-!
# The byte counter

`total` in `download_file_standalone` is an `int`, and the lengths it is compared
with have 64 bits. It counts the bytes received as long as there are fewer than
`2 ^ 31` of them (`total_eq_iff`). `downloadFileStandalone_counts` says what follows
for a run in which every call succeeds.
-/

namespace SimiboxDownloader

namespace PingPong

theorem toInt32_eq_iff {x : ℤ} (h : 0 ≤ x) (hx : x < 2 ^ 32) : toInt32 x = x ↔ x < 2 ^ 31 := by
  rw [toInt32, Int.bmod_def]
  omega

theorem toInt32_ne_zero {x : ℤ} (h : 0 < x) (hx : x < 2 ^ 32) : toInt32 x ≠ 0 := by
  rw [toInt32, Int.bmod_def]
  omega

/-- The counter is the number of bytes received in every state of every transfer of
`body`, exactly if the body is shorter than `2 ^ 31`. -/
theorem total_eq_iff {body : List Byte} (hbody : body.length < 2 ^ 32) :
    (∀ cap s, Session cap s → s.net.received <+: body → s.net.total = s.net.received.length) ↔
      body.length < 2 ^ 31 := by
  constructor
  · intro h
    obtain ⟨s, hs, -, -, -, hr⟩ := fileOutcome_undisturbed Nat.one_pos 0 0 body
    have hreceived : s.net.received = body := congrArg Transfer.received hr.symm
    have htotal := h 1 s hs (by rw [hreceived])
    rw [hs.total, hreceived, toInt32_eq_iff (by omega) (by omega)] at htotal
    omega
  · intro hlt cap s hs hreceived
    have hlength := hreceived.length_le
    rw [hs.total, toInt32_eq_iff (by omega) (by omega)]
    omega

end PingPong

namespace Download

open Interaction Interaction.Stateful

/-- The reply of a call that succeeds, where the response has the content length
`clen` and the reads deliver `body`. -/
def Succeeds (body : Bytes) (clen : ℤ) : (o : Call) → o.Reply → Prop
  | .dev (.httpInit _), r => r.isSome = true
  | .dev (.httpSetUrl _ _), r => r = true
  | .dev (.httpOpen _), r => r = true
  | .dev (.httpFetchHeaders _), r => r = clen
  | .dev (.httpGetStatusCode _), r => r = 200
  | .dev (.heapCapsMalloc _), r => r.isSome = true
  | .dev .semaphoreCreateBinary, r => r.isSome = true
  | .dev .taskCreate, r => r = true
  | .fs (.fopen _ _), r => r.isSome = true
  | .fs (.fflush _), r => r = true
  | .fs (.fsync _), r => r = true
  | .fs (.fclose _), r => r = true
  | .fs (.unlink _), r => r = true
  | .fs (.rename _ _), r => r = true
  | .transfer _ _ _ _ _, r => r.received = body ∧ r.netError = false ∧ r.sdError = false
  | _, _ => True

instance (body : Bytes) (clen : ℤ) (o : Call) (r : o.Reply) :
    Decidable (Succeeds body clen o r) := by
  unfold Succeeds
  split <;> infer_instance

/-- The counter of a transfer is the one its tasks keep. -/
def Counted : (o : Call) → o.Reply → Prop
  | .transfer _ _ _ _ _, r => r.total = PingPong.toInt32 r.received.length
  | _, _ => True

/-- Calls that succeed. -/
def successes (body : Bytes) (clen : ℤ) : Machine Call Call.Reply Unit :=
  fun o _ r _ => Succeeds body clen o r ∧ Counted o r

section Stages

variable {α β : Type} {body : Bytes} {clen : ℤ} {st : Statics}

/-- Where every call succeeds, this is what is returned and what the statics are. -/
abbrev Succeeding (body : Bytes) (clen : ℤ) (Q : α → Statics → Prop) (p : Action α)
    (st : Statics) : Prop :=
  Ensures (successes body clen) (fun _ _ => True) (fun a st' _ => Q a st') p st ()

variable {Q : β → Statics → Prop}

theorem succeeding_call {o : Call} {k : o.Reply → Action β}
    (hk : ∀ r, Succeeds body clen o r → Counted o r → Succeeding body clen Q (k r) st) :
    Succeeding body clen Q (Interaction.Stateful.call o >>= k) st :=
  ensures_call trivial fun r _ h => hk r h.1 h.2

theorem succeeding_dev {c : DevCall} {k : c.Reply → Action β}
    (hk : ∀ r, Succeeds body clen (.dev c) r → Succeeding body clen Q (k r) st) :
    Succeeding body clen Q (dev c >>= k) st :=
  succeeding_call fun r h _ => hk r h

theorem succeeding_fs {c : FsCall} {k : c.Reply → Action β}
    (hk : ∀ r, Succeeds body clen (.fs c) r → Succeeding body clen Q (k r) st) :
    Succeeding body clen Q (fs c >>= k) st :=
  succeeding_call fun r h _ => hk r h

/-- Both buffers are there or none. -/
def Paired (st : Statics) : Prop := st.buf0.isSome = st.buf1.isSome

theorem initHttpClient_succeeds (url : Str) (hst : Paired st) :
    Succeeding body clen (fun r st' => r.isSome = true ∧ Paired st') (initHttpClient url) st :=
  succeeding_dev fun _ hr => ensures_modify ⟨hr, hst⟩

theorem getHttpClient_succeeds (url : Str) (hst : Paired st) :
    Succeeding body clen (fun r st' => r.isSome = true ∧ Paired st') (getHttpClient url) st := by
  unfold getHttpClient
  apply ensures_get
  split
  · split
    · exact succeeding_dev fun _ _ => ensures_pure ⟨rfl, hst⟩
    · exact succeeding_dev fun _ _ => initHttpClient_succeeds url hst
  · exact initHttpClient_succeeds url hst

/-- The first attempt succeeds. -/
theorem httpAttempt_succeeds (url : Str) (left : ℕ) (hst : Paired st) :
    Succeeding body clen (fun r st' => (∃ client, r = some (client, clen)) ∧ Paired st')
      (httpAttempt url (left + 1)) st := by
  unfold httpAttempt
  apply (getHttpClient_succeeds url hst).bind
  rintro client? st - ⟨hclient, hst⟩
  obtain ⟨client, rfl⟩ := Option.isSome_iff_exists.1 hclient
  refine succeeding_dev fun opened hopened => ?_
  obtain rfl : opened = true := hopened
  refine succeeding_dev fun clen' hclen => succeeding_dev fun status hstatus => ?_
  obtain rfl : clen' = clen := hclen
  obtain rfl : status = 200 := hstatus
  exact ensures_pure ⟨⟨client, rfl⟩, hst⟩

theorem ensurePingpongBuffers_succeeds (hst : Paired st) :
    Succeeding body clen (fun _ st' => st'.buf0.isSome = true ∧ st'.buf1.isSome = true)
      ensurePingpongBuffers st := by
  unfold ensurePingpongBuffers
  apply ensures_get
  split
  · next h => exact ensures_pure ⟨h, hst ▸ h⟩
  · refine succeeding_dev fun buf0 h₀ => succeeding_dev fun buf1 h₁ => ?_
    rw [if_pos ⟨h₀, h₁⟩]
    exact ensures_modify_end ⟨h₀, h₁⟩

theorem ensureSdWriterTask_succeeds :
    Succeeding body clen (fun running _ => running = true) ensureSdWriterTask st := by
  unfold ensureSdWriterTask
  apply ensures_get
  split
  · exact ensures_pure rfl
  · refine succeeding_dev fun ready hready => succeeding_dev fun done hdone => ?_
    apply ensures_modify
    rw [if_pos ⟨hready, hdone⟩]
    exact succeeding_dev fun _ hcreated => ensures_modify hcreated

theorem releaseHttpClient_succeeds (client : ℕ) (forceCleanup : Bool) :
    Succeeding body clen (fun _ _ => True) (releaseHttpClient client forceCleanup) st := by
  unfold releaseHttpClient
  apply ensures_get
  split
  · exact ensures_pure trivial
  · exact succeeding_dev fun _ _ => succeeding_dev fun _ _ => ensures_modify_end trivial

theorem updateLedProgress_succeeds :
    Succeeding body clen (fun _ _ => True) updateLedProgress st := by
  unfold updateLedProgress
  apply ensures_get
  split
  · exact ⟨trivial, fun _ _ _ => ⟨trivial, trivial⟩⟩
  · exact ensures_pure trivial

/-- What becomes of a body that was received as a whole. -/
def endOf (body : Bytes) (clen : ℤ) : FileEnd :=
  if 0 < clen ∧ PingPong.toInt32 body.length ≠ clen ∨ PingPong.toInt32 body.length = 0 then
    .incomplete
  else .ok body

theorem finishFile_succeeds {r : PingPong.Transfer} (file : ℕ) (outPath : Str)
    (hreceived : r.received = body) (htotal : r.total = PingPong.toInt32 body.length) :
    Succeeding body clen (fun e _ => e = endOf body clen) (finishFile clen file outPath r) st := by
  refine succeeding_fs fun _ _ => succeeding_fs fun _ _ => succeeding_fs fun _ _ => ?_
  rw [htotal]
  split
  · next h => exact succeeding_fs fun _ _ => ensures_pure (if_pos h).symm
  · next h =>
      refine succeeding_fs fun renamed hrenamed => ?_
      obtain rfl : renamed = true := hrenamed
      apply updateLedProgress_succeeds.bind
      intro _ st _ _
      rw [hreceived]
      exact ensures_pure (if_neg h).symm

theorem transferFile_succeeds (client file : ℕ) (outPath : Str) :
    Succeeding body clen (fun e _ => e = endOf body clen) (transferFile client clen file outPath)
      st := by
  apply ensures_get
  refine succeeding_call fun r hr htotal => ?_
  obtain ⟨hreceived, hnet, hsd⟩ := hr
  apply ensures_modify
  apply (releaseHttpClient_succeeds client _).bind
  intro _ st _ _
  rw [hnet, hsd, if_neg Bool.false_ne_true, if_neg Bool.false_ne_true]
  refine finishFile_succeeds file outPath hreceived ?_
  rw [← hreceived]
  exact htotal

/-- Where every call succeeds the counter decides. -/
theorem downloadFileStandalone_succeeds (url outPath : Str) (hst : Paired st) :
    Succeeding body clen (fun e _ => e = endOf body clen) (downloadFileStandalone url outPath)
      st := by
  apply (httpAttempt_succeeds url 1 hst).bind
  rintro _ st - ⟨⟨client, rfl⟩, hst⟩
  apply (ensurePingpongBuffers_succeeds hst).bind
  intro _ st _ hbuf
  apply ensures_get
  rw [if_pos hbuf]
  refine succeeding_fs fun file? hfile => ?_
  obtain ⟨file, rfl⟩ := Option.isSome_iff_exists.1 hfile
  apply ensureSdWriterTask_succeeds.bind
  rintro _ st - rfl
  exact transferFile_succeeds client file outPath

end Stages

section Runs

variable {url outPath : Str} {body : Bytes} {clen : ℤ} {st : Statics} {w t : World}
  {tr : List Event} {x : FileEnd × Statics}

/-- In a run in which every call succeeds the counter decides. -/
theorem downloadFileStandalone_endOf (hst : Paired st)
    (hrun : Steps machine ((downloadFileStandalone url outPath).run st) w tr (.pure x) t)
    (hok : ∀ e ∈ tr, Succeeds body clen e.op e.reply) : x.1 = endOf body clen := by
  have hrun' : Steps (machine.restrict fun e => Succeeds body clen e.op e.reply)
      ((downloadFileStandalone url outPath).run st) w tr (.pure x) t := hrun.restrict hok
  refine (Safe.tracks (N := successes body clen) (f := fun _ _ _ => ()) ?_
    (downloadFileStandalone_succeeds url outPath hst) hrun').2
  rintro o s r t _ ⟨hm, hr⟩
  refine ⟨hr, ?_⟩
  cases o with
  | transfer => exact hm.1.total
  | _ => trivial

/-- A body of the announced length, or of an unknown one, is accepted as long as the
counter does not overflow; without a length it is accepted even then. -/
theorem endOf_ok (hpos : 1 ≤ body.length) (hfat : body.length < 2 ^ 32)
    (hclen : clen = body.length ∨ clen ≤ 0) :
    (endOf body clen).result = .ok ↔ body.length < 2 ^ 31 ∨ clen ≤ 0 := by
  have hiff : PingPong.toInt32 body.length = body.length ↔ (body.length : ℤ) < 2 ^ 31 :=
    PingPong.toInt32_eq_iff (by omega) (by omega)
  have hne : PingPong.toInt32 body.length ≠ 0 := PingPong.toInt32_ne_zero (by omega) (by omega)
  rw [endOf]
  split
  · next h =>
      have hwrong : 0 < clen ∧ PingPong.toInt32 body.length ≠ clen := h.resolve_right hne
      obtain rfl := hclen.resolve_right (by omega)
      refine ⟨nofun, fun hok => ?_⟩
      rcases hok with hlt | hle
      · exact absurd (hiff.2 (by omega)) hwrong.2
      · omega
  · next h =>
      refine ⟨fun _ => ?_, fun _ => rfl⟩
      rcases hclen with rfl | hle
      · have htotal : PingPong.toInt32 body.length = body.length := by
          by_contra htotal
          exact h (Or.inl ⟨by omega, htotal⟩)
        rw [hiff] at htotal
        omega
      · exact Or.inr hle

/-- For every body that a FAT32 file can hold, announced with its length or without
one, and every run in which all calls succeed: the counter is the number of bytes
received throughout every transfer of the body and the function returns
`DlResult::OK`, exactly if the body is shorter than `2 ^ 31`. From there on it
returns `DlResult::OK` exactly for a body without a length. -/
theorem downloadFileStandalone_counts (hpos : 1 ≤ body.length) (hfat : body.length < 2 ^ 32)
    (hclen : clen = body.length ∨ clen ≤ 0) (hst : Paired st)
    (hrun : Steps machine ((downloadFileStandalone url outPath).run st) w tr (.pure x) t)
    (hok : ∀ e ∈ tr, Succeeds body clen e.op e.reply) :
    ((∀ cap s, PingPong.Session cap s → s.net.received <+: body →
          s.net.total = s.net.received.length) ∧ x.1.result = .ok ↔ body.length < 2 ^ 31) ∧
      (x.1.result = .ok ↔ body.length < 2 ^ 31 ∨ clen ≤ 0) := by
  rw [downloadFileStandalone_endOf hst hrun hok, endOf_ok hpos hfat hclen,
    PingPong.total_eq_iff hfat]
  exact ⟨⟨fun h => h.1, fun h => ⟨h, Or.inl h⟩⟩, Iff.rfl⟩

end Runs

section Sample

/-- A body of 2 GiB. -/
def largeBody : Bytes := List.replicate (2 ^ 31) 7

/-- Its transfer. -/
def largeTransfer : PingPong.Transfer := ⟨largeBody, largeBody, -2147483648, false, false⟩

theorem largeTransfer_eq : largeTransfer = wholeBody largeBody := by
  have htotal : PingPong.toInt32 largeBody.length = -2147483648 := by
    rw [largeBody, List.length_replicate]
    decide
  rw [wholeBody, htotal, largeTransfer]

/-- A server that announces the length of that body and delivers it. -/
def largeEnv : Env where
  list := []
  body := fun _ => largeBody
  clen := fun _ => 2147483648

/-- As `serve`, with that transfer. -/
def serveLarge : (o : Call) → World → Option (o.Reply × World)
  | .transfer client file capacity downloaded expected, w =>
      (serve largeEnv (fun _ _ => .ok) (.transfer client file capacity downloaded expected) w).map
        fun x => (largeTransfer, x.2)
  | o, w => serve largeEnv (fun _ _ => .ok) o w

theorem transfer_of_serveLarge {client file capacity : ℕ} {d e : ℤ} {w t : World}
    {r : PingPong.Transfer} (h : serveLarge (.transfer client file capacity d e) w = some (r, t)) :
    r = largeTransfer ∧ machine (.transfer client file capacity d e) w r t := by
  obtain ⟨⟨r', t'⟩, hserve, heq⟩ := Option.map_eq_some_iff.1 h
  obtain ⟨rfl, rfl⟩ := Prod.mk.inj heq
  refine ⟨rfl, ?_⟩
  have hr : r' = largeTransfer := by
    rw [largeTransfer_eq]
    simp only [serve] at hserve
    split at hserve
    · split at hserve
      · cases hserve
        rfl
      · cases hserve
    · cases hserve
  rw [← hr]
  exact machine_of_serve _ w r' t' hserve

theorem machine_of_serveLarge (o : Call) (w : World) (r : o.Reply) (t : World)
    (h : serveLarge o w = some (r, t)) : machine o w r t := by
  cases o with
  | transfer => exact (transfer_of_serveLarge h).2
  | dev c => exact @machine_of_serve largeEnv (fun _ _ => .ok) (.dev c) w r t h
  | fs c => exact @machine_of_serve largeEnv (fun _ _ => .ok) (.fs c) w r t h
  | diverge => cases h

/-- A download of that body to `outPath`. -/
def playLarge (outPath : Str) :=
  Interaction.play serveLarge
    ((downloadFileStandalone "https://a.example/1".toList outPath).run (Statics.boot true 10000))
    (World.boot (cardOf [("/sdcard/mozart.tmp".toList, .dir)]))

theorem steps_playLarge (outPath : Str) {M : Machine Call Call.Reply World}
    (hM : ∀ o w r t, serveLarge o w = some (r, t) → M o w r t) :
    Steps M ((downloadFileStandalone "https://a.example/1".toList outPath).run
        (Statics.boot true 10000)) (World.boot (cardOf [("/sdcard/mozart.tmp".toList, .dir)]))
      (playLarge outPath).2.2 (playLarge outPath).1 (playLarge outPath).2.1 :=
  steps_play hM _ _

/-- Every call succeeds and the body comes as announced, and it is not accepted. -/
theorem downloadFileStandalone_overflows : ∃ tr x t,
    Steps machine ((downloadFileStandalone "https://a.example/1".toList
        "/sdcard/mozart.tmp/a.mp3".toList).run (Statics.boot true 10000))
      (World.boot (cardOf [("/sdcard/mozart.tmp".toList, .dir)])) tr (.pure x) t ∧
    (∀ e ∈ tr, Succeeds largeBody 2147483648 e.op e.reply) ∧ largeBody.length = 2147483648 ∧
      x.1 = .incomplete ∧ x.1.result = .otherFailed := by
  have hend : (playLarge "/sdcard/mozart.tmp/a.mp3".toList).1.value.map Prod.fst =
      some .incomplete := by
    decide +kernel
  have hcalls : ∀ e ∈ (playLarge "/sdcard/mozart.tmp/a.mp3".toList).2.2,
      (transferred e).isNone = true → Succeeds largeBody 2147483648 e.op e.reply := by
    decide +kernel
  have hanswers := (steps_playLarge "/sdcard/mozart.tmp/a.mp3".toList
    (M := fun o w r t => serveLarge o w = some (r, t)) fun _ _ _ _ h => h).events
  obtain ⟨x, hrun, hret⟩ :=
    (steps_playLarge "/sdcard/mozart.tmp/a.mp3".toList machine_of_serveLarge).returned hend
  refine ⟨_, x, _, hrun, ?_, List.length_replicate, hret, by rw [hret]; rfl⟩
  rintro ⟨w, o, r, t⟩ he
  cases o with
  | transfer =>
      obtain ⟨rfl, -⟩ := transfer_of_serveLarge (hanswers _ he)
      exact ⟨rfl, rfl, rfl⟩
  | _ => exact hcalls _ he rfl

theorem downloadFileStandalone_counts_mozart : ∃ tr x t,
    Steps machine
      ((downloadFileStandalone "https://a.example/1".toList "/sdcard/mozart.tmp/a.mp3".toList).run
        (Statics.boot true 10000)) (World.boot (cardOf [("/sdcard/mozart.tmp".toList, .dir)]))
      tr (.pure x) t ∧
    (∀ cap s, PingPong.Session cap s → s.net.received <+: [7, 8] →
      s.net.total = s.net.received.length) ∧ x.1.result = .ok := by
  have hend : (playFile mozart.env fun _ _ => .ok).1.value.isSome = true := by
    decide +kernel
  have hcalls : ∀ e ∈ (playFile mozart.env fun _ _ => .ok).2.2, Succeeds [7, 8] 2 e.op e.reply := by
    decide +kernel
  obtain ⟨x, hx⟩ := Option.isSome_iff_exists.1 hend
  have hrun := steps_playFile mozart.env fun _ _ => .ok
  rw [Program.eq_pure_of_value hx] at hrun
  have hpaired : Paired (Statics.boot true 10000) := rfl
  obtain ⟨hcounts, -⟩ := downloadFileStandalone_counts (by decide) (by decide) (Or.inl rfl) hpaired
    hrun hcalls
  obtain ⟨htotal, hret⟩ := hcounts.2 (by decide)
  exact ⟨_, x, _, hrun, htotal, hret⟩

end Sample

end Download

end SimiboxDownloader
