import SimiboxDownloader.PingPong.Session

/-!
# One round of the writer

From the take of `sem_job_ready` to the give of `sem_job_done` the writer works on one
job. `Drains` are the runs of such a round; whatever else happens meanwhile leaves the
job and its half-buffer alone (`Aside`), which is so in a session (`Session.aside`).
`WriterTask.At` annotates the statements of the round with what holds there, and
`sdWriterTask_round` collects what follows.
-/

namespace SimiboxDownloader

namespace PingPong

section Accesses

/-- A call of `fwrite`: `count` bytes from the offset `start` of `dram_bounce` on, which
are those from `pos` on of the data of the job. -/
structure Fwrite where
  pos : ℕ
  start : ℕ
  count : ℕ

/-- The `fwrite` the writer is about to call. -/
def WriterTask.fwrite (w : WriterTask) : Option Fwrite :=
  match w.pc with
  | .write => some ⟨w.offset, 0, w.chunk⟩
  | .rewrite => some ⟨w.offset + w.written, w.written, w.chunk - w.written⟩
  | _ => none

/-- The offset and the length of the `memcpy` the writer is about to call. -/
def WriterTask.memcpy (w : WriterTask) : Option (ℕ × ℕ) :=
  if w.pc = .copy ∧ w.offset < w.remaining then
    some (w.offset, min bounceSize (w.remaining - w.offset))
  else none

/-- What `fwrite` accepts is appended to the file. -/
theorem writerStep_fwrite {s t : State} {c : Fwrite} {k : ℕ} (hc : c ∈ s.writer.fwrite)
    (h : writerStep s k = some t) :
    k ≤ c.count ∧ t.files = Function.update s.files s.job.file
      (s.files s.job.file ++ (s.writer.bounce.drop c.start).take k) := by
  unfold WriterTask.fwrite at hc
  unfold writerStep at h
  split at hc
  · next hpc =>
      cases hc
      simp only [hpc] at h
      split at h
      · next hk =>
          cases h
          exact ⟨hk.le, rfl⟩
      · split at h
        · next hk =>
            cases h
            exact ⟨hk.le, rfl⟩
        · cases h
  · next hpc =>
      cases hc
      simp only [hpc] at h
      split at h
      · next hk =>
          cases h
          exact ⟨Nat.le_sub_of_add_le' hk.le, rfl⟩
      · split at h
        · next hk =>
            cases h
            exact ⟨Nat.le_sub_of_add_le' hk.le, rfl⟩
        · cases h
  · cases hc

/-- Between the take and the give the writer waits for nothing. -/
theorem exists_writerStep {s : State} {k : ℕ} (hjob : s.writer.pc.HasJob)
    (hwritten : s.writer.pc = .rewrite → s.writer.written < s.writer.chunk)
    (hk : ∀ c ∈ s.writer.fwrite, k ≤ c.count) : ∃ t, writerStep s k = some t := by
  obtain ⟨habsent, hwaiting, hexited⟩ := hjob
  rw [← Option.isSome_iff_exists]
  cases hpc : s.writer.pc with
  | absent => exact absurd hpc habsent
  | waiting => exact absurd hpc hwaiting
  | exited => exact absurd hpc hexited
  | testStop | copy =>
      simp only [writerStep, hpc]
      split
      · rfl
      · rfl
  | write =>
      have hle : k ≤ s.writer.chunk := hk ⟨s.writer.offset, 0, _⟩ (by simp [WriterTask.fwrite, hpc])
      simp only [writerStep, hpc]
      by_cases heq : k = s.writer.chunk
      · rw [if_pos heq]
        rfl
      · rw [if_neg heq, if_pos (Nat.lt_of_le_of_ne hle heq)]
        rfl
  | rewrite =>
      have hle : k ≤ s.writer.chunk - s.writer.written :=
        hk ⟨s.writer.offset + s.writer.written, s.writer.written, _⟩
          (by simp [WriterTask.fwrite, hpc])
      have hlt := hwritten hpc
      simp only [writerStep, hpc]
      by_cases heq : s.writer.written + k = s.writer.chunk
      · rw [if_pos heq]
        rfl
      · rw [if_neg heq, if_pos (by omega)]
        rfl
  | _ =>
      simp only [writerStep, hpc]
      rfl

end Accesses

section Round

/-- The others have moved: the writer, its job, the half-buffer of the job and the files
are as they were. -/
structure Aside (s t : State) : Prop where
  writer : t.writer = s.writer
  job : t.job = s.job
  buf : t.sBuf s.job.data = s.sBuf s.job.data
  files : t.files = s.files

/-- `n` statements of the writer lead from `s` to `t`, the last of them at most the end of
its round, with any moves of the others in between. -/
inductive Drains (s : State) : ℕ → State → Prop
  | refl : Drains s 0 s
  | writer {n k : ℕ} {t u : State} :
      Drains s n t → t.writer.pc ≠ .waiting → writerStep t k = some u → Drains s (n + 1) u
  | aside {n : ℕ} {t u : State} : Drains s n t → Aside t u → Drains s n u

/-- What holds of the locals of the writer at the statements of a round, when `fwrite` has
accepted the first `k` bytes of the data `m` of the job `j`. -/
def WriterTask.At (m : ℕ → Byte) (j : SdWriteJob) (k : ℕ) (w : WriterTask) : Prop :=
  match w.pc with
  | .testStop | .loadData => k = 0
  | .loadLen => w.data = j.data ∧ k = 0
  | .copy => w.data = j.data ∧ w.remaining = j.len ∧ w.error = false ∧ w.offset ≤ j.len ∧
      k = w.offset
  | .write => w.data = j.data ∧ w.remaining = j.len ∧ w.error = false ∧
      0 < w.chunk ∧ w.chunk ≤ bounceSize ∧ w.offset + w.chunk ≤ j.len ∧
      w.bounce = Memory.slice m w.offset w.chunk ∧ k = w.offset
  | .rewrite => w.data = j.data ∧ w.remaining = j.len ∧ w.error = false ∧
      w.written < w.chunk ∧ w.chunk ≤ bounceSize ∧ w.offset + w.chunk ≤ j.len ∧
      w.bounce = Memory.slice m w.offset w.chunk ∧ k = w.offset + w.written
  | .setError => if w.error then k < j.len else k = j.len
  | .setDone | .giveDone | .waiting =>
      j.sdError = w.error ∧ if w.error then k < j.len else k = j.len
  | .absent | .exited => False

/-- `t` is a state of the round that starts in `s`, with `k` bytes accepted. -/
structure InRound (s t : State) (k : ℕ) : Prop where
  data : t.job.data = s.job.data
  len : t.job.len = s.job.len
  file : t.job.file = s.job.file
  stop : t.job.stop = false
  buf : t.sBuf s.job.data = s.sBuf s.job.data
  here : t.writer.At (s.sBuf s.job.data) t.job k
  files : t.files = Function.update s.files s.job.file
    (s.files s.job.file ++ Memory.slice (s.sBuf s.job.data) 0 k)

variable {s t u : State} {n k : ℕ}

theorem inRound_start (hpc : s.writer.pc = .testStop) (hstop : s.job.stop = false) :
    InRound s s 0 := by
  refine ⟨rfl, rfl, rfl, hstop, rfl, ?_, ?_⟩
  · simp only [WriterTask.At, hpc]
  · rw [Memory.slice_zero, List.append_nil, Function.update_eq_self]

theorem InRound.aside (h : InRound s t k) (ha : Aside t u) : InRound s u k := by
  obtain ⟨hw, hj, hbuf, hfiles⟩ := ha
  rw [h.data] at hbuf
  refine ⟨?_, ?_, ?_, ?_, ?_, ?_, ?_⟩
  · rw [hj, h.data]
  · rw [hj, h.len]
  · rw [hj, h.file]
  · rw [hj, h.stop]
  · rw [hbuf, h.buf]
  · rw [hw, hj]
    exact h.here
  · rw [hfiles, h.files]

/-- Accepting the next `k'` bytes. -/
theorem InRound.accept {k' : ℕ} {bytes : List Byte} (h : InRound s t k)
    (hbytes : bytes = Memory.slice (s.sBuf s.job.data) k k') :
    Function.update t.files t.job.file (t.files t.job.file ++ bytes) =
      Function.update s.files s.job.file
        (s.files s.job.file ++ Memory.slice (s.sBuf s.job.data) 0 (k + k')) := by
  rw [h.file, h.files, Function.update_idem, Function.update_self, hbytes, Memory.slice_add,
    List.append_assoc, Nat.zero_add]

/-- One statement of the writer. -/
theorem InRound.step (h : InRound s t k) (hpc : t.writer.pc ≠ .waiting) (hm : WriterMove t u) :
    ∃ k', InRound s u k' := by
  obtain ⟨hdata, hlen, hfile, hstop, hbuf, hhere, hfiles⟩ := id h
  cases hm with
  | take hpc' => exact absurd hpc' hpc
  | exit hpc' hs =>
      rw [hstop] at hs
      cases hs
  | accept hpc' =>
      simp only [WriterTask.At, hpc'] at hhere
      exact ⟨k, hdata, hlen, hfile, hstop, hbuf, hhere, hfiles⟩
  | loadData hpc' =>
      simp only [WriterTask.At, hpc'] at hhere
      exact ⟨k, hdata, hlen, hfile, hstop, hbuf, ⟨rfl, hhere⟩, hfiles⟩
  | loadLen hpc' =>
      simp only [WriterTask.At, hpc'] at hhere
      obtain ⟨hd, hk⟩ := hhere
      exact ⟨k, hdata, hlen, hfile, hstop, hbuf, ⟨hd, rfl, rfl, Nat.zero_le _, hk⟩, hfiles⟩
  | copy hpc' hlt =>
      simp only [WriterTask.At, hpc'] at hhere
      obtain ⟨hd, hremaining, herror, hoffset, hk⟩ := hhere
      have hbuf' : t.sBuf t.writer.data = s.sBuf s.job.data := by
        rw [hd, hdata, hbuf]
      refine ⟨k, hdata, hlen, hfile, hstop, hbuf,
        ⟨hd, hremaining, herror, ?_, Nat.min_le_left _ _, ?_, ?_, hk⟩, hfiles⟩
      · exact Nat.lt_min.2 ⟨by decide, Nat.sub_pos_of_lt hlt⟩
      · change t.writer.offset + min bounceSize (t.writer.remaining - t.writer.offset) ≤ t.job.len
        omega
      · rw [← hbuf']
  | drained hpc' hge =>
      simp only [WriterTask.At, hpc'] at hhere
      obtain ⟨-, hremaining, herror, hoffset, hk⟩ := hhere
      refine ⟨k, hdata, hlen, hfile, hstop, hbuf, ?_, hfiles⟩
      simp only [WriterTask.At, herror, Bool.false_eq_true, if_false]
      omega
  | writeAll hpc' =>
      simp only [WriterTask.At, hpc'] at hhere
      obtain ⟨hd, hremaining, herror, -, -, hle, hbounce, hk⟩ := hhere
      refine ⟨k + t.writer.chunk, hdata, hlen, hfile, hstop, hbuf,
        ⟨hd, hremaining, herror, hle, by rw [hk]⟩, h.accept ?_⟩
      rw [hbounce, Memory.take_slice, Nat.min_self, hk]
  | writeShort k' hpc' hlt =>
      simp only [WriterTask.At, hpc'] at hhere
      obtain ⟨hd, hremaining, herror, hpos, hsize, hle, hbounce, hk⟩ := hhere
      refine ⟨k + k', hdata, hlen, hfile, hstop, hbuf,
        ⟨hd, hremaining, herror, hlt, hsize, hle, hbounce, by rw [hk]⟩, h.accept ?_⟩
      rw [hbounce, Memory.take_slice, Nat.min_eq_left hlt.le, hk]
  | rewriteAll k' hpc' heq =>
      simp only [WriterTask.At, hpc'] at hhere
      obtain ⟨hd, hremaining, herror, -, -, hle, hbounce, hk⟩ := hhere
      refine ⟨k + k', hdata, hlen, hfile, hstop, hbuf,
        ⟨hd, hremaining, herror, hle, ?_⟩, h.accept ?_⟩
      · rw [hk, Nat.add_assoc, heq]
      · rw [hbounce, Memory.drop_slice, Memory.take_slice, ← heq, Nat.add_sub_cancel_left,
          Nat.min_self, hk]
  | rewriteShort k' hpc' hlt =>
      simp only [WriterTask.At, hpc'] at hhere
      obtain ⟨hd, hremaining, herror, -, -, hle, hbounce, hk⟩ := hhere
      refine ⟨k + k', hdata, hlen, hfile, hstop, hbuf, ?_, h.accept ?_⟩
      · simp only [WriterTask.At, if_true]
        omega
      · rw [hbounce, Memory.drop_slice, Memory.take_slice, Nat.min_eq_left (by omega), hk]
  | setError hpc' =>
      simp only [WriterTask.At, hpc'] at hhere
      exact ⟨k, hdata, hlen, hfile, hstop, hbuf, ⟨rfl, hhere⟩, hfiles⟩
  | setDone hpc' =>
      simp only [WriterTask.At, hpc'] at hhere
      exact ⟨k, hdata, hlen, hfile, hstop, hbuf, hhere, hfiles⟩
  | giveDone hpc' =>
      simp only [WriterTask.At, hpc'] at hhere
      exact ⟨k, hdata, hlen, hfile, hstop, hbuf, hhere, hfiles⟩

/-- Every state of a round is annotated rightly. -/
theorem Drains.inRound (h : Drains s n t) (hpc : s.writer.pc = .testStop)
    (hstop : s.job.stop = false) : ∃ k, InRound s t k := by
  induction h with
  | refl => exact ⟨0, inRound_start hpc hstop⟩
  | writer _ hbusy hstep ih =>
      obtain ⟨k, hk⟩ := ih
      exact hk.step hbusy (writerMove_of_writerStep hstep)
  | aside _ ha ih =>
      obtain ⟨k, hk⟩ := ih
      exact ⟨k, hk.aside ha⟩

/-- A bound on the statements left in a round. -/
def stepsLeft (s : State) : ℕ :=
  match s.writer.pc with
  | .testStop => 7 + 3 * s.job.len
  | .loadData => 6 + 3 * s.job.len
  | .loadLen => 5 + 3 * s.job.len
  | .copy => 4 + 3 * (s.writer.remaining - s.writer.offset)
  | .write => 3 + 3 * (s.writer.remaining - s.writer.offset)
  | .rewrite => 2 + 3 * (s.writer.remaining - s.writer.offset)
  | .setError => 3
  | .setDone => 2
  | .giveDone => 1
  | _ => 0

theorem stepsLeft_step (h : InRound s t k) (hpc : t.writer.pc ≠ .waiting) (hm : WriterMove t u) :
    stepsLeft u < stepsLeft t := by
  have hhere := h.here
  cases hm with
  | take hpc' => exact absurd hpc' hpc
  | exit hpc' hs =>
      rw [h.stop] at hs
      cases hs
  | writeAll hpc' | writeShort k' hpc' hlt | rewriteAll k' hpc' heq | rewriteShort k' hpc' hlt =>
      simp only [WriterTask.At, hpc'] at hhere
      simp only [stepsLeft, hpc']
      omega
  | accept hpc' | loadData hpc' | loadLen hpc' | copy hpc' hlt | drained hpc' hge | setError hpc'
  | setDone hpc' | giveDone hpc' =>
      simp only [stepsLeft, hpc']
      omega

theorem Drains.bounded (h : Drains s n t) (hpc : s.writer.pc = .testStop)
    (hstop : s.job.stop = false) : n + stepsLeft t ≤ stepsLeft s := by
  induction h with
  | refl => rw [Nat.zero_add]
  | writer hd hbusy hstep ih =>
      obtain ⟨k, hk⟩ := hd.inRound hpc hstop
      have hlt := stepsLeft_step hk hbusy (writerMove_of_writerStep hstep)
      omega
  | aside _ ha ih =>
      rw [stepsLeft, ha.writer, ha.job]
      exact ih

theorem InRound.hasJob (h : InRound s t k) (hpc : t.writer.pc ≠ .waiting) :
    t.writer.pc.HasJob := by
  have hhere := h.here
  refine ⟨fun habsent => ?_, hpc, fun hexited => ?_⟩
  · simp only [WriterTask.At, habsent] at hhere
  · simp only [WriterTask.At, hexited] at hhere

theorem InRound.written (h : InRound s t k) (hpc : t.writer.pc = .rewrite) :
    t.writer.written < t.writer.chunk := by
  have hhere := h.here
  simp only [WriterTask.At, hpc] at hhere
  exact hhere.2.2.2.1

/-- In a session the net task lets the writer have its job and its half-buffer. -/
theorem Session.aside {cap : ℕ} {i : NetInput} (hs : Session cap s) (hjob : s.writer.pc.HasJob)
    (hstop : s.job.stop = false) (h : netStep cap s i = some t) : Aside s t := by
  rcases hs.coherent with ⟨⟨τ, hτ⟩, hl, -⟩ | hend
  · obtain rfl := hτ.turn_writer hjob
    have hawaits : s.net.awaits = true := hτ.awaits
    have hdone : s.job.semJobDone = false := hτ.done
    cases netMove_of_netStep h with
    | readData bs hpc =>
        refine ⟨rfl, rfl, ?_, rfl⟩
        exact Function.update_of_ne ((hl.writes_other hpc).1 (Or.inr hjob)) _ _
    | takeDone hpc hd | takeFinal hpc hd =>
        rw [hdone] at hd
        cases hd
    | readError | readEnd | full | leave | keep | mustWait | mayKick | swapLast | swapMore
    | finalWait | finalSkip => exact ⟨rfl, rfl, rfl, rfl⟩
    | _ => simp_all [NetTask.awaits]
  · rcases hend.writer with hpc | hpc | hpc | ⟨-, hstop'⟩
    · exact absurd hpc hjob.1
    · exact absurd hpc hjob.2.1
    · exact absurd hpc hjob.2.2
    · rw [hstop] at hstop'
      cases hstop'

/-- A session that is in a round goes on with it. -/
theorem Drains.step {cap : ℕ} {a : Act} (h : Drains s n t) (hpc : s.writer.pc = .testStop)
    (hstop : s.job.stop = false) (ht : Session cap t) (hbusy : t.writer.pc ≠ .waiting)
    (hstep : PingPong.step cap t a = some u) : ∃ m, Drains s m u := by
  obtain ⟨k, hk⟩ := h.inRound hpc hstop
  cases a with
  | net i => exact ⟨n, h.aside (ht.aside (hk.hasJob hbusy) hk.stop hstep)⟩
  | writer accepted => exact ⟨n + 1, h.writer hbusy hstep⟩

/-- What `memcpy` reads lies in the data of the job and fits into `dram_bounce`. -/
theorem InRound.memcpy {c : ℕ × ℕ} (h : InRound s t k) (hc : c ∈ t.writer.memcpy) :
    c.1 + c.2 ≤ s.job.len ∧ c.2 ≤ bounceSize := by
  have hhere := h.here
  have hlen := h.len
  unfold WriterTask.memcpy at hc
  split at hc
  · next hcopy =>
      cases hc
      simp only [WriterTask.At, hcopy.1] at hhere
      omega
  · cases hc

/-- `fwrite` is given what follows in the data on what has been accepted. -/
theorem InRound.fwrite {c : Fwrite} (h : InRound s t k) (hc : c ∈ t.writer.fwrite) :
    c.pos = k ∧ c.pos + c.count ≤ s.job.len ∧ c.start + c.count ≤ bounceSize ∧
      (t.writer.bounce.drop c.start).take c.count =
        Memory.slice (s.sBuf s.job.data) c.pos c.count := by
  have hhere := h.here
  have hlen := h.len
  unfold WriterTask.fwrite at hc
  split at hc
  · next hpc =>
      cases hc
      simp only [WriterTask.At, hpc] at hhere
      obtain ⟨-, -, -, -, hsize, hle, hbounce, hk⟩ := hhere
      refine ⟨hk.symm, hlen ▸ hle, (Nat.zero_add _).symm ▸ hsize, ?_⟩
      rw [hbounce, List.drop_zero, Memory.take_slice, Nat.min_self]
  · next hpc =>
      cases hc
      simp only [WriterTask.At, hpc] at hhere
      obtain ⟨-, -, -, hwritten, hsize, hle, hbounce, hk⟩ := hhere
      dsimp only
      refine ⟨hk.symm, by omega, by omega, ?_⟩
      rw [hbounce, Memory.drop_slice, Memory.take_slice, Nat.min_self]
  · cases hc

/-- One round of `sd_writer_task`, for any job, whatever `fwrite` returns and whatever
the others do meanwhile. It comes to its end: it takes a bounded number of statements
and is never stuck. No `memcpy` reads past the data or writes past `dram_bounce`, and no
`fwrite` reads past it. What `fwrite` is given starts right behind what it has accepted,
so that nothing is submitted once it has been accepted. In the end the data has been
accepted in full, or `sd_error` is set and less than that has been accepted. -/
theorem sdWriterTask_round (hpc : s.writer.pc = .testStop) (hstop : s.job.stop = false)
    (h : Drains s n t) :
    n ≤ 7 + 3 * s.job.len ∧
    (t.writer.pc ≠ .waiting → ∀ k, (∀ c ∈ t.writer.fwrite, k ≤ c.count) →
      ∃ u, writerStep t k = some u) ∧
    (∀ c ∈ t.writer.memcpy, c.1 + c.2 ≤ s.job.len ∧ c.2 ≤ bounceSize) ∧
    (∀ c ∈ t.writer.fwrite, c.pos + c.count ≤ s.job.len ∧ c.start + c.count ≤ bounceSize ∧
      (t.writer.bounce.drop c.start).take c.count =
        Memory.slice (s.sBuf s.job.data) c.pos c.count ∧
      t.files s.job.file =
        s.files s.job.file ++ Memory.slice (s.sBuf s.job.data) 0 c.pos ∧
      ∀ k u, writerStep t k = some u → k ≤ c.count ∧ u.files s.job.file =
        t.files s.job.file ++ Memory.slice (s.sBuf s.job.data) c.pos k) ∧
    (t.writer.pc = .waiting →
      (t.job.sdError = false → t.files s.job.file =
        s.files s.job.file ++ Memory.slice (s.sBuf s.job.data) 0 s.job.len) ∧
      (t.job.sdError = true → ∃ k, k < s.job.len ∧ t.files s.job.file =
        s.files s.job.file ++ Memory.slice (s.sBuf s.job.data) 0 k)) ∧
    ∀ f, f ≠ s.job.file → t.files f = s.files f := by
  obtain ⟨k, hk⟩ := h.inRound hpc hstop
  have hfile : t.files s.job.file =
      s.files s.job.file ++ Memory.slice (s.sBuf s.job.data) 0 k := by
    rw [hk.files, Function.update_self]
  refine ⟨?_, fun hbusy k' hk' => ?_, fun c hc => hk.memcpy hc, fun c hc => ?_, fun hend => ?_,
    fun f hf => ?_⟩
  · have hbound := h.bounded hpc hstop
    simp only [stepsLeft, hpc] at hbound
    exact le_trans (Nat.le_add_right _ _) hbound
  · exact exists_writerStep (hk.hasJob hbusy) hk.written hk'
  · obtain ⟨hpos, hle, hsize, hgiven⟩ := hk.fwrite hc
    refine ⟨hle, hsize, hgiven, hpos ▸ hfile, fun k' u hstep => ?_⟩
    obtain ⟨hk', hfiles⟩ := writerStep_fwrite hc hstep
    refine ⟨hk', ?_⟩
    have htaken := congrArg (List.take k') hgiven
    rw [List.take_take, Memory.take_slice, Nat.min_eq_left hk'] at htaken
    rw [hfiles, hk.file, Function.update_self, htaken]
  · have hhere := hk.here
    simp only [WriterTask.At, hend] at hhere
    obtain ⟨herror, hcount⟩ := hhere
    rw [← herror, hk.len] at hcount
    refine ⟨fun hok => ?_, fun hbad => ?_⟩
    · rw [hok, if_neg Bool.false_ne_true] at hcount
      rw [hfile, hcount]
    · rw [hbad, if_pos rfl] at hcount
      exact ⟨k, hcount, hfile⟩
  · rw [hk.files, Function.update_of_ne hf]

/-- A job of two bytes. -/
def twoBytes : State :=
  { init with writer := { init.writer with pc := .testStop }, job := { init.job with len := 2 },
              sBuf := fun _ i => if i = 0 then 7 else 8 }

/-- The first `fwrite` accepts one of the two bytes and the second the other. -/
theorem sdWriterTask_round_twoBytes : ∃ t, Drains twoBytes 10 t ∧ t.files 0 = [7, 8] := by
  have hcopied : Drains twoBytes 4 _ :=
    ((((Drains.refl (s := twoBytes)).writer (k := 0) nofun rfl).writer (k := 0) nofun rfl).writer
      (k := 0) nofun rfl).writer (k := 0) nofun rfl
  have hwritten : Drains twoBytes 6 _ :=
    (hcopied.writer (k := 1) nofun rfl).writer (k := 1) nofun rfl
  have hdone : Drains twoBytes 10 _ :=
    (((hwritten.writer (k := 0) nofun rfl).writer (k := 0) nofun rfl).writer
      (k := 0) nofun rfl).writer (k := 0) nofun rfl
  obtain ⟨-, -, -, -, hend, -⟩ := sdWriterTask_round rfl rfl hdone
  exact ⟨_, hdone, (hend rfl).1 rfl⟩

end Round

end PingPong

end SimiboxDownloader
