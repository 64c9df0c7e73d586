import SimiboxDownloader.PingPong.Handshake

/-!
# Which bytes are where

`Layout s` fixes which half-buffer each task uses and how far it is: the writer
never works on the buffer that is being filled. `Content s` is the conservation
law of a file: as long as no error occurred, the bytes `fwrite` accepted, those
of the job that is out and those of the current fill are together, in this
order, the bytes the reads returned.
-/

namespace SimiboxDownloader

namespace PingPong

theorem other_ne (c : BufIx) : other c ≠ c := by
  revert c
  decide

theorem other_other (c : BufIx) : other (other c) = c := by
  revert c
  decide

/-- The net task is inside the loop of a file or its final wait. -/
def NetPc.InFile (pc : NetPc) : Prop :=
  pc ≠ .idle ∧ pc ≠ .stopFlag ∧ pc ≠ .stopGive ∧ pc ≠ .stopDelete ∧ pc ≠ .ended

/-- The bytes of the current fill belong to the net task, no job holds them yet. -/
def NetPc.Filling (pc : NetPc) : Prop :=
  pc = .fill ∨ pc = .filled ∨ pc = .testPending ∨ pc = .takeDone ∨ pc = .testError ∨
    pc = .setData ∨ pc = .setLen ∨ pc = .setError ∨ pc = .setDone ∨ pc = .giveReady

instance (pc : NetPc) : Decidable pc.Filling :=
  inferInstanceAs (Decidable (_ ∨ _))

/-- The writer has read its whole job. -/
def WriterPc.Draining (pc : WriterPc) : Prop :=
  pc = .copy ∨ pc = .write ∨ pc = .rewrite

/-- The half-buffers, offsets and lengths both tasks use. -/
structure Layout (cap : ℕ) (s : State) : Prop where
  fits : s.net.bufFilled ≤ cap
  file : s.net.pc.InFile → s.job.file = s.net.file
  fresh : ∀ k, s.net.file < k → s.files k = []
  posted : s.net.pc.InFile → s.job.semJobReady = true ∨ s.writer.pc.HasJob →
    s.job.data = if s.net.pc = .swap then s.net.cur else other s.net.cur
  data : s.net.pc = .setLen ∨ s.net.pc = .setError ∨ s.net.pc = .setDone ∨
    s.net.pc = .giveReady → s.job.data = s.net.cur
  len : s.net.pc = .setError ∨ s.net.pc = .setDone ∨ s.net.pc = .giveReady →
    s.job.len = s.net.bufFilled
  loaded : s.writer.pc = .loadLen ∨ s.writer.pc.Draining → s.writer.data = s.job.data
  remaining : s.writer.pc.Draining →
    s.writer.offset ≤ s.writer.remaining ∧ s.writer.error = false
  chunk : s.writer.pc = .write ∨ s.writer.pc = .rewrite →
    s.writer.chunk = min bounceSize (s.writer.remaining - s.writer.offset) ∧
    s.writer.bounce = Memory.slice (s.sBuf s.writer.data) s.writer.offset s.writer.chunk
  written : s.writer.pc = .rewrite → s.writer.written < s.writer.chunk

attribute [local grind =] NetTask.openFile SdWriteJob.start NetPc.InFile NetPc.Filling
  WriterPc.Draining NetTask.awaits NetPc.Stopping WriterPc.HasJob WriterPc.Loaded other_other
attribute [local grind .] other_ne
attribute [local grind cases eager] Handshake Layout

theorem layout_init (cap : ℕ) : Layout cap init := by
  constructor <;> grind -ring -linarith -order -ac [init]

theorem Layout.netMove {cap : ℕ} {τ : Turn} {s t : State} (hs : Handshake τ s)
    (hl : Layout cap s) (h : NetMove cap s t) : Layout cap t := by
  have hnet := hs.turn_net
  cases h with
  | readData bs hpc =>
      -- the writer is at the other buffer
      have hother : s.writer.pc.HasJob → s.job.data ≠ s.net.cur := by
        grind -ring -linarith -order -ac
      constructor <;> grind -ring -linarith -order -ac
  | _ => constructor <;> grind -ring -linarith -order -ac

theorem Layout.writerMove {cap : ℕ} {τ : Turn} {s t : State} (hs : Handshake τ s)
    (hl : Layout cap s) (h : WriterMove s t) : Layout cap t := by
  cases h <;> constructor <;> grind -ring -linarith -order -ac

/-- The bytes of the job that is out which `fwrite` has not accepted yet. -/
def undrained (s : State) : List Byte :=
  match s.writer.pc with
  | .waiting =>
      if s.job.semJobReady then Memory.slice (s.sBuf s.job.data) 0 s.job.len else []
  | .testStop | .loadData | .loadLen => Memory.slice (s.sBuf s.job.data) 0 s.job.len
  | .copy | .write =>
      Memory.slice (s.sBuf s.writer.data) s.writer.offset (s.writer.remaining - s.writer.offset)
  | .rewrite =>
      Memory.slice (s.sBuf s.writer.data) (s.writer.offset + s.writer.written)
        (s.writer.remaining - (s.writer.offset + s.writer.written))
  | _ => []

/-- The bytes of the current fill. -/
def filling (s : State) : List Byte :=
  if s.net.pc.Filling then Memory.slice (s.sBuf s.net.cur) 0 s.net.bufFilled else []

/-- A read or write error of the current file has been noticed by some task. -/
def Failed (s : State) : Prop :=
  s.net.netError = true ∨ s.net.sdError = true ∨
    (s.writer.pc = .setError ∨ s.writer.pc = .setDone ∨ s.writer.pc = .giveDone) ∧
      s.writer.error = true ∨
    (s.job.semJobDone = true ∨ s.net.pc = .testError ∨ s.net.pc = .finalError) ∧
      s.job.sdError = true

/-- Everything the current file has received, by the place it is in. -/
def carried (s : State) : List Byte :=
  s.files s.net.file ++ undrained s ++ filling s

/-- Nothing is lost, duplicated or reordered on the way from the reads to
`fwrite`. -/
def Content (s : State) : Prop :=
  s.net.pc.InFile → ¬ Failed s → carried s = s.net.received

/-- While the writer has no job there is nothing left to drain. -/
theorem Handshake.undrained_nil {τ : Turn} {s : State} (hs : Handshake τ s)
    (hp : τ ≠ .posted) (hw : τ ≠ .writer) : undrained s = [] := by
  have hidle := hs.idle hw
  have hready : s.job.semJobReady = false := by simpa [hp] using hs.ready
  cases hh : s.net.handle <;> simp_all [undrained]

/-- A step keeps the conservation law when it moves the bytes only between
places and forgets no error. -/
theorem Content.of_carried {s t : State} (hc : Content s)
    (hin : t.net.pc.InFile → s.net.pc.InFile) (hf : Failed s → Failed t)
    (hcar : ¬ Failed t → carried t = carried s)
    (hr : t.net.received = s.net.received) : Content t := by
  intro hin' hf'
  rw [hcar hf', hr]
  exact hc (hin hin') fun h => hf' (hf h)

/-- While a buffer is filled the job that is out lies in the other one. -/
theorem Layout.writes_other {cap : ℕ} {s : State} (hl : Layout cap s)
    (hpc : s.net.pc = .fill) :
    (s.job.semJobReady = true ∨ s.writer.pc.HasJob → s.job.data ≠ s.net.cur) ∧
      (s.writer.pc.Draining → s.writer.data ≠ s.net.cur) := by
  have hposted := hl.posted (by simp [NetPc.InFile, hpc])
  have hloaded := hl.loaded
  constructor <;> grind -ring -linarith -order -ac

/-- What is left to drain does not change with the other half-buffer. -/
theorem undrained_update {s : State} {c : BufIx} (n : NetTask) {m : ℕ → Byte}
    (h : (s.job.semJobReady = true ∨ s.writer.pc.HasJob → s.job.data ≠ c) ∧
      (s.writer.pc.Draining → s.writer.data ≠ c)) :
    undrained { s with sBuf := Function.update s.sBuf c m, net := n } = undrained s := by
  obtain ⟨hjob, hwriter⟩ := h
  cases hpc : s.writer.pc <;>
    simp_all [undrained, WriterPc.HasJob, WriterPc.Draining, Function.update_of_ne]

attribute [local simp] carried undrained filling Failed NetPc.InFile NetPc.Filling

theorem Content.netMove {cap : ℕ} {τ : Turn} {s t : State} (hs : Handshake τ s)
    (hl : Layout cap s) (hc : Content s) (h : NetMove cap s t) : Content t := by
  cases h with
  | openNext hpc hh | openFirst hpc hh =>
      obtain rfl := hs.turn_net (by simp [NetTask.awaits, hpc])
      have hun := hs.undrained_nil (by simp) (by simp)
      have hfresh := hl.fresh (s.net.file + 1) (by omega)
      have hidle := hs.idle (by simp)
      intro _ _
      simp_all [NetTask.openFile, SdWriteJob.start]
  | openFailed hpc | stopTask hpc | stopNoTask hpc | close hpc | stopFlag hpc | stopGive hpc
  | stopDelete hpc =>
      intro hin
      simp [hpc] at hin
  | readError hpc =>
      intro _ hf
      simp at hf
  | errorSeen hpc =>
      intro _ hf
      simp at hf
  | readEnd hpc | full hpc | keep hpc | mustWait hpc | mayKick hpc | finalWait hpc
  | finalSkip hpc =>
      apply hc.of_carried <;> simp [hpc]
  | noError hpc he =>
      apply hc.of_carried <;> simp [hpc, he]
  | leave hpc hl =>
      apply hc.of_carried <;> simp [hpc]
      intro hne
      rcases hl with hl | hl
      · simp [hne] at hl
      · simp [hl]
  | setData hpc | setLen hpc | setError hpc | setDone hpc =>
      obtain rfl := hs.turn_net (by simp [NetTask.awaits, hpc])
      have hidle := hs.idle (by simp)
      have hready := hs.ready
      have hdone := hs.done
      have hhandle := hs.handle (by simp [hpc])
      apply hc.of_carried <;> simp_all
  | takeDone hpc hd | takeFinal hpc hd =>
      obtain rfl := hs.turn_reported hd
      have hidle := hs.idle (by simp)
      have hready := hs.ready
      have hhandle := hs.handle (by simp [hpc])
      apply hc.of_carried <;> simp_all
  | finalError hpc =>
      apply hc.of_carried <;> simp [hpc]
      tauto
  | swapLast hpc hlt | swapMore hpc hge =>
      apply hc.of_carried <;> simp [hpc]
  | giveReady hpc =>
      obtain rfl := hs.turn_net (by simp [NetTask.awaits, hpc])
      have hidle := hs.idle (by simp)
      have hready := hs.ready
      have hhandle := hs.handle (by simp [hpc])
      have hdata := hl.data (by simp [hpc])
      have hlen := hl.len (by simp [hpc])
      apply hc.of_carried <;> simp_all
  | readData bs hpc hlt hne hle =>
      have hbuf := hl.writes_other hpc
      intro hin hf
      have hcar := hc (by simp [hpc]) (by simpa using hf)
      rw [carried, undrained_update _ hbuf]
      simp only [filling, NetPc.Filling, hpc, Function.update_self, Memory.slice_store_extend]
      rw [← hcar]
      simp [hpc]

/-- An `fwrite` moves what it accepts from the front of what is left to drain to
the end of the file. -/
theorem Content.of_accepted {cap : ℕ} {s : State} {w : WriterTask} {acc : List Byte}
    (hl : Layout cap s) (hc : Content s) (hf : Failed s → Failed { s with writer := w })
    (hun : ¬ Failed { s with writer := w } →
      acc ++ undrained { s with writer := w } = undrained s) :
    Content { s with files := Function.update s.files s.job.file (s.files s.job.file ++ acc),
                     writer := w } := by
  intro hin hok
  have hfile : s.job.file = s.net.file := hl.file hin
  have hcar := hc hin fun h => hok (hf h)
  have hmove := hun hok
  calc
    _ = s.files s.net.file ++ (acc ++ undrained { s with writer := w }) ++ filling s := by
      simp [carried, filling, undrained, hfile]
    _ = carried s := by rw [hmove, carried]
    _ = s.net.received := hcar

theorem Content.writerMove {cap : ℕ} {τ : Turn} {s t : State} (hs : Handshake τ s)
    (hl : Layout cap s) (hc : Content s) (h : WriterMove s t) : Content t := by
  cases h with
  | take hpc hr =>
      apply hc.of_carried <;> simp [hpc, hr]
  | exit hpc hstop =>
      intro hin
      have hnet := hs.stop.1 hstop
      simp [hnet] at hin
  | accept hpc | loadData hpc =>
      apply hc.of_carried <;> simp [hpc]
  | loadLen hpc =>
      have hdata := hl.loaded (Or.inl hpc)
      apply hc.of_carried <;> simp [hpc, hdata]
  | copy hpc hlt =>
      apply hc.of_carried <;> simp [hpc]
  | drained hpc hge =>
      have hoff := (hl.remaining (Or.inl hpc)).1
      have hnil : s.writer.remaining - s.writer.offset = 0 := by omega
      apply hc.of_carried <;> simp [hpc, hnil]
      tauto
  | writeAll hpc =>
      obtain ⟨hchunk, hbounce⟩ := hl.chunk (Or.inl hpc)
      have hle : s.writer.chunk ≤ s.writer.remaining - s.writer.offset := by omega
      have hsplit := Memory.slice_split (s.sBuf s.writer.data) s.writer.offset hle
      apply hc.of_accepted hl
      · simp [hpc]
      · intro _
        rw [hbounce, Memory.take_slice]
        simp [hpc, hsplit, Nat.sub_sub]
  | writeShort k hpc hlt =>
      obtain ⟨hchunk, hbounce⟩ := hl.chunk (Or.inl hpc)
      have hle : k ≤ s.writer.remaining - s.writer.offset := by omega
      have hsplit := Memory.slice_split (s.sBuf s.writer.data) s.writer.offset hle
      apply hc.of_accepted hl
      · simp [hpc]
      · intro _
        rw [hbounce, Memory.take_slice, Nat.min_eq_left hlt.le]
        simp [hpc, hsplit, Nat.sub_sub]
  | rewriteAll k hpc heq =>
      obtain ⟨hchunk, hbounce⟩ := hl.chunk (Or.inr hpc)
      have hle : k ≤ s.writer.remaining - (s.writer.offset + s.writer.written) := by omega
      have hsplit := Memory.slice_split (s.sBuf s.writer.data)
        (s.writer.offset + s.writer.written) hle
      apply hc.of_accepted hl
      · simp [hpc]
      · intro _
        rw [hbounce, Memory.drop_slice, Memory.take_slice, ← heq, Nat.add_sub_cancel_left,
          Nat.min_self]
        simp [hpc, hsplit, Nat.sub_sub, Nat.add_assoc]
  | rewriteShort k hpc hlt =>
      apply hc.of_accepted hl
      · simp [hpc]
      · simp
  | setError hpc =>
      obtain rfl := hs.turn_writer (by simp [WriterPc.HasJob, hpc])
      have hdone : s.job.semJobDone = false := hs.done
      have hawaits : s.net.awaits = true := hs.awaits
      have htest : s.net.pc ≠ .testError := fun h => by simp [NetTask.awaits, h] at hawaits
      have hfinal : s.net.pc ≠ .finalError := fun h => by simp [NetTask.awaits, h] at hawaits
      apply hc.of_carried <;> simp [hpc, hdone, htest, hfinal]
  | setDone hpc =>
      apply hc.of_carried <;> simp [hpc]
  | giveDone hpc =>
      obtain rfl := hs.turn_writer (by simp [WriterPc.HasJob, hpc])
      have hready : s.job.semJobReady = false := hs.ready
      have herror := hs.error (Or.inr hpc)
      apply hc.of_carried <;> simp [hpc, herror, hready]
      tauto

end PingPong

end SimiboxDownloader
