import SimiboxDownloader.PingPong.Outcome

/-!
# When a response is read to its end

The loop of a file ends early on an error; otherwise it ends because a buffer was
not filled, and that is because a read returned zero. So a transfer without an
error has read its response until a zero read (`readToEnd_of_ok`), and the
connection can take the next request.
-/

namespace SimiboxDownloader

namespace PingPong

/-- The last result of `esp_http_client_read`, after one more action. -/
def noteRead (last : Option ReadResult) : Act → Option ReadResult
  | .net (.read result) => some result
  | _ => last

/-- Every session that ends a transfer with `r` has read until a zero read. -/
def ReadToEnd (cap : ℕ) (r : Transfer) : Prop :=
  ∀ as s, Transition.run (step cap) init as = some s → s.net.pc = .release →
    r = ⟨s.net.received, s.files s.net.file, s.net.total, s.net.netError, s.net.sdError⟩ →
    as.foldl noteRead none = some (.data [])

/-- The buffer of the loop is filled, or will be no more. -/
def NetPc.BufferFilled (pc : NetPc) : Prop :=
  pc = .filled ∨ pc = .testPending ∨ pc = .takeDone ∨ pc = .testError ∨ pc = .setData ∨
    pc = .setLen ∨ pc = .setError ∨ pc = .setDone ∨ pc = .giveReady ∨ pc = .swap

/-- The loop is over. -/
def NetPc.LoopOver (pc : NetPc) : Prop :=
  pc = .testFinal ∨ pc = .takeFinal ∨ pc = .finalError ∨ pc = .release

/-- A buffer that is not full means that the last read returned zero. -/
structure ZeroRead (cap : ℕ) (last : Option ReadResult) (s : State) : Prop where
  filled : s.net.pc.BufferFilled → s.net.netError = false → s.net.bufFilled < cap →
    last = some (.data [])
  ended : s.net.pc.LoopOver → s.net.netError = false → s.net.sdError = false →
    last = some (.data [])

attribute [local grind =] NetPc.BufferFilled NetPc.LoopOver NetTask.openFile noteRead

theorem ZeroRead.netStep {cap : ℕ} {last : Option ReadResult} {s t : State} {i : NetInput}
    (hcap : 0 < cap) (hz : ZeroRead cap last s) (h : netStep cap s i = some t) :
    ZeroRead cap (noteRead last (.net i)) t := by
  obtain ⟨hfilled, hended⟩ := hz
  revert h
  fun_cases PingPong.netStep cap s i <;> rintro ⟨⟩
  all_goals constructor <;> grind -ring -linarith -order -ac

theorem ZeroRead.writerStep {cap : ℕ} {last : Option ReadResult} {s t : State} {k : ℕ}
    (hz : ZeroRead cap last s) (h : writerStep s k = some t) : ZeroRead cap last t := by
  obtain ⟨hfilled, hended⟩ := hz
  have hnet : t.net = s.net := by
    cases writerMove_of_writerStep h <;> rfl
  constructor
  · rwa [hnet]
  · rwa [hnet]

theorem ZeroRead.run {cap : ℕ} (hcap : 0 < cap) {as : List Act} {last : Option ReadResult}
    {s t : State} (hz : ZeroRead cap last s) (h : Transition.run (step cap) s as = some t) :
    ZeroRead cap (as.foldl noteRead last) t := by
  induction as generalizing s last with
  | nil =>
      cases h
      exact hz
  | cons a as ih =>
      rw [Transition.run_cons, Option.bind_eq_some_iff] at h
      obtain ⟨u, hu, hrest⟩ := h
      refine ih ?_ hrest
      cases a with
      | net i => exact hz.netStep hcap hu
      | writer k => exact hz.writerStep hu

/-- A transfer that ends without an error has read its response to the end. -/
theorem readToEnd_of_ok {cap : ℕ} {r : Transfer} (hcap : 0 < cap) (hnet : r.netError = false)
    (hsd : r.sdError = false) : ReadToEnd cap r := by
  rintro as s hrun hpc rfl
  have hstart : ZeroRead cap none init := by
    constructor <;> simp [init, NetPc.BufferFilled, NetPc.LoopOver]
  exact (hstart.run hcap hrun).ended (Or.inr (Or.inr (Or.inr hpc))) hnet hsd

end PingPong

end SimiboxDownloader
