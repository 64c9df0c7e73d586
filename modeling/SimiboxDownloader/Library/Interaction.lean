import Mathlib.Logic.Function.Basic

/-!
# Programs that call an environment

A `Program` is a tree of calls: it either returns a value or makes a call and
continues with the reply. A `Machine` says which replies a call may get in a
state and what the state is afterwards; it is a relation, so a call that can
fail has several replies. `Steps` are the runs of a program, finished or cut
anywhere, with the list of the calls made.

`Safe` is the judgement all properties of runs are derived from: it follows the
program call by call, so it holds of a sequence when it holds of the parts
(`Safe.bind`), and `Safe.steps` carries it over to every run. `Uses` bounds the
calls a program can make, whatever the replies; with it an invariant of the
single calls becomes an invariant of the program (`Uses.safe`).
-/

namespace Interaction

variable {Op : Type} {Reply : Op → Type} {σ τ α β : Type}

/-- A program that makes calls from `Op` and returns an `α`. -/
inductive Program (Op : Type) (Reply : Op → Type) (α : Type)
  | pure (a : α)
  | call (o : Op) (next : Reply o → Program Op Reply α)

namespace Program

/-- Run `p`, then `f` on what it returns. -/
def bind : Program Op Reply α → (α → Program Op Reply β) → Program Op Reply β
  | .pure a, f => f a
  | .call o next, f => .call o fun r => bind (next r) f

instance : Monad (Program Op Reply) where
  pure := Program.pure
  bind := Program.bind

/-- What a program that is over has returned. -/
def value : Program Op Reply α → Option α
  | .pure a => some a
  | .call _ _ => none

theorem eq_pure_of_value {p : Program Op Reply α} {a : α} (h : p.value = some a) :
    p = .pure a := by
  cases p with
  | pure b =>
      cases h
      rfl
  | call o next => cases h

/-- A single call. -/
def perform (o : Op) : Program Op Reply (Reply o) :=
  .call o .pure

@[simp] theorem pure_bind (a : α) (f : α → Program Op Reply β) :
    (Program.pure a >>= f) = f a := rfl

@[simp] theorem call_bind (o : Op) (next : Reply o → Program Op Reply α)
    (f : α → Program Op Reply β) :
    (Program.call o next >>= f) = .call o fun r => next r >>= f := rfl

theorem call_ne_pure {o : Op} {next : Reply o → Program Op Reply α} {a : α} :
    Program.call o next ≠ .pure a := nofun

theorem call_bind_ne_pure {o : Op} {next : Reply o → Program Op Reply α}
    {f : α → Program Op Reply β} {b : β} : (Program.call o next >>= f) ≠ .pure b := nofun

theorem bind_return (p : Program Op Reply α) : (p >>= Program.pure) = p := by
  induction p with
  | pure a => rfl
  | call o next ih => exact congrArg (Program.call o) (funext ih)

theorem bind_assoc (p : Program Op Reply α) (f : α → Program Op Reply β)
    (g : β → Program Op Reply τ) : (p >>= f >>= g) = (p >>= fun a => f a >>= g) := by
  induction p with
  | pure a => rfl
  | call o next ih => exact congrArg (Program.call o) (funext ih)

instance : LawfulMonad (Program Op Reply) :=
  LawfulMonad.mk' _ bind_return pure_bind bind_assoc

end Program

/-- Programs that also have variables of their own. -/
abbrev Stateful (Op : Type) (Reply : Op → Type) (τ : Type) := StateT τ (Program Op Reply)

namespace Stateful

/-- A single call. -/
def call (o : Op) : Stateful Op Reply τ (Reply o) :=
  fun st => .call o fun r => .pure (r, st)

theorem run_call_bind (o : Op) (k : Reply o → Stateful Op Reply τ β) (st : τ) :
    (call o >>= k).run st = .call o fun r => (k r).run st := rfl

theorem run_bind (p : Stateful Op Reply τ α) (k : α → Stateful Op Reply τ β) (st : τ) :
    (p >>= k).run st = p.run st >>= fun x => (k x.1).run x.2 := rfl

theorem run_get_bind (k : τ → Stateful Op Reply τ β) (st : τ) :
    (get >>= k).run st = (k st).run st := rfl

theorem run_modify_bind (g : τ → τ) (k : PUnit → Stateful Op Reply τ β) (st : τ) :
    (modify g >>= k).run st = (k ⟨⟩).run (g st) := rfl

theorem run_pure (a : α) (st : τ) :
    (pure a : Stateful Op Reply τ α).run st = .pure (a, st) := rfl

end Stateful

/-- Which replies a call may get in a state, and the state afterwards. -/
abbrev Machine (Op : Type) (Reply : Op → Type) (σ : Type) :=
  (o : Op) → σ → Reply o → σ → Prop

/-- A call that was made: the states around it and the reply it got. -/
structure Event (Op : Type) (Reply : Op → Type) (σ : Type) where
  before : σ
  op : Op
  reply : Reply op
  after : σ

/-- The machine that only makes the calls `ok` allows. -/
def Machine.restrict (M : Machine Op Reply σ) (ok : Event Op Reply σ → Prop) :
    Machine Op Reply σ :=
  fun o s r t => M o s r t ∧ ok ⟨s, o, r, t⟩

/-- The machine that also remembers the calls made so far. -/
def Machine.logged (M : Machine Op Reply σ) :
    Machine Op Reply (σ × List (Event Op Reply σ)) :=
  fun o s r t => M o s.1 r t.1 ∧ t.2 = s.2 ++ [⟨s.1, o, r, t.1⟩]

/-- A run of a program from a state: the calls it made, what is left of the
program and the state reached. The run is finished when `pure a` is left. -/
inductive Steps (M : Machine Op Reply σ) :
    Program Op Reply α → σ → List (Event Op Reply σ) → Program Op Reply α → σ → Prop
  | refl (p : Program Op Reply α) (s : σ) : Steps M p s [] p s
  | call {o : Op} {next : Reply o → Program Op Reply α} {s t u : σ} {r : Reply o}
      {tr : List (Event Op Reply σ)} {q : Program Op Reply α} :
      M o s r t → Steps M (next r) t tr q u →
      Steps M (.call o next) s (⟨s, o, r, t⟩ :: tr) q u

/-- The calls of a run are ones the machine makes. -/
theorem Steps.events {M : Machine Op Reply σ} {p q : Program Op Reply α} {s t : σ}
    {tr : List (Event Op Reply σ)} (h : Steps M p s tr q t) :
    ∀ e ∈ tr, M e.op e.before e.reply e.after := by
  induction h with
  | refl p s => simp
  | call hm _ ih =>
      intro e he
      rcases List.mem_cons.1 he with rfl | he
      · exact hm
      · exact ih e he

/-- What every call of a run keeps the run keeps. -/
theorem Steps.invariant {M : Machine Op Reply σ} {J : σ → Prop} {p q : Program Op Reply α}
    {s t : σ} {tr : List (Event Op Reply σ)} (h : Steps M p s tr q t)
    (hstep : ∀ e ∈ tr, J e.before → J e.after) (hs : J s) : J t := by
  induction h with
  | refl p s => exact hs
  | call _ _ ih =>
      have hnext := hstep _ List.mem_cons_self hs
      exact ih (fun e he => hstep e (List.mem_cons_of_mem _ he)) hnext

/-- A run all of whose calls another machine makes is one of that machine. -/
theorem Steps.of_events {M N : Machine Op Reply σ} {p q : Program Op Reply α} {s t : σ}
    {tr : List (Event Op Reply σ)} (h : Steps M p s tr q t)
    (hN : ∀ e ∈ tr, M e.op e.before e.reply e.after → N e.op e.before e.reply e.after) :
    Steps N p s tr q t := by
  induction h with
  | refl p s => exact Steps.refl p s
  | call hm _ ih =>
      refine Steps.call (hN _ List.mem_cons_self hm) (ih ?_)
      intro e he
      exact hN e (List.mem_cons_of_mem _ he)

/-- A run all of whose calls are allowed is a run of the restricted machine. -/
theorem Steps.restrict {M : Machine Op Reply σ} {ok : Event Op Reply σ → Prop}
    {p q : Program Op Reply α} {s t : σ} {tr : List (Event Op Reply σ)}
    (h : Steps M p s tr q t) (hok : ∀ e ∈ tr, ok e) : Steps (M.restrict ok) p s tr q t :=
  h.of_events fun e he hm => ⟨hm, hok e he⟩

/-- A run is a run of the machine that remembers it. -/
theorem Steps.logged {M : Machine Op Reply σ} {p q : Program Op Reply α} {s t : σ}
    {tr : List (Event Op Reply σ)} (h : Steps M p s tr q t)
    (l : List (Event Op Reply σ)) : ∃ tr', Steps M.logged p (s, l) tr' q (t, l ++ tr) := by
  induction h generalizing l with
  | refl p s =>
      rw [List.append_nil]
      exact ⟨[], Steps.refl p (s, l)⟩
  | call hm _ ih =>
      obtain ⟨tr', htr⟩ := ih (l ++ [⟨_, _, _, _⟩])
      rw [List.append_assoc] at htr
      exact ⟨_, Steps.call ⟨hm, rfl⟩ htr⟩

/-- A run of a sequence is one of its first part that is cut, or a finished one and
one of the rest. -/
theorem Steps.of_bind {M : Machine Op Reply σ} {p : Program Op Reply α}
    {f : α → Program Op Reply β} {q : Program Op Reply β} {s t : σ}
    {tr : List (Event Op Reply σ)} (h : Steps M (p >>= f) s tr q t) :
    (∃ o next, q = (.call o next >>= f) ∧ Steps M p s tr (.call o next) t) ∨
      ∃ a u tr₁ tr₂, tr = tr₁ ++ tr₂ ∧ Steps M p s tr₁ (.pure a) u ∧ Steps M (f a) u tr₂ q t := by
  induction p generalizing s tr with
  | pure a => exact Or.inr ⟨a, s, [], tr, rfl, Steps.refl _ _, h⟩
  | call o next ih =>
      cases h with
      | refl => exact Or.inl ⟨o, next, rfl, Steps.refl _ _⟩
      | call hm hrest =>
          obtain ⟨o', next', hq, hp'⟩ | ⟨a, u, tr₁, tr₂, rfl, hfirst, hsecond⟩ := ih _ hrest
          · exact Or.inl ⟨o', next', hq, Steps.call hm hp'⟩
          · exact Or.inr ⟨a, u, _ :: tr₁, tr₂, rfl, Steps.call hm hfirst, hsecond⟩

/-- A finished run of a sequence. -/
theorem Steps.of_bind_pure {M : Machine Op Reply σ} {p : Program Op Reply α}
    {f : α → Program Op Reply β} {b : β} {s t : σ} {tr : List (Event Op Reply σ)}
    (h : Steps M (p >>= f) s tr (.pure b) t) :
    ∃ a u tr₁ tr₂, tr = tr₁ ++ tr₂ ∧ Steps M p s tr₁ (.pure a) u ∧
      Steps M (f a) u tr₂ (.pure b) t := by
  obtain ⟨o, next, hb, -⟩ | h := h.of_bind
  · cases hb
  · exact h

/-- A finished run and one of what follows it. -/
theorem Steps.bind {M : Machine Op Reply σ} {p : Program Op Reply α}
    {f : α → Program Op Reply β} {q : Program Op Reply β} {a : α} {s u t : σ}
    {tr tr' : List (Event Op Reply σ)} (h : Steps M p s tr (.pure a) u)
    (h' : Steps M (f a) u tr' q t) : Steps M (p >>= f) s (tr ++ tr') q t := by
  induction p generalizing s tr with
  | pure b =>
      cases h
      exact h'
  | call o next ih =>
      cases h with
      | call hm hrest => exact Steps.call hm (ih _ hrest)

/-- A finished run of a call and what follows it. -/
theorem Steps.of_call_pure {M : Machine Op Reply σ} {o : Op} {next : Reply o → Program Op Reply α}
    {a : α} {s t : σ} {tr : List (Event Op Reply σ)}
    (h : Steps M (.call o next) s tr (.pure a) t) :
    ∃ r u tr', tr = ⟨s, o, r, u⟩ :: tr' ∧ M o s r u ∧ Steps M (next r) u tr' (.pure a) t := by
  cases h with
  | call hm hrest => exact ⟨_, _, _, rfl, hm, hrest⟩

/-- Some run of the program comes to its end. -/
def Finishes (M : Machine Op Reply σ) (p : Program Op Reply α) (s : σ) : Prop :=
  ∃ tr a t, Steps M p s tr (.pure a) t

namespace Stateful

/-- A finished run of a call and what follows it, for programs with variables. -/
theorem steps_call {M : Machine Op Reply σ} {o : Op} {k : Reply o → Stateful Op Reply τ α}
    {x : α × τ} {st : τ} {s t : σ} {tr : List (Event Op Reply σ)}
    (h : Steps M ((call o >>= k).run st) s tr (.pure x) t) :
    ∃ r u tr', tr = ⟨s, o, r, u⟩ :: tr' ∧ M o s r u ∧ Steps M ((k r).run st) u tr' (.pure x) t :=
  h.of_call_pure

/-- A finished run of a sequence, for programs with variables. -/
theorem steps_bind {M : Machine Op Reply σ} {p : Stateful Op Reply τ α}
    {k : α → Stateful Op Reply τ β} {x : β × τ} {st : τ} {s t : σ} {tr : List (Event Op Reply σ)}
    (h : Steps M ((p >>= k).run st) s tr (.pure x) t) :
    ∃ a st' u tr₁ tr₂, tr = tr₁ ++ tr₂ ∧ Steps M (p.run st) s tr₁ (.pure (a, st')) u ∧
      Steps M ((k a).run st') u tr₂ (.pure x) t := by
  rw [run_bind] at h
  obtain ⟨⟨a, st'⟩, u, tr₁, tr₂, rfl, hfirst, hsecond⟩ := h.of_bind_pure
  exact ⟨a, st', u, tr₁, tr₂, rfl, hfirst, hsecond⟩

theorem finishes_pure {M : Machine Op Reply σ} {a : α} {st : τ} {s : σ} :
    Finishes M ((pure a : Stateful Op Reply τ α).run st) s :=
  ⟨[], _, s, Steps.refl _ s⟩

theorem finishes_call {M : Machine Op Reply σ} {o : Op} {k : Reply o → Stateful Op Reply τ α}
    {r : Reply o} {st : τ} {s t : σ} (hm : M o s r t) (h : Finishes M ((k r).run st) t) :
    Finishes M ((call o >>= k).run st) s := by
  obtain ⟨tr, x, u, hrun⟩ := h
  exact ⟨_, x, u, Steps.call hm hrun⟩

theorem finishes_bind {M : Machine Op Reply σ} {p : Stateful Op Reply τ α}
    {k : α → Stateful Op Reply τ β} {a : α} {st st' : τ} {s t : σ} {tr : List (Event Op Reply σ)}
    (hp : Steps M (p.run st) s tr (.pure (a, st')) t) (h : Finishes M ((k a).run st') t) :
    Finishes M ((p >>= k).run st) s := by
  obtain ⟨tr', x, u, hrun⟩ := h
  exact ⟨_, x, u, Steps.bind hp hrun⟩

end Stateful

/-- Run a program against an environment that answers each call or, with `none`,
stops the run there: what is left of the program, the state reached and the
calls made. -/
def play (answer : (o : Op) → σ → Option (Reply o × σ)) :
    Program Op Reply α → σ → Program Op Reply α × σ × List (Event Op Reply σ)
  | .pure a, s => (.pure a, s, [])
  | .call o next, s =>
      match answer o s with
      | none => (.call o next, s, [])
      | some (r, t) =>
          let rest := play answer (next r) t
          (rest.1, rest.2.1, ⟨s, o, r, t⟩ :: rest.2.2)

/-- Playing against answers the machine admits is a run. -/
theorem steps_play {M : Machine Op Reply σ} {answer : (o : Op) → σ → Option (Reply o × σ)}
    (h : ∀ o s r t, answer o s = some (r, t) → M o s r t) (p : Program Op Reply α) (s : σ) :
    Steps M p s (play answer p s).2.2 (play answer p s).1 (play answer p s).2.1 := by
  induction p generalizing s with
  | pure a => exact Steps.refl _ s
  | call o next ih =>
      unfold play
      cases ha : answer o s with
      | none => exact Steps.refl _ s
      | some x => exact Steps.call (h o s x.1 x.2 ha) (ih x.1 x.2)

/-- A run that has ended, by what is known of the value it has returned. -/
theorem Steps.returned {M : Machine Op Reply σ} {p q : Program Op Reply α} {s t : σ}
    {tr : List (Event Op Reply σ)} {f : α → β} {b : β} (h : Steps M p s tr q t)
    (hend : q.value.map f = some b) : ∃ x, Steps M p s tr (.pure x) t ∧ f x = b := by
  obtain ⟨x, hx, hb⟩ := Option.map_eq_some_iff.1 hend
  rw [Program.eq_pure_of_value hx] at h
  exact ⟨x, h, hb⟩

section Safe

variable {M M' : Machine Op Reply σ} {C C' : Op → σ → Prop} {I I' : σ → Prop}
  {Q Q' : α → σ → Prop}

/-- Every call the program makes is one `C` permits in its state, `I` holds
after every call and `Q` of what the program returns. -/
def Safe (M : Machine Op Reply σ) (C : Op → σ → Prop) (I : σ → Prop) (Q : α → σ → Prop) :
    Program Op Reply α → σ → Prop
  | .pure a, s => Q a s
  | .call o next, s => C o s ∧ ∀ r t, M o s r t → I t ∧ Safe M C I Q (next r) t

theorem safe_pure {a : α} {s : σ} : Safe M C I Q (.pure a) s ↔ Q a s := Iff.rfl

theorem safe_call {o : Op} {next : Reply o → Program Op Reply α} {s : σ} :
    Safe M C I Q (.call o next) s ↔
      C o s ∧ ∀ r t, M o s r t → I t ∧ Safe M C I Q (next r) t := Iff.rfl

/-- A call that can go only one way. -/
theorem safe_call_of_only {Q : α → σ → Prop} {o : Op} {next : Reply o → Program Op Reply α}
    {s t : σ} {r : Reply o} (h : ∀ r' t', M o s r' t' ↔ r' = r ∧ t' = t) :
    Safe M (fun _ _ => True) (fun _ => True) Q (.call o next) s ↔
      Safe M (fun _ _ => True) (fun _ => True) Q (next r) t := by
  constructor
  · intro hcall
    exact (hcall.2 r t ((h r t).2 ⟨rfl, rfl⟩)).2
  · intro hnext
    refine ⟨trivial, ?_⟩
    intro r' t' hm
    obtain ⟨rfl, rfl⟩ := (h r' t').1 hm
    exact ⟨trivial, hnext⟩

/-- The rule of consequence. A machine with fewer replies is safer. -/
theorem Safe.mono {p : Program Op Reply α} {s : σ} (h : Safe M C I Q p s)
    (hM : ∀ o s r t, M' o s r t → M o s r t) (hC : ∀ o s, C o s → C' o s)
    (hI : ∀ s, I s → I' s) (hQ : ∀ a s, Q a s → Q' a s) : Safe M' C' I' Q' p s := by
  induction p generalizing s with
  | pure a => exact hQ a s h
  | call o next ih =>
      refine ⟨hC o s h.1, ?_⟩
      intro r t hm
      have hnext := h.2 r t (hM o s r t hm)
      exact ⟨hI t hnext.1, ih r hnext.2⟩

theorem Safe.imp {p : Program Op Reply α} {s : σ} (h : Safe M C I Q p s)
    (hQ : ∀ a s, Q a s → Q' a s) : Safe M C I Q' p s :=
  h.mono (fun _ _ _ _ hm => hm) (fun _ _ hc => hc) (fun _ hi => hi) hQ

theorem Safe.forget {p : Program Op Reply α} {s : σ} (h : Safe M C I Q p s) :
    Safe M C (fun _ => True) Q p s :=
  h.mono (fun _ _ _ _ hm => hm) (fun _ _ hc => hc) (fun _ _ => trivial) fun _ _ hq => hq

/-- Two judgements about one program hold together. -/
theorem Safe.and {p : Program Op Reply α} {s : σ} (h : Safe M C I Q p s)
    (h' : Safe M C' I' Q' p s) :
    Safe M (fun o s => C o s ∧ C' o s) (fun s => I s ∧ I' s) (fun a s => Q a s ∧ Q' a s)
      p s := by
  induction p generalizing s with
  | pure a => exact ⟨h, h'⟩
  | call o next ih =>
      refine ⟨⟨h.1, h'.1⟩, ?_⟩
      intro r t hm
      have hnext := h.2 r t hm
      have hnext' := h'.2 r t hm
      exact ⟨⟨hnext.1, hnext'.1⟩, ih r hnext.2 hnext'.2⟩

/-- The rule for sequences. -/
theorem Safe.bind {R : α → σ → Prop} {Q : β → σ → Prop} {p : Program Op Reply α}
    {f : α → Program Op Reply β} {s : σ} (h : Safe M C I R p s)
    (hf : ∀ a t, R a t → Safe M C I Q (f a) t) : Safe M C I Q (p >>= f) s := by
  induction p generalizing s with
  | pure a => exact hf a s h
  | call o next ih =>
      refine ⟨h.1, ?_⟩
      intro r t hm
      have hnext := h.2 r t hm
      exact ⟨hnext.1, ih r hnext.2⟩

/-- A single call. -/
theorem Safe.perform {o : Op} {s : σ} {Q : Reply o → σ → Prop} (hC : C o s)
    (h : ∀ r t, M o s r t → I t ∧ Q r t) : Safe M C I Q (Program.perform o) s :=
  ⟨hC, h⟩

/-- A call on the machine that remembers the calls. -/
theorem Safe.logged_call {C : Op → σ × List (Event Op Reply σ) → Prop}
    {I : σ × List (Event Op Reply σ) → Prop} {Q : α → σ × List (Event Op Reply σ) → Prop}
    {o : Op} {next : Reply o → Program Op Reply α} {s : σ} {l : List (Event Op Reply σ)}
    (hC : C o (s, l))
    (h : ∀ r t, M o s r t → I (t, l ++ [⟨s, o, r, t⟩]) ∧
      Safe M.logged C I Q (next r) (t, l ++ [⟨s, o, r, t⟩])) :
    Safe M.logged C I Q (.call o next) (s, l) := by
  refine ⟨hC, ?_⟩
  rintro r ⟨t, l'⟩ ⟨hm, hl⟩
  obtain rfl : l' = l ++ [⟨s, o, r, t⟩] := hl
  exact h r t hm

/-- A judgement that does not look at the calls made so far. -/
theorem Safe.logged {p : Program Op Reply α} {s : σ} (h : Safe M C I Q p s)
    (l : List (Event Op Reply σ)) :
    Safe M.logged (fun o s => C o s.1) (fun s => I s.1) (fun a s => Q a s.1) p (s, l) := by
  induction p generalizing s l with
  | pure a => exact h
  | call o next ih =>
      apply Safe.logged_call h.1
      intro r t hm
      have hnext := h.2 r t hm
      exact ⟨hnext.1, ih r hnext.2 _⟩

/-- The judgement holds of what is left of the program at every point of every
run. -/
theorem Safe.steps {p q : Program Op Reply α} {s t : σ} {tr : List (Event Op Reply σ)}
    (h : Safe M C I Q p s) (hs : I s) (hr : Steps M p s tr q t) :
    I t ∧ Safe M C I Q q t := by
  induction hr with
  | refl p s => exact ⟨hs, h⟩
  | call hm _ ih =>
      have hnext := h.2 _ _ hm
      exact ih hnext.2 hnext.1

/-- A safe program keeps `I` and establishes `Q`. -/
theorem Safe.result {p : Program Op Reply α} {a : α} {s t : σ}
    {tr : List (Event Op Reply σ)} (h : Safe M C I Q p s) (hs : I s)
    (hr : Steps M p s tr (.pure a) t) : Q a t :=
  (h.steps hs hr).2

/-- Every call of a run was permitted. -/
theorem Safe.events {p q : Program Op Reply α} {s t : σ} {tr : List (Event Op Reply σ)}
    (h : Safe M C I Q p s) (hr : Steps M p s tr q t) : ∀ e ∈ tr, C e.op e.before := by
  induction hr with
  | refl p s => simp
  | call hm _ ih =>
      have hrest := ih (h.2 _ _ hm).2
      intro e he
      rcases List.mem_cons.1 he with rfl | he
      · exact h.1
      · exact hrest e he

/-- What a run comes to in a state that follows from the calls and their replies. -/
def track (next : (o : Op) → τ → Reply o → τ) (a : τ) (tr : List (Event Op Reply σ)) : τ :=
  tr.foldl (fun a e => next e.op a e.reply) a

/-- A judgement about a state that follows from the calls and their replies holds
in the runs of any machine. -/
theorem Safe.tracks {N : Machine Op Reply τ} {C : Op → τ → Prop} {I : τ → Prop}
    {Q : α → τ → Prop} {f : (o : Op) → τ → Reply o → τ}
    (hnext : ∀ o s r t a, M o s r t → N o a r (f o a r)) {p q : Program Op Reply α}
    {s t : σ} {a : τ} {tr : List (Event Op Reply σ)} (h : Safe N C I Q p a)
    (hr : Steps M p s tr q t) :
    (∀ l e l', tr = l ++ e :: l' → C e.op (track f a l)) ∧
      Safe N C I Q q (track f a tr) := by
  induction hr generalizing a with
  | refl p s => exact ⟨by simp, h⟩
  | call hm _ ih =>
      obtain ⟨hcalls, hrest⟩ := ih (h.2 _ _ (hnext _ _ _ _ a hm)).2
      refine ⟨?_, hrest⟩
      intro l e l' htr
      cases l with
      | nil =>
          cases htr
          exact h.1
      | cons _ l =>
          obtain ⟨rfl, htail⟩ := List.cons.inj htr
          exact hcalls l e l' htail

/-- A program each of whose calls gets some reply has a finished run. -/
theorem Safe.terminates {p : Program Op Reply α} {s : σ} (h : Safe M C I Q p s)
    (hC : ∀ o s, C o s → ∃ r t, M o s r t) : ∃ tr a t, Steps M p s tr (.pure a) t := by
  induction p generalizing s with
  | pure a => exact ⟨[], a, s, Steps.refl _ _⟩
  | call o next ih =>
      obtain ⟨r, t, hm⟩ := hC o s h.1
      obtain ⟨tr, a, u, hrun⟩ := ih r (h.2 r t hm).2
      exact ⟨_, a, u, Steps.call hm hrun⟩

end Safe

section Leads

variable {M : Machine Op Reply σ} {s : σ} {l : List (Event Op Reply σ)}

/-- However the calls go, `Q` holds of what is returned, of the state then and of
the calls made. -/
abbrev Leads (M : Machine Op Reply σ) (Q : α → σ → List (Event Op Reply σ) → Prop)
    (p : Program Op Reply α) (s : σ) (l : List (Event Op Reply σ)) : Prop :=
  Safe M.logged (fun _ _ => True) (fun _ => True) (fun a s => Q a s.1 s.2) p (s, l)

theorem leads_call {Q : α → σ → List (Event Op Reply σ) → Prop} {o : Op}
    {next : Reply o → Program Op Reply α}
    (h : ∀ r t, M o s r t → Leads M Q (next r) t (l ++ [⟨s, o, r, t⟩])) :
    Leads M Q (.call o next) s l :=
  Safe.logged_call trivial fun r t hm => ⟨trivial, h r t hm⟩

theorem Leads.bind {R : α → σ → List (Event Op Reply σ) → Prop}
    {Q : β → σ → List (Event Op Reply σ) → Prop} {p : Program Op Reply α}
    {f : α → Program Op Reply β} (h : Leads M R p s l)
    (hf : ∀ a t l', R a t l' → Leads M Q (f a) t l') : Leads M Q (p >>= f) s l :=
  Safe.bind h fun a s hs => hf a s.1 s.2 hs

/-- A judgement that does not look at the calls. -/
theorem Leads.of_safe {Q : α → σ → Prop} {p : Program Op Reply α}
    (h : Safe M (fun _ _ => True) (fun _ => True) Q p s) : Leads M (fun a t _ => Q a t) p s l :=
  h.logged l

theorem Leads.and {Q Q' : α → σ → List (Event Op Reply σ) → Prop} {p : Program Op Reply α}
    (h : Leads M Q p s l) (h' : Leads M Q' p s l) :
    Leads M (fun a t l' => Q a t l' ∧ Q' a t l') p s l :=
  (Safe.and h h').mono (fun _ _ _ _ hm => hm) (fun _ _ _ => trivial) (fun _ _ => trivial)
    fun _ _ hq => hq

/-- A finished run, from a log that is still empty. -/
theorem Leads.result {Q : α → σ → List (Event Op Reply σ) → Prop} {p : Program Op Reply α}
    {tr : List (Event Op Reply σ)} {a : α} {t : σ} (h : Leads M Q p s [])
    (hr : Steps M p s tr (.pure a) t) : Q a t tr := by
  obtain ⟨tr', hlog⟩ := hr.logged []
  exact (Safe.steps h trivial hlog).2

end Leads

namespace Stateful

variable {M : Machine Op Reply σ} {C : Op → σ → Prop} {Q : β → τ → σ → Prop} {st : τ} {s : σ}

/-- Every call is one `C` permits, and `Q` holds of what is returned, of the
variables and of the state then. -/
abbrev Ensures (M : Machine Op Reply σ) (C : Op → σ → Prop) (Q : α → τ → σ → Prop)
    (p : Stateful Op Reply τ α) (st : τ) (s : σ) : Prop :=
  Safe M C (fun _ => True) (fun x s => Q x.1 x.2 s) (p.run st) s

theorem Ensures.bind {R : α → τ → σ → Prop} {p : Stateful Op Reply τ α}
    {k : α → Stateful Op Reply τ β} (h : Ensures M C R p st s)
    (hk : ∀ a st' t, R a st' t → Ensures M C Q (k a) st' t) : Ensures M C Q (p >>= k) st s :=
  Safe.bind h fun x t hx => hk x.1 x.2 t hx

theorem Ensures.imp {R : β → τ → σ → Prop} {p : Stateful Op Reply τ β} (h : Ensures M C R p st s)
    (hQ : ∀ a st' t, R a st' t → Q a st' t) : Ensures M C Q p st s :=
  Safe.imp h fun x t hx => hQ x.1 x.2 t hx

theorem ensures_pure {a : β} (h : Q a st s) : Ensures M C Q (pure a) st s := h

theorem ensures_get {k : τ → Stateful Op Reply τ β} (h : Ensures M C Q (k st) st s) :
    Ensures M C Q (get >>= k) st s := h

theorem ensures_modify {g : τ → τ} {k : PUnit → Stateful Op Reply τ β}
    (h : Ensures M C Q (k ⟨⟩) (g st) s) : Ensures M C Q (modify g >>= k) st s := h

theorem ensures_modify_end {g : τ → τ} {Q : PUnit → τ → σ → Prop} (h : Q ⟨⟩ (g st) s) :
    Ensures M C Q (modify g) st s := h

/-- A call and what follows it. -/
theorem ensures_call {o : Op} {k : Reply o → Stateful Op Reply τ β} (ho : C o s)
    (hk : ∀ r t, M o s r t → Ensures M C Q (k r) st t) : Ensures M C Q (call o >>= k) st s :=
  ⟨ho, fun r t hm => ⟨trivial, hk r t hm⟩⟩

end Stateful

section Uses

variable {A A' : Op → Prop} {R R' : (o : Op) → Reply o → Prop}

/-- Every call the program makes satisfies `A`, as long as the replies satisfy
`R`. -/
def Uses (A : Op → Prop) (R : (o : Op) → Reply o → Prop) : Program Op Reply α → Prop
  | .pure _ => True
  | .call o next => A o ∧ ∀ r, R o r → Uses A R (next r)

theorem Uses.mono {p : Program Op Reply α} (h : Uses A R p) (hA : ∀ o, A o → A' o)
    (hR : ∀ o r, R' o r → R o r) : Uses A' R' p := by
  induction p with
  | pure a => trivial
  | call o next ih => exact ⟨hA o h.1, fun r hr => ih r (h.2 r (hR o r hr))⟩

theorem Uses.bind {p : Program Op Reply α} {f : α → Program Op Reply β} (h : Uses A R p)
    (hf : ∀ a, Uses A R (f a)) : Uses A R (p >>= f) := by
  induction p with
  | pure a => exact hf a
  | call o next ih => exact ⟨h.1, fun r hr => ih r (h.2 r hr)⟩

/-- What every call keeps the program keeps. -/
theorem Uses.safe {M : Machine Op Reply σ} {C : Op → σ → Prop} {J : σ → Prop}
    {p : Program Op Reply α} {s : σ} (h : Uses A R p)
    (hM : ∀ o s r t, A o → J s → M o s r t → R o r ∧ J t) (hC : ∀ o s, A o → J s → C o s)
    (hs : J s) : Safe M C J (fun _ => J) p s := by
  induction p generalizing s with
  | pure a => exact hs
  | call o next ih =>
      refine ⟨hC o s h.1 hs, ?_⟩
      intro r t hm
      obtain ⟨hr, ht⟩ := hM o s r t h.1 hs hm
      exact ⟨ht, ih r (h.2 r hr) ht⟩

/-- Every call of a run is one the program uses. -/
theorem Uses.steps {M : Machine Op Reply σ} {p q : Program Op Reply α} {s t : σ}
    {tr : List (Event Op Reply σ)} (h : Uses A R p) (hr : Steps M p s tr q t)
    (hR : ∀ e ∈ tr, R e.op e.reply) : ∀ e ∈ tr, A e.op := by
  induction hr with
  | refl p s => simp
  | call hm _ ih =>
      have hnext := h.2 _ (hR _ List.mem_cons_self)
      have hrest := ih hnext fun e he => hR e (List.mem_cons_of_mem _ he)
      intro e he
      rcases List.mem_cons.1 he with rfl | he
      · exact h.1
      · exact hrest e he

/-- `Uses` for programs with variables, whatever these hold. -/
def Stateful.Uses (A : Op → Prop) (R : (o : Op) → Reply o → Prop)
    (p : Stateful Op Reply τ α) : Prop :=
  ∀ st, Interaction.Uses A R (p.run st)

namespace Stateful

theorem Uses.mono {p : Stateful Op Reply τ α} (h : Stateful.Uses A R p)
    (hA : ∀ o, A o → A' o) (hR : ∀ o r, R' o r → R o r) : Stateful.Uses A' R' p :=
  fun st => Interaction.Uses.mono (h st) hA hR

theorem uses_pure {a : α} : Stateful.Uses A R (pure a : Stateful Op Reply τ α) :=
  fun _ => trivial

theorem uses_call {o : Op} (ho : A o) :
    Stateful.Uses A R (call o : Stateful Op Reply τ (Reply o)) :=
  fun _ => ⟨ho, fun _ _ => trivial⟩

theorem uses_get : Stateful.Uses A R (get : Stateful Op Reply τ τ) :=
  fun _ => trivial

theorem uses_modify {g : τ → τ} : Stateful.Uses A R (modify g : Stateful Op Reply τ PUnit) :=
  fun _ => trivial

theorem Uses.bind {p : Stateful Op Reply τ α} {k : α → Stateful Op Reply τ β}
    (h : Stateful.Uses A R p) (hk : ∀ a, Stateful.Uses A R (k a)) :
    Stateful.Uses A R (p >>= k) :=
  fun st => (h st).bind fun x => hk x.1 x.2

theorem uses_ite {c : Prop} [Decidable c] {p q : Stateful Op Reply τ α}
    (hp : Stateful.Uses A R p) (hq : Stateful.Uses A R q) :
    Stateful.Uses A R (if c then p else q) := by
  split
  · exact hp
  · exact hq

end Stateful

/-- Any reply, in a single state. -/
abbrev anyReply : Machine Op Reply Unit := fun _ _ _ _ => True

namespace Stateful

variable {γ : Type} {g : τ → γ}

/-- Every call satisfies `A`, and what `g` shows of the variables is in the end what
it was, whatever the replies. -/
def Frames (A : Op → Prop) (g : τ → γ) (p : Stateful Op Reply τ α) : Prop :=
  ∀ st, Ensures anyReply (fun o _ => A o) (fun _ st' _ => g st' = g st) p st ()

theorem frames_pure {a : α} : Frames A g (pure a : Stateful Op Reply τ α) :=
  fun _ => rfl

theorem frames_call {o : Op} (ho : A o) : Frames A g (call o : Stateful Op Reply τ (Reply o)) :=
  fun _ => ⟨ho, fun _ _ _ => ⟨trivial, rfl⟩⟩

theorem frames_get : Frames A g (get : Stateful Op Reply τ τ) :=
  fun _ => rfl

theorem frames_modify {f : τ → τ} (hf : ∀ st, g (f st) = g st) :
    Frames A g (modify f : Stateful Op Reply τ PUnit) :=
  fun st => hf st

theorem Frames.bind {p : Stateful Op Reply τ α} {k : α → Stateful Op Reply τ β}
    (h : Frames A g p) (hk : ∀ a, Frames A g (k a)) : Frames A g (p >>= k) := by
  intro st
  apply (h st).bind
  intro a st' _ hst
  exact (hk a st').imp fun _ _ _ hst' => hst'.trans hst

theorem frames_modify_bind {f : τ → τ} {k : PUnit → Stateful Op Reply τ β}
    (hf : ∀ st, g (f st) = g st) (hk : Frames A g (k ⟨⟩)) : Frames A g (modify f >>= k) :=
  (frames_modify hf).bind fun _ => hk

theorem Frames.mono {p : Stateful Op Reply τ α} (h : Frames A g p) (hA : ∀ o, A o → A' o) :
    Frames A' g p :=
  fun st => Safe.mono (h st) (fun _ _ _ _ hm => hm) (fun o _ ho => hA o ho) (fun _ hi => hi)
    fun _ _ hq => hq

theorem uses_of_safe {p : Program Op Reply α} {Q : α → Unit → Prop}
    (h : Safe anyReply (fun o _ => A o) (fun _ => True) Q p ()) : Interaction.Uses A R p := by
  induction p with
  | pure a => trivial
  | call o next ih => exact ⟨h.1, fun r _ => ih r (h.2 r () trivial).2⟩

theorem Frames.uses {p : Stateful Op Reply τ α} (h : Frames A g p) : Stateful.Uses A R p :=
  fun st => uses_of_safe (h st)

/-- Calls that keep `J` keep it together with what `g` shows. -/
theorem Frames.ensures {M : Machine Op Reply σ} {C : Op → σ → Prop} {J : σ → Prop}
    {p : Stateful Op Reply τ α} {st : τ} {s : σ} (h : Frames A g p)
    (hC : ∀ o s, A o → J s → C o s) (hM : ∀ o s r t, A o → J s → M o s r t → J t) (hs : J s) :
    Ensures M C (fun _ st' t => g st' = g st ∧ J t) p st s := by
  have hsafe (q : Program Op Reply (α × τ)) (s : σ) (hs : J s)
      (hq : Safe anyReply (fun o _ => A o) (fun _ => True) (fun x _ => g x.2 = g st) q ()) :
      Safe M C (fun _ => True) (fun x t => g x.2 = g st ∧ J t) q s := by
    induction q generalizing s with
    | pure x => exact ⟨hq, hs⟩
    | call o next ih =>
        refine ⟨hC o s hq.1 hs, fun r t hm => ⟨trivial, ?_⟩⟩
        exact ih r t (hM o s r t hq.1 hs hm) (hq.2 r () trivial).2
  exact hsafe _ s hs (h st)

end Stateful

end Uses

/-- Successive boots: each runs one program, to its end or until the power is
lost, and `reboot` says what the next boot finds. `cond` is a condition on the
state each boot starts in and on its calls. -/
inductive Boots (M : Machine Op Reply σ) (prog : Program Op Reply α → Prop)
    (reboot : σ → σ → Prop) (cond : σ → List (Event Op Reply σ) → Prop) : σ → σ → Prop
  | refl (s : σ) : Boots M prog reboot cond s s
  | boot {s t u v : σ} {p q : Program Op Reply α} {tr : List (Event Op Reply σ)} :
      Boots M prog reboot cond s t → prog p → Steps M p t tr q u → cond t tr → reboot u v →
      Boots M prog reboot cond s v

/-- The rule of consequence for boots. -/
theorem Boots.imp {M : Machine Op Reply σ} {prog : Program Op Reply α → Prop}
    {reboot : σ → σ → Prop} {cond cond' : σ → List (Event Op Reply σ) → Prop} {s t : σ}
    (h : Boots M prog reboot cond s t) (hcond : ∀ s tr, cond s tr → cond' s tr) :
    Boots M prog reboot cond' s t := by
  induction h with
  | refl => exact .refl _
  | boot _ hp hr hc hu ih => exact .boot ih hp hr (hcond _ _ hc) hu

/-- The invariant rule for boots. -/
theorem Boots.invariant {M : Machine Op Reply σ} {prog : Program Op Reply α → Prop}
    {reboot : σ → σ → Prop} {cond : σ → List (Event Op Reply σ) → Prop} {P : σ → Prop}
    {s t : σ} (h : Boots M prog reboot cond s t)
    (hstep : ∀ p q s tr t u, P s → prog p → Steps M p s tr q t → cond s tr → reboot t u → P u)
    (hs : P s) : P t := by
  induction h with
  | refl => exact hs
  | boot _ hp hr hc hu ih => exact hstep _ _ _ _ _ _ ih hp hr hc hu

end Interaction
