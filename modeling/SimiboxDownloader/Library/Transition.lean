import Mathlib.Logic.Relation

/-!
# Transition systems given by a partial step function

A system is a function `step : σ → α → Option σ`: in the state `s` the action
`a` leads to `t` when `step s a = some t`, and is not possible when it is
`none`. `Reaches step s t` is reachability by any number of actions, so an
invariant of all runs is one preserved by every action. `run step s as`
executes a list of actions; it is the form a closed run is evaluated in.
-/

namespace Transition

variable {σ α : Type*}

/-- One action leads from `s` to `t`. -/
def Next (step : σ → α → Option σ) (s t : σ) : Prop :=
  ∃ a, step s a = some t

/-- Some sequence of actions leads from `s` to `t`. -/
def Reaches (step : σ → α → Option σ) : σ → σ → Prop :=
  Relation.ReflTransGen (Next step)

theorem Reaches.refl (step : σ → α → Option σ) (s : σ) : Reaches step s s :=
  Relation.ReflTransGen.refl

theorem Reaches.tail {step : σ → α → Option σ} {s t u : σ} {a : α}
    (h : Reaches step s t) (h' : step t a = some u) : Reaches step s u :=
  Relation.ReflTransGen.tail h ⟨a, h'⟩

theorem Reaches.head {step : σ → α → Option σ} {s t u : σ} {a : α}
    (h : step s a = some t) (h' : Reaches step t u) : Reaches step s u :=
  Relation.ReflTransGen.head ⟨a, h⟩ h'

/-- The invariant rule: what holds at the start and is kept by every action
holds in every state reached. -/
theorem Reaches.invariant {step : σ → α → Option σ} {P : σ → Prop}
    (hstep : ∀ s a t, P s → step s a = some t → P t)
    {s t : σ} (h : Reaches step s t) (hs : P s) : P t := by
  induction h with
  | refl => exact hs
  | tail _ hnext ih =>
      obtain ⟨a, ha⟩ := hnext
      exact hstep _ a _ ih ha

/-- The system that only takes the actions `ok` allows. -/
def restrict (ok : σ → α → Bool) (step : σ → α → Option σ) (s : σ) (a : α) : Option σ :=
  if ok s a then step s a else none

theorem restrict_eq_some {ok : σ → α → Bool} {step : σ → α → Option σ} {s t : σ} {a : α} :
    restrict ok step s a = some t ↔ ok s a = true ∧ step s a = some t := by
  rw [restrict]
  by_cases h : ok s a = true
  · simp [h]
  · simp [h]

/-- The state a list of actions leads to, `none` when one of them is not
possible. -/
def run (step : σ → α → Option σ) : σ → List α → Option σ
  | s, [] => some s
  | s, a :: as => (step s a).bind fun t => run step t as

@[simp] theorem run_nil (step : σ → α → Option σ) (s : σ) :
    run step s [] = some s := rfl

theorem run_cons (step : σ → α → Option σ) (s : σ) (a : α) (as : List α) :
    run step s (a :: as) = (step s a).bind fun t => run step t as := rfl

/-- A list of actions that can be executed reaches the state it leads to. -/
theorem Reaches.of_run {step : σ → α → Option σ} {s t : σ} {as : List α}
    (h : run step s as = some t) : Reaches step s t := by
  induction as generalizing s with
  | nil =>
      rw [run_nil, Option.some.injEq] at h
      exact h ▸ Reaches.refl step s
  | cons a as ih =>
      rw [run_cons, Option.bind_eq_some_iff] at h
      obtain ⟨u, hu, hrest⟩ := h
      exact Reaches.head hu (ih hrest)

end Transition
