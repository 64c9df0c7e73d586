import SimiboxDownloader.Library.Transition
import Mathlib.Algebra.Order.Group.Nat

/-!
# Amortized bounds on runs

The actions of a system bring in work, and every step does some of it. When the work that
is left is bounded by a potential, the length of a run is bounded by what its actions
have brought in, whatever their order.
-/

namespace Transition

variable {σ α : Type*}

/-- What the actions bring in. -/
def income (cost : α → ℕ) : List α → ℕ
  | [] => 0
  | a :: as => cost a + income cost as

@[simp] theorem income_nil (cost : α → ℕ) : income cost [] = 0 := rfl

@[simp] theorem income_cons (cost : α → ℕ) (a : α) (as : List α) :
    income cost (a :: as) = cost a + income cost as := rfl

/-- Every step from a state of `P` pays for itself: it does at least one unit of the work
that was left or that its action brings in. -/
def Pays (step : σ → α → Option σ) (P : σ → Prop) (potential : σ → ℕ) (cost : α → ℕ) : Prop :=
  ∀ s a t, P s → step s a = some t → potential t + 1 ≤ potential s + cost a

variable {step : σ → α → Option σ} {P : σ → Prop} {potential : σ → ℕ} {cost : α → ℕ}

/-- The length of a run is bounded by the work there is. -/
theorem Pays.length_le (h : Pays step P potential cost)
    (hkeeps : ∀ s a t, P s → step s a = some t → P t) {s t : σ} {as : List α} (hs : P s)
    (hrun : run step s as = some t) : as.length + potential t ≤ potential s + income cost as := by
  induction as generalizing s with
  | nil =>
      rw [run_nil, Option.some.injEq] at hrun
      rw [hrun, List.length_nil, Nat.zero_add]
      exact Nat.le_refl _
  | cons a as ih =>
      rw [run_cons, Option.bind_eq_some_iff] at hrun
      obtain ⟨u, hu, hrest⟩ := hrun
      have hpaid := h s a u hs hu
      have hbound := ih (hkeeps s a u hs hu) hrest
      rw [income_cons, List.length_cons]
      omega

end Transition
