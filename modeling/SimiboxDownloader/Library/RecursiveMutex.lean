import Mathlib.Data.Int.Basic

/-!
# Recursive mutexes

A recursive mutex is free, or one task holds it and has taken it a number of times.
The holder may take it again, everybody else has to wait until it has given it back
as often.
-/

namespace RecursiveMutex

variable {τ : Type*} [DecidableEq τ]

/-- `none` when the mutex is free, else the holder and how often it has taken it again. -/
abbrev Mutex (τ : Type*) := Option (τ × ℕ)

/-- `none` when `t` has to wait. -/
def take (m : Mutex τ) (t : τ) : Option (Mutex τ) :=
  match m with
  | none => some (some (t, 0))
  | some (u, n) => if u = t then some (some (t, n + 1)) else none

/-- `none` when `t` is not the holder. -/
def give (m : Mutex τ) (t : τ) : Option (Mutex τ) :=
  match m with
  | none => none
  | some (u, 0) => if u = t then some none else none
  | some (u, n + 1) => if u = t then some (some (t, n)) else none

/-- How often `t` has taken the mutex without giving it back. -/
def count (m : Mutex τ) (t : τ) : ℕ :=
  match m with
  | none => 0
  | some (u, n) => if u = t then n + 1 else 0

@[simp] theorem count_none (t : τ) : count (none : Mutex τ) t = 0 := rfl

theorem count_some (u : τ) (n : ℕ) (t : τ) :
    count (some (u, n)) t = if u = t then n + 1 else 0 := rfl

/-- Only one task holds the mutex. -/
theorem count_eq_zero {m : Mutex τ} {t u : τ} (h : 0 < count m t) (hne : u ≠ t) :
    count m u = 0 := by
  cases m with
  | none => rfl
  | some x =>
      obtain ⟨v, n⟩ := x
      rw [count_some] at h ⊢
      by_cases hv : v = t
      · rw [if_neg]
        rintro rfl
        exact hne hv
      · rw [if_neg hv] at h
        exact absurd h (Nat.lt_irrefl 0)

/-- A take counts for the task that takes, and no other task holds the mutex then. -/
theorem count_take {m m' : Mutex τ} {t : τ} (h : take m t = some m') :
    count m' t = count m t + 1 ∧ ∀ u, u ≠ t → count m u = 0 ∧ count m' u = 0 := by
  cases m with
  | none =>
      cases h
      refine ⟨by simp [count_some], fun u hu => ⟨rfl, ?_⟩⟩
      rw [count_some, if_neg (Ne.symm hu)]
  | some x =>
      obtain ⟨v, n⟩ := x
      unfold take at h
      dsimp only at h
      split at h
      · next hv =>
          cases h
          subst hv
          refine ⟨by simp [count_some], fun u hu => ?_⟩
          rw [count_some, count_some, if_neg (Ne.symm hu)]
          exact ⟨rfl, if_neg (Ne.symm hu)⟩
      · cases h

/-- A give counts for the task that gives. -/
theorem count_give {m m' : Mutex τ} {t : τ} (h : give m t = some m') :
    count m t = count m' t + 1 ∧ ∀ u, u ≠ t → count m' u = count m u := by
  unfold give at h
  split at h
  · cases h
  · next v =>
      split at h
      · next hv =>
          cases h
          subst hv
          refine ⟨by simp [count_some], fun u hu => ?_⟩
          rw [count_some, if_neg (Ne.symm hu), count_none]
      · cases h
  · next v n =>
      split at h
      · next hv =>
          cases h
          subst hv
          refine ⟨by simp [count_some], fun u hu => ?_⟩
          rw [count_some, count_some, if_neg (Ne.symm hu), if_neg (Ne.symm hu)]
      · cases h

/-- A task takes a mutex that no other task holds. -/
theorem exists_take {m : Mutex τ} {t : τ} (h : ∀ u, u ≠ t → count m u = 0) :
    ∃ m', take m t = some m' := by
  cases m with
  | none => exact ⟨_, rfl⟩
  | some x =>
      obtain ⟨v, n⟩ := x
      by_cases hv : v = t
      · exact ⟨_, if_pos hv⟩
      · have hcount := h v hv
        rw [count_some, if_pos rfl] at hcount
        exact absurd hcount (Nat.succ_ne_zero n)

/-- A task gives back a mutex it holds. -/
theorem exists_give {m : Mutex τ} {t : τ} (h : 0 < count m t) : ∃ m', give m t = some m' := by
  cases m with
  | none => exact absurd h (Nat.lt_irrefl 0)
  | some x =>
      obtain ⟨v, n⟩ := x
      have hv : v = t := by
        by_contra hv
        rw [count_some, if_neg hv] at h
        exact absurd h (Nat.lt_irrefl 0)
      cases n with
      | zero => exact ⟨_, if_pos hv⟩
      | succ n => exact ⟨_, if_pos hv⟩

end RecursiveMutex
