import Mathlib.Data.List.Perm.Basic
import Mathlib.Order.Lattice

/-!
# Stable rearrangements of a list

`Rearranges key l l'`: `l'` has the elements of `l`, and those with the same key
come in the same order. Exchanging two neighbours with different keys is such a
step, so every sort made of such exchanges is stable. `Descending` is the order
a sort arrives at, the greatest key first; its head is then the first element of
the original list with the greatest key (`Rearranges.find_head`).
-/

namespace StableOrder

variable {α κ : Type*} [LinearOrder κ] {key : α → κ} {l l' l'' : List α} {a b : α}

/-- The same elements, those with the same key in the same order. -/
structure Rearranges (key : α → κ) (l l' : List α) : Prop where
  perm : l'.Perm l
  stable : ∀ k, l'.filter (fun a => key a = k) = l.filter (fun a => key a = k)

/-- No key is smaller than a later one. -/
def Descending (key : α → κ) (l : List α) : Prop :=
  l.Pairwise fun a b => key b ≤ key a

theorem Rearranges.refl (key : α → κ) (l : List α) : Rearranges key l l :=
  ⟨List.Perm.refl l, fun _ => rfl⟩

theorem Rearranges.trans (h : Rearranges key l l') (h' : Rearranges key l' l'') :
    Rearranges key l l'' :=
  ⟨h'.perm.trans h.perm, fun k => (h'.stable k).trans (h.stable k)⟩

theorem Rearranges.cons (a : α) (h : Rearranges key l l') :
    Rearranges key (a :: l) (a :: l') := by
  refine ⟨h.perm.cons a, fun k => ?_⟩
  rw [List.filter_cons, List.filter_cons, h.stable k]

/-- Behind what is rearranged nothing changes. -/
theorem Rearranges.append (h : Rearranges key l l') (r : List α) :
    Rearranges key (l ++ r) (l' ++ r) := by
  refine ⟨h.perm.append_right r, fun k => ?_⟩
  rw [List.filter_append, List.filter_append, h.stable k]

/-- Two neighbours with different keys change places. -/
theorem Rearranges.swap (h : key a ≠ key b) (l : List α) :
    Rearranges key (a :: b :: l) (b :: a :: l) := by
  refine ⟨List.Perm.swap a b l, fun k => ?_⟩
  by_cases ha : key a = k
  · have hb : key b ≠ k := fun hb => h (ha.trans hb.symm)
    simp [ha, hb]
  · simp [List.filter_cons, ha]

/-- Where all keys are equal nothing is moved. -/
theorem Rearranges.eq_of_const {k : κ} (h : Rearranges key l l') (hl : ∀ a ∈ l, key a = k) :
    l' = l := by
  have hall (m : List α) (hm : ∀ a ∈ m, key a = k) : m.filter (fun a => key a = k) = m :=
    List.filter_eq_self.2 fun a ha => by simpa using hm a ha
  rw [← hall l hl, ← h.stable k, hall l']
  exact fun a ha => hl a (h.perm.mem_iff.1 ha)

/-- The first of the greatest elements comes first. -/
theorem Rearranges.find_head (h : Rearranges key l (a :: l')) (hd : Descending key (a :: l')) :
    (∀ b ∈ l, key b ≤ key a) ∧ l.find? (fun b => key b = key a) = some a := by
  constructor
  · intro b hb
    rcases List.mem_cons.1 (h.perm.mem_iff.2 hb) with rfl | hb
    · exact le_refl _
    · exact (List.pairwise_cons.1 hd).1 b hb
  · rw [← List.head?_filter, ← h.stable (key a)]
    simp

end StableOrder
