import Mathlib.Data.List.Basic
import Mathlib.Data.List.Range

/-!
# Slices of a byte buffer

A buffer is a function from offsets to cells. `store m off bs` is the buffer
after the cells of `bs` were copied to the offsets from `off` on, and
`slice m off len` lists the `len` cells from `off` on. The lemmas say how a
slice splits and what a store does to the slices around it.
-/

namespace Memory

variable {β : Type*}

/-- The buffer `m` with `bs` copied to the offsets from `off` on. -/
def store (m : ℕ → β) (off : ℕ) (bs : List β) : ℕ → β :=
  fun i => if off ≤ i then (bs[i - off]?).getD (m i) else m i

/-- The `len` cells of `m` from the offset `off` on. -/
def slice (m : ℕ → β) (off len : ℕ) : List β :=
  (List.range len).map fun i => m (off + i)

@[simp] theorem length_slice (m : ℕ → β) (off len : ℕ) :
    (slice m off len).length = len := by
  simp [slice]

@[simp] theorem slice_zero (m : ℕ → β) (off : ℕ) : slice m off 0 = [] := rfl

/-- A slice is its first part followed by the rest. -/
theorem slice_add (m : ℕ → β) (off a b : ℕ) :
    slice m off (a + b) = slice m off a ++ slice m (off + a) b := by
  simp [slice, List.range_add, Function.comp_def, Nat.add_assoc]

/-- A slice splits at any point of it. -/
theorem slice_split (m : ℕ → β) (off : ℕ) {a len : ℕ} (h : a ≤ len) :
    slice m off len = slice m off a ++ slice m (off + a) (len - a) := by
  rw [← slice_add, Nat.add_sub_cancel' h]

theorem take_slice (m : ℕ → β) (off len k : ℕ) :
    (slice m off len).take k = slice m off (min k len) := by
  simp [slice, ← List.map_take, List.take_range]

/-- Dropping the first `k` cells of a slice moves its start by `k`. -/
theorem drop_slice (m : ℕ → β) (off len k : ℕ) :
    (slice m off len).drop k = slice m (off + k) (len - k) := by
  apply List.ext_getElem
  · simp
  · intro i h₁ h₂
    simp [slice, Nat.add_assoc]

/-- What was stored is what a slice at that place reads. -/
theorem slice_store_self (m : ℕ → β) (off : ℕ) (bs : List β) :
    slice (store m off bs) off bs.length = bs := by
  apply List.ext_getElem
  · simp
  · intro i h₁ h₂
    simp [slice, store, h₂]

/-- A store leaves the slices below it alone. -/
theorem slice_store_below (m : ℕ → β) {off start len : ℕ} (bs : List β)
    (h : start + len ≤ off) :
    slice (store m off bs) start len = slice m start len := by
  apply List.ext_getElem
  · simp
  · intro i h₁ h₂
    have hi : i < len := by simpa using h₁
    have hlt : ¬ off ≤ start + i := by omega
    simp [slice, store, hlt]

/-- A store that continues a filled prefix extends it by what was stored. -/
theorem slice_store_extend (m : ℕ → β) (len : ℕ) (bs : List β) :
    slice (store m len bs) 0 (len + bs.length) = slice m 0 len ++ bs := by
  rw [slice_add, slice_store_below m bs (by simp)]
  simp [slice_store_self]

end Memory
