import Mathlib.Data.List.Basic
import Mathlib.Data.List.Nodup
import Mathlib.Data.List.DropRight
import Mathlib.Data.List.Infix
import Mathlib.Logic.Function.Basic

/-!
# Directory trees

A finite tree of directories and files. A path lists the names from the root
on; the root `[]` is a directory, and whatever exists lies in a directory. The
operations `put`, `remove` and `move` change nothing where they are not
possible, so every value is a tree. Each has one lemma that says what is at a
path afterwards.
-/

namespace DirTree

variable {ν δ : Type}

/-- What is at a path. -/
inductive Entry (δ : Type)
  | file (data : δ)
  | dir
  deriving DecidableEq

/-- A finite directory tree: `keys` lists the paths something is at. -/
structure Tree (ν δ : Type) where
  get : List ν → Option (Entry δ)
  keys : List (List ν)
  nodup : keys.Nodup
  mem_keys : ∀ p, p ∈ keys ↔ (get p).isSome
  root : get [] = some .dir
  closed : ∀ p n, (get (p ++ [n])).isSome → get p = some .dir

namespace Tree

/-- The tree with nothing but its root. -/
def empty : Tree ν δ where
  get := fun p => if p = [] then some .dir else none
  keys := [[]]
  nodup := List.nodup_singleton _
  mem_keys := by
    intro p
    by_cases h : p = [] <;> simp [h]
  root := rfl
  closed := by simp

def isDir (t : Tree ν δ) (p : List ν) : Bool :=
  match t.get p with
  | some .dir => true
  | _ => false

theorem isDir_iff {t : Tree ν δ} {p : List ν} : t.isDir p = true ↔ t.get p = some .dir := by
  unfold isDir
  split <;> simp_all

/-- What lies above an entry is a directory. -/
theorem get_of_prefix {t : Tree ν δ} {p r : List ν} (h : (t.get (p ++ r)).isSome) (hr : r ≠ []) :
    t.get p = some .dir := by
  induction r using List.reverseRecOn with
  | nil => contradiction
  | append_singleton r n ih =>
      rw [← List.append_assoc] at h
      have hdir := t.closed _ _ h
      by_cases hr' : r = []
      · simpa [hr'] using hdir
      · exact ih (by rw [hdir]; rfl) hr'

/-- Below an absent path there is nothing. -/
theorem get_none_below {t : Tree ν δ} {p q : List ν} (h : t.get p = none) (hpq : p <+: q) :
    t.get q = none := by
  obtain ⟨r, rfl⟩ := hpq
  by_cases hr : r = []
  · rwa [hr, List.append_nil]
  · by_contra hne
    have hdir := get_of_prefix (Option.ne_none_iff_isSome.1 hne) hr
    rw [h] at hdir
    cases hdir

/-- Below what is not a directory there is nothing. -/
theorem get_none_below_file {t : Tree ν δ} {p r : List ν} (h : t.isDir p = false)
    (hr : r ≠ []) : t.get (p ++ r) = none := by
  by_contra hne
  have hdir := get_of_prefix (Option.ne_none_iff_isSome.1 hne) hr
  rw [isDir_iff.2 hdir] at h
  cases h

/-- A tree is only so deep. -/
theorem exists_length_lt (t : Tree ν δ) : ∃ n, ∀ p, (t.get p).isSome → p.length < n := by
  refine ⟨(t.keys.map List.length).max?.getD 0 + 1, fun p hp => Nat.lt_succ_of_le ?_⟩
  exact List.le_max?_getD_of_mem (List.mem_map_of_mem ((t.mem_keys p).2 hp))

variable [DecidableEq ν]

/-- The names in a directory. -/
def children (t : Tree ν δ) (p : List ν) : List ν :=
  t.keys.filterMap fun q => if q.dropLast = p then q.getLast? else none

theorem mem_children {t : Tree ν δ} {p : List ν} {n : ν} :
    n ∈ t.children p ↔ (t.get (p ++ [n])).isSome := by
  rw [children, List.mem_filterMap, ← t.mem_keys]
  constructor
  · rintro ⟨q, hq, hn⟩
    split at hn
    · next hp =>
        rw [← hp, List.dropLast_append_getLast? n hn]
        exact hq
    · cases hn
  · intro h
    exact ⟨_, h, by simp⟩

/-- Where an entry that is not a directory can be put: in a directory, not over
a directory. -/
def CanPut (t : Tree ν δ) (p : List ν) : Prop :=
  p ≠ [] ∧ t.isDir p.dropLast = true ∧ t.isDir p = false

instance (t : Tree ν δ) (p : List ν) : Decidable (t.CanPut p) :=
  inferInstanceAs (Decidable (_ ∧ _))

/-- What can be removed: anything but the root, with nothing in it. -/
def CanRemove (t : Tree ν δ) (p : List ν) : Prop :=
  p ≠ [] ∧ (t.get p).isSome ∧ t.children p = []

instance (t : Tree ν δ) (p : List ν) : Decidable (t.CanRemove p) :=
  inferInstanceAs (Decidable (_ ∧ _))

/-- What can be moved where: to an absent path in a directory that does not lie
in what is moved. -/
def CanMove (t : Tree ν δ) (src dst : List ν) : Prop :=
  src ≠ [] ∧ (t.get src).isSome ∧ dst ≠ [] ∧ t.isDir dst.dropLast = true ∧
    t.get dst = none ∧ ¬ src <+: dst

instance (t : Tree ν δ) (src dst : List ν) : Decidable (t.CanMove src dst) :=
  inferInstanceAs (Decidable (_ ∧ _))

theorem children_eq_nil_iff {t : Tree ν δ} {p : List ν} :
    t.children p = [] ↔ ∀ r, r ≠ [] → t.get (p ++ r) = none := by
  constructor
  · intro h r hr
    cases r with
    | nil => contradiction
    | cons n r =>
        have hn : t.get (p ++ [n]) = none := by
          by_contra hne
          have := mem_children.2 (Option.ne_none_iff_isSome.1 hne)
          simp [h] at this
        exact get_none_below hn ⟨r, by simp⟩
  · intro h
    rw [List.eq_nil_iff_forall_not_mem]
    intro n hn
    have hsome := mem_children.1 hn
    rw [h [n] (by simp)] at hsome
    cases hsome

/-- Put an entry at `p`, over a file if there is one. -/
def put (t : Tree ν δ) (p : List ν) (e : Entry δ) : Tree ν δ :=
  if h : t.CanPut p then
    { get := Function.update t.get p (some e)
      keys := if p ∈ t.keys then t.keys else p :: t.keys
      nodup := by
        split
        · exact t.nodup
        · next hp => exact List.nodup_cons.2 ⟨hp, t.nodup⟩
      mem_keys := by
        intro q
        by_cases hq : q = p
        · subst hq
          split <;> simp_all
        · split <;> simp [hq, t.mem_keys]
      root := by
        rw [Function.update_of_ne (Ne.symm h.1)]
        exact t.root
      closed := by
        intro q n hq
        obtain ⟨hne, hparent, hnodir⟩ := h
        by_cases hqn : q ++ [n] = p
        · subst hqn
          rw [List.dropLast_concat] at hparent
          rw [Function.update_of_ne (by simp)]
          exact isDir_iff.1 hparent
        · rw [Function.update_of_ne hqn] at hq
          have hdir := t.closed q n hq
          rw [Function.update_of_ne]
          · exact hdir
          · rintro rfl
            rw [isDir_iff.2 hdir] at hnodir
            cases hnodir }
  else t

/-- Remove what is at `p`. -/
def remove (t : Tree ν δ) (p : List ν) : Tree ν δ :=
  if h : t.CanRemove p then
    { get := Function.update t.get p none
      keys := t.keys.erase p
      nodup := t.nodup.erase p
      mem_keys := by
        intro q
        rw [t.nodup.mem_erase_iff, t.mem_keys]
        by_cases hq : q = p <;> simp [hq]
      root := by
        rw [Function.update_of_ne (Ne.symm h.1)]
        exact t.root
      closed := by
        intro q n hq
        have hqn : q ++ [n] ≠ p := by
          rintro rfl
          simp at hq
        rw [Function.update_of_ne hqn] at hq
        rw [Function.update_of_ne]
        · exact t.closed q n hq
        · rintro rfl
          rw [children_eq_nil_iff.1 h.2.2 [n] (by simp)] at hq
          cases hq }
  else t

/-- Where `move src dst` takes the path `p`. -/
def rekey (src dst p : List ν) : List ν :=
  if src <+: p then dst ++ p.drop src.length else p

theorem rekey_append (src dst r : List ν) : rekey src dst (src ++ r) = dst ++ r := by
  simp [rekey]

theorem rekey_elsewhere {src dst p : List ν} (h : ¬ src <+: p) : rekey src dst p = p := by
  simp [rekey, h]

/-- Two paths of a tree are not moved to the same place. -/
theorem rekey_inj {t : Tree ν δ} {src dst p q : List ν} (hdst : t.get dst = none)
    (hp : (t.get p).isSome) (hq : (t.get q).isSome) (h : rekey src dst p = rekey src dst q) :
    p = q := by
  have hnot (r : List ν) (x : List ν) (hx : (t.get x).isSome) : dst ++ r ≠ x := by
    rintro rfl
    rw [get_none_below hdst ⟨r, rfl⟩] at hx
    cases hx
  by_cases hsp : src <+: p <;> by_cases hsq : src <+: q
  · obtain ⟨r, rfl⟩ := hsp
    obtain ⟨r', rfl⟩ := hsq
    rw [rekey_append, rekey_append] at h
    rw [List.append_cancel_left h]
  · obtain ⟨r, rfl⟩ := hsp
    rw [rekey_append, rekey_elsewhere hsq] at h
    exact absurd h (hnot r q hq)
  · obtain ⟨r, rfl⟩ := hsq
    rw [rekey_append, rekey_elsewhere hsp] at h
    exact absurd h.symm (hnot r p hp)
  · rwa [rekey_elsewhere hsp, rekey_elsewhere hsq] at h

/-- Move what is at `src`, with everything in it, to `dst`. -/
def move (t : Tree ν δ) (src dst : List ν) : Tree ν δ :=
  if h : t.CanMove src dst then
    { get := fun p =>
        if dst <+: p then t.get (src ++ p.drop dst.length)
        else if src <+: p then none
        else t.get p
      keys := t.keys.map (rekey src dst)
      nodup := by
        apply List.Nodup.map_on _ t.nodup
        intro p hp q hq heq
        exact rekey_inj h.2.2.2.2.1 ((t.mem_keys p).1 hp) ((t.mem_keys q).1 hq) heq
      mem_keys := by
        intro p
        rw [List.mem_map]
        constructor
        · rintro ⟨q, hq, rfl⟩
          rw [t.mem_keys] at hq
          by_cases hs : src <+: q
          · obtain ⟨r, rfl⟩ := hs
            rw [rekey_append]
            simpa using hq
          · have hd : ¬ dst <+: q := by
              intro hd
              rw [get_none_below h.2.2.2.2.1 hd] at hq
              cases hq
            rw [rekey_elsewhere hs, if_neg hd, if_neg hs]
            exact hq
        · intro hp
          split at hp
          · next hd =>
              obtain ⟨r, rfl⟩ := hd
              rw [List.drop_left, ← t.mem_keys] at hp
              exact ⟨_, hp, rekey_append src dst r⟩
          · split at hp
            · cases hp
            · next hs => exact ⟨p, (t.mem_keys p).2 hp, rekey_elsewhere hs⟩
      root := by
        rw [if_neg, if_neg]
        · exact t.root
        · exact fun hs => h.1 (List.prefix_nil.1 hs)
        · exact fun hd => h.2.2.1 (List.prefix_nil.1 hd)
      closed := by
        intro p n hp
        obtain ⟨-, -, -, hparent, hnone, hsrc⟩ := h
        by_cases hd : dst <+: p
        · obtain ⟨r, rfl⟩ := hd
          rw [if_pos (by simp), List.append_assoc, List.drop_left, ← List.append_assoc] at hp
          rw [if_pos (by simp), List.drop_left]
          exact t.closed _ n hp
        · by_cases hdn : dst <+: p ++ [n]
          · obtain rfl : dst = p ++ [n] := by
              rcases List.prefix_concat_iff.1 hdn with h | h
              · exact h
              · exact absurd h hd
            have hs : ¬ src <+: p := fun hs => hsrc (hs.trans (List.prefix_append p [n]))
            rw [List.dropLast_concat] at hparent
            rw [if_neg hd, if_neg hs]
            exact isDir_iff.1 hparent
          · rw [if_neg hdn] at hp
            split at hp
            · cases hp
            · next hsn =>
                have hs : ¬ src <+: p := fun hs => hsn (hs.trans (List.prefix_append p [n]))
                rw [if_neg hd, if_neg hs]
                exact t.closed p n hp }
  else t

/-- What is where after `put`. -/
theorem get_put {t : Tree ν δ} {p : List ν} (e : Entry δ) (h : t.CanPut p) (q : List ν) :
    (t.put p e).get q = if q = p then some e else t.get q := by
  rw [put, dif_pos h]
  exact Function.update_apply _ _ _ _

theorem get_put_of_ne {t : Tree ν δ} {p q : List ν} (e : Entry δ) (h : q ≠ p) :
    (t.put p e).get q = t.get q := by
  by_cases hp : t.CanPut p
  · rw [get_put e hp, if_neg h]
  · rw [put, dif_neg hp]

/-- What is where after `remove`. -/
theorem get_remove {t : Tree ν δ} {p : List ν} (h : t.CanRemove p) (q : List ν) :
    (t.remove p).get q = if q = p then none else t.get q := by
  rw [remove, dif_pos h]
  exact Function.update_apply _ _ _ _

theorem get_remove_of_ne {t : Tree ν δ} {p q : List ν} (h : q ≠ p) :
    (t.remove p).get q = t.get q := by
  by_cases hp : t.CanRemove p
  · rw [get_remove hp, if_neg h]
  · rw [remove, dif_neg hp]

/-- Below what can be removed there is nothing. -/
theorem get_remove_all {t : Tree ν δ} {p : List ν} (h : t.CanRemove p) (q : List ν) :
    (t.remove p).get q = if p <+: q then none else t.get q := by
  rw [get_remove h]
  by_cases hq : p <+: q
  · obtain ⟨r, rfl⟩ := hq
    by_cases hr : r = [] <;> simp [hr, children_eq_nil_iff.1 h.2.2]
  · rw [if_neg hq, if_neg]
    rintro rfl
    exact hq (List.prefix_refl q)

/-- What is no directory can be removed, if it is there. -/
theorem get_remove_file {t : Tree ν δ} {p : List ν} (h : t.isDir p = false) (q : List ν) :
    (t.remove p).get q = if p <+: q then none else t.get q := by
  have hbelow (r : List ν) (hr : r ≠ []) : t.get (p ++ r) = none := get_none_below_file h hr
  by_cases hp : t.CanRemove p
  · exact get_remove_all hp q
  · have hnone : t.get p = none := by
      by_contra hsome
      rw [← ne_eq, Option.ne_none_iff_isSome] at hsome
      refine hp ⟨?_, hsome, children_eq_nil_iff.2 hbelow⟩
      rintro rfl
      rw [isDir_iff.2 t.root] at h
      cases h
    rw [remove, dif_neg hp]
    split
    · next hq => exact get_none_below hnone hq
    · rfl

/-- What is where after `move`. -/
theorem get_move {t : Tree ν δ} {src dst : List ν} (h : t.CanMove src dst) (q : List ν) :
    (t.move src dst).get q = if dst <+: q then t.get (src ++ q.drop dst.length)
      else if src <+: q then none else t.get q := by
  rw [move, dif_pos h]

theorem get_move_elsewhere {t : Tree ν δ} {src dst q : List ν} (hs : ¬ src <+: q)
    (hd : ¬ dst <+: q) : (t.move src dst).get q = t.get q := by
  by_cases h : t.CanMove src dst
  · rw [get_move h, if_neg hd, if_neg hs]
  · rw [move, dif_neg h]

/-- What is moved is found where it was moved to. -/
theorem get_move_append {t : Tree ν δ} {src dst : List ν} (h : t.CanMove src dst)
    (r : List ν) : (t.move src dst).get (dst ++ r) = t.get (src ++ r) := by
  rw [get_move h, if_pos (List.prefix_append dst r), List.drop_left]

omit [DecidableEq ν] in
/-- What is moved and where it is moved to lie apart. -/
theorem apart_of_canMove {t : Tree ν δ} {src dst p : List ν} (h : t.CanMove src dst)
    (hp : src <+: p) : ¬ dst <+: p := by
  obtain ⟨-, hsome, -, -, hnone, hsrc⟩ := h
  intro hdst
  rcases List.prefix_or_prefix_of_prefix hdst hp with hpre | hpre
  · rw [get_none_below hnone hpre] at hsome
    cases hsome
  · exact hsrc hpre

omit [DecidableEq ν] in
/-- A file can be put anew. -/
theorem canPut_of_file {t : Tree ν δ} {p : List ν} {data : δ} (h : t.get p = some (.file data)) :
    t.CanPut p := by
  have hne : p ≠ [] := by
    rintro rfl
    rw [t.root] at h
    cases h
  have hparent : t.get p.dropLast = some .dir := by
    apply t.closed _ (p.getLast hne)
    rw [List.dropLast_append_getLast, h]
    rfl
  refine ⟨hne, isDir_iff.2 hparent, ?_⟩
  rw [isDir, h]

end Tree

end DirTree
