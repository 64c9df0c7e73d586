import SimiboxDownloader.Card.Writing
import SimiboxDownloader.Download.Confinement
import SimiboxDownloader.Download.Verify

/-!
# The phases of an installation

`/sdcard/<folder>` and `/sdcard/<folder>.tmp` lie side by side (`resolve_dirs`).
A download clears the second, fills it, verifies it, clears the first and moves
the second to its place, where it writes the marker. `Phases` states what is to
be shown of each of these steps for a property of the card to hold throughout:
one condition for each kind of change, on directory trees. `download_phases` is
the rule.
-/

namespace SimiboxDownloader

namespace Download

open Interaction DirTree

section Dirs

/-- A folder name to which `".tmp"` can be appended. -/
def FolderName (folder : Str) : Prop :=
  folder ≠ [] ∧ ¬ ['/'] <:+ folder

instance (folder : Str) : Decidable (FolderName folder) :=
  inferInstanceAs (Decidable (_ ∧ _))

theorem mount_finalDir (folder : Str) : mountPrefix <+: finalDir folder :=
  List.prefix_append _ _

theorem mount_tmpDir (folder : Str) : mountPrefix <+: tmpDir folder :=
  (mount_finalDir folder).trans (List.prefix_append _ _)

theorem resolve_finalDir (folder : Str) : resolve (finalDir folder) = rel folder := by
  rw [resolve, if_pos (mount_finalDir folder), finalDir, List.drop_left]

theorem resolve_tmpDir (folder : Str) :
    resolve (tmpDir folder) = rel (folder ++ ".tmp".toList) := by
  rw [resolve, if_pos (mount_tmpDir folder), tmpDir, finalDir, List.append_assoc, List.drop_left]

/-- The two directories are neighbours. -/
theorem resolve_dirs {folder : Str} (h : FolderName folder) {p : List Name}
    (hp : resolve (finalDir folder) = some p) :
    ∃ d n m, p = d ++ [n] ∧ resolve (tmpDir folder) = some (d ++ [m]) ∧ n ≠ m := by
  obtain ⟨d, last, hlast, hempty, hrel, hrelTmp⟩ :=
    @rel_append folder ".tmp".toList (by decide) (by decide)
  have hne : last ≠ [] := fun hnil => (hempty.1 hnil).elim h.1 h.2
  rw [resolve_finalDir, hrel, rel_of_notMem hlast hne] at hp
  obtain ⟨d, rfl, hlastName⟩ := Option.bind_eq_some_iff.1 hp
  rw [Option.map_map, Option.map_eq_some_iff] at hlastName
  obtain ⟨n, hn, rfl⟩ := hlastName
  have hplain : Plain (last ++ ".tmp".toList) := by
    refine ⟨by simp, by simp [hlast], ?_, ?_⟩ <;>
      · intro heq
        have hlen := congrArg List.length heq
        simp at hlen
  have hname : toName (last ++ ".tmp".toList) = some ⟨_, hplain⟩ := toName_eq_some.2 rfl
  refine ⟨d, n, ⟨_, hplain⟩, rfl, ?_, ?_⟩
  · rw [resolve_tmpDir, hrelTmp, Option.bind_some, hname]
    rfl
  · intro heq
    have hval := congrArg Name.val heq
    rw [← toName_eq_some.1 hn] at hval
    simp at hval

theorem not_prefix_of_neighbours {ν : Type} {d : List ν} {n m : ν} (h : n ≠ m) :
    ¬ d ++ [n] <+: d ++ [m] := by
  rw [List.prefix_append_right_inj]
  intro hpre
  exact h (List.cons_prefix_cons.1 hpre).1

theorem apart_of_neighbours {ν : Type} {d x : List ν} {n m : ν} (h : n ≠ m)
    (hx : d ++ [n] <+: x) : ¬ d ++ [m] <+: x := by
  intro hx'
  apply not_prefix_of_neighbours h
  exact List.prefix_of_prefix_length_le hx hx' (by simp)

/-- The name of the marker. -/
def okName : Name := ⟨okMarker, by decide⟩

theorem resolve_marker {folder : Str} {p : List Name} (hp : resolve (finalDir folder) = some p) :
    resolve (sub (finalDir folder) okMarker) = some (p ++ [okName]) := by
  rw [resolve_sub (mount_finalDir folder), hp, Option.bind_some]
  have hrel : rel okMarker = some [okName] := rel_name okName
  rw [hrel]
  rfl

end Dirs

section Steps

variable {d q : List Name} {s t : World} {o : Call} {r : o.Reply}

/-- In `d`, as a path of a call. -/
def Below (d : List Name) (path : Str) : Prop :=
  mountPrefix <+: path ∧ ∀ p, resolve path = some p → d <+: p

theorem below_self {path : Str} (hm : mountPrefix <+: path) (h : resolve path = some d) :
    Below d path := by
  refine ⟨hm, fun p hp => ?_⟩
  rw [h] at hp
  cases hp
  exact List.prefix_refl d

theorem Below.mono {path : Str} {q : List Name} (h : Below d path) (hqd : q <+: d) : Below q path :=
  ⟨h.1, fun p hp => hqd.trans (h.2 p hp)⟩

theorem Below.sub {dir : Str} (h : Below d dir) (name : Str) : Below d (sub dir name) := by
  refine ⟨h.1.trans (List.prefix_append _ _), fun p hp => ?_⟩
  obtain ⟨p', q, hp', -, rfl⟩ := (resolve_sub_eq_some h.1).1 hp
  exact (h.2 p' hp').trans (List.prefix_append _ _)

/-- In `d`, but not `d` itself. -/
def Within (d x : List Name) : Prop :=
  d <+: x ∧ x ≠ d

theorem Within.append {x : List Name} (r : List Name) (h : Within d x) : Within d (x ++ r) := by
  obtain ⟨⟨y, rfl⟩, hne⟩ := h
  refine ⟨?_, ?_⟩
  · rw [List.append_assoc]
    exact List.prefix_append d _
  · intro heq
    rw [List.append_assoc] at heq
    have hnil := List.append_right_eq_self.1 heq
    rw [List.append_eq_nil_iff] at hnil
    exact hne (by rw [hnil.1, List.append_nil])

/-- What the path of a `.part` file resolves to lies within the directory. -/
theorem within_part {dir name : Str} {p : List Name} (hm : mountPrefix <+: dir)
    (hd : resolve dir = some d) (h : resolve (part (sub dir name)) = some p) : Within d p := by
  rw [part_sub] at h
  obtain ⟨p', x, hp', hx, rfl⟩ := (resolve_sub_eq_some hm).1 h
  rw [hd] at hp'
  cases hp'
  refine ⟨List.prefix_append _ _, ?_⟩
  intro heq
  have hnil : x = [] := List.append_right_eq_self.1 heq
  obtain ⟨d', last, hlast, -, -, hrel⟩ :=
    @rel_append name ".part".toList (by decide) (by decide)
  rw [hnil, part, hrel] at hx
  obtain ⟨d', rfl, hlastName⟩ := Option.bind_eq_some_iff.1 hx
  obtain ⟨n, -, hn⟩ := Option.map_eq_some_iff.1 hlastName
  simp at hn

/-- The path an `unlink` or `rmdir` has removed. -/
def removed : Event → Option Str
  | ⟨_, .fs (.unlink path), r, _⟩ => if r then some path else none
  | ⟨_, .fs (.rmdir path), r, _⟩ => if r then some path else none
  | _ => none

/-- The call has removed the entry at `x`. -/
def Removes (e : Event) (x : List Name) : Prop :=
  ∃ path, removed e = some path ∧ resolve path = some x

/-- The calls of `delete_tree` on `d`. -/
def Clears (d : List Name) : Call → Prop
  | .fs (.stat _) => True
  | .fs (.opendir _) => True
  | .fs (.unlink path) => Below d path
  | .fs (.rmdir path) => Below d path
  | .diverge => True
  | _ => False

theorem deletesIn_clears (d : List Name) : DeletesIn (Clears d) (Below d) where
  sub := fun _ name hdir _ => hdir.sub name
  stat := fun _ _ => trivial
  opendir := fun _ _ => trivial
  unlink := fun _ h => h
  rmdir := fun _ h => h
  diverge := trivial

theorem unlink_cases (path : Str) (w : World) :
    w.unlink path = (false, w) ∨
      ∃ x, resolve path = some x ∧ w.unlink path = (true, { w with card := w.card.remove x }) := by
  unfold World.unlink
  split
  · next x hx =>
      split
      · exact Or.inr ⟨x, hx, rfl⟩
      · exact Or.inl rfl
  · exact Or.inl rfl

/-- A call of `delete_tree` removes one entry, or nothing happens. -/
theorem Clears.step (ho : Clears d o) (hm : machine o s r t) :
    t = s ∨ ∃ x, Removes ⟨s, o, r, t⟩ x ∧ d <+: x ∧ t = { s with card := s.card.remove x } := by
  cases o with
  | fs c =>
      cases c with
      | stat path =>
          rcases hm with hm | ⟨-, rfl⟩
          · exact Or.inl hm.eq
          · exact Or.inl rfl
      | opendir path =>
          rcases hm with ⟨rfl, -⟩ | ⟨rfl, -⟩
          · exact Or.inl rfl
          · exact Or.inl rfl
      | unlink path | rmdir path =>
          rcases hm with hm | ⟨-, rfl⟩
          · have hrt : (r, t) = s.unlink path := hm
            rcases unlink_cases path s with h | ⟨x, hx, h⟩
            · rw [h] at hrt
              exact Or.inl (Prod.mk.inj hrt).2
            · rw [h] at hrt
              obtain ⟨rfl, rfl⟩ := Prod.mk.inj hrt
              exact Or.inr ⟨x, ⟨path, rfl, hx⟩, ho.2 x hx, rfl⟩
          · exact Or.inl rfl
      | _ => exact ho.elim
  | diverge => exact r.elim
  | _ => exact ho.elim

/-- The calls that fill the directory `q`. -/
def Fills (q : List Name) : Call → Prop
  | .fs (.rename src dst) =>
      (∀ p, resolve src = some p → Within q p) ∧ ∀ p, resolve dst = some p → q <+: p
  | o => ∀ path ∈ o.writes, ∀ p, resolve path = some p → Within q p

/-- Filling `q` changes nothing outside of it, nor `q` itself. -/
theorem Fills.step (ho : Fills q o) (hw : s.WritesIn (Within q)) (hq : s.card.get q = some .dir)
    (hm : machine o s r t) :
    t.WritesIn (Within q) ∧ ∀ x, ¬ Within q x → t.card.get x = s.card.get x := by
  have happend (x r : List Name) (h : Within q x) : Within q (x ++ r) := h.append r
  by_cases hsimple : ∀ path ∈ o.writes, ∀ p, resolve path = some p → Within q p
  · exact frame happend hw hsimple hm
  · -- what is left is a `rename` to the directory itself, which exists
    cases o with
    | fs c =>
        cases c with
        | rename src dst =>
            have hsame : t = s := by
              rcases hm with hm | ⟨-, rfl⟩
              · rw [hm.eq]
                simp only [fsDo]
                split
                · next p p' hp hp' =>
                    rw [if_neg]
                    intro hmove
                    have hne : p' ≠ q := by
                      rintro rfl
                      rw [hmove.2.2.2.2.1] at hq
                      cases hq
                    apply hsimple
                    intro path hpath x hx
                    simp only [Call.writes, FsCall.writes, List.mem_cons, List.not_mem_nil,
                      or_false] at hpath
                    rcases hpath with rfl | rfl
                    · exact ho.1 x hx
                    · rw [hp'] at hx
                      cases hx
                      exact ⟨ho.2 _ hp', hne⟩
                · rfl
              · rfl
            rw [hsame]
            exact ⟨hw, fun _ _ => rfl⟩
        | _ => exact absurd ho hsimple
    | _ => exact absurd ho hsimple

theorem fills_of_writes (h : o.writes = []) : Fills q o := by
  have hnone : ∀ path ∈ o.writes, ∀ p, resolve path = some p → Within q p := by
    simp [h]
  cases o with
  | fs c =>
      cases c with
      | rename src dst => cases h
      | _ => exact hnone
  | _ => exact hnone

theorem putsFile_fills {dir name : Str} (hm : mountPrefix <+: dir) (hq : resolve dir = some q) :
    PutsFile (Fills q) (sub dir name) := by
  have hpart (p : List Name) (h : resolve (part (sub dir name)) = some p) : Within q p :=
    within_part hm hq h
  have hone (path : Str) (hpath : path ∈ [part (sub dir name)]) (p : List Name)
      (h : resolve path = some p) : Within q p := by
    rw [List.mem_singleton.1 hpath] at h
    exact hpart p h
  exact ⟨hone, hone, hone, hpart, ((below_self hm hq).sub name).2⟩

end Steps

/-- What is to be shown of the steps of an installation. `p` and `q` are the two
directories. `Before` holds whenever nothing better is known, `Filling` while the
temporary directory is filled, `Deleting` from its verification to the `rename`,
`Swapped` until the marker is open and `Marking` from then on. -/
structure Phases (M : Machine Call Call.Reply World) (J : CJson) (folder : Str)
    (p q : List Name) (Before Filling Deleting Swapped Marking : Tree Name Bytes → Prop) :
    Prop where
  admits : ∀ o s r t, M o s r t → machine o s r t
  clearTmp : ∀ {e x}, M e.op e.before e.reply e.after → Removes e x → q <+: x →
    Before e.before.card → Before (e.before.card.remove x)
  mkdir : ∀ {c}, c.get q = none → c.CanPut q → Before c → Filling (c.put q .dir)
  fill : ∀ {c c'}, (∀ x, ¬ Within q x → c'.get x = c.get x) → Filling c → Filling c'
  giveUp : ∀ {c}, Filling c → Before c
  verified : ∀ {c}, Filling c → verifies J c (tmpDir folder) = true → Deleting c
  clearFinal : ∀ {e x}, M e.op e.before e.reply e.after → Removes e x → p <+: x →
    Deleting e.before.card → Deleting (e.before.card.remove x)
  noSwap : ∀ {c}, Deleting c → Before c
  swap : ∀ {c}, c.CanMove q p → Deleting c → Swapped (c.move q p)
  swapped : ∀ {c}, Swapped c → Before c
  mark : ∀ {s r t}, M (.fs (.fopen (sub (finalDir folder) okMarker) .wb)) s r t →
    (∀ x, x ≠ p ++ [okName] → t.card.get x = s.card.get x) →
    t.card.get (p ++ [okName]) = some (.file []) → Swapped s.card → Marking t.card
  marking : ∀ {c c'}, (∀ x, ¬ Within q x → ¬ p ++ [okName] <+: x → c'.get x = c.get x) →
    Marking c → Marking c'
  marked : ∀ {c}, Marking c → Before c

section Rule

variable {M : Machine Call Call.Reply World} {J : CJson} {folder : Str} {p q : List Name}
  {Before Filling Deleting Swapped Marking : Tree Name Bytes → Prop} {st : Statics} {w : World}
  {α : Type}

/-- `P` holds of the card, and what is open for writing lies in `S`. -/
def Holds (S : List Name → Prop) (P : Tree Name Bytes → Prop) (w : World) : Prop :=
  w.WritesIn S ∧ P w.card

theorem mkdir_cases {path : Str} {s t : World} {made : Bool}
    (hm : machine (.fs (.mkdir path)) s made t) :
    made = false ∧ t = s ∨ made = true ∧ ∃ x, resolve path = some x ∧ s.card.get x = none ∧
      s.card.CanPut x ∧ t = { s with card := s.card.put x .dir } := by
  rcases hm with hm | ⟨rfl, rfl⟩
  · have hrt : (made, t) = fsDo (.mkdir path) s := hm
    simp only [fsDo] at hrt
    split at hrt
    · next x hx =>
        split at hrt
        · next hput =>
            obtain ⟨rfl, rfl⟩ := Prod.mk.inj hrt
            exact Or.inr ⟨rfl, x, hx, Option.isNone_iff_eq_none.1 hput.1, hput.2, rfl⟩
        · obtain ⟨rfl, rfl⟩ := Prod.mk.inj hrt
          exact Or.inl ⟨rfl, rfl⟩
    · obtain ⟨rfl, rfl⟩ := Prod.mk.inj hrt
      exact Or.inl ⟨rfl, rfl⟩
  · exact Or.inl ⟨rfl, rfl⟩

theorem rename_cases {src dst : Str} {s t : World} {renamed : Bool}
    (hm : machine (.fs (.rename src dst)) s renamed t) :
    renamed = false ∧ t = s ∨ renamed = true ∧ ∃ x y, resolve src = some x ∧
      resolve dst = some y ∧ s.card.CanMove x y ∧ t = { s with card := s.card.move x y } := by
  rcases hm with hm | ⟨rfl, rfl⟩
  · have hrt : (renamed, t) = fsDo (.rename src dst) s := hm
    simp only [fsDo] at hrt
    split at hrt
    · next x y hx hy =>
        split at hrt
        · next hmove =>
            obtain ⟨rfl, rfl⟩ := Prod.mk.inj hrt
            exact Or.inr ⟨rfl, x, y, hx, hy, hmove, rfl⟩
        · obtain ⟨rfl, rfl⟩ := Prod.mk.inj hrt
          exact Or.inl ⟨rfl, rfl⟩
    · obtain ⟨rfl, rfl⟩ := Prod.mk.inj hrt
      exact Or.inl ⟨rfl, rfl⟩
  · exact Or.inl ⟨rfl, rfl⟩

theorem fopen_none {path : Str} {s t : World} (hm : machine (.fs (.fopen path .wb)) s none t) :
    t = s := by
  rcases hm with hm | ⟨-, rfl⟩
  · have hrt : ((none : Option ℕ), t) = fsDo (.fopen path .wb) s := hm
    simp only [fsDo] at hrt
    split at hrt
    · split at hrt
      · cases (Prod.mk.inj hrt).1
      · exact (Prod.mk.inj hrt).2
    · exact (Prod.mk.inj hrt).2
  · rfl

/-- However the calls go, `Before` holds after each of them, and `Q` in the end. -/
abbrev Keeps (M : Machine Call Call.Reply World) (Before : Tree Name Bytes → Prop)
    (Q : α → World → Prop) (prog : Action α) (st : Statics) (w : World) : Prop :=
  Safe M (fun _ _ => True) (fun s => Before s.card) (fun x s => Q x.1 s) (prog.run st) w

theorem Keeps.bind {β : Type} {R : α → World → Prop} {Q : β → World → Prop} {prog : Action α}
    {k : α → Action β} (h : Keeps M Before R prog st w)
    (hk : ∀ a st' s, R a s → Keeps M Before Q (k a) st' s) :
    Keeps M Before Q (prog >>= k) st w :=
  Safe.bind h fun x s hx => hk x.1 x.2 s hx

theorem keeps_fs {Q : α → World → Prop} {c : FsCall} {k : c.Reply → Action α}
    (hk : ∀ r t, M (.fs c) w r t → Before t.card ∧ Keeps M Before Q (k r) st t) :
    Keeps M Before Q (fs c >>= k) st w :=
  ⟨trivial, hk⟩

section Parts

variable {S : List Name → Prop} {A : Call → Prop} {P : Tree Name Bytes → Prop}
  {prog : Action α} (hsub : ∀ o s r t, M o s r t → machine o s r t) (hP : ∀ {c}, P c → Before c)

include hsub hP

/-- Calls each of which keeps `P`. -/
theorem Calls.holds (h : Calls A prog)
    (hstep : ∀ o s r t, A o → M o s r t → Holds S P s → Holds S P t) (hw : Holds S P w) :
    Keeps M Before (fun _ => Holds S P) prog st w := by
  have hsafe : Safe M (fun _ _ => True) (Holds S P) (fun _ => Holds S P) (prog.run st) w := by
    apply (h st).safe ?_ (fun _ _ _ _ => trivial) hw
    intro o s r t ho hs hm
    exact ⟨lists_of_machine (hsub o s r t hm), hstep o s r t ho hm hs⟩
  exact hsafe.mono (fun _ _ _ _ hm => hm) (fun _ _ hc => hc) (fun s hs => hP hs.2) fun _ _ hs => hs

/-- Deleting a directory, where `P` bears the removal of single entries. -/
theorem Calls.clears {d : List Name} (h : Calls (Clears d) prog)
    (hclear : ∀ {e x}, M e.op e.before e.reply e.after → Removes e x → d <+: x →
      P e.before.card → P (e.before.card.remove x))
    (hw : Holds S P w) : Keeps M Before (fun _ => Holds S P) prog st w := by
  apply h.holds hsub hP ?_ hw
  rintro o s r t ho hm ⟨hopen, hs⟩
  rcases ho.step (hsub o s r t hm) with rfl | ⟨x, hx, hdx, rfl⟩
  · exact ⟨hopen, hs⟩
  · exact ⟨hopen, hclear (e := ⟨s, o, r, _⟩) hm hx hdx hs⟩

/-- Calls of the devices alone. -/
theorem Calls.devs (h : Calls (fun o => ∃ c, o = .dev c) prog) (hw : Holds S P w) :
    Keeps M Before (fun _ => Holds S P) prog st w := by
  apply h.holds hsub hP ?_ hw
  rintro o s r t ⟨c, rfl⟩ hm ⟨hopen, hs⟩
  obtain ⟨hcard, hstreams⟩ := DevStep.card (hsub _ s r t hm)
  refine ⟨World.writesIn_of_streams hopen hstreams, ?_⟩
  rw [hcard]
  exact hs

end Parts

variable (h : Phases M J folder p q Before Filling Deleting Swapped Marking)
  (hp : resolve (finalDir folder) = some p) (hq : resolve (tmpDir folder) = some q)

include h hp

/-- Writing the marker. -/
theorem writeMarker_keeps (hw : Holds (Within q) Swapped w) :
    Keeps M Before (fun _ s => Before s.card) (writeMarker (sub (finalDir folder) okMarker)) st
      w := by
  have hmarker := resolve_marker hp
  obtain ⟨hopen, hs⟩ := hw
  refine keeps_fs fun file? t hm => ?_
  have hm' := h.admits _ _ _ _ hm
  cases file? with
  | none =>
      rw [fopen_none hm']
      exact ⟨h.swapped hs, h.swapped hs⟩
  | some file =>
      obtain ⟨x, hx, helse, s, data, -, -, hdata, hnil⟩ := writing_of_fopen hm'
      rw [hmarker] at hx
      cases hx
      rw [(List.append_eq_nil_iff.1 (hnil trivial)).1] at hdata
      have hmarking : Marking t.card := h.mark hm helse hdata hs
      have happend (x r : List Name) (hx : Within q x ∨ p ++ [okName] <+: x) :
          Within q (x ++ r) ∨ p ++ [okName] <+: x ++ r :=
        hx.imp (fun hx => hx.append r) fun hx => hx.trans (List.prefix_append _ _)
      have hopen' : t.WritesIn fun x => Within q x ∨ p ++ [okName] <+: x := by
        refine (frame happend (fun f s hs => Or.inl (hopen f s hs)) ?_ hm').1
        intro path hpath x hx
        simp only [Call.writes, FsCall.writes, List.mem_singleton] at hpath
        rw [hpath, hmarker] at hx
        cases hx
        exact Or.inr (List.prefix_refl _)
      refine ⟨h.marked hmarking, ?_⟩
      have hread (c : FsCall) (hc : c.writes = []) : Calls (fun o => o.writes = []) (fs c) :=
        calls_fs hc
      have hcalls : Calls (fun o => o.writes = []) (do
          let _ ← fs (.fputs okContent file)
          let _ ← fs (.fflush file)
          let _ ← fs (.fsync file)
          let _ ← fs (.fclose file)
          return ()) :=
        (hread _ rfl).bind fun _ => (hread _ rfl).bind fun _ => (hread _ rfl).bind fun _ =>
          (hread _ rfl).bind fun _ => calls_pure
      refine Safe.imp (hcalls.holds h.admits h.marked ?_ ⟨hopen', hmarking⟩)
        fun _ _ hs => h.marked hs.2
      rintro o s r t ho hm ⟨hopen, hs⟩
      obtain ⟨hopen', hframe⟩ := frame happend hopen (by simp [ho]) (h.admits o s r t hm)
      refine ⟨hopen', h.marking (fun x hqx hx => hframe x ?_) hs⟩
      exact not_or.2 ⟨hqx, hx⟩

include hq

theorem swapFolder_keeps (depth : ℕ) (contents : List Bytes) (hw : Holds (Within q) Deleting w) :
    Keeps M Before (fun _ s => Before s.card) (swapFolder depth folder contents) st w := by
  have hfinal := below_self (mount_finalDir folder) hp
  have htmp := below_self (mount_tmpDir folder) hq
  apply ((deleteExisting_calls (deletesIn_clears p) depth hfinal).clears h.admits h.noSwap
    h.clearFinal hw).bind
  rintro _ st s ⟨hopen, hs⟩
  refine keeps_fs fun renamed t hm => ?_
  rcases rename_cases (h.admits _ _ _ _ hm) with ⟨rfl, rfl⟩ | ⟨rfl, x, y, hx, hy, hmove, rfl⟩
  · refine ⟨h.noSwap hs, ?_⟩
    apply ((deleteTree_calls (deletesIn_clears q) depth htmp).clears h.admits id h.clearTmp
      ⟨hopen, h.noSwap hs⟩).bind
    exact fun _ _ _ hs => hs.2
  · rw [hq] at hx
    rw [hp] at hy
    cases hx
    cases hy
    have hswapped := h.swap hmove hs
    have hholds : Holds (Within q) Swapped { s with card := s.card.move q p } := ⟨hopen, hswapped⟩
    refine ⟨h.swapped hswapped, ?_⟩
    apply (writeMarker_keeps h hp hholds).bind
    exact fun _ _ _ hs => hs

theorem verifyAndSwap_keeps (depth : ℕ) (contents : List Bytes)
    (hw : Holds (Within q) (fun c => Filling c ∧ c.get q = some .dir) w) :
    Keeps M Before (fun _ s => Before s.card) (verifyAndSwap J depth folder contents) st w := by
  have htmp := below_self (mount_tmpDir folder) hq
  have hcalls : Calls (fun o => o.writes = []) (verifyDownloadIntegrity J (tmpDir folder)) :=
    verifyDownloadIntegrity_calls (fun _ ho => writes_of_tame ho) J rfl
  have hread : ReadsOnly w.card _ ((verifyDownloadIntegrity J (tmpDir folder)).run st) w :=
    verifyDownloadIntegrity_reads J _ rfl
  have hread := hread.mono h.admits (fun _ _ hc => hc) (fun _ hi => hi) fun _ _ hq => hq
  have hkeep : Keeps M Before (fun _ => Holds (Within q) fun c => Filling c ∧ c.get q = some .dir)
      (verifyDownloadIntegrity J (tmpDir folder)) st w :=
    hcalls.holds h.admits (fun hc => h.giveUp hc.1) ?_ hw
  · apply Safe.bind ((hread.and hkeep).mono (fun _ _ _ _ hm => hm) (fun _ _ _ => trivial)
      (fun _ hi => hi.2) fun _ _ hq => hq)
    rintro ⟨v, st⟩ s ⟨⟨hcard, hok⟩, hopen, hfill, hdir⟩
    have hfail : Keeps M Before (fun _ s => Before s.card) (deleteTree depth (tmpDir folder) >>=
        fun _ => pure (FolderEnd.verifyFailed v)) st s := by
      apply ((deleteTree_calls (deletesIn_clears q) depth htmp).clears h.admits id h.clearTmp
        ⟨hopen, h.giveUp hfill⟩).bind
      exact fun _ _ _ hs => hs.2
    cases v with
    | ok =>
        apply swapFolder_keeps h hp hq depth contents ⟨hopen, h.verified hfill ?_⟩
        rw [hcard]
        exact hok rfl
    | _ => exact hfail
  · rintro o s r t ho hm ⟨hopen, hfill, hdir⟩
    obtain ⟨hopen', hframe⟩ := (fills_of_writes (q := q) ho).step hopen hdir (h.admits o s r t hm)
    refine ⟨hopen', h.fill hframe hfill, ?_⟩
    rw [hframe q (fun hq => hq.2 rfl), hdir]

theorem installFiles_keeps (depth : ℕ) (files : List FileItem) (hw : Holds (Within q) Before w) :
    Keeps M Before (fun _ s => Before s.card) (installFiles J depth folder files) st w := by
  have htmp := below_self (mount_tmpDir folder) hq
  have hfills (o : Call) (ho : o.tame = true) : Fills q o := fills_of_writes (writes_of_tame ho)
  have hstep (o : Call) (s : World) (r : o.Reply) (t : World) (ho : Fills q o) (hm : M o s r t)
      (hs : Holds (Within q) (fun c => Filling c ∧ c.get q = some .dir) s) :
      Holds (Within q) (fun c => Filling c ∧ c.get q = some .dir) t := by
    obtain ⟨hopen, hfill, hdir⟩ := hs
    obtain ⟨hopen', hframe⟩ := ho.step hopen hdir (h.admits o s r t hm)
    refine ⟨hopen', h.fill hframe hfill, ?_⟩
    rw [hframe q (fun hq => hq.2 rfl), hdir]
  apply ((deleteExisting_calls (deletesIn_clears q) depth htmp).clears h.admits id h.clearTmp
    hw).bind
  rintro _ st s ⟨hopen, hs⟩
  refine keeps_fs fun made t hm => ?_
  rcases mkdir_cases (h.admits _ _ _ _ hm) with ⟨rfl, rfl⟩ | ⟨rfl, x, hx, hnone, hput, rfl⟩
  · exact ⟨hs, hs⟩
  · rw [hq] at hx
    cases hx
    have hfilling := h.mkdir hnone hput hs
    have hdir : (s.card.put q .dir).get q = some .dir := by
      rw [Tree.get_put _ hput, if_pos rfl]
    have hholds : Holds (Within q) (fun c => Filling c ∧ c.get q = some .dir)
        { s with card := s.card.put q .dir } := ⟨hopen, hfilling, hdir⟩
    refine ⟨h.giveUp hfilling, ?_⟩
    apply ((downloadFiles_calls hfills fun item _ =>
      putsFile_fills (mount_tmpDir folder) hq).holds h.admits (fun hc => h.giveUp hc.1) hstep
        hholds).bind
    rintro result st s hs
    apply ((releaseAll_calls (devCalls hfills)).holds h.admits (fun hc => h.giveUp hc.1) hstep
      hs).bind
    rintro _ st s hs
    cases result with
    | ok contents =>
        apply ((calls_dev (devCalls hfills) _).holds h.admits (fun hc => h.giveUp hc.1) hstep
          hs).bind
        rintro _ st s hs
        exact verifyAndSwap_keeps h hp hq depth contents hs
    | error e =>
        dsimp only
        split
        · exact h.giveUp hs.2.1
        · apply ((deleteTree_calls (deletesIn_clears q) depth htmp).clears h.admits id h.clearTmp
            ⟨hs.1, h.giveUp hs.2.1⟩).bind
          exact fun _ _ _ hs => hs.2

/-- A whole download, however its calls go. -/
theorem downloadSimiFolder_keeps (depth : ℕ) (lambdaUrl : Str)
    (hw : Holds (Within q) Before w) :
    Keeps M Before (fun _ s => Before s.card) (downloadSimiFolder J depth folder lambdaUrl) st
      w := by
  have hdev (c : DevCall) : ∃ c', Call.dev c = .dev c' := ⟨c, rfl⟩
  apply Keeps.bind (R := fun _ s => Holds (Within q) Before s)
  · exact hw
  rintro _ st s hs
  apply ((calls_dev hdev _).devs h.admits id hs).bind
  rintro _ st s hs
  apply ((fetchList_calls hdev J folder lambdaUrl).devs h.admits id hs).bind
  rintro items? st s hs
  cases items? with
  | none => exact hs.2
  | some items =>
      dsimp only [installList]
      apply Keeps.bind (R := fun _ s => Holds (Within q) Before s)
      · exact hs
      rintro _ st s hs
      split
      · apply Keeps.bind (R := fun _ s => Holds (Within q) Before s)
        · exact hs
        rintro _ st s hs
        exact installFiles_keeps h hp hq depth _ hs
      · exact hs.2

end Rule

/-- A run of `download_simi_folder`. -/
def Downloads (J : CJson) (folder : Str)
    (prog : Interaction.Program Call Call.Reply (FolderEnd × Statics)) : Prop :=
  ∃ depth lambdaUrl st, prog = (downloadSimiFolder J depth folder lambdaUrl).run st

/-- After a run or a loss of power the card is as it was, and nothing is open. -/
def Reboots (u v : World) : Prop :=
  v.card = u.card ∧ ∀ f, v.writer f = none

/-- Downloads of `folder`, each run to its end or cut off anywhere, from a state in
which nothing is open; every call satisfies `cond`. -/
def Downloaded (J : CJson) (folder : Str) (cond : Event → Prop) (s t : World) : Prop :=
  ∃ u prog tr rest, Boots machine (Downloads J folder) Reboots (fun _ tr => ∀ e ∈ tr, cond e) s u ∧
    Downloads J folder prog ∧ Steps machine prog u tr rest t ∧ ∀ e ∈ tr, cond e

/-- The rule for any number of downloads: `Before` holds at every moment. -/
theorem downloaded_phases {J : CJson} {folder : Str} {cond : Event → Prop} {p q : List Name}
    {Before Filling Deleting Swapped Marking : Tree Name Bytes → Prop}
    (h : Phases (machine.restrict cond) J folder p q Before Filling Deleting Swapped Marking)
    (hp : resolve (finalDir folder) = some p) (hq : resolve (tmpDir folder) = some q)
    {s t : World} (hruns : Downloaded J folder cond s t) (hclosed : ∀ f, s.writer f = none)
    (hs : Before s.card) : Before t.card := by
  have hrun {prog rest : Interaction.Program Call Call.Reply (FolderEnd × Statics)} {u v : World}
      {tr : List Event} (hu : (∀ f, u.writer f = none) ∧ Before u.card)
      (hprog : Downloads J folder prog) (htr : Steps machine prog u tr rest v)
      (hcond : ∀ e ∈ tr, cond e) : Before v.card := by
    obtain ⟨depth, lambdaUrl, st, rfl⟩ := hprog
    have hholds : Holds (Within q) Before u := by
      refine ⟨?_, hu.2⟩
      intro f s hs
      rw [hu.1 f] at hs
      cases hs
    exact ((downloadSimiFolder_keeps h hp hq depth lambdaUrl hholds).steps hu.2
      (htr.restrict hcond)).1
  obtain ⟨u, prog, tr, rest, hboots, hprog, htr, hcond⟩ := hruns
  refine hrun (hboots.invariant (P := fun u => (∀ f, u.writer f = none) ∧ Before u.card) ?_
    ⟨hclosed, hs⟩) hprog htr hcond
  rintro prog rest u tr v v' hu hprog htr hcond ⟨hcard, hclosed⟩
  refine ⟨hclosed, ?_⟩
  rw [hcard]
  exact hrun hu hprog htr hcond

end Download

end SimiboxDownloader
