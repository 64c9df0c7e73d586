import SimiboxDownloader.Download.Stages

/-!
# Deleting a directory with entries that cannot go

`delete_tree` does not look at what `unlink` and `rmdir` return. Where they fail for
some entries and everything else goes well, it goes on with the next entry, and in the
end just these entries are left, with the directories they lie in (`deleteTree_prunes`).
-/

namespace SimiboxDownloader

namespace Download

open Interaction Interaction.Stateful DirTree

section Stubborn

/-- The path is one of an entry in `U`. -/
def Refused (U : List Name → Prop) (path : Str) : Prop :=
  ∃ x, resolve path = some x ∧ U x

/-- The system in which `unlink` and `rmdir` fail for the entries in `U`, and no other
call of the file system fails. -/
def stubborn (U : List Name → Prop) : Machine Call Call.Reply World
  | .fs (.unlink path), s, r, t =>
      Refused U path ∧ r = false ∧ t = s ∨ ¬ Refused U path ∧ FsOk (.unlink path) s r t
  | .fs (.rmdir path), s, r, t =>
      Refused U path ∧ r = false ∧ t = s ∨ ¬ Refused U path ∧ FsOk (.rmdir path) s r t
  | .fs c, s, r, t => FsOk c s r t
  | o, s, r, t => machine o s r t

variable {U : List Name → Prop} {o : Call} {s t : World} {r : o.Reply}

theorem machine_of_stubborn (h : stubborn U o s r t) : machine o s r t := by
  cases o with
  | fs c =>
      cases c with
      | unlink path | rmdir path =>
          rcases h with ⟨-, h⟩ | ⟨-, h⟩
          · exact Or.inr h
          · exact Or.inl h
      | _ => exact Or.inl h
  | _ => exact h

/-- The calls of `delete_tree` always get some reply. -/
theorem exists_stubborn {q : List Name} (ho : Clears q o) (hdiv : o ≠ .diverge) (s : World) :
    ∃ r t, stubborn U o s r t := by
  have hremove (path : Str) : ∃ r t, Refused U path ∧ r = false ∧ t = s ∨
      ¬ Refused U path ∧ FsOk (.unlink path) s r t := by
    by_cases hU : Refused U path
    · exact ⟨_, _, Or.inl ⟨hU, rfl, rfl⟩⟩
    · exact ⟨_, _, Or.inr ⟨hU, fsOk_fsDo _ s⟩⟩
  cases o with
  | fs c =>
      cases c with
      | unlink path | rmdir path => exact hremove path
      | stat path => exact ⟨_, _, fsOk_fsDo (.stat path) s⟩
      | opendir path => exact ⟨_, _, fsOk_fsDo (.opendir path) s⟩
      | _ => exact ho.elim
  | diverge => exact absurd rfl hdiv
  | _ => exact ho.elim

end Stubborn

section Pruned

variable {U : List Name → Prop} {d : List Name} {w s t : World}

/-- An entry that cannot go, or one above such an entry. The root cannot go. -/
def Stays (U : List Name → Prop) (c : Tree Name Bytes) (x : List Name) : Prop :=
  ∃ y, x <+: y ∧ (c.get y).isSome = true ∧ (y = [] ∨ U y)

/-- What `delete_tree` on `d` makes of `w`: what does not stay is gone. -/
structure Pruned (U : List Name → Prop) (d : List Name) (w t : World) : Prop where
  same : t = { w with card := t.card }
  gone : ∀ x, d <+: x → ¬ Stays U w.card x → t.card.get x = none
  kept : ∀ x, ¬ d <+: x ∨ Stays U w.card x → t.card.get x = w.card.get x

/-- In the middle of it: of the entries of `d` only `names` are still to come. -/
structure Pruning (U : List Name → Prop) (d : List Name) (names : List Str) (w t : World) :
    Prop where
  same : t = { w with card := t.card }
  dir : t.card.get d = some .dir
  kept : ∀ x, ¬ d <+: x ∨ Stays U w.card x → t.card.get x = w.card.get x
  sub : ∀ x, (t.card.get x).isSome = true → (w.card.get x).isSome = true
  left : ∀ n x, d ++ [n] <+: x → (t.card.get x).isSome = true →
    n.val ∈ names ∨ Stays U w.card x

/-- What stays is not affected by what has gone. -/
theorem Pruning.stays {names : List Str} (h : Pruning U d names w t) {x : List Name} :
    Stays U t.card x ↔ Stays U w.card x := by
  constructor
  · rintro ⟨y, hxy, hy, hU⟩
    exact ⟨y, hxy, h.sub y hy, hU⟩
  · rintro ⟨y, hxy, hy, hU⟩
    have hkept := h.kept y (Or.inr ⟨y, List.prefix_refl y, hy, hU⟩)
    exact ⟨y, hxy, by rw [hkept, hy], hU⟩

theorem Pruned.of_isSome {x : List Name} (h : Pruned U d s t) (hx : (t.card.get x).isSome = true) :
    (s.card.get x).isSome = true ∧ (d <+: x → Stays U s.card x) := by
  by_cases hgone : d <+: x ∧ ¬ Stays U s.card x
  · rw [h.gone x hgone.1 hgone.2] at hx
    cases hx
  · rw [not_and_not_right] at hgone
    refine ⟨?_, hgone⟩
    rw [← h.kept x (not_or_of_imp hgone), hx]

/-- One more entry has been dealt with. -/
theorem Pruning.next {n : Name} {names : List Str} (hs : Pruning U d (n.val :: names) w s)
    (ht : Pruned U (d ++ [n]) s t) : Pruning U d names w t := by
  have hlonger : ¬ d ++ [n] <+: d := by
    intro hpre
    have hlen := hpre.length_le
    rw [List.length_append, List.length_singleton] at hlen
    omega
  refine ⟨?_, ?_, fun x hx => ?_, fun x hx => ?_, fun n' x hx hsome => ?_⟩
  · rw [ht.same, hs.same]
  · rw [ht.kept d (Or.inl hlonger), hs.dir]
  · rw [ht.kept x (hx.imp (fun h hpre => h ((List.prefix_append d [n]).trans hpre)) hs.stays.2),
      hs.kept x hx]
  · exact hs.sub x (ht.of_isSome hx).1
  · obtain ⟨hsome', hstays⟩ := ht.of_isSome hsome
    rcases hs.left n' x hx hsome' with hmem | hstays'
    · rcases List.mem_cons.1 hmem with heq | hmem
      · rw [Name.ext heq] at hx
        exact Or.inr (hs.stays.1 (hstays hx))
      · exact Or.inl hmem
    · exact Or.inr hstays'

/-- `unlink` on what is no directory. -/
theorem pruned_of_unlink {path : Str} {x : List Name} {r : Bool} (hx : resolve path = some x)
    (hfile : s.card.isDir x = false) (hm : stubborn U (.fs (.unlink path)) s r t) :
    Pruned U x s t := by
  have hself {y : List Name} (hy : (s.card.get y).isSome = true) (hpre : x <+: y) : y = x := by
    obtain ⟨z, rfl⟩ := hpre
    by_contra hne
    have hz : z ≠ [] := fun hz => hne (by rw [hz, List.append_nil])
    have hnone := Tree.get_none_below_file hfile hz
    rw [hnone] at hy
    cases hy
  rcases hm with ⟨⟨x', hx', hU⟩, -, rfl⟩ | ⟨hU, hm⟩
  · cases hx.symm.trans hx'
    refine ⟨rfl, fun y hy hstays => ?_, fun _ _ => rfl⟩
    by_contra hne
    have hsome := Option.ne_none_iff_isSome.1 hne
    exact hstays ⟨y, List.prefix_refl y, hsome, Or.inr (hself hsome hy ▸ hU)⟩
  · have hgone := gone_of_unlink hx (Or.inl hfile) (show FsOk (.unlink path) s r t from hm)
    refine ⟨hgone.same, fun y hy _ => ?_, fun y hy => ?_⟩
    · rw [hgone.get, if_pos hy]
    · rw [hgone.get, if_neg]
      intro hpre
      obtain ⟨z, hyz, hz, hnil | hUz⟩ := hy.resolve_left (not_not_intro hpre)
      · have hxnil : x = [] := List.prefix_nil.1 (hnil ▸ hpre.trans hyz)
        rw [hxnil, Tree.isDir_iff.2 s.card.root] at hfile
        cases hfile
      · exact hU ⟨x, hx, hself hz (hpre.trans hyz) ▸ hUz⟩

/-- The `rmdir` at the end. -/
theorem Pruning.rmdir {path : Str} {r : Bool} (hs : Pruning U d [] w s)
    (hd : resolve path = some d) (hm : stubborn U (.fs (.rmdir path)) s r t) : Pruned U d w t := by
  have hdir : (w.card.get d).isSome = true := hs.sub d (by rw [hs.dir]; rfl)
  have hleft {x : List Name} (hx : d <+: x) (hne : x ≠ d) (hsome : (s.card.get x).isSome = true) :
      Stays U w.card x := by
    obtain ⟨z, rfl⟩ := hx
    cases z with
    | nil => exact absurd (List.append_nil d) hne
    | cons n z => exact (hs.left n _ ⟨z, by simp⟩ hsome).resolve_left (by simp)
  -- when the directory itself is there to stay, or has something in it
  have hfails (hstays : Stays U w.card d) : Pruned U d w s := by
    refine ⟨hs.same, fun x hx hnot => ?_, hs.kept⟩
    by_contra hne
    exact hnot (hleft hx (fun heq => hnot (heq ▸ hstays)) (Option.ne_none_iff_isSome.1 hne))
  rcases hm with ⟨⟨d', hd', hU⟩, -, rfl⟩ | ⟨hU, hm⟩
  · cases hd.symm.trans hd'
    exact hfails ⟨d, List.prefix_refl d, hdir, Or.inr hU⟩
  · have ht : t = (s.unlink path).2 := FsOk.eq hm
    rw [unlink_eq hd] at ht
    by_cases hcan : s.card.CanRemove d
    · rw [ht]
      refine ⟨by rw [hs.same], fun x hx _ => ?_, fun x hx => ?_⟩
      · rw [Tree.get_remove_all hcan, if_pos hx]
      · rw [← hs.kept x hx, Tree.get_remove_all hcan, if_neg]
        intro hpre
        obtain ⟨y, hxy, hy, hyU⟩ := hx.resolve_left (not_not_intro hpre)
        have hkept := hs.kept y (Or.inr ⟨y, List.prefix_refl y, hy, hyU⟩)
        obtain ⟨z, rfl⟩ := hpre.trans hxy
        by_cases hz : z = []
        · rw [hz, List.append_nil] at hyU
          exact hyU.elim hcan.1 fun h => hU ⟨d, hd, h⟩
        · rw [Tree.children_eq_nil_iff.1 hcan.2.2 z hz] at hkept
          rw [← hkept] at hy
          cases hy
    · rw [ht, Tree.remove, dif_neg hcan]
      apply hfails
      by_cases hnil : d = []
      · exact ⟨d, List.prefix_refl d, hdir, Or.inl hnil⟩
      · have hchildren : s.card.children d ≠ [] :=
          fun hempty => hcan ⟨hnil, by rw [hs.dir]; rfl, hempty⟩
        obtain ⟨n, hn⟩ := List.exists_mem_of_ne_nil _ hchildren
        obtain ⟨y, hpre, hy⟩ := hleft (List.prefix_append d [n]) (by simp) (Tree.mem_children.1 hn)
        exact ⟨y, (List.prefix_append d [n]).trans hpre, hy⟩

/-- `delete_tree`, where it may recurse as deep as the directories are nested. -/
theorem deleteTree_pruned {q : List Name} {st : Statics} (depth : ℕ) {dir : Str}
    (hm : mountPrefix <+: dir) (hd : resolve dir = some d) (hqd : q <+: d)
    (hdepth : ∀ x, d <+: x → (w.card.get x).isSome = true → x.length < d.length + depth)
    (hdir : w.card.get d = some .dir) :
    Ensures (stubborn U) (fun o _ => Clears q o ∧ o ≠ .diverge)
      (fun _ st' t => st' = st ∧ Pruned U d w t) (deleteTree depth dir) st w := by
  induction depth generalizing dir d w with
  | zero =>
      have hlt := hdepth d (List.prefix_refl d) (by rw [hdir]; rfl)
      omega
  | succ depth ih =>
      have hbelow : Below q dir := (below_self hm hd).mono hqd
      refine ensures_fs ⟨trivial, nofun⟩ fun names? t hlist => ?_
      obtain ⟨rfl, names, rfl, hnames, hall⟩ := names_of_opendir hd hdir hlist
      have hstart : Pruning U d names t t := by
        refine ⟨rfl, hdir, fun _ _ => rfl, fun _ hx => hx, fun n x hx hsome => Or.inl (hall n ?_)⟩
        rw [← Option.ne_none_iff_isSome]
        intro hnone
        rw [Tree.get_none_below hnone hx] at hsome
        cases hsome
      refine Ensures.bind (R := fun _ st' s => st' = st ∧ Pruning U d [] t s) ?_ ?_
      · apply deleteEntries_each (P := fun names => Pruning U d names t) hm hd
          machine_of_stubborn (fun _ _ => ⟨trivial, nofun⟩)
          (fun n _ => ⟨hbelow.sub n.val, nofun⟩) ?_ ?_ ?_ hnames hstart
        · intro name names s hname hs
          refine { hs with left := fun n x hx hsome => ?_ }
          refine (hs.left n x hx hsome).imp_left fun hmem => (List.mem_cons.1 hmem).resolve_left ?_
          rintro rfl
          rw [not_isDots_of_plain n.plain] at hname
          cases hname
        · intro n names s hs hdir'
          have hdeleted := ih (hm.trans (List.prefix_append _ _)) (resolve_entry hm hd n)
            (hqd.trans (List.prefix_append _ _)) ?_ hdir'
          · exact hdeleted.imp fun _ _ u ⟨hst, hu⟩ => ⟨hst, hs.next hu⟩
          · intro x hx hsome
            have hlt := hdepth x ((List.prefix_append d [n]).trans hx) (hs.sub x hsome)
            rw [List.length_append, List.length_singleton]
            omega
        · intro n names s info r u hs hinfo hnot hunlink
          have hx := resolve_entry hm hd n
          exact hs.next (pruned_of_unlink hx (not_isDir_of_stat hx hinfo hnot) hunlink)
      · rintro _ _ s ⟨rfl, hs⟩
        exact ensures_fs ⟨hbelow, nofun⟩ fun r u hrmdir => ensures_pure ⟨rfl, hs.rmdir hd hrmdir⟩

/-- `delete_tree` on a directory, whatever is in it, in whatever order it is listed, and
whichever entries cannot be removed. It changes nothing outside of the directory and comes
to its end. Of what was in the directory then just those entries are left that cannot be
removed, with the directories they lie in; if there are none, the directory is gone. -/
theorem deleteTree_prunes (U : List Name → Prop) (st : Statics) {dir : Str}
    (hd : resolve dir = some d) (hdir : w.card.get d = some .dir) :
    ∃ bound, ∀ depth, bound ≤ depth →
      (∀ tr q t, Steps (stubborn U) ((deleteTree depth dir).run st) w tr q t →
        (t = { w with card := t.card } ∧ ∀ x, ¬ d <+: x → t.card.get x = w.card.get x) ∧
        ∃ tr' x u, Steps (stubborn U) q t tr' (.pure x) u) ∧
      ∀ tr x t, Steps (stubborn U) ((deleteTree depth dir).run st) w tr (.pure x) t →
        x.2 = st ∧
        (∀ x, d <+: x → Stays U w.card x → t.card.get x = w.card.get x) ∧
        (∀ x, d <+: x → ¬ Stays U w.card x → t.card.get x = none) ∧
        (d ≠ [] → (∀ x, d <+: x → (w.card.get x).isSome = true → ¬ U x) →
          t.card.get d = none) := by
  have hm : mountPrefix <+: dir := mount_of_resolve hd
  obtain ⟨bound, hbound⟩ := w.card.exists_length_lt
  refine ⟨bound, fun depth hdepth => ?_⟩
  have hsafe : Ensures (stubborn U) (fun o _ => Clears d o ∧ o ≠ .diverge)
      (fun _ st' t => st' = st ∧ Pruned U d w t) (deleteTree depth dir) st w :=
    deleteTree_pruned depth hm hd (List.prefix_refl d)
      (fun x _ hx => Nat.lt_add_left _ ((hbound x hx).trans_le hdepth)) hdir
  refine ⟨fun tr q t hrun => ⟨?_, ?_⟩, fun tr x t hrun => ?_⟩
  · refine hrun.invariant (J := fun s => s = { w with card := s.card } ∧
      ∀ x, ¬ d <+: x → s.card.get x = w.card.get x) ?_ ⟨rfl, fun _ _ => rfl⟩
    rintro e he ⟨hsame, hout⟩
    have hclears := (hsafe.events hrun e he).1
    rcases hclears.step (machine_of_stubborn (hrun.events e he)) with hskip | ⟨y, -, hdy, hremoved⟩
    · rw [hskip]
      exact ⟨hsame, hout⟩
    · rw [hremoved]
      refine ⟨by rw [hsame], fun x hx => ?_⟩
      rw [← hout x hx]
      apply Tree.get_remove_of_ne
      rintro rfl
      exact hx hdy
  · refine (hsafe.steps trivial hrun).2.terminates fun o s ho => exists_stubborn ho.1 ho.2 s
  · obtain ⟨hst, hpruned⟩ := hsafe.result trivial hrun
    refine ⟨hst, fun x _ hx => hpruned.kept x (Or.inr hx), hpruned.gone,
      fun hne hall => hpruned.gone d (List.prefix_refl d) ?_⟩
    rintro ⟨y, hdy, hy, rfl | hU⟩
    · exact hne (List.prefix_nil.1 hdy)
    · exact hall y hdy hy hU

end Pruned

section Sample

def mozartName : Name := ⟨"mozart".toList, by decide⟩

def discName : Name := ⟨"disc".toList, by decide⟩

def songName : Name := ⟨"a.mp3".toList, by decide⟩

/-- A card with one song in `mozart` and one in a directory in there. -/
def nestedCard : Tree Name Bytes :=
  cardOf [("/sdcard/mozart".toList, .dir), ("/sdcard/mozart/disc".toList, .dir),
    ("/sdcard/mozart/disc/a.mp3".toList, .file [7]), ("/sdcard/mozart/a.mp3".toList, .file [8])]

/-- The inner song cannot go: it is left with the two directories it lies in. -/
theorem deleteTree_prunes_nested : ∃ bound, ∀ depth, bound ≤ depth → ∃ tr x t,
    Steps (stubborn fun x => x = [mozartName, discName, songName])
      ((deleteTree depth (finalDir "mozart".toList)).run (Statics.boot true 10000))
      (World.boot nestedCard) tr (.pure x) t ∧
    t.card.get [mozartName, discName] = some .dir ∧ t.card.get [mozartName, songName] = none := by
  have hdir : nestedCard.get [mozartName] = some .dir := by
    decide +kernel
  have hdisc : nestedCard.get [mozartName, discName] = some .dir := by
    decide +kernel
  have hinner : (nestedCard.get [mozartName, discName, songName]).isSome = true := by
    decide +kernel
  obtain ⟨bound, hbound⟩ := @deleteTree_prunes [mozartName] (World.boot nestedCard)
    (fun x => x = [mozartName, discName, songName]) (Statics.boot true 10000)
    (finalDir "mozart".toList) (by decide) hdir
  refine ⟨bound, fun depth hdepth => ?_⟩
  obtain ⟨hends, hresult⟩ := hbound depth hdepth
  obtain ⟨tr, x, t, hrun⟩ := (hends _ _ _ (Steps.refl _ _)).2
  obtain ⟨-, hkept, hgone, -⟩ := hresult tr x t hrun
  refine ⟨tr, x, t, hrun, ?_, hgone _ ⟨[songName], rfl⟩ ?_⟩
  · have hstays : Stays (fun x => x = [mozartName, discName, songName])
        (World.boot nestedCard).card [mozartName, discName] :=
      ⟨_, ⟨[songName], rfl⟩, hinner, Or.inr rfl⟩
    exact (hkept [mozartName, discName] ⟨[discName], rfl⟩ hstays).trans hdisc
  · rintro ⟨y, ⟨z, rfl⟩, -, hy | hy⟩
    · cases hy
    · exact absurd (List.cons.inj (List.cons.inj hy).2).1 (by decide)

end Sample

end Download

end SimiboxDownloader
