import SimiboxDownloader.Download.Phases

/-!
# Deleting a directory

When the listings are complete and every entry is removed that `delete_tree` sets
out to remove, the directory and everything in it is gone afterwards, and nothing
else has changed (`deleteTree_removes`). What `stat` says of an entry does not
matter as long as that is so.
-/

namespace SimiboxDownloader

namespace Download

open Interaction Interaction.Stateful DirTree

/-- The calls of `delete_tree` in `q` go well. -/
structure Deletes (M : Machine Call Call.Reply World) (C : Call → World → Prop)
    (q : List Name) : Prop where
  admits : ∀ o s r t, M o s r t → machine o s r t
  opendir : ∀ {s path r t}, M (.fs (.opendir path)) s r t → FsOk (.opendir path) s r t
  unlink : ∀ {s path r t}, M (.fs (.unlink path)) s r t → FsOk (.unlink path) s r t
  rmdir : ∀ {s path r t}, M (.fs (.rmdir path)) s r t → FsOk (.rmdir path) s r t
  /-- what `stat` does not call a directory is none, or `unlink` removes it -/
  file : ∀ {s path x r t r' t'}, resolve path = some x → M (.fs (.stat path)) s r t →
    ¬ r.any Stat.isDir = true → M (.fs (.unlink path)) t r' t' → t.card.isDir x = false ∨ r' = true
  permits : ∀ o s, Clears q o → o ≠ .diverge → C o s

section Removes

variable {M : Machine Call Call.Reply World} {C : Call → World → Prop}
  {q d : List Name} {w : World} {st : Statics}

/-- The directory at `d` is gone, and nothing else has changed. -/
structure Gone (d : List Name) (w t : World) : Prop where
  same : t = { w with card := t.card }
  get : ∀ x, t.card.get x = if d <+: x then none else w.card.get x

/-- In the middle of deleting `d`: what is left of `w`, with only `names` in `d`. -/
structure Partly (d : List Name) (names : List Str) (w t : World) : Prop where
  same : t = { w with card := t.card }
  dir : t.card.get d = some .dir
  left : ∀ n, (t.card.get (d ++ [n])).isSome = true → n.val ∈ names
  outside : ∀ x, ¬ d <+: x → t.card.get x = w.card.get x
  sub : ∀ x, (t.card.get x).isSome = true → (w.card.get x).isSome = true

theorem resolve_entry {dir : Str} (hm : mountPrefix <+: dir) (hd : resolve dir = some d)
    (n : Name) :
    resolve (sub dir n.val) = some (d ++ [n]) := by
  rw [resolve_sub hm, hd, rel_name]
  rfl

/-- `f_unlink` leaves the card alone where it cannot remove anything. -/
theorem unlink_eq {path : Str} {x : List Name} (hx : resolve path = some x) (w : World) :
    (w.unlink path).2 = { w with card := w.card.remove x } := by
  unfold World.unlink
  rw [hx]
  dsimp only
  split
  · rfl
  · next hcan => rw [Tree.remove, dif_neg hcan]

theorem gone_of_unlink {path : Str} {x : List Name} {s t : World} {r : Bool}
    (hx : resolve path = some x) (hfile : s.card.isDir x = false ∨ r = true)
    (hm : FsOk (.unlink path) s r t) : Gone x s t := by
  have ht : t = (s.unlink path).2 := hm.eq
  rw [unlink_eq hx] at ht
  rw [ht]
  refine ⟨rfl, ?_⟩
  rcases hfile with hfile | rfl
  · exact Tree.get_remove_file hfile
  · have hrt : (true, t) = s.unlink path := hm
    simp only [World.unlink, hx] at hrt
    split at hrt
    · next hcan => exact Tree.get_remove_all hcan
    · cases (Prod.mk.inj hrt).1

/-- What `stat` calls a directory is one. -/
theorem isDir_of_stat {path : Str} {x : List Name} {s t : World} {r : Option Stat}
    (hx : resolve path = some x) (hm : machine (.fs (.stat path)) s r t) :
    t = s ∧ (r.any Stat.isDir = true → s.card.get x = some .dir) := by
  rcases hm with hm | ⟨rfl, rfl⟩
  · obtain ⟨rfl, rfl⟩ := stat_ok hm
    refine ⟨rfl, fun hdir => ?_⟩
    rw [hx, Option.bind_some] at hdir
    cases hget : t.card.get x with
    | none =>
        rw [hget] at hdir
        cases hdir
    | some e =>
        rw [hget] at hdir
        cases e with
        | file data => cases hdir
        | dir => rfl
  · exact ⟨rfl, nofun⟩

/-- What `stat`, when it does not fail, does not call a directory is none. -/
theorem not_isDir_of_stat {path : Str} {x : List Name} {s t : World} {r : Option Stat}
    (hx : resolve path = some x) (hm : FsOk (.stat path) s r t) (hr : ¬ r.any Stat.isDir = true) :
    t.card.isDir x = false := by
  obtain ⟨rfl, rfl⟩ := stat_ok hm
  rw [hx, Option.bind_some] at hr
  cases hget : t.card.get x with
  | none => rw [Tree.isDir, hget]
  | some e =>
      rw [hget] at hr
      cases e with
      | file data => rw [Tree.isDir, hget]
      | dir => exact absurd rfl hr

/-- One more entry is gone. -/
theorem Partly.next {n : Name} {names : List Str} {s t : World}
    (hs : Partly d (n.val :: names) w s) (ht : Gone (d ++ [n]) s t) : Partly d names w t := by
  have hnot (x : List Name) (hx : ¬ d ++ [n] <+: x) : t.card.get x = s.card.get x := by
    rw [ht.get, if_neg hx]
  refine ⟨?_, ?_, fun n' hn' => ?_, fun x hx => ?_, fun x hx => ?_⟩
  · rw [ht.same, hs.same]
  · rw [hnot d, hs.dir]
    intro hpre
    have hlen := hpre.length_le
    rw [List.length_append, List.length_singleton] at hlen
    omega
  · rw [ht.get] at hn'
    split at hn'
    · cases hn'
    · next hne =>
        rcases List.mem_cons.1 (hs.left n' hn') with heq | hmem
        · exact absurd (Name.ext heq ▸ List.prefix_refl _) hne
        · exact hmem
  · rw [hnot x, hs.outside x hx]
    exact fun hpre => hx ((List.prefix_append d [n]).trans hpre)
  · rw [ht.get] at hx
    split at hx
    · cases hx
    · exact hs.sub x hx

/-- The rule for the loop over the entries: `P` of the names that are left. -/
theorem deleteEntries_each {P : List Str → World → Prop} {dir : Str} {recurse : Str → Action Unit}
    {names : List Str} {s : World} (hm : mountPrefix <+: dir) (hd : resolve dir = some d)
    (hadmits : ∀ {path s r t}, M (.fs (.stat path)) s r t → machine (.fs (.stat path)) s r t)
    (hstat : ∀ path s, C (.fs (.stat path)) s)
    (hunlink : ∀ (n : Name) s, C (.fs (.unlink (sub dir n.val))) s)
    (hdots : ∀ {name names s}, isDots name = true → P (name :: names) s → P names s)
    (hrec : ∀ {n : Name} {names s}, P (n.val :: names) s → s.card.get (d ++ [n]) = some .dir →
      Ensures M C (fun _ st' t => st' = st ∧ P names t) (recurse (sub dir n.val)) st s)
    (hfile : ∀ {n : Name} {names s info r t}, P (n.val :: names) s →
      M (.fs (.stat (sub dir n.val))) s info s → ¬ info.any Stat.isDir = true →
      M (.fs (.unlink (sub dir n.val))) s r t → P names t)
    (hnames : ∀ name ∈ names, isDots name = true ∨ Plain name) (hs : P names s) :
    Ensures M C (fun _ st' t => st' = st ∧ P [] t) (deleteEntries recurse dir names) st s := by
  induction names generalizing s with
  | nil => exact ensures_pure ⟨rfl, hs⟩
  | cons name names ih =>
      have hrest {s : World} (hs : P names s) :=
        ih (fun n hn => hnames n (List.mem_cons_of_mem _ hn)) hs
      unfold deleteEntries
      by_cases hname : isDots name = true
      · rw [if_pos hname]
        exact hrest (hdots hname hs)
      · have hplain := (hnames name List.mem_cons_self).resolve_left hname
        obtain ⟨n, rfl⟩ : ∃ n : Name, name = n.val := ⟨⟨name, hplain⟩, rfl⟩
        rw [if_neg hname]
        refine ensures_fs (hstat _ _) fun info t hm' => ?_
        obtain ⟨rfl, hinfo⟩ := isDir_of_stat (resolve_entry hm hd n) (hadmits hm')
        split
        · next hisDir =>
            apply (hrec hs (hinfo hisDir)).bind
            rintro _ _ t ⟨rfl, ht⟩
            exact hrest ht
        · next hisFile =>
            refine ensures_fs (hunlink n _) fun r u hm'' => ?_
            exact hrest (hfile hs hm' hisFile hm'')

/-- What `opendir` lists of a directory: its entries, perhaps with the two dots. -/
theorem names_of_opendir {path : Str} {s t : World} {names? : Option (List Str)}
    (hd : resolve path = some d) (hdir : s.card.get d = some .dir)
    (hlist : FsOk (.opendir path) s names? t) :
    t = s ∧ ∃ names, names? = some names ∧ (∀ name ∈ names, isDots name = true ∨ Plain name) ∧
      ∀ n, (s.card.get (d ++ [n])).isSome = true → n.val ∈ names := by
  obtain ⟨rfl, hlist⟩ := hlist
  rw [World.listing, hd] at hlist
  dsimp only at hlist
  rw [if_pos (Tree.isDir_iff.2 hdir)] at hlist
  obtain ⟨names, rfl, hperm⟩ := hlist
  refine ⟨rfl, names, rfl, fun name hname => ?_, fun n hn => ?_⟩
  · by_cases hdots : isDots name = true
    · exact Or.inl hdots
    · have hmem := hperm.mem_iff.1 (List.mem_filter.2 ⟨hname, by simpa using hdots⟩)
      obtain ⟨n, -, rfl⟩ := List.mem_map.1 hmem
      exact Or.inr n.plain
  · have hmem := List.mem_map_of_mem (f := Name.val) (Tree.mem_children.2 hn)
    exact (List.mem_filter.1 (hperm.mem_iff.2 hmem)).1

/-- The loop over the entries. -/
theorem deleteEntries_partly (h : Deletes M C q) {dir : Str} (hm : mountPrefix <+: dir)
    (hd : resolve dir = some d) (hqd : q <+: d) {recurse : Str → Action Unit} {names : List Str}
    (hnames : ∀ name ∈ names, isDots name = true ∨ Plain name)
    (hrec : ∀ {n names s}, Partly d (n.val :: names) w s → s.card.get (d ++ [n]) = some .dir →
      Ensures M C (fun _ st' t => st' = st ∧ Gone (d ++ [n]) s t) (recurse (sub dir n.val)) st s)
    {s : World} (hs : Partly d names w s) :
    Ensures M C (fun _ st' t => st' = st ∧ Partly d [] w t) (deleteEntries recurse dir names)
      st s := by
  apply deleteEntries_each (P := fun names => Partly d names w) hm hd (h.admits _ _ _ _)
    (fun _ _ => h.permits _ _ trivial nofun) ?_ ?_ ?_ ?_ hnames hs
  · intro n _
    refine h.permits _ _ ?_ nofun
    exact (below_self hm hd).mono hqd |>.sub n.val
  · intro name names s hname hs
    refine { hs with left := fun n hn => (List.mem_cons.1 (hs.left n hn)).resolve_left ?_ }
    rintro rfl
    rw [not_isDots_of_plain n.plain] at hname
    cases hname
  · intro n names s hs hdir
    exact (hrec hs hdir).imp fun _ _ t ⟨hst, ht⟩ => ⟨hst, hs.next ht⟩
  · intro n names s info r t hs hm' hisFile hunlink
    have hx := resolve_entry hm hd n
    have hfile := h.file hx hm' hisFile hunlink
    exact hs.next (gone_of_unlink hx hfile (h.unlink hunlink))

/-- `delete_tree`, where its calls go well: the directory is gone with all that was
in it; the root cannot go. It ends when it may recurse as deep as the directories are
nested. -/
theorem deleteTree_removes (h : Deletes M C q) (depth : ℕ) {dir : Str}
    (hm : mountPrefix <+: dir) (hd : resolve dir = some d) (hqd : q <+: d)
    (hroot : d = [] → ∀ s t, s.card.children d = [] → ¬ M (.fs (.rmdir dir)) s false t)
    (hdepth : (∀ s, C .diverge s) ∨
      ∀ x, d <+: x → (w.card.get x).isSome = true → x.length < d.length + depth)
    (hdir : w.card.get d = some .dir) :
    Ensures M C (fun _ st' t => st' = st ∧ Gone d w t) (deleteTree depth dir) st w := by
  induction depth generalizing dir d w with
  | zero =>
      rcases hdepth with hdiv | hshort
      · exact ⟨hdiv w, nofun⟩
      · have hlt := hshort d (List.prefix_refl d) (by rw [hdir]; rfl)
        omega
  | succ depth ih =>
      have hbelow : Below q dir := by
        refine ⟨hm, fun p hp => ?_⟩
        rw [hd] at hp
        cases hp
        exact hqd
      refine ensures_fs (h.permits _ _ trivial nofun) fun names? t hm' => ?_
      obtain ⟨rfl, names, rfl, hnames, hall⟩ := names_of_opendir hd hdir (h.opendir hm')
      have hstart : Partly d names t t :=
        ⟨rfl, hdir, hall, fun _ _ => rfl, fun _ hx => hx⟩
      refine Ensures.bind (deleteEntries_partly h hm hd hqd hnames ?_ hstart) ?_
      · intro n names s hs hdir'
        apply ih (hm.trans (List.prefix_append _ _)) (resolve_entry hm hd n)
          (hqd.trans (List.prefix_append _ _)) (by simp) ?_ hdir'
        refine hdepth.imp_right fun hshort x hx hsome => ?_
        have hlt := hshort x ((List.prefix_append d [n]).trans hx) (hs.sub x hsome)
        rw [List.length_append, List.length_singleton]
        omega
      · rintro _ _ s ⟨rfl, hs⟩
        have hempty : ∀ r, r ≠ [] → s.card.get (d ++ r) = none := by
          intro r hr
          cases r with
          | nil => contradiction
          | cons n r =>
              have hn : s.card.get (d ++ [n]) = none := by
                by_contra hsome
                exact absurd (hs.left n (Option.ne_none_iff_isSome.1 hsome)) (by simp)
              exact Tree.get_none_below hn ⟨r, by simp⟩
        refine ensures_fs (h.permits _ _ hbelow nofun) fun r u hm' => ensures_pure ⟨rfl, ?_⟩
        have hchildren := Tree.children_eq_nil_iff.2 hempty
        have hne : d ≠ [] := by
          intro hnil
          have hr : r = (s.unlink dir).1 := congrArg Prod.fst (h.rmdir hm')
          rw [World.unlink, hd] at hr
          dsimp only at hr
          rw [if_neg fun hcan => hcan.1 hnil] at hr
          rw [hr] at hm'
          exact hroot hnil s u hchildren hm'
        have hcan : s.card.CanRemove d := ⟨hne, by rw [hs.dir]; rfl, hchildren⟩
        have hu : u = (s.unlink dir).2 := (h.rmdir hm').eq
        rw [unlink_eq hd] at hu
        rw [hu]
        refine ⟨by rw [hs.same], fun x => ?_⟩
        dsimp only
        rw [Tree.get_remove_all hcan]
        by_cases hx : d <+: x
        · rw [if_pos hx, if_pos hx]
        · rw [if_neg hx, if_neg hx, hs.outside x hx]

end Removes

end Download

end SimiboxDownloader
