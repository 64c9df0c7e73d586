import SimiboxDownloader.Download.Phases

/-!
# What survives the downloads

The package of a folder and its `.ok` marker, over any number of downloads that
fail or lose the power anywhere. An update that deletes the old directory and
then cannot move the new one, or that is cut off between the two and repeated,
leaves neither of them; and while the old directory is deleted its marker can
outlive the files it stands for. Apart from these cases, which `SwapsSafely` and
`MarkerGoesFirst` exclude, a complete package survives
(`downloads_keep_package`) and the marker tells the truth
(`downloads_keep_marker`).
-/

namespace SimiboxDownloader

namespace Download

open Interaction DirTree

section Looks

variable {J : CJson} {t t' : Tree Name Bytes} {dir dir' : Str} {p p' : List Name}

/-- The paths the verification of a directory looks at. -/
def looksAt (J : CJson) (t : Tree Name Bytes) (dir : Str) : List Str :=
  sub dir manifestName ::
    ((((textAt t (sub dir manifestName)).bind (manifestFiles J)).getD []).filterMap
      manifestEntry).map fun entry => sub dir entry.1

theorem textAt_congr {path path' : Str}
    (h : (resolve path').bind t'.get = (resolve path).bind t.get) :
    textAt t' path' = textAt t path := by
  rw [textAt, textAt, h]

theorem sizeAt_congr {path path' : Str}
    (h : (resolve path').bind t'.get = (resolve path).bind t.get) :
    sizeAt t' path' = sizeAt t path := by
  rw [sizeAt, sizeAt, h]

theorem mem_looksAt_entry {items : List Json} {item : Json} {name : Str} {size : ℕ}
    (hitems : (textAt t (sub dir manifestName)).bind (manifestFiles J) = some items)
    (hitem : item ∈ items) (hentry : manifestEntry item = some (name, size)) :
    sub dir name ∈ looksAt J t dir := by
  refine List.mem_cons_of_mem _ ?_
  rw [hitems, Option.getD_some]
  exact List.mem_map.2 ⟨(name, size), List.mem_filterMap.2 ⟨item, hitem, hentry⟩, rfl⟩

/-- The entries the verification looks at decide it. -/
theorem verifies_of_agree (h : ∀ path ∈ looksAt J t dir, ∀ x, resolve path = some x →
    t'.get x = t.get x) :
    verifies J t' dir = verifies J t dir ∧ looksAt J t' dir = looksAt J t dir := by
  have hget (path : Str) (hpath : path ∈ looksAt J t dir) :
      (resolve path).bind t'.get = (resolve path).bind t.get := by
    cases hx : resolve path with
    | none => rfl
    | some x => exact h path hpath x hx
  have htext := textAt_congr (hget _ List.mem_cons_self)
  refine ⟨?_, by rw [looksAt, looksAt, htext]⟩
  rw [verifies, verifies, htext]
  split
  · next items hitems =>
      rw [Bool.eq_iff_iff, List.all_eq_true, List.all_eq_true]
      refine forall₂_congr fun item hitem => ?_
      unfold itemVerifies
      split
      · next name size hentry => rw [sizeAt_congr (hget _ (mem_looksAt_entry hitems hitem hentry))]
      · exact Iff.rfl
  · rfl

/-- What it looks at is there, when it succeeds. -/
theorem isSome_of_verifies {path : Str} {x : List Name} (h : verifies J t dir = true)
    (hpath : path ∈ looksAt J t dir) (hx : resolve path = some x) : (t.get x).isSome = true := by
  rw [verifies] at h
  split at h
  · next items hitems =>
      rcases List.mem_cons.1 hpath with rfl | hpath
      · obtain ⟨text, htext, -⟩ := Option.bind_eq_some_iff.1 hitems
        rw [textAt, hx, Option.bind_some] at htext
        split at htext
        · next hfile =>
            rw [hfile]
            rfl
        · cases htext
      · rw [hitems, Option.getD_some] at hpath
        obtain ⟨⟨name, size⟩, hentry, rfl⟩ := List.mem_map.1 hpath
        obtain ⟨item, hitem, hentry⟩ := List.mem_filterMap.1 hentry
        have hcheck := List.all_eq_true.1 h item hitem
        rw [itemVerifies, hentry] at hcheck
        have hsize : sizeAt t (sub dir name) = some size := of_decide_eq_true hcheck
        rw [sizeAt, hx, Option.bind_some] at hsize
        obtain ⟨e, he, -⟩ := Option.map_eq_some_iff.1 hsize
        rw [he]
        rfl
  · cases h

/-- It looks into the directory only. -/
theorem prefix_of_mem_looksAt {path : Str} {x : List Name} (hm : mountPrefix <+: dir)
    (hdir : resolve dir = some p) (hpath : path ∈ looksAt J t dir) (hx : resolve path = some x) :
    p <+: x := by
  have hsub (name : Str) (hx : resolve (sub dir name) = some x) : p <+: x :=
    ((below_self hm hdir).sub name).2 x hx
  rcases List.mem_cons.1 hpath with rfl | hpath
  · exact hsub _ hx
  · obtain ⟨entry, -, rfl⟩ := List.mem_map.1 hpath
    exact hsub _ hx

theorem verifies_of_below (hm : mountPrefix <+: dir) (hdir : resolve dir = some p)
    (h : ∀ x, p <+: x → t'.get x = t.get x) : verifies J t' dir = verifies J t dir :=
  (verifies_of_agree fun _ hpath x hx => h x (prefix_of_mem_looksAt hm hdir hpath hx)).1

/-- The same directory in another place. -/
theorem verifies_of_moved (hm : mountPrefix <+: dir) (hm' : mountPrefix <+: dir')
    (hdir : resolve dir = some p) (hdir' : resolve dir' = some p')
    (h : ∀ r, t'.get (p' ++ r) = t.get (p ++ r)) : verifies J t' dir' = verifies J t dir := by
  have hget (name : Str) :
      (resolve (sub dir' name)).bind t'.get = (resolve (sub dir name)).bind t.get := by
    rw [resolve_sub hm, resolve_sub hm', hdir, hdir', Option.bind_some, Option.bind_some]
    cases rel name with
    | none => rfl
    | some r => exact h r
  have hitem (item : Json) : itemVerifies t' dir' item = itemVerifies t dir item := by
    unfold itemVerifies
    split
    · rw [sizeAt_congr (hget _)]
    · rfl
  rw [verifies, verifies, textAt_congr (hget _), funext hitem]

theorem not_verifies_of_none (h : resolve dir = none ∨ ∃ p, resolve dir = some p ∧ t.get p = none)
    (hm : mountPrefix <+: dir) : verifies J t dir = false := by
  have hnone : textAt t (sub dir manifestName) = none := by
    rw [textAt, resolve_sub hm]
    rcases h with h | ⟨p, hp, hget⟩
    · rw [h]
      rfl
    · rw [hp, Option.bind_some]
      cases rel manifestName with
      | none => rfl
      | some r =>
          rw [Option.map_some, Option.bind_some,
            Tree.get_none_below hget (List.prefix_append p r)]
  rw [verifies, hnone]
  rfl

end Looks

section Marker

variable {J : CJson} {folder : Str} {p q : List Name} {c c' : Tree Name Bytes}

/-- The marker exists. -/
def hasMarker (t : Tree Name Bytes) (folder : Str) : Bool :=
  ((resolve (sub (finalDir folder) okMarker)).bind t.get).isSome

/-- The marker is opened over a package that does not list it. -/
def MarkerUnlisted (J : CJson) (folder : Str) (e : Event) : Prop :=
  e.op = .fs (.fopen (sub (finalDir folder) okMarker) .wb) →
    ∀ path ∈ looksAt J e.before.card (finalDir folder),
      resolve path ≠ resolve (sub (finalDir folder) okMarker)

instance (J : CJson) (folder : Str) (e : Event) : Decidable (MarkerUnlisted J folder e) :=
  inferInstanceAs (Decidable (_ → _))

/-- A complete package that lists nothing at the marker. -/
def Complete (J : CJson) (folder : Str) (p : List Name) (c : Tree Name Bytes) : Prop :=
  verifies J c (finalDir folder) = true ∧ ∀ path ∈ looksAt J c (finalDir folder),
    ∀ x, resolve path = some x → ¬ p ++ [okName] <+: x

variable (hp : resolve (finalDir folder) = some p)

include hp

/-- Opening the marker. -/
theorem complete_of_mark {s t : World} {r : Option ℕ}
    (hunlisted : MarkerUnlisted J folder
      ⟨s, .fs (.fopen (sub (finalDir folder) okMarker) .wb), r, t⟩)
    (helse : ∀ x, x ≠ p ++ [okName] → t.card.get x = s.card.get x)
    (hmarker : t.card.get (p ++ [okName]) = some (.file []))
    (hs : verifies J s.card (finalDir folder) = true) : Complete J folder p t.card := by
  have hne (path : Str) (hpath : path ∈ looksAt J s.card (finalDir folder)) (x : List Name)
      (hx : resolve path = some x) : x ≠ p ++ [okName] := by
    rintro rfl
    exact hunlisted rfl path hpath (hx.trans (resolve_marker hp).symm)
  obtain ⟨hverifies, hlooks⟩ := verifies_of_agree fun path hpath x hx =>
    helse x (hne path hpath x hx)
  rw [hs] at hverifies
  refine ⟨hverifies, fun path hpath x hx hbelow => ?_⟩
  obtain ⟨r, rfl⟩ := hbelow
  have hr : r ≠ [] := by
    rintro rfl
    rw [hlooks] at hpath
    exact hne path hpath _ hx (List.append_nil _)
  have hsome := isSome_of_verifies hverifies hpath hx
  have hfile : t.card.isDir (p ++ [okName]) = false := by
    rw [Tree.isDir, hmarker]
  rw [Tree.get_none_below_file hfile hr] at hsome
  cases hsome

variable (hpq : ∀ x, p <+: x → ¬ q <+: x)

include hpq

/-- Writing the marker. -/
theorem Complete.marking (h : Complete J folder p c)
    (hagree : ∀ x, ¬ Within q x → ¬ p ++ [okName] <+: x → c'.get x = c.get x) :
    Complete J folder p c' := by
  obtain ⟨hverifies, hlooks⟩ := @verifies_of_agree J c c' (finalDir folder) fun path hpath x hx =>
    hagree x (fun hwithin => hpq x (prefix_of_mem_looksAt (mount_finalDir folder) hp hpath hx)
      hwithin.1) (h.2 path hpath x hx)
  refine ⟨hverifies.trans h.1, ?_⟩
  rw [hlooks]
  exact h.2

end Marker

section Neighbours

variable {folder : Str} {p q : List Name}

variable {J : CJson} {c c' : Tree Name Bytes}
  (hp : resolve (finalDir folder) = some p) (hq : resolve (tmpDir folder) = some q)
  (hpq : ∀ x, p <+: x → ¬ q <+: x)

include hp hpq

/-- Removing an entry of the temporary directory. -/
theorem verifies_final_of_remove {x : List Name} (hx : q <+: x) :
    verifies J (c.remove x) (finalDir folder) = verifies J c (finalDir folder) := by
  apply verifies_of_below (mount_finalDir folder) hp
  intro y hy
  apply Tree.get_remove_of_ne
  rintro rfl
  exact hpq _ hy hx

theorem verifies_final_of_fill (h : ∀ x, ¬ Within q x → c'.get x = c.get x) :
    verifies J c' (finalDir folder) = verifies J c (finalDir folder) :=
  verifies_of_below (mount_finalDir folder) hp fun y hy => h y fun hwithin => hpq y hy hwithin.1

theorem verifies_final_of_mkdir :
    verifies J (c.put q .dir) (finalDir folder) = verifies J c (finalDir folder) := by
  apply verifies_of_below (mount_finalDir folder) hp
  intro y hy
  apply Tree.get_put_of_ne
  rintro rfl
  exact hpq _ hy (List.prefix_refl _)

omit hp
include hq

theorem verifies_tmp_of_remove {x : List Name} (hx : p <+: x) :
    verifies J (c.remove x) (tmpDir folder) = verifies J c (tmpDir folder) := by
  apply verifies_of_below (mount_tmpDir folder) hq
  intro y hy
  apply Tree.get_remove_of_ne
  rintro rfl
  exact hpq _ hx hy

include hp
omit hpq

theorem verifies_final_of_move (h : c.CanMove q p) :
    verifies J (c.move q p) (finalDir folder) = verifies J c (tmpDir folder) :=
  verifies_of_moved (mount_tmpDir folder) (mount_finalDir folder) hq hp
    fun r => Tree.get_move_append h r

end Neighbours

section Runs

variable {J : CJson} {folder : Str} {p q : List Name} {s t : World}

/-- `path` lies in the directory `dir`. -/
def inDir (dir path : Str) : Bool :=
  match resolve dir, resolve path with
  | some d, some p => decide (d <+: p)
  | _, _ => false

theorem inDir_of_below {dir path : Str} {d x : List Name} (hd : resolve dir = some d)
    (hx : resolve path = some x) (h : d <+: x) : inDir dir path = true := by
  rw [inDir, hd, hx]
  exact decide_eq_true h

/-- Nothing in the temporary directory is deleted while the package is incomplete. -/
def SwapsSafely (J : CJson) (folder : Str) (e : Event) : Prop :=
  (∀ path ∈ removed e, inDir (tmpDir folder) path = true →
    verifies J e.before.card (finalDir folder) = true) ∧ MarkerUnlisted J folder e

instance (J : CJson) (folder : Str) (e : Event) : Decidable (SwapsSafely J folder e) :=
  inferInstanceAs (Decidable (_ ∧ _))

theorem swapsSafely_phases (hp : resolve (finalDir folder) = some p)
    (hq : resolve (tmpDir folder) = some q) (hpq : ∀ x, p <+: x → ¬ q <+: x) :
    Phases (machine.restrict (SwapsSafely J folder)) J folder p q
      (fun c => verifies J c (finalDir folder) = true ∨ verifies J c (tmpDir folder) = true)
      (fun c => verifies J c (finalDir folder) = true)
      (fun c => verifies J c (tmpDir folder) = true)
      (fun c => verifies J c (finalDir folder) = true) (Complete J folder p) where
  admits := fun _ _ _ _ hm => hm.1
  clearTmp := by
    rintro e x ⟨-, hsafe, -⟩ ⟨path, hremoved, hx⟩ hqx -
    have hfinal := hsafe path hremoved (inDir_of_below hq hx hqx)
    rw [verifies_final_of_remove hp hpq hqx]
    exact Or.inl hfinal
  mkdir := by
    intro c hnone _ hc
    rw [verifies_final_of_mkdir hp hpq]
    have htmp := not_verifies_of_none (J := J) (Or.inr ⟨q, hq, hnone⟩) (mount_tmpDir folder)
    rw [htmp] at hc
    exact hc.resolve_right Bool.false_ne_true
  fill := by
    intro c c' hagree hc
    rwa [verifies_final_of_fill hp hpq hagree]
  giveUp := Or.inl
  verified := fun _ htmp => htmp
  clearFinal := by
    intro e x _ _ hx hc
    rwa [verifies_tmp_of_remove hq hpq hx]
  noSwap := Or.inr
  swap := by
    intro c hmove hc
    rwa [verifies_final_of_move hp hq hmove]
  swapped := Or.inl
  mark := fun hm helse hmarker hc => complete_of_mark hp hm.2.2 helse hmarker hc
  marking := fun hagree hc => hc.marking hp hpq hagree
  marked := fun hc => Or.inl hc.1

/-- Once the folder holds a complete package, in every state of any number of
downloads, whichever calls fail and wherever the power is lost: the folder or its
temporary directory holds one, as long as nothing in the temporary directory is
deleted while the folder is incomplete, and no package lists its marker. -/
theorem downloads_keep_package (hfolder : FolderName folder)
    (hruns : Downloaded J folder (SwapsSafely J folder) s t) (hclosed : ∀ f, s.writer f = none)
    (hs : verifies J s.card (finalDir folder) = true) :
    verifies J t.card (finalDir folder) = true ∨ verifies J t.card (tmpDir folder) = true := by
  cases hp : resolve (finalDir folder) with
  | none =>
      rw [not_verifies_of_none (Or.inl hp) (mount_finalDir folder)] at hs
      cases hs
  | some p =>
      obtain ⟨d, n, m, rfl, hq, hne⟩ := resolve_dirs hfolder hp
      exact downloaded_phases (swapsSafely_phases hp hq fun _ => apart_of_neighbours hne) hp hq
        hruns hclosed (Or.inl hs)

/-- While the marker exists, nothing the verification looks at is deleted before
it. -/
def MarkerGoesFirst (J : CJson) (folder : Str) (e : Event) : Prop :=
  (∀ path ∈ removed e, hasMarker e.before.card folder = true →
    resolve path ≠ resolve (sub (finalDir folder) okMarker) →
    ∀ path' ∈ looksAt J e.before.card (finalDir folder), resolve path' ≠ resolve path) ∧
    MarkerUnlisted J folder e

instance (J : CJson) (folder : Str) (e : Event) : Decidable (MarkerGoesFirst J folder e) :=
  inferInstanceAs (Decidable (_ ∧ _))

/-- Where there is a marker there is a complete package. -/
def MarkerTells (J : CJson) (folder : Str) (c : Tree Name Bytes) : Prop :=
  hasMarker c folder = true → verifies J c (finalDir folder) = true

theorem hasMarker_congr {c c' : Tree Name Bytes} (hp : resolve (finalDir folder) = some p)
    (h : c'.get (p ++ [okName]) = c.get (p ++ [okName])) :
    hasMarker c' folder = hasMarker c folder := by
  rw [hasMarker, hasMarker, resolve_marker hp, Option.bind_some, Option.bind_some, h]

/-- Changes outside of the folder. -/
theorem MarkerTells.of_below {c c' : Tree Name Bytes} (hp : resolve (finalDir folder) = some p)
    (h : ∀ x, p <+: x → c'.get x = c.get x) (hc : MarkerTells J folder c) :
    MarkerTells J folder c' := by
  intro hmarker
  rw [hasMarker_congr hp (h _ (List.prefix_append _ _))] at hmarker
  rw [verifies_of_below (mount_finalDir folder) hp h]
  exact hc hmarker

/-- An entry of the folder is deleted. -/
theorem MarkerTells.remove {e : Event} {x : List Name} (hp : resolve (finalDir folder) = some p)
    (hfirst : MarkerGoesFirst J folder e) (hx : Removes e x)
    (hc : MarkerTells J folder e.before.card) : MarkerTells J folder (e.before.card.remove x) := by
  intro hmarker
  obtain ⟨path, hremoved, hx⟩ := hx
  by_cases hxm : x = p ++ [okName]
  · by_cases hcan : e.before.card.CanRemove x
    · rw [hasMarker, resolve_marker hp, Option.bind_some, Tree.get_remove hcan, if_pos hxm.symm]
        at hmarker
      cases hmarker
    · rw [Tree.remove, dif_neg hcan] at hmarker ⊢
      exact hc hmarker
  · rw [hasMarker_congr hp (Tree.get_remove_of_ne (Ne.symm hxm))] at hmarker
    rw [(verifies_of_agree fun path' hpath' y hy => ?_).1]
    · exact hc hmarker
    · apply Tree.get_remove_of_ne
      rintro rfl
      refine hfirst.1 path hremoved hmarker ?_ path' hpath' (hy.trans hx.symm)
      rw [hx, resolve_marker hp]
      exact fun h => hxm (Option.some.inj h)

theorem markerGoesFirst_phases (hp : resolve (finalDir folder) = some p)
    (hq : resolve (tmpDir folder) = some q) (hpq : ∀ x, p <+: x → ¬ q <+: x) :
    Phases (machine.restrict (MarkerGoesFirst J folder)) J folder p q (MarkerTells J folder)
      (MarkerTells J folder)
      (fun c => MarkerTells J folder c ∧ verifies J c (tmpDir folder) = true)
      (fun c => verifies J c (finalDir folder) = true) (Complete J folder p) where
  admits := fun _ _ _ _ hm => hm.1
  clearTmp := by
    intro e x _ _ hqx hc
    apply hc.of_below hp
    intro y hy
    apply Tree.get_remove_of_ne
    rintro rfl
    exact hpq _ hy hqx
  mkdir := by
    intro c _ _ hc
    apply hc.of_below hp
    intro y hy
    apply Tree.get_put_of_ne
    rintro rfl
    exact hpq _ hy (List.prefix_refl _)
  fill := fun hagree hc => hc.of_below hp fun y hy => hagree y fun hwithin => hpq y hy hwithin.1
  giveUp := id
  verified := And.intro
  clearFinal := by
    rintro e x hm hx hpx ⟨hc, htmp⟩
    refine ⟨hc.remove hp hm.2 hx, ?_⟩
    rwa [verifies_tmp_of_remove hq hpq hpx]
  noSwap := And.left
  swap := by
    intro c hmove hc
    rw [verifies_final_of_move hp hq hmove]
    exact hc.2
  swapped := fun hc _ => hc
  mark := fun hm helse hmarker hc => complete_of_mark hp hm.2.2 helse hmarker hc
  marking := fun hagree hc => hc.marking hp hpq hagree
  marked := fun hc _ => hc.1

/-- From a card where it does, the marker of the folder stands for a complete
package in every state of any number of downloads, whichever calls fail and
wherever the power is lost, as long as each deletion of a package begins with its
marker, and no package lists its marker. -/
theorem downloads_keep_marker (hfolder : FolderName folder)
    (hruns : Downloaded J folder (MarkerGoesFirst J folder) s t)
    (hclosed : ∀ f, s.writer f = none)
    (hs : hasMarker s.card folder = true → verifies J s.card (finalDir folder) = true)
    (hmarker : hasMarker t.card folder = true) : verifies J t.card (finalDir folder) = true := by
  cases hp : resolve (finalDir folder) with
  | none =>
      rw [hasMarker, resolve_sub (mount_finalDir folder), hp] at hmarker
      cases hmarker
  | some p =>
      obtain ⟨d, n, m, rfl, hq, hne⟩ := resolve_dirs hfolder hp
      exact downloaded_phases (markerGoesFirst_phases hp hq fun _ => apart_of_neighbours hne) hp hq
        hruns hclosed hs hmarker

end Runs

section Sample

/-- A card with the package of `mozart` and its marker. -/
def markedCard : DirTree.Tree Name Bytes :=
  cardOf [("/sdcard/mozart".toList, .dir),
    ("/sdcard/mozart/.ok".toList, .file okContent),
    ("/sdcard/mozart/manifest.json".toList, .file mozart.manifestText),
    ("/sdcard/mozart/a.mp3".toList, .file [7, 8])]

/-- Every call succeeds but for the `rename` of the directory. -/
def renameFailing (o : Call) (_ : World) : Fate :=
  match o with
  | .fs (.rename _ dst) => if dst = finalDir "mozart".toList then .fails else .ok
  | _ => .ok

/-- The power is lost when the manifest of `mozart` is to be deleted. -/
def cutInDelete (o : Call) (_ : World) : Fate :=
  match o with
  | .fs (.unlink path) => if path = sub (finalDir "mozart".toList) manifestName then .cut else .ok
  | _ => .ok

theorem downloaded_play (fate : Call → World → Fate) (card : DirTree.Tree Name Bytes)
    {cond : Event → Prop}
    (hcond : ∀ e ∈ (mozart.play fate "mozart".toList card).2.2, cond e) :
    Downloaded mozart.cjson "mozart".toList cond (World.boot card)
      (mozart.play fate "mozart".toList card).2.1 :=
  ⟨_, _, _, _, Boots.refl _, ⟨_, _, _, rfl⟩, mozart.steps_play fate _ card, hcond⟩

/-- The package of `mozart` is replaced by the same one. -/
theorem downloads_keep_package_mozart :
    verifies mozart.cjson (mozart.play (fun _ _ => .ok) "mozart".toList markedCard).2.1.card
        (finalDir "mozart".toList) = true ∨
      verifies mozart.cjson (mozart.play (fun _ _ => .ok) "mozart".toList markedCard).2.1.card
        (tmpDir "mozart".toList) = true := by
  have hcond : ∀ e ∈ (mozart.play (fun _ _ => .ok) "mozart".toList markedCard).2.2,
      SwapsSafely mozart.cjson "mozart".toList e := by
    decide +kernel
  apply downloads_keep_package (by decide) (downloaded_play _ _ hcond) fun _ => rfl
  decide +kernel

/-- The old package is deleted, the new one cannot be moved to its place and is
deleted as well. -/
theorem downloads_lose_package : ∃ t,
    Downloaded mozart.cjson "mozart".toList (fun _ => True) (World.boot markedCard) t ∧
    verifies mozart.cjson markedCard (finalDir "mozart".toList) = true ∧
    ¬ (verifies mozart.cjson t.card (finalDir "mozart".toList) = true ∨
      verifies mozart.cjson t.card (tmpDir "mozart".toList) = true) := by
  refine ⟨_, downloaded_play renameFailing markedCard fun _ _ => trivial, ?_, ?_⟩
  · decide +kernel
  · decide +kernel

/-- The first download of `mozart` leaves a marker. -/
theorem downloads_keep_marker_mozart :
    hasMarker (mozart.play (fun _ _ => .ok) "mozart".toList (cardOf [])).2.1.card "mozart".toList =
        true ∧
      verifies mozart.cjson (mozart.play (fun _ _ => .ok) "mozart".toList (cardOf [])).2.1.card
        (finalDir "mozart".toList) = true := by
  have hcond : ∀ e ∈ (mozart.play (fun _ _ => .ok) "mozart".toList (cardOf [])).2.2,
      MarkerGoesFirst mozart.cjson "mozart".toList e := by
    decide +kernel
  have hmarker : hasMarker (mozart.play (fun _ _ => .ok) "mozart".toList (cardOf [])).2.1.card
      "mozart".toList = true := by
    decide +kernel
  refine ⟨hmarker, ?_⟩
  apply downloads_keep_marker (by decide) (downloaded_play _ _ hcond) (fun _ => rfl) ?_ hmarker
  decide +kernel

/-- The power is lost after the first file of the old package is deleted, and its
marker is still there. -/
theorem downloads_leave_marker : ∃ t,
    Downloaded mozart.cjson "mozart".toList (fun _ => True) (World.boot markedCard) t ∧
    (hasMarker markedCard "mozart".toList = true →
      verifies mozart.cjson markedCard (finalDir "mozart".toList) = true) ∧
    hasMarker t.card "mozart".toList = true ∧
    verifies mozart.cjson t.card (finalDir "mozart".toList) = false := by
  refine ⟨_, downloaded_play cutInDelete markedCard fun _ _ => trivial, ?_, ?_, ?_⟩
  · decide +kernel
  · decide +kernel
  · decide +kernel

end Sample

end Download

end SimiboxDownloader
