import SimiboxDownloader.Download.Working

/-!
# A download in which every call succeeds

What the steps of `download_simi_folder` do to the directories when every call
succeeds: a directory is deleted with all that is in it, the files of an `Installable`
list are all put (`downloadFiles_works`), the verification agrees
(`verifyDownloadIntegrity_works`) and the directories are swapped.
-/

namespace SimiboxDownloader

namespace Download

open Interaction Interaction.Stateful DirTree

variable {v : Server} {R : Prop} {J : CJson} {st : Statics} {w : World} {p q d : List Name}
  {dir : Str}

section Deletion

theorem deletes_working (hd : R → d ≠ []) : Deletes (working v) (Answered v R) d where
  admits := fun _ _ _ _ hm => hm.1
  opendir := fun hm => hm.2.1
  unlink := fun hm => hm.2.1
  rmdir := fun hm => hm.2.1
  file := fun hx hm hdir _ => Or.inl (not_isDir_of_stat hx hm.2.1 hdir)
  permits := by
    intro o s ho hdiv
    cases o with
    | fs c =>
        cases c with
        | stat | opendir | unlink => exact answered_fs fun _ => trivial
        | rmdir path =>
            refine answered_fs fun hR hr x hx => ?_
            by_contra hcon
            rw [not_or, not_not, ← ne_eq, Option.ne_none_iff_isSome] at hcon
            have hne : x ≠ [] := by
              rintro rfl
              exact hd hR (List.prefix_nil.1 (ho.2 [] hx))
            have hcan : s.card.CanRemove x := ⟨hne, hcon.1, hcon.2⟩
            simp only [fsDo, World.unlink, hx, if_pos hcan] at hr
            cases hr
        | _ => exact ho.elim
    | diverge => exact absurd rfl hdiv
    | _ => exact ho.elim

/-- `if (stat(dir) == 0) delete_tree(dir);` on a directory or on nothing. -/
theorem deleteExisting_works {depth : ℕ} (hm : mountPrefix <+: dir) (hd : resolve dir = some d)
    (hne : R → d ≠ []) (hfile : ∀ data, w.card.get d ≠ some (.file data))
    (hdepth : R → ∀ x, d <+: x → (w.card.get x).isSome = true → x.length < d.length + depth) :
    Ensures (working v) (Answered v R) (fun _ st' t => st' = st ∧ Gone d w t)
      (deleteExisting depth dir) st w := by
  refine ensures_fs (answered_fs fun _ => trivial) fun info t hm' => ?_
  obtain ⟨rfl, rfl⟩ := stat_ok hm'.2.1
  rw [hd, Option.bind_some]
  cases hget : t.card.get d with
  | none =>
      refine ensures_pure ⟨rfl, rfl, fun x => ?_⟩
      split
      · next hx => exact Tree.get_none_below hget hx
      · rfl
  | some e =>
      cases e with
      | file data => exact absurd hget (hfile data)
      | dir =>
          refine deleteTree_removes (deletes_working hne) depth hm hd (List.prefix_refl d)
            ?_ ?_ hget
          · rintro rfl s u hchildren hrmdir
            rcases hrmdir.2.2 rfl [] hd with hnone | hsome
            · rw [s.card.root] at hnone
              cases hnone
            · exact hsome hchildren
          · by_cases hR : R
            · exact Or.inr (hdepth hR)
            · exact Or.inl fun _ h => absurd h hR

end Deletion

/-- A list whose files can be installed. It has a manifest, whose entries match the
bodies; its names are plain and distinct, none of them the marker or another one with
`.part`. -/
structure Installable (J : CJson) (v : Server) (files : List FileItem) : Prop where
  delivers : ∀ item ∈ files, v.Delivers item.url
  plain : ∀ item ∈ files, Plain item.name
  unmarked : ∀ item ∈ files, item.name ≠ okMarker
  distinct : (files.map FileItem.name).Nodup
  parts : ∀ item ∈ files, ∀ other ∈ files, item.name ≠ part other.name
  manifest : ∃ item ∈ files, item.name = manifestName ∧ ∃ entries,
    manifestFiles J (v.body item.url) = some entries ∧ ∀ entry ∈ entries, ∀ name size,
      manifestEntry entry = some (name, size) →
        ∃ file ∈ files, file.name = name ∧ (v.body file.url).length = size

section Loop

variable {base c : Tree Name Bytes} {all done files : List FileItem}

/-- A directory with nothing in it. -/
structure Bare (q : List Name) (base : Tree Name Bytes) : Prop where
  dir : base.get q = some .dir
  below : ∀ n, base.get (q ++ [n]) = none

/-- The files of `done` are in the directory, and nothing else has changed. -/
structure Stored (dir : Str) (v : Server) (base : Tree Name Bytes) (done : List FileItem)
    (c : Tree Name Bytes) : Prop where
  file : ∀ item ∈ done, fileAt c (sub dir item.name) = some (v.body item.url)
  rest : ∀ x, (∀ item ∈ done, resolve (sub dir item.name) ≠ some x) → c.get x = base.get x

theorem plain_part {name : Str} (h : Plain name) : Plain (part name) := by
  refine ⟨by simp [part], by simp [part, h.2.1], ?_, ?_⟩ <;>
    · intro heq
      have hlen := congrArg List.length heq
      simp [part] at hlen

variable (hm : mountPrefix <+: dir) (hq : resolve dir = some q)

include hm hq

/-- The spot of a file with a plain name. -/
theorem spot_of_plain {n : Name} : Spot q n ⟨part n.val, plain_part n.plain⟩ (sub dir n.val) := by
  refine ⟨fun heq => ?_, resolve_entry hm hq n, ?_⟩
  · have hlen := congrArg (fun n => n.val.length) heq
    simp [part] at hlen
  · rw [part_sub]
    exact resolve_entry hm hq ⟨part n.val, plain_part n.plain⟩

/-- Where nothing of `done` is there is nothing. -/
theorem Stored.none {n : Name} (h : Stored dir v base done c) (hbase : Bare q base)
    (hplain : ∀ item ∈ done, Plain item.name) (hn : ∀ item ∈ done, item.name ≠ n.val) :
    c.get (q ++ [n]) = none := by
  rw [h.rest, hbase.below]
  intro item hitem hresolve
  rw [resolve_entry hm hq ⟨item.name, hplain item hitem⟩] at hresolve
  have heq := (List.cons.inj (List.append_cancel_left (Option.some.inj hresolve))).1
  exact hn item hitem (congrArg Name.val heq)

theorem Stored.get_dir (h : Stored dir v base done c) (hbase : Bare q base)
    (hplain : ∀ item ∈ done, Plain item.name) : c.get q = some .dir := by
  rw [h.rest, hbase.dir]
  intro item hitem hresolve
  rw [resolve_entry hm hq ⟨item.name, hplain item hitem⟩] at hresolve
  simpa using Option.some.inj hresolve

/-- One more file. -/
theorem Stored.put {item : FileItem} {n m : Name} {t : World} (h : Stored dir v base done c)
    (hbase : Bare q base) (hplain : ∀ other ∈ done, Plain other.name)
    (hspot : Spot q n m (sub dir item.name)) (hn : ∀ other ∈ done, other.name ≠ n.val)
    (hpart : ∀ other ∈ done, other.name ≠ m.val)
    (hplaced : Placed c (q ++ [m]) (q ++ [n]) True (v.body item.url) t) :
    Stored dir v base (done ++ [item]) t.card := by
  obtain ⟨helse, -, hgone, data, hdata, hsound⟩ := hplaced
  have hother {other : FileItem} (hmem : other ∈ done) {k : Name} (hk : other.name ≠ k.val) :
      (⟨other.name, hplain other hmem⟩ : Name) ≠ k := fun heq => hk (congrArg Name.val heq)
  refine ⟨fun other hmem => ?_, fun x hx => ?_⟩
  · rcases List.mem_append.1 hmem with hmem | hmem
    · obtain ⟨x, hx, hget⟩ := fileAt_eq_some.1 (h.file other hmem)
      have hx' := resolve_entry hm hq ⟨other.name, hplain other hmem⟩
      rw [hx] at hx'
      cases hx'
      refine fileAt_eq_some.2 ⟨_, hx, ?_⟩
      rw [helse, hget]
      · simpa using hother hmem (hpart other hmem)
      · simpa using hother hmem (hn other hmem)
    · rw [List.mem_singleton.1 hmem]
      refine fileAt_eq_some.2 ⟨_, hspot.file, ?_⟩
      rw [hdata, hsound trivial]
  · have hxn : x ≠ q ++ [n] := by
      rintro rfl
      exact hx item (by simp) hspot.file
    by_cases hxm : x = q ++ [m]
    · rw [hxm, hgone, hbase.below]
    · rw [helse x hxm hxn]
      exact h.rest x fun other hmem => hx other (List.mem_append_left _ hmem)

/-- The file loop. -/
theorem downloadFiles_works (hall : Installable J v all) (hbase : Bare q base)
    (heq : all = done ++ files) (hst : Ready st) (h : Stored dir v base done w.card) :
    Ensures (working v) (Answered v R) (fun r _ t => (∃ contents, r = .ok contents) ∧
      Stored dir v base all t.card) (downloadFiles dir files) st w := by
  induction files generalizing done st w with
  | nil =>
      rw [List.append_nil] at heq
      rw [heq]
      exact ensures_pure ⟨⟨[], rfl⟩, h⟩
  | cons item items ih =>
      have hmem : item ∈ all := by
        rw [heq]
        simp
      have hdone (other : FileItem) (hother : other ∈ done) : other ∈ all := by
        rw [heq]
        exact List.mem_append_left _ hother
      have hplain (other : FileItem) (hother : other ∈ done) : Plain other.name :=
        hall.plain other (hdone other hother)
      have hnames : ∀ other ∈ done, other.name ≠ item.name := by
        have hnodup := hall.distinct
        rw [heq, List.map_append, List.map_cons] at hnodup
        intro other hother
        exact (List.nodup_append.1 hnodup).2.2 _ (List.mem_map_of_mem hother) _ List.mem_cons_self
      have hparts (other : FileItem) (hother : other ∈ done) : other.name ≠ part item.name :=
        hall.parts other (hdone other hother) item hmem
      have hspot := @spot_of_plain _ _ hm hq ⟨item.name, hall.plain item hmem⟩
      apply updateLedProgress_works.bind
      rintro _ st w₁ ⟨rfl, hsame⟩
      rw [← hsame.card] at h
      have hvacant : Vacant q ⟨item.name, hall.plain item hmem⟩
          ⟨part item.name, plain_part (hall.plain item hmem)⟩ w₁.card :=
        ⟨h.get_dir hm hq hbase hplain, h.none hm hq hbase hplain hnames,
          h.none hm hq hbase hplain hparts⟩
      apply (downloadFile_works hspot (hall.delivers item hmem) hvacant hst).bind
      rintro _ st w₂ ⟨rfl, hst, hplaced⟩
      have hput := h.put hm hq hbase hplain hspot hnames hparts hplaced
      refine ensures_fs (answered_fs fun _ => trivial) fun info w₃ hm₃ => ?_
      obtain rfl : w₃ = w₂ := (stat_ok hm₃.2.1).1
      apply (ih (heq.trans (List.append_cons done item items)) hst hput).bind
      rintro _ st w₄ ⟨⟨contents, rfl⟩, hstored⟩
      exact ensures_pure ⟨⟨_, rfl⟩, hstored⟩

end Loop

section Verification

variable {path : Str} {text : Bytes} {base : Tree Name Bytes} {files : List FileItem}

theorem readTextFile_works (htext : fileAt w.card path = some text)
    (hsmall : text.length < 2 ^ 31) :
    Ensures (working v) (Answered v R) (fun r st' t => r = .text text ∧ st' = st ∧
      t.card = w.card) (readTextFile path) st w := by
  obtain ⟨x, hx, hget⟩ := fileAt_eq_some.1 htext
  refine ensures_fs (answered_fs fun _ => trivial) fun file? w₁ hm₁ => ?_
  rcases fopen_rb_ok hm₁.2.1 with ⟨-, -, hnone⟩ | ⟨data, hdata, rfl, h₁⟩
  · refine absurd ?_ (hnone text)
    rw [hx, Option.bind_some, hget]
  · rw [hx, Option.bind_some, hget] at hdata
    cases hdata
    refine ensures_fs (answered_fs fun _ => trivial) fun _ w₂ hm₂ => ?_
    have h₂ := h₁.fseek_ok hm₂.2.1
    refine ensures_fs (answered_fs fun _ => trivial) fun size? w₃ hm₃ => ?_
    obtain ⟨rfl, rfl⟩ := h₂.ftell_ok hm₃.2.1
    rw [if_pos rfl, if_pos hsmall]
    refine ensures_fs (answered_fs fun _ => trivial) fun _ w₄ hm₄ => ?_
    have h₄ := h₂.fseek_ok hm₄.2.1
    refine ensures_fs (answered_fs fun _ => trivial) fun got w₅ hm₅ => ?_
    obtain ⟨rfl, h₅⟩ := h₄.fread_ok hm₅.2.1
    refine ensures_fs (answered_fs fun _ => trivial) fun _ w₆ hm₆ => ?_
    rw [if_neg Bool.false_ne_true, List.drop_zero, List.take_length, if_pos rfl]
    exact ensures_pure ⟨rfl, rfl, h₅.fclose hm₆.1⟩

theorem verifyItem_works {entry : Json} (h : itemVerifies w.card dir entry = true) :
    Ensures (working v) (Answered v R) (fun r st' t => r = true ∧ st' = st ∧ t.card = w.card)
      (verifyItem dir entry) st w := by
  unfold verifyItem
  unfold itemVerifies at h
  cases hentry : manifestEntry entry with
  | none => exact ensures_pure ⟨rfl, rfl, rfl⟩
  | some nameSize =>
      rw [hentry] at h
      have hsize := of_decide_eq_true h
      refine ensures_fs (answered_fs fun _ => trivial) fun info t hm => ?_
      obtain ⟨rfl, rfl⟩ := stat_ok hm.2.1
      refine ensures_pure ⟨decide_eq_true ?_, rfl, rfl⟩
      rw [← hsize, sizeAt, Option.map_map]
      rfl

theorem verifyItems_works {entries : List Json}
    (h : ∀ entry ∈ entries, itemVerifies w.card dir entry = true) :
    Ensures (working v) (Answered v R) (fun r st' t => r = true ∧ st' = st ∧ t.card = w.card)
      (verifyItems dir entries) st w := by
  induction entries generalizing w with
  | nil => exact ensures_pure ⟨rfl, rfl, rfl⟩
  | cons entry entries ih =>
      obtain ⟨hentry, hrest⟩ := List.forall_mem_cons.1 h
      apply (verifyItem_works hentry).bind
      rintro _ _ t ⟨rfl, rfl, hcard⟩
      rw [← hcard] at hrest
      apply (ih hrest).bind
      rintro _ _ u ⟨rfl, rfl, hcard'⟩
      exact ensures_pure ⟨rfl, rfl, hcard'.trans hcard⟩

/-- The verification of a directory that verifies. -/
theorem verifyDownloadIntegrity_works {entries : List Json}
    (htext : fileAt w.card (sub dir manifestName) = some text) (hsmall : text.length < 2 ^ 31)
    (hentries : manifestFiles J text = some entries)
    (h : ∀ entry ∈ entries, itemVerifies w.card dir entry = true) :
    Ensures (working v) (Answered v R) (fun r st' t => r = .ok ∧ st' = st ∧ t.card = w.card)
      (verifyDownloadIntegrity J dir) st w := by
  apply (readTextFile_works htext hsmall).bind
  rintro _ _ t ⟨rfl, rfl, hcard⟩
  dsimp only
  rw [hentries]
  rw [← hcard] at h
  apply (verifyItems_works h).bind
  rintro _ _ u ⟨rfl, rfl, hcard'⟩
  exact ensures_pure ⟨rfl, rfl, hcard'.trans hcard⟩

/-- What was stored verifies. -/
theorem Stored.verifies {c : Tree Name Bytes} (h : Stored dir v base files c)
    (hfiles : Installable J v files) : ∃ text entries,
      fileAt c (sub dir manifestName) = some text ∧ text.length < 2 ^ 31 ∧
      manifestFiles J text = some entries ∧
      ∀ entry ∈ entries, itemVerifies c dir entry = true := by
  obtain ⟨item, hitem, hname, entries, hentries, hmatch⟩ := hfiles.manifest
  refine ⟨v.body item.url, entries, ?_, (hfiles.delivers item hitem).small, hentries,
    fun entry hentry => ?_⟩
  · rw [← hname]
    exact h.file item hitem
  · unfold itemVerifies
    cases hlisted : manifestEntry entry with
    | none => rfl
    | some nameSize =>
        obtain ⟨file, hfile, hname, hsize⟩ := hmatch entry hentry nameSize.1 nameSize.2 hlisted
        obtain ⟨x, hx, hget⟩ := fileAt_eq_some.1 (h.file file hfile)
        have hsmall := (hfiles.delivers file hfile).small
        apply decide_eq_true
        rw [← hname, sizeAt, hx, Option.bind_some, hget, Option.map_some]
        change some ((v.body file.url).length % 2 ^ 32) = some nameSize.2
        rw [← hsize, Nat.mod_eq_of_lt (by omega)]

end Verification

section Swap

variable {folder : Str} {depth : ℕ} {base : Tree Name Bytes} {files : List FileItem}

/-- Writing the marker. -/
theorem writeMarker_works {path : Str} {x : List Name} (hx : resolve path = some x)
    (hput : w.card.CanPut x) :
    Ensures (working v) (Answered v R) (fun _ _ t => (∀ y, y ≠ x → t.card.get y = w.card.get y) ∧
      t.card.get x = some (.file okContent)) (writeMarker path) st w := by
  refine ensures_fs (answered_fs fun _ => trivial) fun file? w₁ hm₁ => ?_
  obtain ⟨file, rfl⟩ := fopen_works hx hput hm₁.2.1
  obtain ⟨x', hx', h₁⟩ := writing_of_fopen hm₁.1
  rw [hx] at hx'
  cases hx'
  refine ensures_fs (answered_fs fun _ => trivial) fun put w₂ hm₂ => ?_
  obtain rfl := h₁.fputs_works hm₂.2.1
  have h₂ := h₁.fputs hm₂.1
  refine ensures_fs (answered_fs fun _ => trivial) fun flushed w₃ hm₃ => ?_
  obtain rfl := h₂.fflush_works hm₃.2.1
  have h₃ := h₂.fflush hm₃.1
  refine ensures_fs (answered_fs fun _ => trivial) fun synced w₄ hm₄ => ?_
  obtain rfl := h₃.fsync_works hm₄.2.1
  have h₄ := h₃.fsync hm₄.1
  refine ensures_fs (answered_fs fun _ => trivial) fun closed w₅ hm₅ => ?_
  obtain rfl := h₄.fclose_works hm₅.2.1
  obtain ⟨helse, data, hdata, hsound⟩ := h₄.fclose hm₅.1
  refine ensures_pure ⟨helse, ?_⟩
  rw [hdata, hsound ⟨⟨⟨⟨trivial, rfl⟩, rfl⟩, rfl⟩, rfl⟩, List.nil_append]

/-- The directory at `q` of `c` is at `p`, with the marker in it, and no longer at `q`. -/
structure Swapped (p q : List Name) (c c' : Tree Name Bytes) : Prop where
  moved : ∀ r, r ≠ [okName] → c'.get (p ++ r) = c.get (q ++ r)
  marker : c'.get (p ++ [okName]) = some (.file okContent)
  gone : c'.get q = none

variable (hp : resolve (finalDir folder) = some p) (hq : resolve (tmpDir folder) = some q)

include hp hq

/-- From the deletion of the old directory on. -/
theorem swapFolder_works {contents : List Bytes} (hdir : w.card.get q = some .dir)
    (hmark : w.card.get (q ++ [okName]) = none) (hfile : ∀ data, w.card.get p ≠ some (.file data))
    (hparent : ¬ p <+: q → ¬ q <+: p ∧ w.card.get p.dropLast = some .dir)
    (hR : R → ¬ p <+: q)
    (hdepth : R → ∀ x, p <+: x → (w.card.get x).isSome = true → x.length < p.length + depth) :
    Ensures (working v) (Answered v R) (fun e _ t => e = .installed contents ∧
      Swapped p q w.card t.card) (swapFolder depth folder contents) st w := by
  have hnil {x y : List Name} (h : ¬ x <+: y) : x ≠ [] := by
    rintro rfl
    exact h List.nil_prefix
  apply (deleteExisting_works (mount_finalDir folder) hp (fun h => hnil (hR h)) hfile hdepth).bind
  rintro _ st w₁ ⟨rfl, -, hgone⟩
  have hnone : w₁.card.get p = none := by
    rw [hgone, if_pos (List.prefix_refl p)]
  have hcan (hpq : ¬ p <+: q) : w₁.card.CanMove q p := by
    obtain ⟨hqp, hparent⟩ := hparent hpq
    refine ⟨hnil hqp, ?_, hnil hpq, ?_, hnone, hqp⟩
    · rw [hgone, if_neg hpq, hdir]
      rfl
    · rw [Tree.isDir_iff, hgone, if_neg, hparent]
      intro hpre
      have hlen := hpre.length_le
      have hpos := List.length_pos_iff.2 (hnil hpq)
      rw [List.length_dropLast] at hlen
      omega
  refine ensures_fs (answered_fs fun h => ?_) fun renamed w₂ hm₂ => ?_
  · rw [Granted, rename_works hq hp (hcan (hR h)) (fsOk_fsDo _ w₁)]
    simp
  · rcases rename_cases hm₂.1 with ⟨rfl, rfl⟩ | ⟨rfl, x, y, hx, hy, hmove, rfl⟩
    · have hthere := hm₂.2.2 rfl
      rw [isThere, hp, Option.bind_some, hnone] at hthere
      cases hthere
    · rw [hq] at hx
      rw [hp] at hy
      cases hx
      cases hy
      have hapart {r : List Name} : w₁.card.get (q ++ r) = w.card.get (q ++ r) := by
        rw [hgone, if_neg (Tree.apart_of_canMove hmove (List.prefix_append q r))]
      have hmoved (r : List Name) : (w₁.card.move q p).get (p ++ r) = w.card.get (q ++ r) := by
        rw [Tree.get_move_append hmove, hapart]
      have hput : (w₁.card.move q p).CanPut (p ++ [okName]) := by
        refine ⟨by simp, ?_, ?_⟩
        · rw [List.dropLast_concat, Tree.isDir_iff]
          have hself := hmoved []
          rwa [List.append_nil, List.append_nil, hdir] at hself
        · rw [Tree.isDir, hmoved, hmark]
      apply (writeMarker_works (resolve_marker hp) hput).bind
      rintro _ st t ⟨helse, hcontent⟩
      refine ensures_pure ⟨rfl, fun r hr => ?_, hcontent, ?_⟩
      · rw [helse _ fun heq => hr (List.append_cancel_left heq)]
        exact hmoved r
      · have hqp : ¬ p <+: q := Tree.apart_of_canMove hmove (List.prefix_refl q)
        rw [helse]
        · dsimp only
          rw [Tree.get_move hmove, if_neg hqp, if_pos (List.prefix_refl q)]
        · rintro rfl
          exact hqp (List.prefix_append p [okName])

end Swap

section Whole

variable {folder lambdaUrl : Str} {depth : ℕ} {files : List FileItem} {m : Name}

/-- The folder holds the files of the list with their bodies and the marker, and
nothing else. -/
structure HoldsExactly (v : Server) (files : List FileItem) (folder : Str)
    (c : Tree Name Bytes) : Prop where
  dir : (resolve (finalDir folder)).bind c.get = some .dir
  file : ∀ item ∈ files, fileAt c (sub (finalDir folder) item.name) = some (v.body item.url)
  marker : fileAt c (sub (finalDir folder) okMarker) = some okContent
  only : ∀ x r, resolve (finalDir folder) = some x → r ≠ [] → (c.get (x ++ r)).isSome = true →
    rel okMarker = some r ∨ ∃ item ∈ files, rel item.name = some r

/-- What a download starts from: the folder is the directory `d` of its temporary
directory or lies beside it, and none of the two is a file. -/
structure Starts (folder : Str) (p d : List Name) (m : Name) (c : Tree Name Bytes) : Prop where
  final : resolve (finalDir folder) = some p
  tmp : resolve (tmpDir folder) = some (d ++ [m])
  places : p = d ∨ ∃ n, n ≠ m ∧ p = d ++ [n]
  finalFile : ∀ data, c.get p ≠ some (.file data)
  tmpFile : ∀ data, c.get (d ++ [m]) ≠ some (.file data)

theorem holdsExactly_of_swapped {base c c' : Tree Name Bytes} (h : Starts folder p d m c)
    (hfiles : Installable J v files) (hbase : Bare (d ++ [m]) base)
    (hstored : Stored (tmpDir folder) v base files c) (hswapped : Swapped p (d ++ [m]) c c') :
    HoldsExactly v files folder c' ∧ isThere c' (tmpDir folder) = false := by
  have hname {n : Name} (hn : n.val ≠ okMarker) : [n] ≠ [okName] := by
    intro heq
    exact hn (congrArg Name.val (List.cons.inj heq).1)
  refine ⟨⟨?_, fun item hitem => ?_, fileAt_eq_some.2 ⟨_, resolve_marker h.final, hswapped.marker⟩,
    fun x r hx hr hsome => ?_⟩, ?_⟩
  · have hdir := hstored.get_dir (mount_tmpDir folder) h.tmp hbase hfiles.plain
    have hself := hswapped.moved [] nofun
    rwa [List.append_nil, List.append_nil, hdir, ← Option.bind_some p c'.get, ← h.final] at hself
  · obtain ⟨x, hx, hget⟩ := fileAt_eq_some.1 (hstored.file item hitem)
    have hplain := hfiles.plain item hitem
    rw [resolve_entry (mount_tmpDir folder) h.tmp ⟨item.name, hplain⟩] at hx
    cases hx
    refine fileAt_eq_some.2 ⟨_, resolve_entry (mount_finalDir folder) h.final
      ⟨item.name, hplain⟩, ?_⟩
    rw [hswapped.moved _ (hname (hfiles.unmarked item hitem)), hget]
  · rw [h.final] at hx
    cases hx
    by_cases hok : r = [okName]
    · rw [hok]
      exact Or.inl (rel_name okName)
    · right
      rw [hswapped.moved r hok] at hsome
      by_contra hnot
      rw [hstored.rest] at hsome
      · obtain ⟨n, r, rfl⟩ := List.exists_cons_of_ne_nil hr
        rw [Tree.get_none_below (hbase.below n) ⟨r, by simp⟩] at hsome
        cases hsome
      · intro item hitem hresolve
        obtain ⟨y, r', hy, hr', heq⟩ := (resolve_sub_eq_some (mount_tmpDir folder)).1 hresolve
        rw [h.tmp] at hy
        cases hy
        rw [← List.append_cancel_left heq] at hr'
        exact hnot ⟨item, hitem, hr'⟩
  · rw [isThere, h.tmp, Option.bind_some, hswapped.gone]
    rfl

variable (hfiles : Installable J v files) (hR : R → ¬ p <+: d ++ [m])

include hfiles hR

/-- From the verification on. -/
theorem verifyAndSwap_works {base : Tree Name Bytes} {contents : List Bytes}
    (h : Starts folder p d m w.card) (hbase : Bare (d ++ [m]) base)
    (hstored : Stored (tmpDir folder) v base files w.card) (hd : w.card.get d = some .dir)
    (hdepth : R → ∀ x, p <+: x → (w.card.get x).isSome = true → x.length < p.length + depth) :
    Ensures (working v) (Answered v R) (fun e _ t => e.ret = true ∧
      HoldsExactly v files folder t.card ∧ isThere t.card (tmpDir folder) = false)
      (verifyAndSwap J depth folder contents) st w := by
  obtain ⟨text, entries, htext, hsmall, hentries, hitems⟩ := hstored.verifies hfiles
  apply (verifyDownloadIntegrity_works htext hsmall hentries hitems).bind
  rintro _ st s ⟨rfl, rfl, hcard⟩
  rw [← hcard] at h hstored hd hdepth
  have hdir := hstored.get_dir (mount_tmpDir folder) h.tmp hbase hfiles.plain
  have hmark := hstored.none (n := okName) (mount_tmpDir folder) h.tmp hbase hfiles.plain
    hfiles.unmarked
  refine (swapFolder_works h.final h.tmp hdir hmark h.finalFile ?_ hR hdepth).imp ?_
  · intro hpq
    rcases h.places with rfl | ⟨n, hn, rfl⟩
    · exact absurd (List.prefix_append _ _) hpq
    · rw [List.dropLast_concat]
      exact ⟨not_prefix_of_neighbours (Ne.symm hn), hd⟩
  · rintro _ _ t ⟨rfl, hswapped⟩
    exact ⟨rfl, holdsExactly_of_swapped h hfiles hbase hstored hswapped⟩

omit hfiles hR

/-- Making the temporary directory, where nothing is. -/
theorem mkdir_works {path : Str} {k : Bool → Action FolderEnd}
    {Q : FolderEnd → Statics → World → Prop}
    (hq : resolve path = some q) (hnone : w.card.get q = none) (hput : R → w.card.CanPut q)
    (hk : w.card.CanPut q → Ensures (working v) (Answered v R) Q (k true) st
      { w with card := w.card.put q .dir }) :
    Ensures (working v) (Answered v R) Q (fs (.mkdir path) >>= k) st w := by
  refine ensures_fs (answered_fs fun hR => ?_) fun made t hm => ?_
  · simp only [Granted, fsDo, hq, hnone, Option.isNone_none, hput hR, and_self, if_true]
    simp
  · rcases mkdir_cases hm.1 with ⟨rfl, rfl⟩ | ⟨rfl, x, hx, -, hput, rfl⟩
    · have hthere := hm.2.2 rfl
      rw [isThere, hq, Option.bind_some, hnone] at hthere
      cases hthere
    · rw [hq] at hx
      cases hx
      exact hk hput

theorem fetchList_works {items : List Json} (hlist : listedItems J v.list = some items) :
    Ensures (working v) (Answered v R) (fun r st' t => r = some items ∧ st' = st ∧ Same w t)
      (fetchList J folder lambdaUrl) st w := by
  refine ensures_dev (answered_dev _) fun client? w₁ hm₁ => ?_
  obtain ⟨client, rfl⟩ := Option.isSome_iff_exists.1 hm₁.2
  refine ensures_dev (answered_dev _) fun response w₂ hm₂ => ?_
  obtain rfl : response = v.list := hm₂.2
  refine ensures_dev (answered_dev _) fun _ w₃ hm₃ => ensures_pure ⟨hlist, rfl, ?_⟩
  exact ((same_dev hm₁).trans (same_dev hm₂)).trans (same_dev hm₃)

include hfiles hR

/-- From the temporary directory on. -/
theorem installFiles_works (h : Starts folder p d m w.card) (hst : Ready st)
    (hd : R → w.card.get d = some .dir)
    (hdepth : R → ∀ x, (w.card.get x).isSome = true → x.length < depth) :
    Ensures (working v) (Answered v R) (fun e _ t => e.ret = true ∧
      HoldsExactly v files folder t.card ∧ isThere t.card (tmpDir folder) = false)
      (installFiles J depth folder files) st w := by
  have hmount := mount_tmpDir folder
  have hdm : ¬ d ++ [m] <+: d := by
    intro hpre
    exact Nat.not_succ_le_self d.length (by simpa using hpre.length_le)
  apply (deleteExisting_works hmount h.tmp (fun _ => by simp) h.tmpFile fun hr x _ hx =>
    (hdepth hr x hx).trans_le (Nat.le_add_left _ _)).bind
  rintro _ st w₁ ⟨rfl, -, hgone⟩
  have hnone : w₁.card.get (d ++ [m]) = none := by
    rw [hgone, if_pos (List.prefix_refl _)]
  apply mkdir_works h.tmp hnone
  · intro hr
    refine ⟨by simp, ?_, ?_⟩
    · rw [List.dropLast_concat, Tree.isDir_iff, hgone, if_neg hdm, hd hr]
    · rw [Tree.isDir, hnone]
  intro hput
  have hbase : Bare (d ++ [m]) (w₁.card.put (d ++ [m]) .dir) := by
    refine ⟨by rw [Tree.get_put _ hput, if_pos rfl], fun n => ?_⟩
    rw [Tree.get_put_of_ne _ (by simp), Tree.get_none_below hnone (List.prefix_append _ _)]
  have hstart : Stored (tmpDir folder) v (w₁.card.put (d ++ [m]) .dir) []
      (w₁.card.put (d ++ [m]) .dir) := ⟨by simp, fun _ _ => rfl⟩
  apply (downloadFiles_works hmount h.tmp hfiles hbase (List.nil_append _).symm hst hstart).bind
  rintro _ st w₂ ⟨⟨contents, rfl⟩, hstored⟩
  -- nothing outside of the temporary directory has changed since the start
  have houtside (x : List Name) (hx : ¬ d ++ [m] <+: x) : w₂.card.get x = w.card.get x := by
    rw [hstored.rest, Tree.get_put_of_ne, hgone, if_neg hx]
    · rintro rfl
      exact hx (List.prefix_refl _)
    · intro item _ hresolve
      exact hx (((below_self hmount h.tmp).sub item.name).2 x hresolve)
  apply ((releaseAll_calls onlyDev_dev).same w₂).bind
  rintro _ st w₃ hsame₃
  refine ensures_dev (answered_dev _) fun _ w₄ hm₄ => ?_
  have hcard : w₄.card = w₂.card := (hsame₃.trans (same_dev hm₄)).card
  have hp : ¬ d ++ [m] <+: p := by
    rcases h.places with rfl | ⟨n, hn, rfl⟩
    · exact hdm
    · exact not_prefix_of_neighbours (Ne.symm hn)
  have hdir : w₂.card.get (d ++ [m]) = some .dir :=
    hstored.get_dir hmount h.tmp hbase hfiles.plain
  rw [← hcard] at hstored houtside hdir
  apply verifyAndSwap_works hfiles hR ?_ hbase hstored
  · apply w₄.card.closed d m
    rw [hdir]
    rfl
  · intro hr x hx hsome
    rcases h.places with rfl | ⟨n, hn, rfl⟩
    · exact absurd (List.prefix_append _ _) (hR hr)
    · rw [houtside x (apart_of_neighbours hn hx)] at hsome
      exact (hdepth hr x hsome).trans_le (Nat.le_add_left _ _)
  · refine { h with finalFile := ?_, tmpFile := ?_ }
    · rw [houtside p hp]
      exact h.finalFile
    · rw [hdir]
      simp

/-- A whole download. -/
theorem downloadSimiFolder_works {items : List Json} (hlist : listedItems J v.list = some items)
    (hitems : files = fileList items) (h : Starts folder p d m w.card) (hst : Ready st)
    (hd : R → w.card.get d = some .dir)
    (hdepth : R → ∀ x, (w.card.get x).isSome = true → x.length < depth) :
    Ensures (working v) (Answered v R) (fun e _ t => e.ret = true ∧
      HoldsExactly v files folder t.card ∧ isThere t.card (tmpDir folder) = false)
      (downloadSimiFolder J depth folder lambdaUrl) st w := by
  apply ensures_modify
  refine ensures_dev (answered_dev _) fun _ w₁ hm₁ => ?_
  apply (fetchList_works hlist).bind
  rintro _ st' w₂ ⟨rfl, rfl, hsame⟩
  have hcard : w₂.card = w.card := ((same_dev hm₁).trans hsame).card
  rw [← hcard] at h hd hdepth
  apply ensures_modify
  obtain ⟨item, hitem, hname, -⟩ := hfiles.manifest
  rw [if_pos]
  · apply ensures_modify
    rw [← hitems]
    exact installFiles_works hfiles hR h hst hd hdepth
  · rw [List.any_eq_true, ← hitems]
    exact ⟨item, hitem, decide_eq_true hname⟩

end Whole

end Download

end SimiboxDownloader
