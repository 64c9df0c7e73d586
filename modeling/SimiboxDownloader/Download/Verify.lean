import SimiboxDownloader.Download.Environment

/-!
# What the verification finds out

`verifies` says of a card and a directory what `verify_download_integrity` is
meant to find out there: the manifest can be read and parsed, and every entry
with a name and a size is there with that size. When the function returns true
it has found this out, whichever of its calls fail; when none fails it returns
true exactly then.
-/

namespace SimiboxDownloader

namespace Download

open Interaction

/-- The size of an entry, as a `size_t`. -/
def sizeAt (t : DirTree.Tree Name Bytes) (path : Str) : Option ℕ :=
  ((resolve path).bind t.get).map fun e => (statOf e).size % 2 ^ 32

/-- The content of a file `ftell` can measure. -/
def textAt (t : DirTree.Tree Name Bytes) (path : Str) : Option Bytes :=
  match (resolve path).bind t.get with
  | some (.file text) => if text.length < 2 ^ 31 then some text else none
  | _ => none

/-- An element of the `files` array; one without a name or a size is passed
over. -/
def itemVerifies (t : DirTree.Tree Name Bytes) (dir : Str) (item : Json) : Bool :=
  match manifestEntry item with
  | some (name, size) => decide (sizeAt t (sub dir name) = some size)
  | none => true

/-- The directory holds a complete package. -/
def verifies (J : CJson) (t : DirTree.Tree Name Bytes) (dir : Str) : Bool :=
  match (textAt t (sub dir manifestName)).bind (manifestFiles J) with
  | some items => items.all (itemVerifies t dir)
  | none => false

theorem manifestFiles_nil (J : CJson) : manifestFiles J [] = none := by
  rw [manifestFiles, cString, List.takeWhile_nil, J.parse_nil]

/-- The judgement of a part that leaves the card `c` alone. -/
abbrev ReadsOnly (c : DirTree.Tree Name Bytes) {α : Type} (Q : α → World → Prop)
    (p : Program Call Call.Reply α) (w : World) : Prop :=
  Safe machine (fun _ _ => True) (fun t => t.card = c) Q p w

section Reading

/-- `file` is open for reading at `pos` in a file with the content `data`. -/
structure Reading (c : DirTree.Tree Name Bytes) (data : Bytes) (file pos : ℕ) (w : World) :
    Prop where
  card : w.card = c
  stream : ∃ p, w.streams file = some ⟨p, .rb, pos, []⟩ ∧ c.get p = some (.file data)

variable {c : DirTree.Tree Name Bytes} {data : Bytes} {file pos : ℕ} {w t : World}

theorem Reading.seek (h : Reading c data file pos w) (n : ℕ) {s : Stream}
    (hs : w.streams file = some s) :
    Reading c data file n (w.setStream file (some { s with pos := n })) := by
  obtain ⟨hcard, p, hp, hfile⟩ := h
  rw [hp] at hs
  cases hs
  exact ⟨hcard, p, Function.update_self _ _ _, hfile⟩

/-- A reading stream, in the terms of `fsDo`. -/
theorem Reading.get (h : Reading c data file pos w) :
    ∃ s, w.streams file = some s ∧ s.pos = pos ∧ w.card.get s.path = some (.file data) := by
  obtain ⟨rfl, p, hp, hfile⟩ := h
  exact ⟨_, hp, rfl, hfile⟩

theorem Reading.fseek_ok {toEnd r : Bool} (h : Reading c data file pos w)
    (hm : FsOk (.fseek file toEnd) w r t) :
    Reading c data file (if toEnd then data.length else 0) t := by
  obtain ⟨s, hs, -, hfile⟩ := h.get
  have ht : t = (fsDo (.fseek file toEnd) w).2 := FsOk.eq hm
  simp only [fsDo, hs, hfile] at ht
  rw [ht]
  exact h.seek _ hs

theorem Reading.fseek {toEnd r : Bool} (h : Reading c data file pos w)
    (hm : machine (.fs (.fseek file toEnd)) w r t) :
    Reading c data file (if toEnd then data.length else 0) t ∨ Reading c data file pos t := by
  rcases hm with hm | ⟨-, rfl⟩
  · exact Or.inl (h.fseek_ok hm)
  · exact Or.inr h

theorem Reading.ftell_ok {r : Option ℕ} (h : Reading c data file pos w)
    (hm : FsOk (.ftell file) w r t) : t = w ∧ r = if pos < 2 ^ 31 then some pos else none := by
  obtain ⟨s, hs, rfl, -⟩ := h.get
  have hrt : (r, t) = fsDo (.ftell file) w := hm
  simp only [fsDo, hs, Option.bind_some] at hrt
  obtain ⟨rfl, rfl⟩ := Prod.mk.inj hrt
  exact ⟨rfl, rfl⟩

theorem Reading.ftell {r : Option ℕ} (h : Reading c data file pos w)
    (hm : machine (.fs (.ftell file)) w r t) :
    t = w ∧ ∀ size, r = some size → size = pos ∧ pos < 2 ^ 31 := by
  rcases hm with hm | ⟨rfl, rfl⟩
  · obtain ⟨rfl, rfl⟩ := h.ftell_ok hm
    refine ⟨rfl, fun size hsize => ?_⟩
    split at hsize
    · next hlt =>
        cases hsize
        exact ⟨rfl, hlt⟩
    · cases hsize
  · exact ⟨rfl, fun size hsize => by cases hsize⟩

theorem Reading.fread_ok {count : ℕ} {r : Bytes} (h : Reading c data file pos w)
    (hm : FsOk (.fread file count) w r t) :
    r = (data.drop pos).take count ∧ Reading c data file (pos + r.length) t := by
  obtain ⟨s, hs, rfl, hfile⟩ := h.get
  have hrt : (r, t) = fsDo (.fread file count) w := hm
  simp only [fsDo, hs, hfile] at hrt
  obtain ⟨rfl, rfl⟩ := Prod.mk.inj hrt
  exact ⟨rfl, h.seek _ hs⟩

theorem Reading.fread {count : ℕ} {r : Bytes} (h : Reading c data file pos w)
    (hm : machine (.fs (.fread file count)) w r t) :
    r <+: (data.drop pos).take count ∧ Reading c data file (pos + r.length) t := by
  rcases hm with hm | ⟨s, data', hs, hdata, hr, rfl⟩
  · obtain ⟨rfl, ht⟩ := h.fread_ok hm
    exact ⟨List.prefix_refl _, ht⟩
  · obtain ⟨s', hs', rfl, hfile⟩ := h.get
    rw [hs] at hs'
    cases hs'
    rw [hdata] at hfile
    cases hfile
    exact ⟨hr, h.seek _ hs⟩

/-- Closing a file that was read leaves the card alone. -/
theorem Reading.fclose {r : Bool} (h : Reading c data file pos w)
    (hm : machine (.fs (.fclose file)) w r t) : t.card = c := by
  obtain ⟨hcard, p, hp, -⟩ := h
  have hnone (k : ℕ) (rest : Bytes) : w.flush file k rest = w := by
    simp [World.flush, World.writer, hp, Option.filter]
  rcases hm with hm | ⟨-, k, rfl⟩
  · have ht : t = (fsDo (.fclose file) w).2 := FsOk.eq hm
    simp only [fsDo, hp] at ht
    rw [ht, hnone]
    exact hcard
  · rw [hnone]
    exact hcard

theorem fopen_rb_ok {path : Str} {r : Option ℕ} (hm : FsOk (.fopen path .rb) w r t) :
    (r = none ∧ t = w ∧ ∀ data, (resolve path).bind w.card.get ≠ some (.file data)) ∨
      ∃ data, (resolve path).bind w.card.get = some (.file data) ∧ r = some w.next ∧
        Reading w.card data w.next 0 t := by
  have hrt : (r, t) = fsDo (.fopen path .rb) w := hm
  cases hp : resolve path with
  | none =>
      simp only [fsDo, hp] at hrt
      obtain ⟨rfl, rfl⟩ := Prod.mk.inj hrt
      exact Or.inl ⟨rfl, rfl, by simp⟩
  | some p =>
      simp only [fsDo, hp] at hrt
      rw [Option.bind_some]
      by_cases hfile : ∃ data, w.card.get p = some (.file data)
      · obtain ⟨data, hdata⟩ := hfile
        simp only [hdata] at hrt
        obtain ⟨rfl, rfl⟩ := Prod.mk.inj hrt
        exact Or.inr ⟨data, hdata, rfl, rfl, p, Function.update_self _ _ _, hdata⟩
      · simp only [not_exists] at hfile
        have hnone : (r, t) = ((none, w) : Option ℕ × World) := by
          revert hrt
          split
          · next data hdata => exact absurd hdata (hfile data)
          · exact id
        obtain ⟨rfl, rfl⟩ := Prod.mk.inj hnone
        exact Or.inl ⟨rfl, rfl, hfile⟩

theorem stat_ok {path : Str} {r : Option Stat} (hm : FsOk (.stat path) w r t) :
    t = w ∧ r = ((resolve path).bind w.card.get).map statOf := by
  obtain ⟨rfl, rfl⟩ := Prod.mk.inj (hm : (r, t) = fsDo (.stat path) w)
  exact ⟨rfl, rfl⟩

end Reading

section Sound

variable {c : DirTree.Tree Name Bytes} {st : Statics} {w : World}

theorem textAt_of_get {path : Str} {data : Bytes}
    (h : (resolve path).bind c.get = some (.file data)) (hlt : data.length < 2 ^ 31) :
    textAt c path = some data := by
  rw [textAt, h]
  exact if_pos hlt

/-- The text that was read is the content of the file; a failed seek makes it
look empty. -/
theorem readTextFile_reads (path : Str) (hw : w.card = c) :
    ReadsOnly c (fun x t => t.card = c ∧
      ∀ text, x.1 = .text text → text = [] ∨ textAt c path = some text)
      ((readTextFile path).run st) w := by
  subst hw
  simp only [readTextFile, fs, Stateful.run_call_bind]
  refine ⟨trivial, fun file? t₀ hm => ?_⟩
  have hopen : (file? = none ∧ t₀ = w) ∨ ∃ data,
      (resolve path).bind w.card.get = some (.file data) ∧ file? = some w.next ∧
        Reading w.card data w.next 0 t₀ := by
    rcases hm with hm | ⟨rfl, rfl⟩
    · exact (fopen_rb_ok hm).imp_left fun h => ⟨h.1, h.2.1⟩
    · exact Or.inl ⟨rfl, rfl⟩
  rcases hopen with ⟨rfl, rfl⟩ | ⟨data, hdata, rfl, h₀⟩
  · exact ⟨rfl, rfl, fun text h => by cases h⟩
  refine ⟨h₀.card, trivial, fun _ t₁ hm => ?_⟩
  have h₁ : ∃ pos, (pos = 0 ∨ pos = data.length) ∧ Reading w.card data w.next pos t₁ := by
    rcases h₀.fseek hm with h | h
    · exact ⟨_, Or.inr rfl, h⟩
    · exact ⟨_, Or.inl rfl, h⟩
  obtain ⟨pos, hpos, h₁⟩ := h₁
  refine ⟨h₁.card, trivial, fun size? t₂ hm => ?_⟩
  obtain ⟨rfl, hsize⟩ := h₁.ftell hm
  refine ⟨h₁.card, trivial, fun _ t₃ hm => ?_⟩
  have h₃ : ∃ pos', (pos' = 0 ∨ pos' = pos) ∧ Reading w.card data w.next pos' t₃ := by
    rcases h₁.fseek hm with h | h
    · exact ⟨_, Or.inl rfl, h⟩
    · exact ⟨_, Or.inr rfl, h⟩
  obtain ⟨pos', hpos', h₃⟩ := h₃
  cases size? with
  | none =>
      refine ⟨h₃.card, trivial, fun _ t₄ hm => ?_⟩
      have h₄ := h₃.fclose hm
      exact ⟨h₄, h₄, fun text h => by cases h⟩
  | some size =>
      obtain ⟨rfl, hlt⟩ := hsize size rfl
      refine ⟨h₃.card, trivial, fun got t₄ hm => ?_⟩
      obtain ⟨hgot, h₄⟩ := h₃.fread hm
      refine ⟨h₄.card, trivial, fun _ t₅ hm => ?_⟩
      have h₅ := h₄.fclose hm
      refine ⟨h₅, h₅, ?_⟩
      intro text htext
      by_cases hlen : got.length = size
      · rw [if_pos hlen] at htext
        cases htext
        rcases hpos with rfl | rfl
        · exact Or.inl (List.length_eq_zero_iff.1 hlen)
        · rcases hpos' with rfl | rfl
          · rw [List.drop_zero, List.take_length] at hgot
            rw [hgot.eq_of_length hlen] at *
            exact Or.inr (textAt_of_get hdata hlt)
          · rw [List.drop_length, List.take_nil, List.prefix_nil] at hgot
            exact Or.inl hgot
      · rw [if_neg hlen] at htext
        cases htext

theorem verifyItem_reads (dir : Str) (item : Json) (hw : w.card = c) :
    ReadsOnly c (fun x t => t.card = c ∧ (x.1 = true → itemVerifies c dir item = true))
      ((verifyItem dir item).run st) w := by
  unfold verifyItem itemVerifies
  cases manifestEntry item with
  | none => exact ⟨hw, fun _ => rfl⟩
  | some entry =>
      simp only [fileSizeBytes, fs, Stateful.run_call_bind, bind_assoc]
      refine ⟨trivial, fun r t hm => ?_⟩
      rcases hm with hm | ⟨rfl, rfl⟩
      · obtain ⟨rfl, rfl⟩ := stat_ok hm
        refine ⟨hw, hw, ?_⟩
        rw [← hw]
        intro h
        rw [sizeAt, ← h, Option.map_map]
        rfl
      · refine ⟨hw, hw, fun h => ?_⟩
        cases h

theorem verifyItems_reads (dir : Str) (items : List Json) (hw : w.card = c) :
    ReadsOnly c (fun x t => t.card = c ∧ (x.1 = true → items.all (itemVerifies c dir) = true))
      ((verifyItems dir items).run st) w := by
  induction items generalizing st w with
  | nil => exact ⟨hw, fun _ => rfl⟩
  | cons item items ih =>
      rw [verifyItems, Stateful.run_bind]
      apply (verifyItem_reads dir item hw).bind
      rintro ⟨ok, st⟩ t ⟨ht, hitem⟩
      rw [Stateful.run_bind]
      apply (ih ht).bind
      rintro ⟨rest, st⟩ u ⟨hu, hrest⟩
      refine ⟨hu, ?_⟩
      intro h
      obtain ⟨hok, hall⟩ := Bool.and_eq_true_iff.1 h
      rw [List.all_cons, hitem hok, hrest hall]
      rfl

/-- When the verification returns true, the directory verifies; the card is left
alone. -/
theorem verifyDownloadIntegrity_reads (J : CJson) (dir : Str) (hw : w.card = c) :
    ReadsOnly c (fun x t => t.card = c ∧ (x.1 = .ok → verifies J c dir = true))
      ((verifyDownloadIntegrity J dir).run st) w := by
  rw [verifyDownloadIntegrity, Stateful.run_bind]
  apply (readTextFile_reads _ hw).bind
  rintro ⟨read, st⟩ t ⟨ht, htext⟩
  cases read with
  | openFailed => exact ⟨ht, fun h => by cases h⟩
  | failed => exact ⟨ht, fun h => by cases h⟩
  | text content =>
      cases hfiles : manifestFiles J content with
      | none =>
          simp only [hfiles]
          exact ⟨ht, fun h => by cases h⟩
      | some items =>
          simp only [hfiles]
          have hread : textAt c (sub dir manifestName) = some content := by
            rcases htext content rfl with rfl | h
            · rw [manifestFiles_nil] at hfiles
              cases hfiles
            · exact h
          rw [Stateful.run_bind]
          apply (verifyItems_reads dir items ht).bind
          rintro ⟨ok, st⟩ u ⟨hu, hall⟩
          refine ⟨hu, ?_⟩
          intro h
          cases ok with
          | false => cases h
          | true =>
              rw [verifies, hread, Option.bind_some, hfiles]
              exact hall rfl

end Sound

/-- Whatever the folder contains, whatever the manifest says and whichever calls
fail: when `verify_download_integrity` returns true, the manifest can be read
and parsed, its `files` member is an array, and every element of the array with
a string name and a numeric size names an entry of the folder with that size as
a `size_t`. Elements without one of the two are passed over. -/
theorem verifyDownloadIntegrity_sound {J : CJson} {dir : Str} {st : Statics} {w t : World}
    {tr : List Event} {x : VerifyEnd × Statics}
    (hrun : Steps machine ((verifyDownloadIntegrity J dir).run st) w tr (.pure x) t)
    (hok : x.1 = .ok) :
    ∃ text items, textAt w.card (sub dir manifestName) = some text ∧
      manifestFiles J text = some items ∧ ∀ item ∈ items, ∀ name size,
        manifestEntry item = some (name, size) → sizeAt w.card (sub dir name) = some size := by
  have hverifies := ((verifyDownloadIntegrity_reads J dir rfl).result rfl hrun).2 hok
  rw [verifies] at hverifies
  split at hverifies
  · next items hitems =>
      obtain ⟨text, htext, hfiles⟩ := Option.bind_eq_some_iff.1 hitems
      refine ⟨text, items, htext, hfiles, ?_⟩
      intro item hitem name size hentry
      have hcheck := List.all_eq_true.1 hverifies item hitem
      rw [itemVerifies, hentry] at hcheck
      exact of_decide_eq_true hcheck
  · cases hverifies

section Sample

/-- A card with `manifest.json` and `a.mp3` in `/sdcard/mozart`. -/
def mozartCard : DirTree.Tree Name Bytes :=
  cardOf [("/sdcard/mozart".toList, .dir),
    ("/sdcard/mozart/manifest.json".toList, .file mozart.manifestText),
    ("/sdcard/mozart/a.mp3".toList, .file [7, 8])]

/-- Verify `/sdcard/mozart` with every call of the file system succeeding. -/
def playVerify (J : CJson) (card : DirTree.Tree Name Bytes) :=
  Interaction.play (serve mozart.env fun _ _ => .ok)
    ((verifyDownloadIntegrity J "/sdcard/mozart".toList).run (Statics.boot true 10000))
    (World.boot card)

theorem steps_playVerify (J : CJson) (card : DirTree.Tree Name Bytes) :
    Steps machine ((verifyDownloadIntegrity J "/sdcard/mozart".toList).run
      (Statics.boot true 10000))
      (World.boot card) (playVerify J card).2.2 (playVerify J card).1 (playVerify J card).2.1 :=
  steps_play (fun o w r t h => machine_of_serve o w r t h) _ _

theorem verifyDownloadIntegrity_sound_mozart :
    ∃ text items, textAt mozartCard (sub "/sdcard/mozart".toList manifestName) = some text ∧
      manifestFiles mozart.cjson text = some items ∧ ∀ item ∈ items, ∀ name size,
        manifestEntry item = some (name, size) →
          sizeAt mozartCard (sub "/sdcard/mozart".toList name) = some size := by
  have hend : (playVerify mozart.cjson mozartCard).1.value.map Prod.fst = some .ok := by
    decide +kernel
  obtain ⟨x, hrun, hok⟩ := (steps_playVerify mozart.cjson mozartCard).returned hend
  exact verifyDownloadIntegrity_sound hrun hok

/-- A manifest that lists a file without its size. -/
def unsized : CJson where
  parse := fun text =>
    if text = ascii "\x7b\"files\":[\x7b\"name\":\"b.mp3\"\x7d]\x7d".toList then
      some (.obj [("files".toList, .arr [.obj [("name".toList, .str "b.mp3".toList)]])])
    else none
  parse_nil := by simp [ascii]

/-- A card with that manifest and nothing else in `/sdcard/mozart`. -/
def unsizedCard : DirTree.Tree Name Bytes :=
  cardOf [("/sdcard/mozart".toList, .dir), ("/sdcard/mozart/manifest.json".toList,
    .file (ascii "\x7b\"files\":[\x7b\"name\":\"b.mp3\"\x7d]\x7d".toList))]

/-- A manifest that lists a missing file without its size verifies. -/
theorem verifyDownloadIntegrity_passesOver : ∃ tr x t,
    Steps machine ((verifyDownloadIntegrity unsized "/sdcard/mozart".toList).run
      (Statics.boot true 10000)) (World.boot unsizedCard) tr (.pure x) t ∧ x.1 = .ok ∧
    ∃ text items, textAt unsizedCard (sub "/sdcard/mozart".toList manifestName) = some text ∧
      manifestFiles unsized text = some items ∧ ∃ item ∈ items,
        getObjectItem item "name".toList = some (.str "b.mp3".toList) ∧
        getObjectItem item "size".toList = none ∧
        sizeAt unsizedCard (sub "/sdcard/mozart".toList "b.mp3".toList) = none := by
  have hend : (playVerify unsized unsizedCard).1.value.map Prod.fst = some .ok := by
    decide +kernel
  obtain ⟨x, hrun, hok⟩ := (steps_playVerify unsized unsizedCard).returned hend
  refine ⟨_, x, _, hrun, hok, ascii "\x7b\"files\":[\x7b\"name\":\"b.mp3\"\x7d]\x7d".toList,
    [.obj [("name".toList, .str "b.mp3".toList)]], by decide +kernel, ?_,
    .obj [("name".toList, .str "b.mp3".toList)], List.mem_singleton.2 rfl, ?_, ?_, ?_⟩
  · rfl
  · rfl
  · rfl
  · decide +kernel

end Sample

end Download

end SimiboxDownloader
