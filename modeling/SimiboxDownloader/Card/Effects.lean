import SimiboxDownloader.Card.Frame

/-!
# What a call brings about

A directory comes from a `mkdir` or a `rename` (`dir_of_step`), and a `FILE` that is
open for writing from an `fopen`, until its `fclose` (`writer_of_step`).
-/

namespace SimiboxDownloader

namespace Download

variable {w t : World}

section Directories

open DirTree

variable {x : List Name}

/-- Writing to a file makes no directory. -/
theorem World.flush_dir {f k : ℕ} {rest : Bytes}
    (h : (w.flush f k rest).card.get x = some .dir) : w.card.get x = some .dir := by
  unfold flush append at h
  split at h
  · next s _ =>
      rw [setStream_card] at h
      split at h
      · next old hold =>
          rw [Tree.get_put _ (Tree.canPut_of_file hold)] at h
          split at h
          · cases h
          · exact h
      · exact h
  · exact h

theorem World.unlink_dir {path : Str} (h : (w.unlink path).2.card.get x = some .dir) :
    w.card.get x = some .dir := by
  unfold World.unlink at h
  split at h
  · split at h
    · next hcan =>
        rw [Tree.get_remove hcan] at h
        split at h
        · cases h
        · exact h
    · exact h
  · exact h

theorem fsDo_dir {c : FsCall} (hmkdir : ∀ path, c ≠ .mkdir path)
    (hrename : ∀ src dst, c ≠ .rename src dst) (h : (fsDo c w).2.card.get x = some .dir) :
    w.card.get x = some .dir := by
  cases c with
  | stat | opendir | fsync | ftell => exact h
  | mkdir path => exact absurd rfl (hmkdir path)
  | rename src dst => exact absurd rfl (hrename src dst)
  | unlink path | rmdir path | remove path => exact World.unlink_dir h
  | fopen path mode =>
      cases mode with
      | wb =>
          simp only [fsDo] at h
          split at h
          · next p hp =>
              split at h
              · next hput =>
                  have hget : (w.card.put p (.file [])).get x = some .dir := h
                  rw [Tree.get_put _ hput] at hget
                  split at hget
                  · cases hget
                  · exact hget
              · exact h
          · exact h
      | rb =>
          simp only [fsDo] at h
          split at h
          · split at h
            · exact h
            · exact h
          · exact h
  | fputs text file =>
      simp only [fsDo] at h
      rwa [World.buffer_card] at h
  | fflush file =>
      simp only [fsDo] at h
      split at h
      · exact World.flush_dir h
      · exact h
  | fclose file =>
      simp only [fsDo] at h
      split at h
      · exact World.flush_dir h
      · exact h
  | fseek file toEnd =>
      simp only [fsDo] at h
      split at h
      · split at h
        · exact h
        · exact h
      · exact h
  | fread file count =>
      simp only [fsDo] at h
      split at h
      · split at h
        · exact h
        · exact h
      · exact h

/-- Only `mkdir` makes a directory, and only `rename` moves one. -/
theorem dir_of_step {o : Call} {r : o.Reply} (hmkdir : ∀ path, o ≠ .fs (.mkdir path))
    (hrename : ∀ src dst, o ≠ .fs (.rename src dst)) (hm : machine o w r t)
    (h : t.card.get x = some .dir) : w.card.get x = some .dir := by
  cases o with
  | dev c =>
      rwa [(DevStep.card hm).1] at h
  | fs c =>
      rcases hm with hm | hm
      · rw [hm.eq] at h
        exact fsDo_dir (fun path hc => hmkdir path (hc ▸ rfl))
          (fun src dst hc => hrename src dst (hc ▸ rfl)) h
      · cases c with
        | fputs text file =>
            obtain ⟨-, k, rfl⟩ := hm
            rwa [World.buffer_card] at h
        | fflush file =>
            obtain ⟨-, k, rest, rfl, -⟩ := hm
            exact World.flush_dir h
        | fclose file =>
            obtain ⟨-, k, rfl⟩ := hm
            exact World.flush_dir h
        | fread file count =>
            obtain ⟨s, data, -, -, -, rfl⟩ := hm
            exact h
        | opendir path =>
            obtain ⟨rfl, -⟩ := hm
            exact h
        | _ =>
            obtain ⟨-, rfl⟩ := hm
            exact h
  | transfer client file capacity downloaded expected =>
      obtain ⟨-, s, k, -, rfl⟩ := hm
      have hget := World.flush_dir h
      rwa [World.buffer_card] at hget
  | diverge => exact r.elim

end Directories

section Writers

variable {f : ℕ}

theorem World.writer_setStream_isSome {g : ℕ} {s s' : Stream} (hs : w.streams g = some s)
    (hmode : s'.mode = s.mode) :
    ((w.setStream g (some s')).writer f).isSome = (w.writer f).isSome := by
  rw [World.writer, World.writer, World.setStream_streams]
  by_cases hfg : f = g
  · subst hfg
    rw [Function.update_self, hs]
    simp [Option.filter, hmode]
    split <;> simp_all
  · rw [Function.update_of_ne hfg]

theorem World.seek_writer {g n : ℕ} {s : Stream} (hs : w.streams g = some s) :
    ((w.setStream g (some { s with pos := n })).writer f).isSome = (w.writer f).isSome :=
  writer_setStream_isSome hs rfl

theorem World.flush_writer {g k : ℕ} {rest : Bytes} :
    ((w.flush g k rest).writer f).isSome = (w.writer f).isSome := by
  unfold flush
  split
  · next s hs =>
      have hstream : (w.append s.path (s.pending.take k)).streams g = some s := by
        rw [append_streams, (writer_eq_some.1 hs).1]
      rw [@writer_setStream_isSome _ f g s { s with pending := rest } hstream rfl, writer,
        append_streams, writer]
  · rfl

theorem World.buffer_writer {g : ℕ} {data : Bytes} :
    ((w.buffer g data).writer f).isSome = (w.writer f).isSome := by
  unfold buffer
  split
  · next s hs => exact writer_setStream_isSome (writer_eq_some.1 hs).1 rfl
  · rfl

theorem World.close_writer {g : ℕ} (h : ((w.setStream g none).writer f).isSome = true) :
    (w.writer f).isSome = true ∧ f ≠ g := by
  rw [World.writer, World.setStream_streams] at h
  by_cases hfg : f = g
  · subst hfg
    rw [Function.update_self] at h
    cases h
  · rw [Function.update_of_ne hfg] at h
    exact ⟨h, hfg⟩

theorem World.writer_openStream {p : List Name} {mode : Mode} (hf : f ≠ w.next) :
    (w.openStream p mode).writer f = w.writer f := by
  have hstream : (w.openStream p mode).streams f = w.streams f := Function.update_of_ne hf _ _
  rw [World.writer, hstream, World.writer]

theorem World.read_writer {p : List Name} (h : ((w.openStream p .rb).writer f).isSome = true) :
    (w.writer f).isSome = true := by
  by_cases hnext : f = w.next
  · obtain ⟨s, hs⟩ := Option.isSome_iff_exists.1 h
    obtain ⟨hstream, hmode⟩ := writer_eq_some.1 hs
    have hread : (w.openStream p .rb).streams f = some ⟨p, .rb, 0, []⟩ := by
      rw [hnext]
      exact Function.update_self _ _ _
    rw [hread] at hstream
    cases hstream
    cases hmode
  · rwa [writer_openStream hnext] at h

/-- `FILE`s that are open for writing come from `fopen`, and go with `fclose`. -/
theorem fsDo_writer {c : FsCall} (hopen : ∀ path, c ≠ .fopen path .wb)
    (h : ((fsDo c w).2.writer f).isSome = true) :
    (w.writer f).isSome = true ∧ c ≠ .fclose f := by
  cases c with
  | stat | opendir | fsync | ftell => exact ⟨h, by simp⟩
  | unlink path | rmdir path | remove path =>
      rw [World.writer, fsDo, World.unlink_streams] at h
      exact ⟨h, by simp⟩
  | mkdir path =>
      simp only [fsDo] at h
      split at h
      · split at h
        · exact ⟨h, by simp⟩
        · exact ⟨h, by simp⟩
      · exact ⟨h, by simp⟩
  | rename src dst =>
      simp only [fsDo] at h
      split at h
      · split at h
        · exact ⟨h, by simp⟩
        · exact ⟨h, by simp⟩
      · exact ⟨h, by simp⟩
  | fopen path mode =>
      cases mode with
      | wb => exact absurd rfl (hopen path)
      | rb =>
          simp only [fsDo] at h
          split at h
          · split at h
            · exact ⟨World.read_writer h, by simp⟩
            · exact ⟨h, by simp⟩
          · exact ⟨h, by simp⟩
  | fputs text file =>
      rw [fsDo, World.buffer_writer] at h
      exact ⟨h, by simp⟩
  | fflush file =>
      simp only [fsDo] at h
      split at h
      · rw [World.flush_writer] at h
        exact ⟨h, by simp⟩
      · exact ⟨h, by simp⟩
  | fclose file =>
      simp only [fsDo] at h
      split at h
      · obtain ⟨h, hne⟩ := World.close_writer h
        rw [World.flush_writer] at h
        exact ⟨h, fun heq => hne (FsCall.fclose.inj heq).symm⟩
      · next hnone =>
          refine ⟨h, fun heq => ?_⟩
          rw [← FsCall.fclose.inj heq, World.writer, hnone] at h
          cases h
  | fseek file toEnd =>
      simp only [fsDo] at h
      split at h
      · next s hs =>
          split at h
          · exact ⟨(World.seek_writer hs).symm.trans h, by simp⟩
          · exact ⟨h, by simp⟩
      · exact ⟨h, by simp⟩
  | fread file count =>
      simp only [fsDo] at h
      split at h
      · next s hs =>
          split at h
          · exact ⟨(World.seek_writer hs).symm.trans h, by simp⟩
          · exact ⟨h, by simp⟩
      · exact ⟨h, by simp⟩

theorem writer_of_step {o : Call} {r : o.Reply} (hopen : ∀ path, o ≠ .fs (.fopen path .wb))
    (hm : machine o w r t) (h : (t.writer f).isSome = true) :
    (w.writer f).isSome = true ∧ o ≠ .fs (.fclose f) := by
  cases o with
  | dev c =>
      rw [World.writer, (DevStep.card hm).2] at h
      exact ⟨h, by simp⟩
  | fs c =>
      rcases hm with hm | hm
      · rw [hm.eq] at h
        obtain ⟨h, hc⟩ := fsDo_writer (fun path hc => hopen path (hc ▸ rfl)) h
        exact ⟨h, fun heq => hc (Call.fs.inj heq)⟩
      · cases c with
        | fputs text file =>
            obtain ⟨-, k, rfl⟩ := hm
            rw [World.buffer_writer] at h
            exact ⟨h, by simp⟩
        | fflush file =>
            obtain ⟨-, k, rest, rfl, -⟩ := hm
            rw [World.flush_writer] at h
            exact ⟨h, by simp⟩
        | fclose file =>
            obtain ⟨-, k, rfl⟩ := hm
            obtain ⟨h, hne⟩ := World.close_writer h
            rw [World.flush_writer] at h
            exact ⟨h, fun heq => hne (FsCall.fclose.inj (Call.fs.inj heq)).symm⟩
        | fread file count =>
            obtain ⟨s, data, hs, -, -, rfl⟩ := hm
            exact ⟨(World.seek_writer hs).symm.trans h, by simp⟩
        | opendir path =>
            obtain ⟨rfl, -⟩ := hm
            exact ⟨h, by simp⟩
        | _ =>
            obtain ⟨-, rfl⟩ := hm
            exact ⟨h, by simp⟩
  | transfer client file capacity downloaded expected =>
      obtain ⟨-, s, k, -, rfl⟩ := hm
      rw [World.flush_writer, World.buffer_writer] at h
      exact ⟨h, by simp⟩
  | diverge => exact r.elim

/-- Every file that is open for writing is one of `files`. -/
def World.OpenOnly (files : List ℕ) (w : World) : Prop :=
  ∀ f, (w.writer f).isSome = true → f ∈ files

theorem World.openOnly_nil : w.OpenOnly [] ↔ ∀ f, w.writer f = none := by
  simp [OpenOnly]

theorem World.OpenOnly.step {files : List ℕ} {o : Call} {r : o.Reply} (h : w.OpenOnly files)
    (hopen : ∀ path, o ≠ .fs (.fopen path .wb)) (hm : machine o w r t) : t.OpenOnly files :=
  fun f hf => h f (writer_of_step hopen hm hf).1

theorem World.OpenOnly.fclose {files : List ℕ} {r : Bool} (h : w.OpenOnly (f :: files))
    (hm : machine (.fs (.fclose f)) w r t) : t.OpenOnly files := by
  intro g hg
  obtain ⟨hg, hne⟩ := writer_of_step (o := .fs (.fclose f)) nofun hm hg
  refine (List.mem_cons.1 (h g hg)).resolve_left ?_
  rintro rfl
  exact hne rfl

theorem World.OpenOnly.fopen {path : Str} {files : List ℕ} (h : w.OpenOnly files)
    (hm : machine (.fs (.fopen path .wb)) w (some f) t) : t.OpenOnly (f :: files) := by
  rcases hm with hm | ⟨hm, -⟩
  · have hrt : (some f, t) = fsDo (.fopen path .wb) w := hm
    simp only [fsDo] at hrt
    split at hrt
    · next p hp =>
        split at hrt
        · obtain ⟨hf, rfl⟩ := Prod.mk.inj hrt
          obtain rfl := Option.some.inj hf
          intro g hg
          by_cases hne : g = w.next
          · exact List.mem_cons.2 (Or.inl hne)
          · rw [World.writer_openStream (w := { w with card := w.card.put p (.file []) }) hne] at hg
            exact List.mem_cons_of_mem _ (h g hg)
        · cases (Prod.mk.inj hrt).1
    · cases (Prod.mk.inj hrt).1
  · cases hm

end Writers

end Download

end SimiboxDownloader
