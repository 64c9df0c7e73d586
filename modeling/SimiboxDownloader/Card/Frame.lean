import SimiboxDownloader.Card.Calls

/-!
# What a call leaves alone

`Call.writes` lists the paths a call creates, truncates, renames or deletes. A
call changes nothing on the card but what lies at or below one of them, and what
is written through a `FILE` lands in the file it was opened on (`frame`).
-/

namespace SimiboxDownloader

namespace Download

/-- The paths a call creates, truncates, renames or deletes. -/
def FsCall.writes : FsCall → List Str
  | .mkdir path => [path]
  | .unlink path => [path]
  | .rmdir path => [path]
  | .remove path => [path]
  | .rename src dst => [src, dst]
  | .fopen path .wb => [path]
  | _ => []

def Call.writes : Call → List Str
  | .fs c => c.writes
  | _ => []

namespace World

theorem writer_eq_some {w : World} {f : ℕ} {s : Stream} :
    w.writer f = some s ↔ w.streams f = some s ∧ s.mode = .wb := by
  simp [writer, Option.filter_eq_some_iff]

/-- Every file that is open for writing lies in `S`. -/
def WritesIn (w : World) (S : List Name → Prop) : Prop :=
  ∀ f s, w.writer f = some s → S s.path

variable {w : World} {S : List Name → Prop} {q : List Name}

@[simp] theorem setStream_card (f : ℕ) (s : Option Stream) :
    (w.setStream f s).card = w.card := rfl

@[simp] theorem setStream_streams (f : ℕ) (s : Option Stream) :
    (w.setStream f s).streams = Function.update w.streams f s := rfl

@[simp] theorem append_streams (p : List Name) (data : Bytes) :
    (w.append p data).streams = w.streams := by
  unfold append
  split <;> rfl

theorem append_get_of_ne {p : List Name} (data : Bytes) (h : q ≠ p) :
    (w.append p data).card.get q = w.card.get q := by
  unfold append
  split
  · exact DirTree.Tree.get_put_of_ne _ h
  · rfl

theorem writesIn_setStream {f : ℕ} {s : Stream} (h : w.WritesIn S)
    (hs : s.mode = .wb → S s.path) : (w.setStream f (some s)).WritesIn S := by
  intro g s' hg
  rw [writer_eq_some, setStream_streams] at hg
  by_cases hgf : g = f
  · subst hgf
    rw [Function.update_self] at hg
    cases hg.1
    exact hs hg.2
  · rw [Function.update_of_ne hgf] at hg
    exact h g s' (writer_eq_some.2 hg)

theorem writesIn_seek {f n : ℕ} {s : Stream} (h : w.WritesIn S) (hs : w.streams f = some s) :
    (w.setStream f (some { s with pos := n })).WritesIn S :=
  writesIn_setStream h fun hmode => h f s (writer_eq_some.2 ⟨hs, hmode⟩)

theorem writesIn_close {f : ℕ} (h : w.WritesIn S) : (w.setStream f none).WritesIn S := by
  intro g s' hg
  rw [writer_eq_some, setStream_streams] at hg
  by_cases hgf : g = f
  · subst hgf
    rw [Function.update_self] at hg
    cases hg.1
  · rw [Function.update_of_ne hgf] at hg
    exact h g s' (writer_eq_some.2 hg)

theorem writesIn_of_streams {t : World} (h : w.WritesIn S) (ht : t.streams = w.streams) :
    t.WritesIn S := by
  intro f s hf
  rw [writer, ht] at hf
  exact h f s hf

/-- Opening a file: the card may have changed, the other files have not. -/
theorem writesIn_open {c : DirTree.Tree Name Bytes} {p : List Name} {mode : Mode}
    (h : w.WritesIn S) (hp : mode = .wb → S p) :
    ({ w with card := c }.openStream p mode).WritesIn S :=
  writesIn_setStream (w := { w with card := c }) (f := w.next) (s := ⟨p, mode, 0, []⟩) h hp

theorem writesIn_flush {f k : ℕ} {rest : Bytes} (h : w.WritesIn S) :
    (w.flush f k rest).WritesIn S := by
  unfold flush
  split
  · next s hs =>
      apply writesIn_setStream
      · exact writesIn_of_streams h (append_streams _ _)
      · exact fun _ => h f s hs
  · exact h

theorem writesIn_buffer {f : ℕ} {data : Bytes} (h : w.WritesIn S) :
    (w.buffer f data).WritesIn S := by
  unfold buffer
  split
  · next s hs => exact writesIn_setStream h fun _ => h f s hs
  · exact h

@[simp] theorem buffer_card (f : ℕ) (data : Bytes) : (w.buffer f data).card = w.card := by
  unfold buffer
  split <;> rfl

theorem flush_get {f k : ℕ} {rest : Bytes} (h : w.WritesIn S) (hq : ¬ S q) :
    (w.flush f k rest).card.get q = w.card.get q := by
  unfold flush
  split
  · next s hs =>
      apply append_get_of_ne
      rintro rfl
      exact hq (h f s hs)
  · rfl

end World

variable {w t : World} {S : List Name → Prop}

/-- The devices leave the card and the open files alone. -/
theorem DevStep.card {c : DevCall} {r : c.Reply} (h : DevStep c w r t) :
    t.card = w.card ∧ t.streams = w.streams := by
  cases c <;> simp only [DevStep] at h <;> grind

theorem World.unlink_streams (path : Str) : (w.unlink path).2.streams = w.streams := by
  unfold World.unlink
  split
  · split <;> rfl
  · rfl

theorem World.unlink_get {path : Str} (hS : ∀ p, resolve path = some p → S p) {q : List Name}
    (hq : ¬ S q) : (w.unlink path).2.card.get q = w.card.get q := by
  unfold World.unlink
  split
  · next p hp =>
      split
      · apply DirTree.Tree.get_remove_of_ne
        rintro rfl
        exact hq (hS _ hp)
      · rfl
  · rfl

/-- A call of the file system that goes well. -/
theorem fsDo_frame {c : FsCall} (hS : ∀ src dst, c = .rename src dst → ∀ p r, S p → S (p ++ r))
    (hw : w.WritesIn S)
    (hc : ∀ path ∈ c.writes, ∀ p, resolve path = some p → S p) :
    (fsDo c w).2.WritesIn S ∧ ∀ q, ¬ S q → (fsDo c w).2.card.get q = w.card.get q := by
  cases c with
  | stat | opendir | fsync | ftell => exact ⟨hw, fun _ _ => rfl⟩
  | unlink path | rmdir path | remove path =>
      have hpath := hc path (by simp [FsCall.writes])
      exact ⟨w.writesIn_of_streams hw (World.unlink_streams path),
        fun q hq => World.unlink_get hpath hq⟩
  | mkdir path =>
      have hpath := hc path (by simp [FsCall.writes])
      simp only [fsDo]
      split
      · next p hp =>
          split
          · refine ⟨hw, fun q hq => DirTree.Tree.get_put_of_ne _ ?_⟩
            rintro rfl
            exact hq (hpath _ hp)
          · exact ⟨hw, fun _ _ => rfl⟩
      · exact ⟨hw, fun _ _ => rfl⟩
  | rename src dst =>
      have hsrc := hc src (by simp [FsCall.writes])
      have hdst := hc dst (by simp [FsCall.writes])
      simp only [fsDo]
      split
      · next p q hp hq =>
          split
          · refine ⟨hw, fun x hx => DirTree.Tree.get_move_elsewhere ?_ ?_⟩
            · rintro ⟨r, rfl⟩
              exact hx (hS src dst rfl _ _ (hsrc _ hp))
            · rintro ⟨r, rfl⟩
              exact hx (hS src dst rfl _ _ (hdst _ hq))
          · exact ⟨hw, fun _ _ => rfl⟩
      · exact ⟨hw, fun _ _ => rfl⟩
  | fopen path mode =>
      cases mode with
      | wb =>
          have hpath := hc path (by simp [FsCall.writes])
          simp only [fsDo]
          split
          · next p hp =>
              split
              · refine ⟨World.writesIn_open hw fun _ => hpath _ hp, fun q hq => ?_⟩
                apply DirTree.Tree.get_put_of_ne
                rintro rfl
                exact hq (hpath _ hp)
              · exact ⟨hw, fun _ _ => rfl⟩
          · exact ⟨hw, fun _ _ => rfl⟩
      | rb =>
          simp only [fsDo]
          split
          · split
            · exact ⟨World.writesIn_open hw (by simp), fun _ _ => rfl⟩
            · exact ⟨hw, fun _ _ => rfl⟩
          · exact ⟨hw, fun _ _ => rfl⟩
  | fputs text file => exact ⟨World.writesIn_buffer hw, fun q _ => by rw [fsDo, World.buffer_card]⟩
  | fflush file =>
      simp only [fsDo]
      split
      · exact ⟨World.writesIn_flush hw, fun q hq => World.flush_get hw hq⟩
      · exact ⟨hw, fun _ _ => rfl⟩
  | fclose file =>
      simp only [fsDo]
      split
      · exact ⟨World.writesIn_close (World.writesIn_flush hw), fun q hq => World.flush_get hw hq⟩
      · exact ⟨hw, fun _ _ => rfl⟩
  | fseek file toEnd =>
      simp only [fsDo]
      split
      · next s hs =>
          split
          · exact ⟨World.writesIn_seek hw hs, fun _ _ => rfl⟩
          · exact ⟨hw, fun _ _ => rfl⟩
      · exact ⟨hw, fun _ _ => rfl⟩
  | fread file count =>
      simp only [fsDo]
      split
      · next s hs =>
          split
          · exact ⟨World.writesIn_seek hw hs, fun _ _ => rfl⟩
          · exact ⟨hw, fun _ _ => rfl⟩
      · exact ⟨hw, fun _ _ => rfl⟩

theorem World.plain_of_mem_listing {w : World} {path name : Str} {names : List Str}
    (h : w.listing path = some names) (hname : name ∈ names) : Plain name := by
  unfold World.listing at h
  split at h
  · split at h
    · cases h
      obtain ⟨n, -, rfl⟩ := List.mem_map.1 hname
      exact n.plain
    · cases h
  · cases h

theorem FsOk.eq {c : FsCall} {r : c.Reply} (h : FsOk c w r t) : t = (fsDo c w).2 := by
  cases c with
  | opendir path => exact h.1
  | _ => exact congrArg Prod.snd h

/-- A call that fails. -/
theorem FsFault.frame {c : FsCall} {r : c.Reply} (hw : w.WritesIn S) (h : FsFault c w r t) :
    t.WritesIn S ∧ ∀ q, ¬ S q → t.card.get q = w.card.get q := by
  cases c with
  | opendir path =>
      obtain ⟨rfl, -⟩ := h
      exact ⟨hw, fun _ _ => rfl⟩
  | fread file count =>
      obtain ⟨s, data, hs, -, -, rfl⟩ := h
      exact ⟨World.writesIn_seek hw hs, fun _ _ => rfl⟩
  | fputs text file =>
      obtain ⟨-, k, rfl⟩ := h
      exact ⟨World.writesIn_buffer hw, fun q _ => by rw [World.buffer_card]⟩
  | fflush file =>
      obtain ⟨-, k, rest, rfl, -⟩ := h
      exact ⟨World.writesIn_flush hw, fun q hq => World.flush_get hw hq⟩
  | fclose file =>
      obtain ⟨-, k, rfl⟩ := h
      exact ⟨World.writesIn_close (World.writesIn_flush hw), fun q hq => World.flush_get hw hq⟩
  | _ =>
      obtain ⟨-, rfl⟩ := h
      exact ⟨hw, fun _ _ => rfl⟩

/-- A call that writes at paths in `S` only leaves everything outside of `S` alone.
Only a `rename` reaches below the paths it is given. -/
theorem frame_at {o : Call} {r : o.Reply}
    (hS : ∀ src dst, o = .fs (.rename src dst) → ∀ p r, S p → S (p ++ r)) (hw : w.WritesIn S)
    (ho : ∀ path ∈ o.writes, ∀ p, resolve path = some p → S p) (h : machine o w r t) :
    t.WritesIn S ∧ ∀ q, ¬ S q → t.card.get q = w.card.get q := by
  cases o with
  | dev c =>
      obtain ⟨hcard, hstreams⟩ := DevStep.card h
      exact ⟨World.writesIn_of_streams hw hstreams, fun q _ => by rw [hcard]⟩
  | fs c =>
      rcases h with h | h
      · rw [h.eq]
        refine fsDo_frame ?_ hw ho
        rintro src dst rfl
        exact hS src dst rfl
      · exact h.frame hw
  | transfer client file capacity downloaded expected =>
      obtain ⟨-, s, k, -, rfl⟩ := h
      have hbuf : (w.buffer file r.accepted).WritesIn S := World.writesIn_buffer hw
      refine ⟨World.writesIn_flush hbuf, fun q hq => ?_⟩
      rw [World.flush_get hbuf hq, World.buffer_card]
  | diverge => exact r.elim

theorem frame {o : Call} {r : o.Reply} (hS : ∀ p r, S p → S (p ++ r)) (hw : w.WritesIn S)
    (ho : ∀ path ∈ o.writes, ∀ p, resolve path = some p → S p) (h : machine o w r t) :
    t.WritesIn S ∧ ∀ q, ¬ S q → t.card.get q = w.card.get q :=
  frame_at (fun _ _ _ => hS) hw ho h

end Download

end SimiboxDownloader
