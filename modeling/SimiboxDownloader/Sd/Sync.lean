import SimiboxDownloader.Download.Phases
import SimiboxDownloader.Sd.Lifecycle

/-!
# The sync write

Before a healthy card is unmounted `unmount_sd` writes a file and removes it again. It
opens the file as any other: what is on the card under that name is lost, but for a
directory, and nothing else on the card changes (`unmountSd_spares`).
-/

namespace SimiboxDownloader

namespace Sd

open Interaction Interaction.Stateful Download DirTree

/-- `.sync` -/
def syncName : Name := ⟨".sync".toList, by decide⟩

theorem resolve_syncPath : resolve syncPath = some [syncName] := by
  have hmount : mountPrefix <+: syncPath := ⟨".sync".toList, rfl⟩
  have hdrop : syncPath.drop mountPrefix.length = syncName.val := rfl
  rw [resolve, if_pos hmount, hdrop, rel_name]

/-- Nothing but the sync file has changed, and that neither if it is a directory. -/
structure Spares (c c' : Tree Name Bytes) : Prop where
  elsewhere : ∀ x, x ≠ [syncName] → c'.get x = c.get x
  dir : c.get [syncName] = some .dir → c' = c

theorem Spares.refl (c : Tree Name Bytes) : Spares c c := ⟨fun _ _ => rfl, fun _ => rfl⟩

/-- A file is not opened for writing where there is a directory. -/
theorem isDir_of_fopen {w t : Download.World} {path : Str} {f : ℕ} {p : List Name}
    (hp : resolve path = some p)
    (hm : Download.machine (.fs (.fopen path .wb)) w (some f) t) : w.card.isDir p = false := by
  rcases hm with hm | ⟨hm, -⟩
  · have hrt : (some f, t) = fsDo (.fopen path .wb) w := hm
    simp only [fsDo, hp] at hrt
    split at hrt
    · next hput => exact hput.2.2
    · cases (Prod.mk.inj hrt).1
  · cases hm

/-- The file is open for writing, if any is. -/
structure Syncing (c : Tree Name Bytes) (w : Download.World) : Prop where
  elsewhere : ∀ x, x ≠ [syncName] → w.card.get x = c.get x
  file : c.isDir [syncName] = false
  open_ : w.WritesIn (· = [syncName])

theorem Syncing.spares {c : Tree Name Bytes} {w : Download.World} (h : Syncing c w) :
    Spares c w.card := by
  refine ⟨h.elsewhere, fun hdir => ?_⟩
  have hnot := h.file
  rw [Tree.isDir_iff.2 hdir] at hnot
  cases hnot

variable {c : Tree Name Bytes} {w t : World} {st : Statics}

/-- A call that writes at the sync file only. -/
theorem Syncing.step {o : FsCall} {r : o.Reply} (h : Syncing c w.files)
    (hrename : ∀ src dst, o ≠ .rename src dst) (hwrites : ∀ path ∈ o.writes, path = syncPath)
    (hm : downloadStep (.fs o) w r t) : Syncing c t.files := by
  simp only [downloadStep] at hm
  split at hm
  · obtain ⟨hopen, hsame⟩ := frame_at (o := .fs o)
      (fun src dst heq => absurd (Call.fs.inj heq) (hrename src dst)) h.open_
      (fun path hpath p hp => by
        rw [hwrites path hpath, resolve_syncPath] at hp
        exact (Option.some.inj hp).symm) hm.1
    exact ⟨fun x hx => (hsame x hx).trans (h.elsewhere x hx), h.file, hopen⟩
  · rw [hm.2]
    exact h

/-- Opening it. -/
theorem syncing_of_fopen {file : ℕ} (hclosed : HeldIn w.files [])
    (hm : downloadStep (.fs (.fopen syncPath .wb)) w (some file) t) :
    Syncing w.files.card t.files := by
  simp only [downloadStep] at hm
  split at hm
  · have hopen : w.files.WritesIn (· = [syncName]) := by
      intro f s hs
      rw [World.writer, hclosed f (by simp)] at hs
      cases hs
    have hstart : Syncing w.files.card w.files :=
      ⟨fun _ _ => rfl, isDir_of_fopen resolve_syncPath hm.1, hopen⟩
    refine hstart.step (o := .fopen syncPath .wb) (r := some file) (by simp) (by
      simp [FsCall.writes]) ?_
    simp only [downloadStep]
    rw [if_pos (by assumption)]
    exact hm
  · cases hm.1

/-- The sync write and the unmount change at most the sync file, at every moment. -/
abbrev Sparing {α : Type} (c : Tree Name Bytes) (Q : α → Statics → World → Prop) (p : Action α)
    (st : Statics) (w : World) : Prop :=
  Safe machine (fun _ _ => True) (fun t => Spares c t.files.card) (fun x t => Q x.1 x.2 t)
    (p.run st) w

theorem sparing_fs {α : Type} {Q : α → Statics → World → Prop} {o : FsCall}
    {k : o.Reply → Action α} (hk : ∀ r t, downloadStep (.fs o) w r t →
      Spares c t.files.card ∧ Sparing c Q (k r) st t) : Sparing c Q (fs o >>= k) st w :=
  ⟨trivial, hk⟩

theorem writeSync_spares (hclosed : HeldIn w.files []) :
    Sparing w.files.card (fun _ _ t => Spares w.files.card t.files.card) writeSync st w := by
  apply sparing_fs
  intro file? w₁ hopen
  cases file? with
  | none =>
      have hspares : Spares w.files.card w₁.files.card := by
        have hfiles := machine_of_downloadStep hopen fun _ => hclosed
        rw [fopen_none hfiles]
        exact Spares.refl _
      exact ⟨hspares, hspares⟩
  | some file =>
      have h₁ := syncing_of_fopen hclosed hopen
      refine ⟨h₁.spares, sparing_fs fun _ w₂ hputs => ?_⟩
      have h₂ := h₁.step (by simp) (by simp [FsCall.writes]) hputs
      refine ⟨h₂.spares, sparing_fs fun _ w₃ hflush => ?_⟩
      have h₃ := h₂.step (by simp) (by simp [FsCall.writes]) hflush
      refine ⟨h₃.spares, sparing_fs fun _ w₄ hsync => ?_⟩
      have h₄ := h₃.step (by simp) (by simp [FsCall.writes]) hsync
      refine ⟨h₄.spares, sparing_fs fun _ w₅ hclose => ?_⟩
      have h₅ := h₄.step (by simp) (by simp [FsCall.writes]) hclose
      refine ⟨h₅.spares, sparing_fs fun _ w₆ hremove => ?_⟩
      have h₆ := h₅.step (by simp) (by simp [FsCall.writes]) hremove
      exact ⟨h₆.spares, h₆.spares⟩

/-- The calls for the bus and the card leave the files alone. -/
theorem files_of_bus {o : SdCall} {r : o.Reply} (ho : ∀ c, o ≠ .download c)
    (hm : machine o w r t) : t.files = w.files := by
  cases o with
  | spiBusInitialize =>
      rw [machine_spiBusInitialize] at hm
      split at hm
      · rw [hm.2]
      · rcases hm with ⟨-, rfl⟩ | ⟨-, rfl⟩ <;> rfl
  | spiBusFree =>
      rw [machine_spiBusFree] at hm
      rw [hm]
      split <;> rfl
  | sdspiMount freqKhz =>
      rw [machine_sdspiMount] at hm
      rcases hm with ⟨-, rfl⟩ | ⟨-, -, hasClk, -, rfl⟩ <;> rfl
  | sdcardUnmount card =>
      rw [machine_sdcardUnmount] at hm
      rw [hm]
      split <;> rfl
  | cardReset =>
      obtain rfl := hm
      rfl
  | download c => exact absurd rfl (ho c)

theorem unmountCard_uses : Stateful.Uses (fun o => ∀ c, o ≠ SdCall.download c)
    (fun _ _ => True) unmountCard := by
  refine uses_get.bind fun st => ?_
  split
  · exact (uses_call (by simp)).bind fun _ => uses_modify
  · exact uses_pure

theorem freeBus_uses : Stateful.Uses (fun o => ∀ c, o ≠ SdCall.download c)
    (fun _ _ => True) freeBus :=
  uses_get.bind fun st => uses_ite ((uses_call (by simp)).bind fun _ => uses_modify) uses_pure

theorem unmountSd_spares (cardHealthy : Bool) (hclosed : HeldIn w.files []) :
    Sparing w.files.card (fun _ _ t => Spares w.files.card t.files.card) (unmountSd cardHealthy)
      st w := by
  have hclear {st : Statics} {t : World} (ht : Spares w.files.card t.files.card) :
      Sparing w.files.card (fun _ _ t => Spares w.files.card t.files.card)
        (unmountCard >>= fun _ => freeBus) st t := by
    have huses := (unmountCard_uses.bind fun _ => freeBus_uses) st
    refine huses.safe (J := fun t : World => Spares w.files.card t.files.card) ?_
      (fun _ _ _ _ => trivial) ht
    intro o s r t ho hs hm
    rw [files_of_bus ho hm]
    exact ⟨trivial, hs⟩
  unfold unmountSd
  cases cardHealthy with
  | false => exact hclear (Spares.refl _)
  | true =>
      apply (writeSync_spares hclosed).bind
      intro x t ht
      exact hclear ht

end Sd

end SimiboxDownloader
