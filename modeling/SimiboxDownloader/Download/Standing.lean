import SimiboxDownloader.Download.Installed
import SimiboxDownloader.Library.Refinement

/-!
# A package stands

What is left of an installed package when its download is over: the folder is a
directory that verifies, unless the verification looks at the marker. It holds when
`download_simi_folder` has returned true (`downloadSimiFolder_stands`), and it is a
matter of what lies in the folder (`Stands.of_below`).
-/

namespace SimiboxDownloader

namespace Download

open Interaction Interaction.Stateful DirTree

variable {J : CJson} {depth : ℕ} {folder : Str} {p q : List Name} {c c' : Tree Name Bytes}

/-- The folder holds a package that verifies. The marker is written behind the
verification, so nothing is said where that one looks at the marker as well, which it
does if the manifest lists it. -/
structure StandsAt (J : CJson) (folder : Str) (p : List Name) (c : Tree Name Bytes) : Prop where
  final : resolve (finalDir folder) = some p
  inside : p ≠ []
  dir : c.get p = some .dir
  verified : (∀ path ∈ looksAt J c (finalDir folder),
    resolve path ≠ resolve (sub (finalDir folder) okMarker)) →
      verifies J c (finalDir folder) = true

def Stands (J : CJson) (folder : Str) (c : Tree Name Bytes) : Prop := ∃ p, StandsAt J folder p c

/-- Changes outside of the folder. -/
theorem StandsAt.of_below (h : StandsAt J folder p c) (hsame : ∀ x, p <+: x → c'.get x = c.get x) :
    StandsAt J folder p c' := by
  obtain ⟨hverifies, hlooks⟩ := @verifies_of_agree J c c' (finalDir folder) fun path hpath x hx =>
    hsame x (prefix_of_mem_looksAt (mount_finalDir folder) h.final hpath hx)
  refine ⟨h.final, h.inside, (hsame p (List.prefix_refl p)).trans h.dir, ?_⟩
  rw [hverifies, hlooks]
  exact h.verified

/-- A directory that verifies is there. -/
theorem isDir_of_verifies {dir : Str} (hm : mountPrefix <+: dir) (hq : resolve dir = some q)
    (h : verifies J c dir = true) : c.get q = some .dir := by
  have hplain : Plain manifestName := by decide
  have hmanifest : resolve (sub dir manifestName) = some (q ++ [⟨manifestName, hplain⟩]) :=
    (resolve_sub_eq_some hm).2 ⟨q, _, hq, rel_name ⟨manifestName, hplain⟩, rfl⟩
  exact Tree.get_of_prefix (isSome_of_verifies h List.mem_cons_self hmanifest) (by simp)

/-- The temporary directory has verified, and has replaced the folder. -/
theorem stands_of_replaces {w s t : World} {mark : List Event} (hreplaces : Replaces folder p q w s)
    (hmark : Marks folder s mark t) (hverifies : verifies J w.card (tmpDir folder) = true) :
    Stands J folder t.card := by
  obtain ⟨hp, hq, hpq, hmoved, -⟩ := hreplaces
  have hmarker := resolve_marker hp
  obtain ⟨st, y, hrun⟩ := hmark
  obtain ⟨hsame, -⟩ := writeMarker_writes hmarker hrun
  have hinside : p ≠ [] := by
    rintro rfl
    exact hpq List.nil_prefix
  refine ⟨p, hp, hinside, ?_, fun hlooks => ?_⟩
  · have hdir := hmoved []
    rw [List.append_nil, List.append_nil] at hdir
    rw [hsame p (by simp), hdir]
    exact isDir_of_verifies (mount_tmpDir folder) hq hverifies
  · have hagree := @verifies_of_agree J t.card s.card (finalDir folder)
      fun path hpath x hx => (hsame x ?_).symm
    · rw [← hagree.1, verifies_of_moved (mount_tmpDir folder) (mount_finalDir folder) hq hp hmoved,
        hverifies]
    · rintro rfl
      exact hlooks path hpath (hx.trans hmarker.symm)

theorem installFiles_stands {files : List FileItem} {st : Statics} {w t : World} {tr : List Event}
    {x : FolderEnd × Statics}
    (hrun : Steps machine ((installFiles J depth folder files).run st) w tr (.pure x) t)
    (hret : x.1.ret = true) : Stands J folder t.card := by
  obtain ⟨_, st₁, w₁, tr₁, tr₂, rfl, -, hrest⟩ := steps_bind hrun
  obtain ⟨made, w₂, tr₃, rfl, hmkdir, hmade⟩ := steps_call hrest
  cases made with
  | false =>
      cases hmade
      cases hret
  | true =>
      change Steps machine ((downloadFiles (tmpDir folder) files >>=
        afterLoop J depth folder).run st₁) _ tr₃ (.pure x) t at hmade
      obtain ⟨result, st₂, w₃, loop, tr₄, rfl, -, hafter⟩ := steps_bind hmade
      obtain ⟨-, hverifies, p, q, s, pre, mark, hreplaces, -, hmark⟩ :=
        afterLoop_replaces hafter hret
      exact stands_of_replaces hreplaces hmark hverifies

/-- When `download_simi_folder` returns true the folder stands. -/
theorem downloadSimiFolder_stands (J : CJson) (depth : ℕ) (folder lambdaUrl : Str) (st : Statics)
    (w : World) :
    Ensures machine (fun _ _ => True) (fun e _ t => e.ret = true → Stands J folder t.card)
      (downloadSimiFolder J depth folder lambdaUrl) st w := by
  refine safe_of_steps fun tr x t hrun hret => ?_
  obtain ⟨fetch, install, w₁, rfl, -, hstages⟩ := downloadSimiFolder_fetches hrun
  rcases hstages with ⟨-, -, -, hend⟩ | ⟨-, items, st', -, hinstall⟩
  · rcases hend with hend | hend <;> rw [hend] at hret <;> cases hret
  · exact installFiles_stands hinstall hret

end Download

end SimiboxDownloader
