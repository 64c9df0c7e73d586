import SimiboxDownloader.Download.Deletion
import SimiboxDownloader.Download.Loop
import SimiboxDownloader.Download.Received

/-!
# A finished download in stages

A run of `download_simi_folder` first fetches the list (`downloadSimiFolder_fetches`)
and then works on the two directories. What is done there to one of them leaves
everything outside of it alone (`Calls.fills`, `Calls.clearsOnly`).
-/

namespace SimiboxDownloader

namespace Download

open Interaction Interaction.Stateful DirTree

variable {α : Type} {J : CJson} {depth : ℕ} {folder lambdaUrl : Str} {st : Statics} {w t : World}
  {tr : List Event}

/-- The response lists a `manifest.json`. -/
def accepts (J : CJson) (e : Event) : Bool :=
  (listResponse J e).any fun items => (fileList items).any fun item => item.name = manifestName

theorem accepts_of_dev {d : List Event} {items? : Option (List Json)}
    (h : items?.toList = d.filterMap (listResponse J)) :
    d.any (accepts J) = items?.any fun items => (fileList items).any fun item =>
      item.name = manifestName := by
  have hmap : d.any (accepts J) = (d.filterMap (listResponse J)).any fun items =>
      (fileList items).any fun item => item.name = manifestName := by
    rw [List.any_filterMap]
    rfl
  rw [hmap, ← h]
  cases items? <;> simp

/-- The first stage: the list is refused and nothing else is done, or it is accepted
and its files are installed. -/
theorem downloadSimiFolder_fetches {x : FolderEnd × Statics}
    (hrun : Steps machine ((downloadSimiFolder J depth folder lambdaUrl).run st) w tr (.pure x) t) :
    ∃ fetch install w₁, tr = fetch ++ install ∧ Quiet w [] w₁ fetch ∧
      ((fetch.any (accepts J) = false ∧ install = [] ∧ t = w₁ ∧
          (x.1 = .listFailed ∨ x.1 = .noManifest)) ∨
        fetch.any (accepts J) = true ∧ ∃ items st', items ∈ fetch.filterMap (listResponse J) ∧
          Steps machine ((installFiles J depth folder (fileList items)).run st') w₁ install
            (.pure x) t) := by
  change Steps machine ((dev (.ledShowDownloadProgress 0) >>= fun _ =>
    fetchList J folder lambdaUrl >>= _).run
        { st with totalExpectedBytes := 0, totalDownloadedBytes := 0 }) w tr (.pure x) t at hrun
  obtain ⟨r, w₁, tr', rfl, hm, hrest⟩ := steps_call hrun
  obtain ⟨items?, st', w₂, fetch, install, rfl, hfetch, hinstall⟩ := steps_bind hrest
  have hquiet : Quiet w [] w₂ (⟨w, .dev (.ledShowDownloadProgress 0), r, w₁⟩ :: fetch) := by
    have hcalls := fetchList_calls onlyDev_dev J folder lambdaUrl
    have hled := (Quiet.refl w []).dev hm
    have hlist := (quiet_of_calls hcalls _ w₁ []).result hfetch
    exact ⟨hlist.card.trans hled.card, hlist.streams.trans hled.streams, _, rfl,
      List.forall_mem_cons.2 ⟨⟨_, rfl⟩, hcalls.events hfetch⟩⟩
  have hlisted := (fetchList_listed hfetch).1
  have haccepts := accepts_of_dev hlisted
  refine ⟨_ :: fetch, install, w₂, rfl, hquiet, ?_⟩
  rw [List.any_cons, List.filterMap_cons_none rfl]
  cases items? with
  | none =>
      cases hinstall
      exact Or.inl ⟨haccepts, rfl, rfl, Or.inl rfl⟩
  | some items =>
      change Steps machine ((installList J depth folder items).run st') w₂ install _ _ at hinstall
      unfold installList at hinstall
      rw [run_modify_bind] at hinstall
      split at hinstall
      · next hmanifest =>
          rw [run_modify_bind] at hinstall
          refine Or.inr ⟨haccepts.trans hmanifest, items, _, ?_, hinstall⟩
          rw [← hlisted]
          exact List.mem_singleton_self items
      · next hmanifest =>
          cases hinstall
          exact Or.inl ⟨haccepts.trans (Bool.not_eq_true _ ▸ hmanifest), rfl, rfl, Or.inr rfl⟩

section Directories

variable {p : Action α} {q : Program Call Call.Reply (α × Statics)} {d : List Name}

/-- A run of calls that fill the directory `d`. -/
theorem Calls.fills (h : Calls (Fills d) p) (hrun : Steps machine (p.run st) w tr q t)
    (hw : w.WritesIn (Within d)) (hd : w.card.get d = some .dir) :
    t.WritesIn (Within d) ∧ ∀ x, ¬ Within d x → t.card.get x = w.card.get x := by
  refine hrun.invariant (J := fun s => s.WritesIn (Within d) ∧
    ∀ x, ¬ Within d x → s.card.get x = w.card.get x) ?_ ⟨hw, fun _ _ => rfl⟩
  rintro e he ⟨hopen, hsame⟩
  have hdir : e.before.card.get d = some .dir := by
    rw [hsame d fun hd => hd.2 rfl, hd]
  obtain ⟨hopen', hframe⟩ := (h.events hrun e he).step hopen hdir (hrun.events e he)
  exact ⟨hopen', fun x hx => (hframe x hx).trans (hsame x hx)⟩

/-- A run of `delete_tree` on `d`. -/
theorem Calls.clearsOnly (h : Calls (Clears d) p) (hrun : Steps machine (p.run st) w tr q t) :
    t.streams = w.streams ∧ ∀ x, ¬ d <+: x → t.card.get x = w.card.get x := by
  refine hrun.invariant (J := fun s => s.streams = w.streams ∧
    ∀ x, ¬ d <+: x → s.card.get x = w.card.get x) ?_ ⟨rfl, fun _ _ => rfl⟩
  rintro e he ⟨hopen, hsame⟩
  rcases (h.events hrun e he).step (hrun.events e he) with hsame' | ⟨y, -, hdy, hremoved⟩
  · rw [hsame']
    exact ⟨hopen, hsame⟩
  · rw [hremoved]
    refine ⟨hopen, fun x hx => ?_⟩
    rw [← hsame x hx]
    apply Tree.get_remove_of_ne
    rintro rfl
    exact hx hdy

end Directories

end Download

end SimiboxDownloader
