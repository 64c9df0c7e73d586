import SimiboxDownloader.Boot.Promise

/-!
# A boot without a request

When no download is requested a boot makes no call for the radio or the card, whichever
of its calls fail, and it makes no request either (`appMain_idles`).
-/

namespace SimiboxDownloader

namespace Boot

open Interaction Stateful

section Idle

variable {κ : Type} {Stands : Str → κ → Prop} {n : Nvs} {s : Flash × κ} {st : Statics}
  {α : Type}

/-- Every call is a preparing one, and the record is the one of the start or erased. -/
abbrev Idles (Stands : Str → κ → Prop) (n : Nvs) (Q : α → Flash × κ → Prop)
    (p : Program BootCall BootReply α) (s : Flash × κ) : Prop :=
  Safe (beside Stands) (fun o _ => Preparing o) (Before Stands n) Q p s

theorem idles_of_prepares {p : BootM α} (hp : BootUses Preparing p) (h : Before Stands n s) :
    Idles Stands n (fun _ t => Before Stands n t) (p.run st) s :=
  (hp st).safe (J := Before Stands n) (fun _ _ _ _ ho hs hm => ⟨trivial, hs.step ho hm⟩)
    (fun _ _ ho _ => ho) h

/-- A record with the request of `n`, or with none. -/
theorem not_needs_of_same {m : Nvs} (hn : ¬ n.load.NeedsDownload)
    (h : SameRequest n m ∨ m.load.reason = reasonNormal) : ¬ m.load.NeedsDownload := by
  rintro ⟨hreason, hfolder⟩
  rcases h with hsame | hnormal
  · exact hn ⟨hsame.1.symm.trans hreason, hsame.2 ▸ hfolder⟩
  · rw [hreason] at hnormal
    exact absurd hnormal (by decide)

/-- What is read from it is no request either. -/
theorem not_needs_of_loaded {m : Nvs} {state : BootState} (hm : ¬ m.load.NeedsDownload)
    (h : LoadedFrom m state) : ¬ state.NeedsDownload := by
  rintro ⟨hreason, hfolder⟩
  rcases h.1 with hsame | hnormal
  · exact hm ⟨hsame.symm.trans hreason, h.2.resolve_right hfolder ▸ hfolder⟩
  · rw [hreason] at hnormal
    exact absurd hnormal (by decide)

theorem bootMgrLoadState_idles (hn : ¬ n.load.NeedsDownload) (h : Before Stands n s) :
    Idles Stands n (fun x t => Before Stands n t ∧ ∀ state, x.1 = some state →
      x.2.current = state ∧ ¬ state.NeedsDownload) (bootMgrLoadState.run st) s := by
  refine ((idles_of_prepares bootMgrLoadState_prepares h).and (bootMgrLoadState_promises h)).mono
    (fun _ _ _ _ hm => hm) (fun _ _ hc => hc.1) (fun _ hi => hi.1) ?_
  rintro ⟨loaded, st'⟩ t ⟨ht, -, hloaded⟩
  refine ⟨ht, fun state hstate => ?_⟩
  obtain ⟨hcurrent, hfrom⟩ := hloaded state hstate
  exact ⟨hcurrent, not_needs_of_loaded (not_needs_of_same hn ht.record.visible) hfrom⟩

theorem normalBoot_idles (hn : ¬ n.load.NeedsDownload) (h : Before Stands n s) :
    Idles Stands n (fun _ t => Before Stands n t) (normalBoot.run st) s := by
  rw [normalBoot, run_bind]
  apply (idles_of_prepares ledInit_prepares h).bind
  intro x₁ t₁ h₁
  rw [run_bind]
  apply (idles_of_prepares bootMgrInit_prepares h₁).bind
  intro x₂ t₂ h₂
  rw [run_bind]
  apply (idles_of_prepares (espErrorCheck_prepares _) h₂).bind
  intro x₃ t₃ h₃
  rw [run_bind]
  apply (bootMgrLoadState_idles hn h₃).bind
  rintro ⟨loaded, st₄⟩ t₄ ⟨h₄, hloaded⟩
  cases loaded with
  | none => exact idles_of_prepares abort_prepares h₄
  | some state =>
      obtain ⟨hcurrent, hneeds⟩ := hloaded state rfl
      change Idles Stands n _ (StateT.run (modify _ >>= _) st₄) t₄
      rw [run_modify_bind, run_bind, bootMgrNeedsDownload_run, Program.pure_bind]
      simp only at hcurrent
      rw [hcurrent, if_neg (by simpa using hneeds)]
      exact h₄

/-- A boot without a request, whatever its calls reply: it only reads the record, counts
the boot or erases the namespaces. -/
theorem appMain_idles {c : κ} (hn : ¬ n.load.NeedsDownload) (hhonest : n.Honest Stands c) :
    Idles Stands n (fun _ _ => True) (appMain.run st) (⟨n, []⟩, c) := by
  rw [appMain, beforeRestart, run_bind, run_bind]
  refine Safe.bind (R := fun _ t => Before Stands n t) ?_ ?_
  · apply (idles_of_prepares nvsInit_prepares (before_boot hhonest)).bind
    intro x₁ t₁ h₁
    rw [run_bind]
    apply (idles_of_prepares countBoot_prepares h₁).bind
    intro x₂ t₂ h₂
    split
    · exact idles_of_prepares safeModeBoot_prepares h₂
    · exact normalBoot_idles hn h₂
  · intro x t ht
    exact (idles_of_prepares bootMusicboxAndRestart_prepares ht).imp fun _ _ _ => trivial

end Idle

end Boot

end SimiboxDownloader
