import SimiboxDownloader.Boot.AppMain

/-!
# The recovery of NVS

`app_main` wants to recover NVS by erasing the three namespaces the downloader may lose,
so that the others survive. But a partition that `nvs_flash_init` has refused is not
initialised, `nvs_open` fails on it, and the three blocks erase nothing: the second
`nvs_flash_init` fails like the first, and `nvs_flash_erase` wipes every namespace
(`nvsInit_wipes`).
-/

namespace SimiboxDownloader

namespace Boot

open Interaction Interaction.Stateful

section Library

variable {ρ : Type}

/-- The name of a namespace. -/
def Namespace.name : Namespace → Str
  | .bootmgr => "bootmgr".toList
  | .wifiCreds => "wifi_creds".toList
  | .knownNets => "known_nets".toList

/-- The NVS library on a partition with the raw content `ρ`: what `nvs_flash_init` says
to a content, the keys and values stored in a namespace, what `nvs_erase_all` makes of a
content and what `nvs_flash_erase` leaves. -/
structure NvsLibrary (ρ : Type) where
  flashInit : ρ → InitResult
  items : ρ → Str → List (Str × List UInt8)
  eraseAll : Str → ρ → ρ
  erased : ρ
  items_eraseAll : ∀ ns c, items (eraseAll ns c) ns = []
  items_eraseAll_of_ne : ∀ {ns ns'} c, ns' ≠ ns → items (eraseAll ns c) ns' = items c ns'
  items_erased : ∀ ns, items erased ns = []
  flashInit_erased : flashInit erased = .ok

/-- The NVS partition, and whether it is initialised. -/
structure Partition (ρ : Type) where
  content : ρ
  ready : Bool

/-- The calls of the initialisation. A partition that is not initialised cannot be
opened; any call but `nvs_flash_init` can also fail, and then changes nothing. -/
def nvsMachine (lib : NvsLibrary ρ) : Machine BootCall BootReply (Partition ρ)
  | .nvsFlashInit, s, r, t =>
      r = (if s.ready then .ok else lib.flashInit s.content) ∧
        t = { s with ready := decide (r = .ok) }
  | .nvsFlashErase, s, r, t => t = if r then ⟨lib.erased, false⟩ else s
  | .nvsOpen _, s, r, t => (s.ready = false → r = false) ∧ t = s
  | .nvsEraseAll ns, s, r, t =>
      t = if r then { s with content := lib.eraseAll ns.name s.content } else s
  | .nvsCommit, s, _, t => t = s
  | _, _, _, _ => False

/-- The content without the entries of the three namespaces. -/
def NvsLibrary.eraseOwn (lib : NvsLibrary ρ) (c : ρ) : ρ :=
  lib.eraseAll Namespace.knownNets.name
    (lib.eraseAll Namespace.wifiCreds.name (lib.eraseAll Namespace.bootmgr.name c))

/-- A namespace of somebody else. -/
def Foreign (ns : Str) : Prop :=
  ∀ own : Namespace, ns ≠ own.name

/-- The initialisation never calls `nvs_flash_erase`, and it leaves every foreign
namespace as it was stored. -/
def KeepsForeign (lib : NvsLibrary ρ) (st : Statics) (c : ρ) : Prop :=
  ∀ tr q t, Steps (nvsMachine lib) (nvsInit.run st) ⟨c, false⟩ tr q t →
    (∀ e ∈ tr, e.op ≠ .nvsFlashErase) ∧
      ∀ ns, Foreign ns → lib.items t.content ns = lib.items c ns

end Library

section Recovery

variable {ρ : Type} {lib : NvsLibrary ρ} {st : Statics} {c : ρ} {s t : Partition ρ}

/-- Every other call keeps the foreign namespaces. -/
theorem foreign_kept {o : BootCall} {r : BootReply o} {ns : Str} (hns : Foreign ns)
    (ho : o ≠ .nvsFlashErase) (hm : nvsMachine lib o s r t) :
    lib.items t.content ns = lib.items s.content ns := by
  cases o with
  | nvsFlashErase => exact absurd rfl ho
  | nvsFlashInit | nvsOpen own =>
      rw [hm.2]
  | nvsEraseAll own =>
      rw [show t = _ from hm]
      split
      · exact lib.items_eraseAll_of_ne _ (hns own)
      · rfl
  | nvsCommit =>
      rw [show t = s from hm]
  | _ => exact hm.elim

/-- On a partition that is not initialised nothing is erased. -/
theorem eraseNamespace_refused {ns : Namespace} {x : Unit × Statics}
    {tr : List (Interaction.Event BootCall BootReply (Partition ρ))} (hs : s.ready = false)
    (hrun : Steps (nvsMachine lib) ((eraseNamespace ns).run st) s tr (.pure x) t) : t = s := by
  obtain ⟨r, u, tr', -, ⟨hr, rfl⟩, hrest⟩ := steps_call hrun
  rw [hr hs, if_neg Bool.false_ne_true] at hrest
  cases hrest
  rfl

/-- `ESP_ERROR_CHECK` only returns after `ESP_OK`. -/
theorem espErrorCheck_passes {ok : Bool} {x : Unit × Statics}
    {tr : List (Interaction.Event BootCall BootReply (Partition ρ))}
    (hrun : Steps (nvsMachine lib) ((espErrorCheck ok).run st) s tr (.pure x) t) :
    ok = true ∧ t = s := by
  cases ok with
  | true =>
      cases hrun
      exact ⟨rfl, rfl⟩
  | false =>
      obtain ⟨e, -⟩ := steps_call hrun
      exact e.elim

theorem ne_ok {r : InitResult} (h : r = .noFreePages ∨ r = .newVersionFound) : r ≠ .ok := by
  rcases h with rfl | rfl
  · decide
  · decide

/-- A run of the recovery that comes to its end has wiped the whole partition. -/
theorem nvsInit_erases {x : Unit × Statics}
    {tr : List (Interaction.Event BootCall BootReply (Partition ρ))}
    (hfail : lib.flashInit c = .noFreePages ∨ lib.flashInit c = .newVersionFound)
    (hrun : Steps (nvsMachine lib) (nvsInit.run st) ⟨c, false⟩ tr (.pure x) t) :
    (∃ e ∈ tr, e.op = .nvsFlashErase) ∧ t.content = lib.erased := by
  have hne := ne_ok hfail
  obtain ⟨r, u, tr₁, rfl, ⟨rfl, rfl⟩, hrest⟩ := steps_call hrun
  rw [if_neg Bool.false_ne_true, if_pos hfail, decide_eq_false hne] at hrest
  obtain ⟨_, st₁, u₁, tr₂, tr₃, rfl, hbootmgr, hrest⟩ := steps_bind hrest
  obtain rfl := eraseNamespace_refused rfl hbootmgr
  obtain ⟨_, st₂, u₂, tr₄, tr₅, rfl, hwifi, hrest⟩ := steps_bind hrest
  obtain rfl := eraseNamespace_refused rfl hwifi
  obtain ⟨_, st₃, u₃, tr₆, tr₇, rfl, hknown, hrest⟩ := steps_bind hrest
  obtain rfl := eraseNamespace_refused rfl hknown
  -- the second `nvs_flash_init` finds what the first one found
  obtain ⟨r, u, tr₈, rfl, ⟨rfl, rfl⟩, hrest⟩ := steps_call hrest
  rw [if_neg Bool.false_ne_true, if_pos hne, decide_eq_false hne] at hrest
  obtain ⟨erased, u, tr₉, rfl, hu, hrest⟩ := steps_call hrest
  obtain ⟨_, st₄, u₄, tr₁₀, tr₁₁, -, hcheck, hrest⟩ := steps_bind hrest
  obtain ⟨rfl, rfl⟩ := espErrorCheck_passes hcheck
  obtain ⟨r, u, tr₁₂, -, ⟨-, rfl⟩, hrest⟩ := steps_call hrest
  obtain ⟨-, rfl⟩ := espErrorCheck_passes hrest
  let e : Interaction.Event BootCall BootReply (Partition ρ) :=
    ⟨⟨c, false⟩, .nvsFlashErase, true, u₄⟩
  exact ⟨⟨e, by simp [e], rfl⟩, congrArg Partition.content hu⟩

theorem eraseNamespace_skips (lib : NvsLibrary ρ) (st : Statics) (ns : Namespace) (c : ρ) :
    Steps (nvsMachine lib) ((eraseNamespace ns).run st) ⟨c, false⟩
      [⟨⟨c, false⟩, .nvsOpen ns, false, ⟨c, false⟩⟩] (.pure ((), st)) ⟨c, false⟩ := by
  have hopen : nvsMachine lib (.nvsOpen ns) ⟨c, false⟩ false ⟨c, false⟩ := ⟨fun _ => rfl, rfl⟩
  exact Steps.call hopen (Steps.refl _ _)

/-- It can come to its end. -/
theorem nvsInit_finishes (lib : NvsLibrary ρ) (st : Statics)
    (hfail : lib.flashInit c = .noFreePages ∨ lib.flashInit c = .newVersionFound) :
    Finishes (nvsMachine lib) (nvsInit.run st) ⟨c, false⟩ := by
  have hne := ne_ok hfail
  have hinit : nvsMachine lib .nvsFlashInit ⟨c, false⟩ (lib.flashInit c) ⟨c, false⟩ :=
    ⟨rfl, by rw [decide_eq_false hne]⟩
  have herase : nvsMachine lib .nvsFlashErase ⟨c, false⟩ true ⟨lib.erased, false⟩ := rfl
  have hlast : nvsMachine lib .nvsFlashInit ⟨lib.erased, false⟩ .ok ⟨lib.erased, true⟩ :=
    ⟨lib.flashInit_erased.symm, rfl⟩
  refine finishes_call hinit ?_
  rw [if_pos hfail]
  refine finishes_bind (eraseNamespace_skips lib st .bootmgr c) ?_
  refine finishes_bind (eraseNamespace_skips lib st .wifiCreds c) ?_
  refine finishes_bind (eraseNamespace_skips lib st .knownNets c) ?_
  refine finishes_call hinit ?_
  rw [if_pos hne]
  refine finishes_call herase ?_
  refine finishes_bind (Steps.refl _ _) ?_
  exact finishes_call hlast finishes_pure

/-- The calls before `nvs_flash_erase` keep the foreign namespaces. -/
theorem foreign_kept_run {α : Type} {p q : Program BootCall BootReply α} {ns : Str}
    {tr : List (Interaction.Event BootCall BootReply (Partition ρ))} (hns : Foreign ns)
    (hrun : Steps (nvsMachine lib) p s tr q t) (hnone : ∀ e ∈ tr, e.op ≠ .nvsFlashErase) :
    lib.items t.content ns = lib.items s.content ns := by
  refine hrun.invariant (J := fun u => lib.items u.content ns = lib.items s.content ns) ?_ rfl
  intro e he hkept
  exact (foreign_kept hns (hnone e he) (hrun.events e he)).trans hkept

theorem not_keepsForeign (lib : NvsLibrary ρ) (st : Statics)
    (hfail : lib.flashInit c = .noFreePages ∨ lib.flashInit c = .newVersionFound) :
    ¬ KeepsForeign lib st c := by
  intro hkeeps
  obtain ⟨tr, x, t, hrun⟩ := nvsInit_finishes lib st hfail
  obtain ⟨⟨e, he, herase⟩, -⟩ := nvsInit_erases hfail hrun
  exact (hkeeps tr _ t hrun).1 e he herase

/-- The foreign namespaces are safe just where the recovery is not tried. -/
theorem keepsForeign_iff (lib : NvsLibrary ρ) (st : Statics) (c : ρ) :
    KeepsForeign lib st c ↔ lib.flashInit c = .ok ∨ lib.flashInit c = .other := by
  constructor
  · intro hkeeps
    by_contra hcon
    refine not_keepsForeign lib st ?_ hkeeps
    cases h : lib.flashInit c <;> simp_all
  · intro hok tr q t hrun
    have hskips : ¬ (lib.flashInit c = .noFreePages ∨ lib.flashInit c = .newVersionFound) := by
      rcases hok with h | h <;> simp [h]
    have honly : Ensures (nvsMachine lib) (fun o _ => o = .nvsFlashInit) (fun _ _ _ => True)
        nvsInit st ⟨c, false⟩ := by
      refine ensures_call rfl fun r t hm => ?_
      obtain ⟨rfl, -⟩ := hm
      rw [if_neg Bool.false_ne_true, if_neg hskips]
      exact ensures_pure trivial
    have hnone : ∀ e ∈ tr, e.op ≠ .nvsFlashErase := by
      intro e he herase
      have hinit := honly.events hrun e he
      rw [herase] at hinit
      cases hinit
    exact ⟨hnone, fun ns hns => foreign_kept_run hns hrun hnone⟩

/-- The recovery is never selective: whatever is stored, and whether or not the content
would be fine without the entries of the three namespaces, it comes to the call of
`nvs_flash_erase`, and no run that comes to its end leaves anything in any namespace. -/
theorem nvsInit_wipes (lib : NvsLibrary ρ) (st : Statics)
    (hfail : lib.flashInit c = .noFreePages ∨ lib.flashInit c = .newVersionFound) :
    ¬ KeepsForeign lib st c ∧ Finishes (nvsMachine lib) (nvsInit.run st) ⟨c, false⟩ ∧
      ∀ tr x t, Steps (nvsMachine lib) (nvsInit.run st) ⟨c, false⟩ tr (.pure x) t →
        (∃ e ∈ tr, e.op = .nvsFlashErase) ∧ ∀ ns, lib.items t.content ns = [] := by
  refine ⟨not_keepsForeign lib st hfail, nvsInit_finishes lib st hfail, fun tr x t hrun => ?_⟩
  obtain ⟨herase, hcontent⟩ := nvsInit_erases hfail hrun
  refine ⟨herase, fun ns => ?_⟩
  rw [hcontent, lib.items_erased]

end Recovery

section Sample

/-- A partition with room for three entries, each with its namespace, key and value. -/
def smallNvs : NvsLibrary (List (Str × Str × List UInt8)) where
  flashInit := fun c => if c.length < 3 then .ok else .noFreePages
  items := fun c ns => (c.filter fun entry => entry.1 = ns).map Prod.snd
  eraseAll := fun ns c => c.filter fun entry => entry.1 ≠ ns
  erased := []
  items_eraseAll := by
    intro ns c
    simp [List.filter_filter]
  items_eraseAll_of_ne := by
    intro ns ns' c hne
    rw [List.filter_filter]
    congr 1
    apply List.filter_congr
    intro entry _
    by_cases h : entry.1 = ns' <;> simp [h, hne]
  items_erased := fun _ => rfl
  flashInit_erased := rfl

/-- A full partition: the boot record, a network and the key of `simibox`. -/
def fullNvs : List (Str × Str × List UInt8) :=
  [("bootmgr".toList, "retry".toList, [3]), ("wifi_creds".toList, "ssid_0".toList, [104]),
    ("simibox".toList, "hmac_key".toList, [42])]

/-- The key is lost, although there is room again without the other two entries. -/
theorem nvsInit_loses_simibox : ¬ ∀ (st : Statics) (c : List (Str × Str × List UInt8)),
    (smallNvs.flashInit c = .noFreePages ∨ smallNvs.flashInit c = .newVersionFound) →
    smallNvs.flashInit (smallNvs.eraseOwn c) = .ok → KeepsForeign smallNvs st c := by
  intro h
  exact not_keepsForeign smallNvs ⟨false, .zero, .zero⟩ (Or.inl rfl)
    (h _ fullNvs (Or.inl rfl) (by decide))

theorem nvsInit_wipes_fullNvs :
    smallNvs.flashInit (smallNvs.eraseOwn fullNvs) = .ok ∧
      ∃ tr x t, Steps (nvsMachine smallNvs) (nvsInit.run ⟨false, .zero, .zero⟩) ⟨fullNvs, false⟩
        tr (.pure x) t ∧ smallNvs.items t.content "simibox".toList = [] := by
  obtain ⟨-, ⟨tr, x, t, hrun⟩, hwiped⟩ := @nvsInit_wipes _ fullNvs smallNvs
    ⟨false, .zero, .zero⟩ (Or.inl rfl)
  exact ⟨by decide, tr, x, t, hrun, (hwiped tr x t hrun).2 _⟩

end Sample

end Boot

end SimiboxDownloader
