import SimiboxDownloader.Download.Discipline
import SimiboxDownloader.Sd.Bus

/-!
# The life of the card

The statics agree with the driver: `s_card` is the card that is mounted, and
`s_spi_bus_initialized` says whether the bus is. Each of the functions keeps that
(`Agrees`), and between them the bus is initialized exactly while a card is mounted
on it. So in any sequence of them a card is unmounted once, with no file open on it,
a bus is freed once, and the reset drives the pins of a free bus (`lifecycle_inOrder`).
-/

namespace SimiboxDownloader

namespace Sd

open Interaction Interaction.Stateful Download

section Files

variable {w t : Download.World} {g : ℕ}

theorem setStream_none {f : ℕ} {s : Stream} (hs : w.streams f ≠ none) (h : w.streams g = none) :
    (w.setStream f (some s)).streams g = none := by
  rw [World.setStream_streams, Function.update_of_ne]
  · exact h
  · rintro rfl
    exact hs h

theorem close_none {f : ℕ} (h : w.streams g = none) : (w.setStream f none).streams g = none := by
  rw [World.setStream_streams]
  by_cases hg : g = f
  · rw [hg, Function.update_self]
  · rw [Function.update_of_ne hg, h]

theorem buffer_none {f : ℕ} {data : Bytes} (h : w.streams g = none) :
    (w.buffer f data).streams g = none := by
  unfold World.buffer
  split
  · next s hs => exact setStream_none (by simp [(World.writer_eq_some.1 hs).1]) h
  · exact h

theorem flush_none {f k : ℕ} {rest : Bytes} (h : w.streams g = none) :
    (w.flush f k rest).streams g = none := by
  unfold World.flush
  split
  · next s hs =>
      apply setStream_none
      · rw [World.append_streams, (World.writer_eq_some.1 hs).1]
        simp
      · rw [World.append_streams, h]
  · exact h

/-- Only `fopen` opens a `FILE`. -/
theorem fsDo_none {c : FsCall} (hopen : ∀ path mode, c ≠ .fopen path mode)
    (h : w.streams g = none) : (fsDo c w).2.streams g = none := by
  cases c with
  | stat | opendir | fsync | ftell => exact h
  | unlink path | rmdir path | remove path =>
      simp only [fsDo]
      rw [World.unlink_streams, h]
  | mkdir path =>
      simp only [fsDo]
      split
      · split <;> exact h
      · exact h
  | rename src dst =>
      simp only [fsDo]
      split
      · split <;> exact h
      · exact h
  | fopen path mode => exact absurd rfl (hopen path mode)
  | fputs text file => exact buffer_none h
  | fflush file =>
      simp only [fsDo]
      split
      · exact flush_none h
      · exact h
  | fclose file =>
      simp only [fsDo]
      split
      · exact close_none (flush_none h)
      · exact h
  | fseek file toEnd =>
      simp only [fsDo]
      split
      · next s hs =>
          split
          · exact setStream_none (by simp [hs]) h
          · exact h
      · exact h
  | fread file count =>
      simp only [fsDo]
      split
      · next s hs =>
          split
          · exact setStream_none (by simp [hs]) h
          · exact h
      · exact h

theorem none_of_step {o : Download.Call} {r : o.Reply}
    (hopen : ∀ path mode, o ≠ .fs (.fopen path mode)) (hm : Download.machine o w r t)
    (h : w.streams g = none) : t.streams g = none := by
  cases o with
  | dev c => rw [(DevStep.card hm).2, h]
  | fs c =>
      rcases hm with hm | hm
      · rw [hm.eq]
        exact fsDo_none (fun path mode hc => hopen path mode (hc ▸ rfl)) h
      · cases c with
        | opendir path => rw [hm.1, h]
        | fread file count =>
            obtain ⟨s, data, hs, -, -, rfl⟩ := hm
            exact setStream_none (by simp [hs]) h
        | fputs text file =>
            obtain ⟨-, k, rfl⟩ := hm
            exact buffer_none h
        | fflush file =>
            obtain ⟨-, k, rest, rfl, -⟩ := hm
            exact flush_none h
        | fclose file =>
            obtain ⟨-, k, rfl⟩ := hm
            exact close_none (flush_none h)
        | _ => rw [hm.2, h]
  | transfer client file capacity downloaded expected =>
      obtain ⟨-, s, k, -, rfl⟩ := hm
      exact flush_none (buffer_none h)
  | diverge => exact r.elim

theorem none_of_fopen {path : Str} {mode : Mode} {r : Option ℕ}
    (hm : Download.machine (.fs (.fopen path mode)) w r t) (hr : r ≠ some g)
    (h : w.streams g = none) : t.streams g = none := by
  have hopened (card : DirTree.Tree Name Bytes) (p : List Name) (hr : some w.next ≠ some g) :
      ({ w with card := card }.openStream p mode).streams g = none := by
    have hg : g ≠ w.next := fun hg => hr (congrArg some hg.symm)
    change Function.update w.streams w.next _ g = none
    rw [Function.update_of_ne hg, h]
  rcases hm with hm | hm
  · have heq : (r, t) = fsDo (.fopen path mode) w := hm
    cases mode with
    | wb =>
        simp only [fsDo] at heq
        split at heq
        · split at heq
          · cases heq
            exact hopened _ _ hr
          · cases heq
            exact h
        · cases heq
          exact h
    | rb =>
        simp only [fsDo] at heq
        split at heq
        · split at heq
          · cases heq
            exact hopened w.card _ hr
          · cases heq
            exact h
        · cases heq
          exact h
  · rw [hm.2, h]

theorem none_of_fclose {f : ℕ} {r : Bool} (hm : Download.machine (.fs (.fclose f)) w r t) :
    t.streams f = none := by
  rcases hm with hm | hm
  · rw [hm.eq]
    simp only [fsDo]
    split
    · rw [World.setStream_streams, Function.update_self]
    · next hs => exact hs
  · obtain ⟨-, k, rfl⟩ := hm
    rw [World.setStream_streams, Function.update_self]

/-- No file is open but these. -/
def HeldIn (w : Download.World) (files : List ℕ) : Prop :=
  ∀ f, f ∉ files → w.streams f = none

theorem HeldIn.fopen {files : List ℕ} {path : Str} {mode : Mode} {r : Option ℕ}
    (h : HeldIn w files) (hm : Download.machine (.fs (.fopen path mode)) w r t) :
    HeldIn t (files ++ r.toList) := by
  intro f hf
  simp only [List.mem_append, Option.mem_toList, not_or] at hf
  exact none_of_fopen hm hf.2 (h f hf.1)

theorem HeldIn.fclose {files : List ℕ} {file : ℕ} {r : Bool} (h : HeldIn w files)
    (hm : Download.machine (.fs (.fclose file)) w r t) : HeldIn t (files.erase file) := by
  intro f hf
  by_cases hfile : f = file
  · rw [hfile]
    exact none_of_fclose hm
  · refine none_of_step (by simp) hm (h f fun hmem => hf ?_)
    exact (List.mem_erase_of_ne hfile).2 hmem

theorem HeldIn.step {files : List ℕ} {o : Download.Call} {r : o.Reply} (h : HeldIn w files)
    (hopen : ∀ path mode, o ≠ .fs (.fopen path mode)) (hm : Download.machine o w r t) :
    HeldIn t files :=
  fun f hf => none_of_step hopen hm (h f hf)

/-- The ledger names the files that are open. -/
theorem HeldIn.next {L : Ledger} {o : Download.Call} {r : o.Reply} (h : HeldIn w L.files)
    (hm : Download.machine o w r t) : HeldIn t (Ledger.next o L r).files := by
  cases o with
  | dev c =>
      have hfiles : (Ledger.next (.dev c) L r).files = L.files := by
        cases c with
        | httpInit | httpSetUrl | heapCapsMalloc | semaphoreCreateBinary | taskCreate =>
            cases r <;> rfl
        | _ => rfl
      rw [hfiles]
      exact h.step (by simp) hm
  | fs c =>
      cases c with
      | fopen path mode =>
          have hfiles : (Ledger.next (.fs (.fopen path mode)) L r).files = L.files ++ r.toList := by
            cases r <;> simp [Ledger.next]
          rw [hfiles]
          exact h.fopen hm
      | fclose file => exact h.fclose hm
      | _ => exact h.step (by simp) hm
  | transfer client file capacity downloaded expected => exact h.step (by simp) hm
  | diverge => exact r.elim

end Files

section Driver

variable {w t : World}

/-- The bus and the card on it have not changed. -/
structure SameBus (w t : World) : Prop where
  bus : t.bus = w.bus
  mounted : t.mounted = w.mounted

theorem SameBus.refl (w : World) : SameBus w w := ⟨rfl, rfl⟩

theorem SameBus.trans {u : World} (h : SameBus w t) (h' : SameBus t u) : SameBus w u :=
  ⟨h'.bus.trans h.bus, h'.mounted.trans h.mounted⟩

theorem downloadStep_sameBus {o : Download.Call} {r : o.Reply} (hm : downloadStep o w r t) :
    SameBus w t := by
  have hfiles (h : t = { w with files := t.files }) : SameBus w t := by
    rw [h]
    exact ⟨rfl, rfl⟩
  cases o with
  | fs c =>
      simp only [downloadStep] at hm
      split at hm
      · exact hfiles hm.2
      · rw [hm.2]
        exact SameBus.refl w
  | dev c => exact hfiles hm.2
  | transfer client file capacity downloaded expected => exact hfiles hm.2
  | diverge => exact r.elim

theorem downloadStep_mounted {o : Download.Call} {r : o.Reply} (hm : downloadStep o w r t)
    (hmounted : w.mounted.isSome = true) : Download.machine o w.files r t.files := by
  cases o with
  | fs c =>
      simp only [downloadStep, hmounted, if_true] at hm
      exact hm.1
  | dev c => exact hm.1
  | transfer client file capacity downloaded expected => exact hm.1
  | diverge => exact r.elim

/-- Without a card, and with no file open, a call fails as any call can. -/
theorem machine_of_downloadStep {o : Download.Call} {r : o.Reply} (hm : downloadStep o w r t)
    (hclosed : w.mounted = none → HeldIn w.files []) : Download.machine o w.files r t.files := by
  cases hmounted : w.mounted.isSome with
  | true => exact downloadStep_mounted hm hmounted
  | false =>
      have hunmounted : w.mounted = none := by
        rwa [Option.isSome_eq_false_iff, Option.isNone_iff_eq_none] at hmounted
      have hnone (f : ℕ) : w.files.streams f = none := hclosed hunmounted f (by simp)
      cases o with
      | fs c =>
          simp only [downloadStep, hmounted, Bool.false_eq_true, if_false] at hm
          obtain ⟨rfl, rfl⟩ := hm
          cases c with
          | fputs text file | fflush file | fclose file | fread file count =>
              refine Or.inl ?_
              simp [FsOk, fsDo, failure, World.buffer, World.writer, hnone]
          | opendir path => exact Or.inr ⟨rfl, Or.inl rfl⟩
          | _ => exact Or.inr ⟨rfl, rfl⟩
      | dev c => exact hm.1
      | transfer client file capacity downloaded expected => exact hm.1
      | diverge => exact r.elim

/-- Without a card no file is opened, and nothing else opens one. -/
theorem heldIn_step {files : List ℕ} {o : Download.Call} {r : o.Reply} (h : HeldIn w.files files)
    (hopen : w.mounted = none ∨ ∀ path mode, o ≠ .fs (.fopen path mode))
    (hm : downloadStep o w r t) : HeldIn t.files files := by
  rcases hopen with hmounted | hopen
  · cases o with
    | fs c =>
        simp only [downloadStep, hmounted, Option.isSome_none, Bool.false_eq_true, if_false] at hm
        rw [hm.2]
        exact h
    | dev c => exact h.step (by simp) hm.1
    | transfer client file capacity downloaded expected => exact h.step (by simp) hm.1
    | diverge => exact r.elim
  · cases hmounted : w.mounted.isSome with
    | true => exact h.step hopen (downloadStep_mounted hm hmounted)
    | false =>
        cases o with
        | fs c =>
            simp only [downloadStep, hmounted, Bool.false_eq_true, if_false] at hm
            rw [hm.2]
            exact h
        | dev c => exact h.step (by simp) hm.1
        | transfer client file capacity downloaded expected => exact h.step (by simp) hm.1
        | diverge => exact r.elim

/-- Which calls for the bus and the card are in order. -/
def InOrder : SdCall → World → Prop
  | .spiBusFree, w => w.bus = true
  | .sdspiMount _, w => w.bus = true ∧ w.mounted = none
  | .sdcardUnmount card, w => w.mounted = some card ∧ ∀ f, w.files.streams f = none
  | .cardReset, w => w.bus = false ∧ w.mounted = none
  | _, _ => True

/-- `s_card` and `s_spi_bus_initialized` are what the driver has, no file is open, and no
download holds anything. -/
structure Agrees (st : Statics) (w : World) : Prop where
  card : st.card = w.mounted
  bus : st.spiBusInitialized = w.bus
  idle : Idle st.download
  closed : HeldIn w.files []

/-- The bus is initialized exactly while a card is mounted. -/
def World.Paired (w : World) : Prop := w.mounted.isSome = w.bus

/-- All calls are in order, and `Q` holds at the end. -/
abbrev Orders {α : Type} (Q : α → Statics → World → Prop) (p : Action α) (st : Statics)
    (w : World) : Prop :=
  Ensures machine InOrder Q p st w

variable {st : Statics}

/-- A call of the file system and what follows it. -/
theorem orders_fs {α : Type} {Q : α → Statics → World → Prop} {c : FsCall} {k : c.Reply → Action α}
    (hk : ∀ r t, downloadStep (.fs c) w r t → Orders Q (k r) st t) :
    Orders Q (fs c >>= k) st w :=
  ensures_call trivial hk

/-- What is known of the card and its clock holds nothing. -/
theorem idle_clock {dl : Download.Statics} (h : Idle dl) (hasClk : Bool) (freqKhz : ℤ) :
    Idle { dl with cardHasClk := hasClk, sdFreqKhz := freqKhz } :=
  ⟨h.httpClient, h.buf0, h.buf1, h.semJobReady, h.semJobDone, h.sdTaskHandle⟩

theorem unmountCard_orders (h : Agrees st w) :
    Orders (fun _ st' t => Agrees st' t ∧ t = { w with mounted := none }) unmountCard st w := by
  unfold unmountCard
  apply ensures_get
  cases hcard : st.card with
  | none =>
      have hmounted : w.mounted = none := h.card.symm.trans hcard
      exact ensures_pure ⟨h, by rw [← hmounted]⟩
  | some card =>
      have hmounted : w.mounted = some card := h.card.symm.trans hcard
      have hclosed : ∀ f, w.files.streams f = none := fun f => h.closed f (by simp)
      refine ensures_call (o := SdCall.sdcardUnmount card) ⟨hmounted, hclosed⟩ ?_
      rintro _ t hm
      rw [machine_sdcardUnmount, if_pos hmounted] at hm
      subst hm
      exact ensures_modify_end ⟨⟨rfl, h.bus, idle_clock h.idle false _, h.closed⟩, rfl⟩

theorem freeBus_orders (h : Agrees st w) (hmounted : w.mounted = none) :
    Orders (fun _ st' t => Agrees st' t ∧ t = { w with bus := false }) freeBus st w := by
  unfold freeBus
  apply ensures_get
  split
  · next hbus =>
      refine ensures_call (o := SdCall.spiBusFree) (h.bus.symm.trans hbus) ?_
      rintro _ t hm
      rw [machine_spiBusFree, if_neg (by simp [hmounted])] at hm
      subst hm
      exact ensures_modify_end ⟨⟨h.card, rfl, h.idle, h.closed⟩, rfl⟩
  · next hbus =>
      have hfree : w.bus = false := by
        rw [← h.bus, Bool.eq_false_iff.2 hbus]
      exact ensures_pure ⟨h, by rw [← hfree]⟩

/-- Unmounting the card and then freeing the bus. -/
theorem clear_orders (h : Agrees st w) :
    Orders (fun _ st' t => Agrees st' t ∧ t = { w with mounted := none, bus := false })
      (unmountCard >>= fun _ => freeBus) st w := by
  apply (unmountCard_orders h).bind
  rintro _ st' _ ⟨h, rfl⟩
  exact freeBus_orders h rfl

theorem forceCleanSdBus_orders (h : Agrees st w) :
    Orders (fun _ st' t => Agrees st' t ∧ t = { w with mounted := none, bus := false })
      forceCleanSdBus st w := by
  unfold forceCleanSdBus
  apply (unmountCard_orders h).bind
  rintro _ st' _ ⟨h, rfl⟩
  apply (freeBus_orders h rfl).bind
  rintro _ st' _ ⟨h, rfl⟩
  refine ⟨⟨rfl, rfl⟩, ?_⟩
  rintro _ _ rfl
  exact ⟨trivial, h, rfl⟩

/-- Going down the ladder on an initialized bus: a card is mounted, or the bus is
freed. -/
theorem mountRungs_orders (prevFreq : ℤ) (rungs : List ℤ) (h : Agrees st w) (hbus : w.bus = true)
    (hmounted : w.mounted = none) :
    Orders (fun mounted st' t => Agrees st' t ∧ t.Paired ∧ t.mounted.isSome = mounted ∧
        t.files = w.files) (mountRungs prevFreq rungs) st w := by
  induction rungs generalizing prevFreq with
  | nil =>
      refine ensures_call (o := SdCall.spiBusFree) hbus ?_
      rintro _ t hm
      rw [machine_spiBusFree, if_neg (by simp [hmounted])] at hm
      subst hm
      refine ensures_modify (ensures_pure ⟨⟨h.card, rfl, h.idle, h.closed⟩, ?_, ?_, rfl⟩)
      · simp [World.Paired, hmounted]
      · simp [hmounted]
  | cons freq rungs ih =>
      unfold mountRungs
      split
      · exact ih _
      · refine ensures_call (o := SdCall.sdspiMount freq) ⟨hbus, hmounted⟩ ?_
        rintro card? t (⟨rfl, rfl⟩ | ⟨-, -, hasClk, rfl, rfl⟩)
        · exact ih freq
        · have hidle := idle_clock h.idle hasClk freq
          refine ensures_modify (ensures_pure ⟨⟨rfl, h.bus, hidle, h.closed⟩, ?_, rfl, rfl⟩)
          exact hbus.symm

/-- A card is mounted when `mount_sd` returns true; while one is mounted, another
`mount_sd` fails and changes nothing. -/
theorem mountSd_orders (sdSpiFreqKhz : ℤ) (h : Agrees st w) (hpaired : w.Paired) :
    Orders (fun mounted st' t => Agrees st' t ∧ t.Paired ∧ t.files = w.files ∧
        if w.mounted = none then t.mounted.isSome = mounted else mounted = false ∧ t = w)
      (mountSd sdSpiFreqKhz) st w := by
  unfold mountSd initializeBus
  cases hmounted : w.mounted with
  | none =>
      have hbus : w.bus = false := by
        rw [← hpaired, hmounted]
        rfl
      refine ensures_call (o := SdCall.spiBusInitialize) trivial ?_
      intro ret t hm
      rw [machine_spiBusInitialize, hbus, if_neg Bool.false_ne_true] at hm
      rcases hm with ⟨rfl, rfl⟩ | ⟨rfl, rfl⟩
      · exact ensures_pure ⟨h, hpaired, rfl, by simp [hmounted]⟩
      · have hinitialized : Agrees { st with spiBusInitialized := true } { w with bus := true } :=
          ⟨h.card, rfl, h.idle, h.closed⟩
        refine ensures_modify ((mountRungs_orders 1000000 _ hinitialized rfl hmounted).imp ?_)
        rintro mounted st' t ⟨hagrees, hpaired, hmount, hfiles⟩
        exact ⟨hagrees, hpaired, hfiles, hmount⟩
  | some card =>
      have hbus : w.bus = true := by
        rw [← hpaired, hmounted]
        rfl
      have hinit (ret : BusInit) (t : World) (hm : machine .spiBusInitialize w ret t) :
          ret = .invalidState ∧ t = w := by
        rwa [machine_spiBusInitialize, hbus, if_pos rfl] at hm
      refine ensures_call (o := SdCall.spiBusInitialize) trivial ?_
      intro ret t hm
      obtain ⟨rfl, rfl⟩ := hinit ret t hm
      refine ensures_call (o := SdCall.spiBusFree) hbus ?_
      rintro _ u hm
      rw [machine_spiBusFree, hmounted, Option.isSome_some, if_pos rfl] at hm
      subst hm
      refine ensures_call (o := SdCall.spiBusInitialize) trivial ?_
      intro ret v hm
      obtain ⟨rfl, rfl⟩ := hinit ret v hm
      exact ensures_pure ⟨h, hpaired, rfl, by simp⟩

/-- The sync file is closed again. -/
theorem writeSync_orders (h : HeldIn w.files []) :
    Orders (fun _ st' t => st' = st ∧ SameBus w t ∧ HeldIn t.files []) writeSync st w := by
  apply orders_fs
  intro file? w₁ hopen
  have hbus := downloadStep_sameBus hopen
  cases hmounted : w.mounted with
  | none =>
      have hclosed := heldIn_step h (Or.inl hmounted) hopen
      simp only [downloadStep, hmounted, Option.isSome_none, Bool.false_eq_true, if_false] at hopen
      obtain ⟨rfl, rfl⟩ := hopen
      exact ensures_pure ⟨rfl, hbus, hclosed⟩
  | some card =>
      have hmount : w.mounted.isSome = true := by
        rw [hmounted]
        rfl
      have hopened := h.fopen (downloadStep_mounted hopen hmount)
      cases file? with
      | none => exact ensures_pure ⟨rfl, hbus, hopened⟩
      | some file =>
          apply orders_fs
          intro _ w₂ hputs
          apply orders_fs
          intro _ w₃ hflush
          apply orders_fs
          intro _ w₄ hsync
          have hopened := heldIn_step hopened (Or.inr (by simp)) hputs
          have hopened := heldIn_step hopened (Or.inr (by simp)) hflush
          have hopened := heldIn_step hopened (Or.inr (by simp)) hsync
          have hbus := ((hbus.trans (downloadStep_sameBus hputs)).trans
            (downloadStep_sameBus hflush)).trans (downloadStep_sameBus hsync)
          apply orders_fs
          intro _ w₅ hclose
          have hmount : w₄.mounted.isSome = true := by
            rw [hbus.mounted, hmount]
          have hclosed := hopened.fclose (downloadStep_mounted hclose hmount)
          have hbus := hbus.trans (downloadStep_sameBus hclose)
          apply orders_fs
          intro _ w₆ hremove
          have hnone : List.erase ([] ++ Option.toList (some file)) file = [] := by
            simp
          rw [hnone] at hclosed
          exact ensures_pure ⟨rfl, hbus.trans (downloadStep_sameBus hremove),
            heldIn_step hclosed (Or.inr (by simp)) hremove⟩

theorem unmountSd_orders (cardHealthy : Bool) (h : Agrees st w) :
    Orders (fun _ st' t => Agrees st' t ∧ t.mounted = none ∧ t.bus = false)
      (unmountSd cardHealthy) st w := by
  have hclear {st : Statics} {w : World} (h : Agrees st w) :
      Orders (fun _ st' t => Agrees st' t ∧ t.mounted = none ∧ t.bus = false)
        (unmountCard >>= fun _ => freeBus) st w := by
    apply (clear_orders h).imp
    rintro _ st' _ ⟨h, rfl⟩
    exact ⟨h, rfl, rfl⟩
  unfold unmountSd
  cases cardHealthy with
  | false => exact hclear h
  | true =>
      apply (writeSync_orders h.closed).bind
      rintro _ _ t ⟨rfl, hbus, hclosed⟩
      exact hclear ⟨h.card.trans hbus.mounted.symm, h.bus.trans hbus.bus.symm, h.idle, hclosed⟩

/-- A program of `Download` that holds nothing at its end. -/
theorem downloading_orders {α : Type} {p : Download.Action α} (h : Agrees st w)
    (hp : Accounts (fun _ => AtRest) p st.download Ledger.empty) :
    Orders (fun _ st' t => Agrees st' t ∧ SameBus w t) (downloading p) st w := by
  let R (st' : Statics) (s : World) (L : Ledger) : Prop :=
    st'.card = st.card ∧ st'.spiBusInitialized = st.spiBusInitialized ∧ SameBus w s ∧
      HeldIn s.files L.files ∧ (s.mounted = none → HeldIn s.files [])
  have hR : R st w Ledger.empty := ⟨rfl, rfl, SameBus.refl w, h.closed, fun _ => h.closed⟩
  refine Safe.imp (downloading_safe hp hR (fun _ _ _ _ _ _ => trivial) ?_) ?_
  · rintro o st' s r t L - ⟨hcard, hflag, hbus, hheld, hnone⟩ hm
    refine ⟨trivial, Ledger.next o L r, rfl, hcard, hflag, hbus.trans (downloadStep_sameBus hm),
      ?_, ?_⟩
    · cases hmounted : s.mounted with
      | none =>
          intro f _
          exact heldIn_step (hnone hmounted) (Or.inl hmounted) hm f (by simp)
      | some card =>
          refine hheld.next (downloadStep_mounted hm ?_)
          rw [hmounted]
          rfl
    · intro hmounted
      rw [(downloadStep_sameBus hm).mounted] at hmounted
      exact heldIn_step (hnone hmounted) (Or.inl hmounted) hm
  · rintro ⟨a, st'⟩ t ⟨st₀, y, L, ⟨hidle, rfl⟩, ⟨hcard, hflag, hbus, hheld, -⟩, rfl⟩
    refine ⟨⟨?_, ?_, hidle, hheld⟩, hbus⟩
    · exact hcard.trans (h.card.trans hbus.mounted.symm)
    · exact hflag.trans (h.bus.trans hbus.bus.symm)

end Driver

section Runs

variable {cfg : Config} {w : World} {st : Statics}

/-- A call of one of the functions. -/
inductive Op
  | forceCleanSdBus
  | mountSd
  | unmountSd (cardHealthy : Bool)
  | downloadSimiFolder (folder : Str)

def Op.code (cfg : Config) : Op → Action Unit
  | .forceCleanSdBus => Sd.forceCleanSdBus
  | .mountSd => do
      let _ ← Sd.mountSd cfg.sdSpiFreqKhz
      return ()
  | .unmountSd cardHealthy => Sd.unmountSd cardHealthy
  | .downloadSimiFolder folder => do
      let _ ← Sd.downloadSimiFolder cfg folder
      return ()

/-- Any calls, one after the other. -/
def lifecycle (cfg : Config) : List Op → Action Unit
  | [] => return ()
  | op :: ops => do
      op.code cfg
      lifecycle cfg ops

theorem Op.code_orders (op : Op) (h : Agrees st w) (hpaired : w.Paired) :
    Orders (fun _ st' t => Agrees st' t ∧ t.Paired) (op.code cfg) st w := by
  cases op with
  | forceCleanSdBus =>
      apply (forceCleanSdBus_orders h).imp
      rintro _ st' _ ⟨h, rfl⟩
      exact ⟨h, rfl⟩
  | mountSd =>
      apply (mountSd_orders cfg.sdSpiFreqKhz h hpaired).bind
      rintro mounted st' t ⟨h, hpaired, -⟩
      exact ensures_pure ⟨h, hpaired⟩
  | unmountSd cardHealthy =>
      apply (unmountSd_orders cardHealthy h).imp
      rintro _ st' t ⟨h, hmounted, hbus⟩
      refine ⟨h, ?_⟩
      rw [World.Paired, hmounted, hbus]
      rfl
  | downloadSimiFolder folder =>
      have hp := downloadSimiFolder_accounts cfg.cjson cfg.depth folder cfg.lambdaUrl h.idle
      apply (downloading_orders h hp).bind
      rintro _ st' t ⟨h, hbus⟩
      refine ensures_pure ⟨h, ?_⟩
      rw [World.Paired, hbus.mounted, hbus.bus]
      exact hpaired

theorem lifecycle_orders (ops : List Op) (h : Agrees st w) (hpaired : w.Paired) :
    Orders (fun _ st' t => Agrees st' t ∧ t.Paired) (lifecycle cfg ops) st w := by
  induction ops generalizing st w with
  | nil => exact ensures_pure ⟨h, hpaired⟩
  | cons op ops ih =>
      apply (Op.code_orders op h hpaired).bind
      rintro _ st' t ⟨h, hpaired⟩
      exact ih h hpaired

theorem agrees_boot (cfg : Config) (card : DirTree.Tree Name Bytes) :
    Agrees (Statics.boot cfg.sdSpiFreqKhz) (World.boot card) :=
  ⟨rfl, rfl, ⟨rfl, rfl, rfl, rfl, rfl, rfl⟩, fun _ _ => rfl⟩

/-- In every run of any sequence of the four functions, whatever their calls return:
a card is mounted on an initialized bus without one, unmounted once and with no file
open, a bus is freed while it is initialized, and the reset runs on a free bus without
a card. Between the functions `s_card` and `s_spi_bus_initialized` are what the driver
has, and the bus is initialized exactly while a card is mounted. -/
theorem lifecycle_inOrder {ops : List Op} {card : DirTree.Tree Name Bytes} {t : World}
    {tr : List (Interaction.Event SdCall SdCall.Reply World)}
    {q : Program SdCall SdCall.Reply (Unit × Statics)}
    (hrun : Steps machine ((lifecycle cfg ops).run (Statics.boot cfg.sdSpiFreqKhz))
      (World.boot card) tr q t) :
    (∀ e ∈ tr, InOrder e.op e.before) ∧ ∀ x, q = .pure x → Agrees x.2 t ∧ t.Paired := by
  have horders := @lifecycle_orders cfg _ _ ops (agrees_boot cfg card) rfl
  refine ⟨Safe.events horders hrun, ?_⟩
  rintro x rfl
  exact (Safe.steps horders trivial hrun).2

end Runs

section Sample

/-- The driver, with a card that mounts at the first attempt. -/
def serve (env : Env) (fate : Download.Call → Download.World → Fate) :
    (o : SdCall) → World → Option (o.Reply × World)
  | .spiBusInitialize, w =>
      some (if w.bus then (.invalidState, w) else (.ok, { w with bus := true }))
  | .spiBusFree, w => some ((), if w.mounted.isSome then w else { w with bus := false })
  | .sdspiMount _, w =>
      if w.bus = true ∧ w.mounted = none then
        some (some (w.next, true), { w with mounted := some w.next, next := w.next + 1 })
      else some (none, w)
  | .sdcardUnmount card, w =>
      some ((), if w.mounted = some card then { w with mounted := none } else w)
  | .cardReset, w => some ((), w)
  | .download o, w =>
      if w.mounted.isSome then
        (Download.serve env fate o w.files).map fun x => (x.1, { w with files := x.2 })
      else none

theorem machine_of_serve {env : Env} {fate : Download.Call → Download.World → Fate} (o : SdCall)
    (w : World) (r : o.Reply) (t : World) (h : serve env fate o w = some (r, t)) :
    machine o w r t := by
  cases o with
  | spiBusInitialize =>
      simp only [serve, Option.some.injEq] at h
      rw [machine_spiBusInitialize]
      split at h
      · next hbus =>
          cases h
          rw [if_pos hbus]
          exact ⟨rfl, rfl⟩
      · next hbus =>
          cases h
          rw [if_neg hbus]
          exact Or.inr ⟨rfl, rfl⟩
  | sdspiMount freqKhz =>
      simp only [serve] at h
      split at h
      · next hfree =>
          cases h
          exact Or.inr ⟨hfree.1, hfree.2, true, rfl, rfl⟩
      · cases h
        exact Or.inl ⟨rfl, rfl⟩
  | spiBusFree | sdcardUnmount | cardReset =>
      cases h
      rfl
  | download o =>
      simp only [serve] at h
      split at h
      · next hmounted =>
          obtain ⟨⟨r', files⟩, hserve, heq⟩ := Option.map_eq_some_iff.1 h
          cases heq
          have hm := Download.machine_of_serve o w.files _ _ hserve
          cases o with
          | fs c =>
              change if _ then _ else _
              rw [if_pos hmounted]
              exact ⟨hm, rfl⟩
          | dev c => exact ⟨hm, rfl⟩
          | transfer client file capacity downloaded expected => exact ⟨hm, rfl⟩
          | diverge => exact r'.elim
      · cases h

/-- The download of `mozart`. -/
def mozartConfig : Config where
  cjson := mozart.cjson
  depth := 4
  lambdaUrl := "https://api.example".toList
  sdSpiFreqKhz := 20000

/-- `handle_download_with_retry`, and another mount. -/
def mozartOps : List Op :=
  [.forceCleanSdBus, .mountSd, .mountSd, .downloadSimiFolder "mozart".toList, .unmountSd true,
    .forceCleanSdBus, .mountSd, .forceCleanSdBus]

theorem lifecycle_inOrder_mozart : ∃ tr x t,
    Steps machine ((lifecycle mozartConfig mozartOps).run (Statics.boot 20000))
      (World.boot (cardOf [])) tr (.pure x) t ∧
    (∀ e ∈ tr, InOrder e.op e.before) ∧ Agrees x.2 t ∧ t.Paired := by
  have hsteps := steps_play (@machine_of_serve mozart.env fun _ _ => .ok)
    ((lifecycle mozartConfig mozartOps).run (Statics.boot 20000)) (World.boot (cardOf []))
  have hend : (play (serve mozart.env fun _ _ => .ok)
      ((lifecycle mozartConfig mozartOps).run (Statics.boot 20000))
      (World.boot (cardOf []))).1.value.map Prod.fst = some () := by
    decide +kernel
  obtain ⟨x, hrun, -⟩ := hsteps.returned hend
  obtain ⟨hcalls, hagrees⟩ := lifecycle_inOrder hrun
  exact ⟨_, x, _, hrun, hcalls, hagrees x rfl⟩

end Sample

end Sd

end SimiboxDownloader
