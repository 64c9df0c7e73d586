import SimiboxDownloader.Boot.Request

/-!
# The boot counter over sequences of boots

`Streak cond k f`: after some boots the flash is `f`, and the last `k` of them
neither downloaded the package nor switched the boot partition. Each boot runs
`app_main` until it ends or crashes, at any point behind the commit of the boot
count. The counter keeps up with the streak as long as no boot crashes between
the reset of the count and the switch, and the count does not wrap around.
-/

namespace SimiboxDownloader

namespace Boot

open Interaction

/-- The boot count has been committed. -/
def Counted (tr : Log) : Prop := ∃ e ∈ tr, e.op = .nvsCommit

/-- The call downloaded the package, or switched the boot partition. -/
def ends : Event BootCall BootReply Flash → Bool
  | ⟨_, .downloadSimiFolder _, (success, _), _⟩ => success
  | ⟨_, .otaSetBootPartition, ok, _⟩ => ok
  | _ => false

/-- The package was downloaded or the boot partition switched. -/
def Ended (tr : Log) : Prop := ∃ e ∈ tr, ends e = true

instance (tr : Log) : Decidable (Counted tr) :=
  inferInstanceAs (Decidable (∃ e ∈ tr, _))

instance (tr : Log) : Decidable (Ended tr) :=
  inferInstanceAs (Decidable (∃ e ∈ tr, _))

/-- The boot count was reset. -/
def CountReset (tr : Log) : Prop := ∃ e ∈ tr, e.op = .nvsSetU8 .bootCount 0

instance (tr : Log) : Decidable (CountReset tr) :=
  inferInstanceAs (Decidable (∃ e ∈ tr, _))

/-- Sequences of boots with a condition on each boot, and how many of the last
ones ended with neither a download nor the switch. -/
inductive Streak (cond : Nvs → Log → Prop) : ℕ → Nvs → Prop
  | start (n : Nvs) : Streak cond 0 n
  | ended {k : ℕ} {n n' : Nvs} {st : Statics} {tr : Log}
      {q : Program BootCall BootReply (Unit × Statics)} {f : Flash} :
      Streak cond k n → Steps nvsWorks (appMain.run st) ⟨n, []⟩ tr q f →
      Counted tr → cond n tr → f.Reset ⟨n', []⟩ → Ended tr →
      Streak cond 0 n'
  | failed {k : ℕ} {n n' : Nvs} {st : Statics} {tr : Log}
      {q : Program BootCall BootReply (Unit × Statics)} {f : Flash} :
      Streak cond k n → Steps nvsWorks (appMain.run st) ⟨n, []⟩ tr q f →
      Counted tr → cond n tr → f.Reset ⟨n', []⟩ → ¬ Ended tr →
      Streak cond (k + 1) n'

/-- Every boot from here takes the safe-mode branch. -/
def TakesSafeMode (n : Nvs) : Prop :=
  ∀ st tr x f, Steps nvsWorks (countBoot.run st) ⟨n, []⟩ tr (.pure x) f → x.1 = true

/-- The boot does not crash, or restart without the switch, once it has reset
the count, and it does not start with a count about to wrap around. -/
def ResetThenEnds (n : Nvs) (tr : Log) : Prop :=
  n.bootCount ≠ 255 ∧ (CountReset tr → Ended tr)

/-- The boot count is `c` whichever of the pending writes reach the flash. -/
def Flash.CountIs (c : UInt8) (f : Flash) : Prop :=
  ∀ k, ((f.pending.take k).foldl Nvs.write f.stored).u8 .bootCount = some c

theorem countIs_committed (n : Nvs) (c : UInt8) :
    Flash.CountIs c ⟨n.write (.u8 .bootCount c), []⟩ := by
  intro k
  simp

theorem Flash.CountIs.visible {c : UInt8} {f : Flash} (h : f.CountIs c) :
    f.visible.u8 .bootCount = some c := by
  have hall := h f.pending.length
  rwa [List.take_length] at hall

theorem Flash.CountIs.commit {c : UInt8} {f : Flash} (h : f.CountIs c) :
    f.commit.CountIs c := by
  intro k
  rw [Flash.commit_eq, List.take_nil]
  exact h.visible

/-- A write to another key leaves the count alone. -/
theorem Flash.CountIs.write {c : UInt8} {f : Flash} {w : Write} (h : f.CountIs c)
    (hw : ∀ n : Nvs, (n.write w).u8 .bootCount = n.u8 .bootCount) : (f.write w).CountIs c := by
  intro k
  rw [Flash.write, List.take_append, List.foldl_append]
  cases (k - f.pending.length) with
  | zero => exact h k
  | succ j =>
      rw [List.take_succ_cons, List.take_nil, List.foldl_cons, List.foldl_nil, hw]
      exact h k

theorem Flash.CountIs.reset {c : UInt8} {f : Flash} {n : Nvs} (h : f.CountIs c)
    (hr : f.Reset ⟨n, []⟩) : n.bootCount = c := by
  obtain ⟨k, hk⟩ := hr
  have hn : n = (f.pending.take k).foldl Nvs.write f.stored := congrArg Flash.stored hk
  rw [hn, Nvs.bootCount, h k, Option.getD_some]

/-- The calls behind the boot counter: they write no count but the reset, and
do not erase the record. -/
def BehindCounter : BootCall → Prop
  | .nvsSetU8 .bootCount value => value = 0
  | .nvsEraseAll _ => False
  | .nvsFlashErase => False
  | _ => True

/-- Once counted, the count stays until it is reset. -/
def CountKept (c : UInt8) (s : Flash × Log) : Prop :=
  CountReset s.2 ∨ s.1.CountIs c

theorem countKept_step {c : UInt8} {o : BootCall} {s t : Flash × Log} {r : BootReply o}
    (ho : BehindCounter o) (hs : CountKept c s) (h : nvsWorks.logged o s r t) :
    CountKept c t := by
  obtain ⟨⟨hm, hworks⟩, hlog⟩ := h
  rcases hs with ⟨e, he, hreset⟩ | hs
  · exact Or.inl ⟨e, by rw [hlog]; exact List.mem_append_left _ he, hreset⟩
  · cases o with
    | nvsSetU8 key value =>
        cases hworks
        by_cases hkey : key = .bootCount
        · subst hkey
          rw [CountKept, hlog]
          refine Or.inl ⟨_, List.mem_append_right _ (List.mem_singleton.2 rfl), ?_⟩
          exact congrArg _ ho
        · right
          rw [hm]
          exact hs.write fun n => Function.update_of_ne (Ne.symm hkey) _ _
    | nvsSetStr key value =>
        cases hworks
        right
        rw [hm]
        exact hs.write fun n => rfl
    | nvsSetSize value =>
        cases hworks
        right
        rw [hm]
        exact hs.write fun n => rfl
    | nvsCommit =>
        cases hworks
        right
        rw [hm]
        exact hs.commit
    | nvsEraseAll ns => exact ho.elim
    | nvsFlashErase => exact ho.elim
    | nvsGetU8 key | nvsGetStr key | nvsGetSize =>
        right
        rw [hm.1]
        exact hs
    | _ =>
        right
        rw [hm]
        exact hs

/-- A part of `app_main` behind the boot counter. -/
abbrev Behind {α : Type} (p : BootM α) : Prop :=
  BootUses BehindCounter p

theorem behindCounter_of_common {o : BootCall} (h : Common o) : BehindCounter o := by
  cases o with
  | nvsSetU8 key value =>
      cases key with
      | bootCount => exact h.elim
      | _ => trivial
  | nvsEraseAll ns => exact h.elim
  | nvsFlashErase => exact h.elim
  | _ => trivial

theorem behind_boot (safe : Bool) : Behind
    ((if safe then safeModeBoot else normalBoot) >>= fun _ => bootMusicboxAndRestart) := by
  have hA (o : BootCall) (h : Common o) : BehindCounter o := behindCounter_of_common h
  have hreset : BehindCounter (.nvsSetU8 .bootCount 0) := rfl
  have hnormal : Behind normalBoot :=
    normalBoot_uses hA (fun _ => trivial) (fun _ => trivial) (fun _ => trivial)
      (fun _ _ => trivial) hreset (fun _ => trivial) trivial trivial fun _ => trivial
  exact (Stateful.uses_ite (safeModeBoot_uses hA hreset) hnormal).bind fun _ =>
    bootMusicboxAndRestart_uses hA trivial

/-- A call that does not commit, made before the count is committed. -/
theorem notCounted_append {l : Log} {e : Event BootCall BootReply Flash}
    (hl : ¬ Counted l) (he : e.op ≠ .nvsCommit) : ¬ Counted (l ++ [e]) := by
  rintro ⟨e', he', hop⟩
  rcases List.mem_append.1 he' with h | h
  · exact hl ⟨e', h, hop⟩
  · exact he ((List.mem_singleton.1 h) ▸ hop)

/-- The judgement of a boot: once the count is committed, it is `c` or it has
been reset. -/
abbrev KeepsCount (c : UInt8) {α : Type} (Q : α → Flash × Log → Prop)
    (p : Program BootCall BootReply α) (s : Flash × Log) : Prop :=
  Safe nvsWorks.logged (fun _ _ => True) (fun s => Counted s.2 → CountKept c s) Q p s

theorem keepsCount_call {c : UInt8} {α : Type} {Q : α → Flash × Log → Prop} {o : BootCall}
    {next : BootReply o → Program BootCall BootReply α} {f : Flash} {l : Log}
    (ho : o ≠ .nvsCommit) (hl : ¬ Counted l)
    (h : ∀ r g l', nvsWorks o f r g → ¬ Counted l' → KeepsCount c Q (next r) (g, l')) :
    KeepsCount c Q (.call o next) (f, l) := by
  apply Safe.logged_call trivial
  intro r g hm
  have hl' := notCounted_append (e := ⟨f, o, r, g⟩) hl ho
  exact ⟨fun h => absurd h hl', h r g _ hm hl'⟩

theorem Behind.keepsCount {c : UInt8} {α : Type} {p : BootM α} {st : Statics}
    {s : Flash × Log} (hp : Behind p) (hs : CountKept c s) :
    KeepsCount c (fun _ _ => True) (p.run st) s := by
  have hsafe := (hp st).safe (M := nvsWorks.logged) (C := fun _ _ => True)
    (fun o s r t ho hs hm => ⟨trivial, countKept_step ho hs hm⟩) (fun _ _ _ _ => trivial) hs
  exact hsafe.mono (fun _ _ _ _ h => h) (fun _ _ h => h) (fun _ h _ => h) (fun _ _ _ => trivial)

/-- At every point of a boot: once the count is committed, it is one more than
before, or it has been reset. -/
theorem appMain_keepsCount (st : Statics) (n : Nvs) :
    KeepsCount (n.bootCount + 1) (fun _ _ => True) (appMain.run st) (⟨n, []⟩, []) := by
  have hstart : ¬ Counted [] := by
    rintro ⟨e, he, -⟩
    cases he
  rw [appMain, beforeRestart, bind_assoc]
  refine keepsCount_call (by decide) hstart ?_
  rintro r f l ⟨rfl, rfl⟩ hl
  refine keepsCount_call (by simp) hl ?_
  rintro r f l ⟨rfl, rfl⟩ hl
  refine keepsCount_call (by simp) hl ?_
  rintro r f l ⟨⟨rfl, -⟩, rfl⟩ hl
  refine keepsCount_call (by simp) hl ?_
  rintro r f l ⟨rfl, rfl⟩ hl
  apply Safe.logged_call trivial
  rintro r f ⟨rfl, rfl⟩
  have hkept (l : Log) : CountKept (n.bootCount + 1)
      (⟨n.write (.u8 .bootCount (n.bootCount + 1)), []⟩, l) :=
    Or.inr (countIs_committed n _)
  refine ⟨fun _ => hkept _, ?_⟩
  exact (behind_boot (decide (maxBootFailures ≤ n.bootCount + 1))).keepsCount (hkept _)

/-- A boot that counts and neither downloads nor switches, without a reset of
the count, leaves the count one higher. -/
theorem bootCount_failed {n n' : Nvs} {st : Statics} {tr : Log}
    {q : Program BootCall BootReply (Unit × Statics)} {f : Flash}
    (hrun : Steps nvsWorks (appMain.run st) ⟨n, []⟩ tr q f) (hcounted : Counted tr)
    (hreset : ¬ CountReset tr) (hr : f.Reset ⟨n', []⟩) : n'.bootCount = n.bootCount + 1 := by
  obtain ⟨tr', hlogged⟩ := hrun.logged []
  have hkept := ((appMain_keepsCount st n).steps (fun h => by cases h.choose_spec.1) hlogged).1
  rcases hkept hcounted with h | h
  · exact absurd h hreset
  · exact h.reset hr

/-- While every boot that resets the count goes on to end the streak, the count
is at least as long as the streak. -/
theorem Streak.le_bootCount {k : ℕ} {n : Nvs} (h : Streak ResetThenEnds k n) :
    k ≤ n.bootCount.toNat := by
  induction h with
  | start n => exact Nat.zero_le _
  | ended => exact Nat.zero_le _
  | @failed k n n' st tr q f _ hrun hcounted hcond hr hfail ih =>
      have hreset : ¬ CountReset tr := fun h => hfail (hcond.2 h)
      rw [bootCount_failed hrun hcounted hreset hr]
      have hlt : n.bootCount.toNat ≠ 255 := fun h => hcond.1 (UInt8.toNat_inj.1 h)
      have hbound : n.bootCount.toNat < 256 := n.bootCount.toNat_lt
      rw [UInt8.toNat_add]
      simp only [UInt8.reduceToNat]
      omega

/-- Once `MAX_BOOT_FAILURES` boots in a row have ended with neither a download
nor the switch to musicbox, every later boot takes the safe-mode branch, until
one downloads or switches: as long as no boot crashes, or restarts without the
switch, between its reset of the count and its end, and no boot starts with a
count of 255. -/
theorem streak_takesSafeMode {k : ℕ} {n : Nvs} (h : Streak ResetThenEnds k n)
    (hk : maxBootFailures.toNat ≤ k) (hn : n.bootCount ≠ 255) : TakesSafeMode n := by
  intro st tr x f hrun
  obtain ⟨rfl, -⟩ := (@countBoot_returns st ⟨n, []⟩).result trivial hrun
  have hle := h.le_bootCount
  rw [decide_eq_true_eq, Flash.visible_nil, UInt8.le_iff_toNat_le, UInt8.toNat_add]
  have hlt : n.bootCount.toNat ≠ 255 := fun h => hn (UInt8.toNat_inj.1 h)
  have hbound : n.bootCount.toNat < 256 := n.bootCount.toNat_lt
  simp only [UInt8.reduceToNat]
  omega

/-- A device on which `led_init` aborts. -/
def ledAborts : (o : BootCall) → Flash → Option (BootReply o × Flash)
  | .ledInit, _ => none
  | o, f => healthy o f

theorem ledAborts_works (o : BootCall) (f : Flash) (r : BootReply o) (g : Flash)
    (h : ledAborts o f = some (r, g)) : nvsWorks o f r g := by
  cases o with
  | ledInit => cases h
  | _ => exact healthy_works _ f r g h

/-- The record after `k` boots of a device, from an empty one. -/
def afterBoots (answer : (o : BootCall) → Flash → Option (BootReply o × Flash)) : ℕ → Nvs
  | 0 => .empty
  | k + 1 => (play answer (appMain.run .fresh) ⟨afterBoots answer k, []⟩).2.1.stored

/-- A device on which the fifth boot crashes before its reset of the count. -/
def crashesAtFive : (o : BootCall) → Flash → Option (BootReply o × Flash)
  | .ledInit, _ => none
  | .nvsOpen _, f => if f.visible.bootCount = 5 then none else some (true, f)
  | o, f => healthy o f

theorem crashesAtFive_works (o : BootCall) (f : Flash) (r : BootReply o) (g : Flash)
    (h : crashesAtFive o f = some (r, g)) : nvsWorks o f r g := by
  cases o with
  | ledInit => cases h
  | nvsOpen ns =>
      change (if f.visible.bootCount = 5 then none else some (true, f)) = _ at h
      split at h
      · cases h
      · cases h
        exact ⟨rfl, rfl⟩
  | _ => exact healthy_works _ f r g h

theorem streak_takesSafeMode_afterFive : TakesSafeMode (afterBoots crashesAtFive 5) := by
  have hboot (n : Nvs) := steps_play crashesAtFive_works (appMain.run .fresh) ⟨n, []⟩
  have h₁ : Streak ResetThenEnds 1 (afterBoots crashesAtFive 1) :=
    (Streak.start .empty).failed (hboot _) (by decide) ⟨by decide, by decide⟩ ⟨0, rfl⟩ (by decide)
  have h₂ : Streak ResetThenEnds 2 (afterBoots crashesAtFive 2) :=
    h₁.failed (hboot _) (by decide) ⟨by decide, by decide⟩ ⟨0, rfl⟩ (by decide)
  have h₃ : Streak ResetThenEnds 3 (afterBoots crashesAtFive 3) :=
    h₂.failed (hboot _) (by decide) ⟨by decide, by decide⟩ ⟨0, rfl⟩ (by decide)
  have h₄ : Streak ResetThenEnds 4 (afterBoots crashesAtFive 4) :=
    h₃.failed (hboot _) (by decide) ⟨by decide, by decide⟩ ⟨0, rfl⟩ (by decide)
  have h₅ : Streak ResetThenEnds 5 (afterBoots crashesAtFive 5) :=
    h₄.failed (hboot _) (by decide) ⟨by decide, by decide⟩ ⟨0, rfl⟩ (by decide)
  exact streak_takesSafeMode h₅ (by decide) (by decide)

/-- On a device whose `led_init` aborts, the fifth boot resets the count and
crashes, so the sixth one is a normal boot again. -/
theorem streak_not_takesSafeMode :
    Streak (fun _ _ => True) 5 (afterBoots ledAborts 5) ∧
      ¬ TakesSafeMode (afterBoots ledAborts 5) := by
  have hboot (n : Nvs) := steps_play ledAborts_works (appMain.run .fresh) ⟨n, []⟩
  constructor
  · have h₁ : Streak (fun _ _ => True) 1 (afterBoots ledAborts 1) :=
      (Streak.start .empty).failed (hboot _) (by decide) trivial ⟨0, rfl⟩ (by decide)
    have h₂ : Streak (fun _ _ => True) 2 (afterBoots ledAborts 2) :=
      h₁.failed (hboot _) (by decide) trivial ⟨0, rfl⟩ (by decide)
    have h₃ : Streak (fun _ _ => True) 3 (afterBoots ledAborts 3) :=
      h₂.failed (hboot _) (by decide) trivial ⟨0, rfl⟩ (by decide)
    have h₄ : Streak (fun _ _ => True) 4 (afterBoots ledAborts 4) :=
      h₃.failed (hboot _) (by decide) trivial ⟨0, rfl⟩ (by decide)
    exact h₄.failed (hboot _) (by decide) trivial ⟨0, rfl⟩ (by decide)
  · intro hsafe
    have hrun := steps_play healthy_works (countBoot.run .fresh) ⟨afterBoots ledAborts 5, []⟩
    exact absurd (hsafe _ _ (false, _) _ hrun) Bool.false_ne_true

end Boot

end SimiboxDownloader
