import SimiboxDownloader.Led.Static

/-!
# Colors are shown as a whole

`led_set_color` writes a color to the registers in six steps, and two tasks call it. They
do so within the mutex, which no frame and no setter gives back before the last of the
steps. So whatever the two tasks do, the duties are those of one call whenever the mutex
is free, the last that began to write (`led_color_whole`).
-/

namespace SimiboxDownloader

namespace Led

open RecursiveMutex Transition

section Statements

/-- A write to the registers. -/
def Stmt.isWrite : Stmt → Bool
  | .setDuty _ _ | .updateDuty _ => true
  | _ => false

/-- The statements that are left write whole colors, and hold the mutex when they do. -/
inductive Whole : List Stmt → Prop
  | nil : Whole []
  | other {x : Stmt} {rest : List Stmt} (hx : x.isWrite = false) (hrest : Whole rest) :
      Whole (x :: rest)
  | color (r g b : UInt16) {rest : List Stmt} (hheld : 0 < held rest) (hrest : Whole rest) :
      Whole (registerWrites r g b ++ rest)

/-- What is left of the register writes of a color after the first. -/
def Remains (left : List Stmt) : Prop :=
  ∃ r g b k, 0 < k ∧ left = (registerWrites r g b).drop k

/-- `left` is what is left of the color that is being written, if any. -/
structure Cut (left code : List Stmt) : Prop where
  rest : ∃ rest, code = left ++ rest ∧ Whole rest ∧ (left ≠ [] → 0 < held rest)
  remains : Remains left

/-- The color the next statement begins to write. -/
def colorOf : List Stmt → Option (Channel → UInt16)
  | .setDuty .r r :: .setDuty .g g :: .setDuty .b b :: _ => some (rgb r g b)
  | _ => none

variable {s u : State} {task : Task} {x : Stmt} {rest left code : List Stmt}
  {col : Channel → UInt16}

theorem whole_ledSetColor (r g b : UInt16) (hheld : 0 ≤ held rest) (h : Whole rest) :
    Whole (ledSetColor r g b ++ rest) := by
  rw [ledSetColor, List.cons_append, List.append_assoc]
  refine .other rfl (.color r g b ?_ (.other rfl h))
  exact Int.lt_add_one_of_le hheld

theorem whole_code (setter : Setter) : Whole setter.code := by
  have hnil : Whole [] := .nil
  have hgive : Whole [.give] := .other rfl hnil
  cases setter with
  | setColor r g b =>
      have h := whole_ledSetColor r g b (by decide) hnil
      rwa [List.append_nil] at h
  | showSolid r g b =>
      exact .other rfl (.other rfl (whole_ledSetColor r g b (by decide) hgive))
  | showSuccess =>
      have h := whole_ledSetColor 0 ledcMaxDuty 0 (by decide) hnil
      rw [List.append_nil] at h
      exact .other rfl h
  | showProgress percent =>
      refine .other rfl (.other rfl ?_)
      split
      · exact whole_ledSetColor 0 ledcMaxDuty 0 (by decide) (.other rfl hnil)
      · exact hnil
  | showWifiConnecting | showDownloading => exact .other rfl hnil
  | showDownloadProgress | showError | showRetry => exact .other rfl (.other rfl hnil)

theorem remains_nil : Remains [] := ⟨0, 0, 0, 6, by decide, rfl⟩

theorem Whole.cut (h : Whole code) : Cut [] code :=
  ⟨⟨code, rfl, h, fun hne => absurd rfl hne⟩, remains_nil⟩

theorem Remains.tail (h : Remains (x :: left)) : Remains left := by
  obtain ⟨r, g, b, k, -, hleft⟩ := h
  refine ⟨r, g, b, k + 1, Nat.succ_pos k, ?_⟩
  rw [← List.tail_drop, ← hleft, List.tail_cons]

/-- They are no takes and gives, and do not begin a color. -/
theorem Remains.head (h : Remains (x :: left)) :
    held (x :: rest) = held rest ∧ colorOf (x :: rest) = none := by
  obtain ⟨r, g, b, k, hk, hleft⟩ := h
  have hmem : x ∈ (registerWrites r g b).drop 1 := by
    have hdrop := List.drop_suffix (k - 1) ((registerWrites r g b).drop 1)
    rw [List.drop_drop, Nat.add_sub_cancel' hk, ← hleft] at hdrop
    exact hdrop.subset List.mem_cons_self
  simp only [registerWrites, List.drop_succ_cons, List.drop_zero, List.mem_cons,
    List.not_mem_nil, or_false] at hmem
  rcases hmem with rfl | rfl | rfl | rfl | rfl
  · exact ⟨rfl, rfl⟩
  · exact ⟨rfl, rfl⟩
  · exact ⟨rfl, rfl⟩
  · exact ⟨rfl, rfl⟩
  · exact ⟨rfl, rfl⟩

theorem held_remains (h : Remains left) : held (left ++ rest) = held rest := by
  induction left with
  | nil => rfl
  | cons x left ih =>
      rw [List.cons_append, h.head.1]
      exact ih h.tail

/-- In a color the mutex is held. -/
theorem Cut.held_pos (h : Cut left code) (hleft : left ≠ []) : 0 < held code := by
  obtain ⟨rest, rfl, -, hheld⟩ := h.rest
  rw [held_remains h.remains]
  exact hheld hleft

theorem colorOf_of_not_write (hx : x.isWrite = false) : colorOf (x :: rest) = none := by
  cases x with
  | setDuty | updateDuty => cases hx
  | _ => rfl

theorem regsAfter_of_not_write (hx : x.isWrite = false) (regs : Regs) :
    regsAfter (x :: rest) regs = regsAfter rest regs := by
  cases x with
  | setDuty | updateDuty => cases hx
  | _ => rfl

/-- A statement of the task that may write: it goes on with its color, or begins one. -/
theorem Cut.advance (h : Cut left (x :: rest)) (he : exec task s x = some u)
    (hregs : regsAfter left s.regs = ⟨col, col⟩) : ∃ left', Cut left' rest ∧
      regsAfter left' u.regs =
        ⟨(colorOf (x :: rest)).getD col, (colorOf (x :: rest)).getD col⟩ := by
  obtain ⟨⟨whole, hcode, hwhole, hheld⟩, hremains⟩ := h
  obtain ⟨-, -, -, hafter, -, -⟩ := exec_spec he []
  cases left with
  | cons y left =>
      rw [List.cons_append, List.cons.injEq] at hcode
      obtain ⟨rfl, rfl⟩ := hcode
      obtain ⟨-, -, -, hafter, -, -⟩ := exec_spec he left
      refine ⟨left, ⟨⟨whole, rfl, hwhole, fun _ => hheld (by simp)⟩, hremains.tail⟩, ?_⟩
      rw [hremains.head.2, hafter]
      exact hregs
  | nil =>
      rw [List.nil_append] at hcode
      subst hcode
      cases hwhole with
      | other hx hrest =>
          refine ⟨[], hrest.cut, ?_⟩
          rw [colorOf_of_not_write hx, hafter, regsAfter_of_not_write hx]
          exact hregs
      | color r g b hpos hrest =>
          cases he
          refine ⟨(registerWrites r g b).drop 1, ⟨⟨_, rfl, hrest, fun _ => hpos⟩, ?_⟩, ?_⟩
          · exact ⟨r, g, b, 1, Nat.one_pos, rfl⟩
          · have hall := regsAfter_registerWrites r g b [] s.regs
            rw [List.append_nil] at hall
            exact hall

theorem Cut.left_of_held (h : Cut left code) (hheld : held code = 0) : left = [] := by
  by_contra hne
  exact absurd hheld (Int.ne_of_gt (h.held_pos hne))

/-- A statement of the task that may not write does nothing to the registers. -/
theorem Cut.quiet (h : Cut left (x :: rest)) (hheld : held (x :: rest) = 0)
    (he : exec task s x = some u) :
    Cut [] rest ∧ u.regs = s.regs ∧ colorOf (x :: rest) = none := by
  have hleft := h.left_of_held hheld
  subst hleft
  obtain ⟨whole, rfl, hwhole, -⟩ := h.rest
  obtain ⟨-, -, -, hafter, -, -⟩ := exec_spec he []
  cases hwhole with
  | other hx hrest =>
      refine ⟨hrest.cut, ?_, colorOf_of_not_write hx⟩
      exact hafter.trans (regsAfter_of_not_write hx s.regs)
  | @color r g b whole hpos hrest =>
      have hsame : held (registerWrites r g b ++ whole) = held whole := rfl
      exact absurd (hsame.symm.trans hheld) (Int.ne_of_gt hpos)

end Statements

section Frames

/-- The statements a frame has left, once it paints. -/
def FramePc.stmts : FramePc → List Stmt
  | .code rest => rest
  | _ => []

variable {s t : State} {i : FrameInput}

/-- A step of a frame that does not touch the registers, and what it leads to. -/
structure FrameTurns (s t : State) : Prop where
  before : s.frame.stmts = []
  after : Whole t.frame.stmts
  regs : t.regs = s.regs
  code : t.code = s.code

theorem whole_paint (r g b : UInt16) : Whole (ledSetColor r g b ++ [.give]) :=
  whole_ledSetColor r g b (by decide) (.other rfl .nil)

theorem frameStep_turns (h : frameStep s i = some t) : FrameTurns s t ∨
    ∃ x rest u, s.frame = .code (x :: rest) ∧ exec .frame s x = some u ∧
      t = { u with frame := .code rest } := by
  cases hpc : s.frame with
  | take =>
      simp only [frameStep, hpc] at h
      obtain ⟨u, hu, rfl⟩ := Option.map_eq_some_iff.1 h
      obtain ⟨hcode, -, -, hregs, -, -⟩ := exec_spec hu []
      exact Or.inl ⟨by rw [hpc]; rfl, .nil, hregs, hcode⟩
  | code rest =>
      cases rest with
      | nil =>
          simp only [frameStep, hpc] at h
          cases h
          exact Or.inl ⟨by rw [hpc]; rfl, .nil, rfl, rfl⟩
      | cons x rest =>
          simp only [frameStep, hpc] at h
          obtain ⟨u, hu, rfl⟩ := Option.map_eq_some_iff.1 h
          exact Or.inr ⟨x, rest, u, rfl, hu, rfl⟩
  | delay | readLastUpdate | readBlink | storeBlink on =>
      simp only [frameStep, hpc] at h
      cases h
      exact Or.inl ⟨by rw [hpc]; rfl, .nil, rfl, rfl⟩
  | switch =>
      simp only [frameStep, hpc] at h
      split at h
      · cases h
        exact Or.inl ⟨by rw [hpc]; rfl, .nil, rfl, rfl⟩
      · cases h
        exact Or.inl ⟨by rw [hpc]; rfl, .other rfl .nil, rfl, rfl⟩
  | storeLastUpdate p =>
      simp only [frameStep, hpc] at h
      split at h
      · cases h
        exact Or.inl ⟨by rw [hpc]; rfl, .nil, rfl, rfl⟩
      · cases h
        exact Or.inl ⟨by rw [hpc]; rfl, .nil, rfl, rfl⟩
  | color p =>
      simp only [frameStep, hpc] at h
      split at h
      · cases h
        exact Or.inl ⟨by rw [hpc]; rfl, whole_paint _ _ _, rfl, rfl⟩
      · cases h
        exact Or.inl ⟨by rw [hpc]; rfl, .nil, rfl, rfl⟩
      · cases h
        exact Or.inl ⟨by rw [hpc]; rfl, whole_paint _ _ _, rfl, rfl⟩
  | blink =>
      simp only [frameStep, hpc] at h
      cases h
      exact Or.inl ⟨by rw [hpc]; rfl, whole_paint _ _ _, rfl, rfl⟩
  | below25 duty | below50 duty =>
      simp only [frameStep, hpc] at h
      split at h
      · cases h
        exact Or.inl ⟨by rw [hpc]; rfl, whole_paint _ _ _, rfl, rfl⟩
      · cases h
        exact Or.inl ⟨by rw [hpc]; rfl, .nil, rfl, rfl⟩
  | below75 duty =>
      simp only [frameStep, hpc] at h
      split at h
      · cases h
        exact Or.inl ⟨by rw [hpc]; rfl, whole_paint _ _ _, rfl, rfl⟩
      · cases h
        exact Or.inl ⟨by rw [hpc]; rfl, whole_paint _ _ _, rfl, rfl⟩

theorem held_frame (hpc : s.frame.stmts ≠ []) : s.frame.held = held s.frame.stmts := by
  cases h : s.frame with
  | code rest => rfl
  | _ =>
      rw [h] at hpc
      exact absurd rfl hpc

end Frames

section Runs

variable {s t : State} {a : Act} {as : List Act} {col : Channel → UInt16}

/-- The color that is being written, or that was written last, is `col`. -/
structure Shown (col : Channel → UInt16) (s : State) : Prop where
  locks : Locks s
  parts : ∃ left left', Cut left s.code ∧ Cut left' s.frame.stmts ∧
    regsAfter (left ++ left') s.regs = ⟨col, col⟩

/-- The color a step begins to write. -/
def painted (s : State) : Act → Option (Channel → UInt16)
  | .call _ => none
  | .caller => colorOf s.code
  | .frame _ => colorOf s.frame.stmts

/-- The color a run was the last to begin to write, from `col` on. -/
def lastPainted (col : Channel → UInt16) (s : State) : List Act → Channel → UInt16
  | [] => col
  | a :: as => match step s a with
      | some t => lastPainted ((painted s a).getD col) t as
      | none => col

theorem Cut.left_nil {left : List Stmt} (h : Cut left []) : left = [] := by
  obtain ⟨rest, hcode, -, -⟩ := h.rest
  exact (List.append_eq_nil_iff.1 hcode.symm).1

/-- Who writes a color holds the mutex. -/
theorem frame_held {left : List Stmt} (hs : Locks s) (h : Cut left s.frame.stmts)
    (hne : left ≠ []) : 0 < count s.mutex .frame := by
  have hstmts : s.frame.stmts ≠ [] := by
    intro hnil
    rw [hnil] at h
    exact hne h.left_nil
  have hpos := h.held_pos hne
  rw [← held_frame hstmts, ← hs.frame] at hpos
  exact Int.natCast_pos.1 hpos

theorem caller_held {left : List Stmt} (hs : Locks s) (h : Cut left s.code)
    (hne : left ≠ []) : 0 < count s.mutex .caller := by
  have hpos := h.held_pos hne
  rw [← hs.caller] at hpos
  exact Int.natCast_pos.1 hpos

theorem Shown.step (h : Shown col s) (hstep : Led.step s a = some t) :
    Shown ((painted s a).getD col) t := by
  have hlocks := h.locks.step hstep
  obtain ⟨left, left', hcaller, hframe, hregs⟩ := h.parts
  cases a with
  | call setter =>
      simp only [Led.step] at hstep
      split at hstep
      · next hidle =>
          cases hstep
          refine ⟨hlocks, [], left', (whole_code setter).cut, hframe, ?_⟩
          rw [hidle] at hcaller
          rw [hcaller.left_nil] at hregs
          exact hregs
      · cases hstep
  | caller =>
      simp only [Led.step] at hstep
      split at hstep
      · cases hstep
      · next x rest hcode =>
          obtain ⟨u, hu, rfl⟩ := Option.map_eq_some_iff.1 hstep
          rw [hcode] at hcaller
          obtain ⟨-, hsame, -, -, -, -⟩ := exec_spec hu []
          have hframe' : Cut left' u.frame.stmts := hsame ▸ hframe
          by_cases hne : left' = []
          · subst hne
            rw [List.append_nil] at hregs
            obtain ⟨after, hcut, hafter⟩ := hcaller.advance hu hregs
            refine ⟨hlocks, after, [], hcut, hframe', ?_⟩
            rw [List.append_nil, painted, hcode]
            exact hafter
          · -- the frame holds the mutex
            have hfree := count_eq_zero (frame_held h.locks hframe hne) (u := .caller) (by decide)
            have hheld := h.locks.caller
            rw [hfree, hcode] at hheld
            obtain ⟨hcut, hsame', hnone⟩ := hcaller.quiet hheld.symm hu
            have hleft := hcaller.left_of_held hheld.symm
            subst hleft
            refine ⟨hlocks, [], left', hcut, hframe', ?_⟩
            rw [painted, hcode, hnone]
            dsimp only
            rw [hsame']
            exact hregs
  | frame i =>
      rcases frameStep_turns hstep with hturns | ⟨x, rest, u, hpc, hu, rfl⟩
      · rw [hturns.before] at hframe
        have hleft := hframe.left_nil
        subst hleft
        refine ⟨hlocks, left, [], hturns.code ▸ hcaller, hturns.after.cut, ?_⟩
        rw [hturns.regs, painted, hturns.before]
        exact hregs
      · obtain ⟨hsame, -, -, -, -, -⟩ := exec_spec hu []
        have hcaller' : Cut left u.code := hsame ▸ hcaller
        have hstmts : s.frame.stmts = x :: rest := by
          rw [hpc]
          rfl
        rw [hstmts] at hframe
        by_cases hne : left = []
        · subst hne
          obtain ⟨after, hcut, hafter⟩ := hframe.advance hu hregs
          refine ⟨hlocks, [], after, hcaller', hcut, ?_⟩
          rw [painted, hstmts]
          exact hafter
        · -- the caller holds the mutex
          have hfree := count_eq_zero (caller_held h.locks hcaller hne) (u := .frame) (by decide)
          have hheld := h.locks.frame
          rw [hfree, hpc] at hheld
          obtain ⟨hcut, hsame', hnone⟩ := hframe.quiet hheld.symm hu
          have hleft := hframe.left_of_held hheld.symm
          subst hleft
          refine ⟨hlocks, left, [], hcaller', hcut, ?_⟩
          rw [painted, hstmts, hnone]
          dsimp only
          rw [hsame']
          exact hregs

theorem shown_init : Shown (fun _ => 0) init :=
  ⟨locks_init, [], [], Whole.nil.cut, Whole.nil.cut, rfl⟩

/-- While the mutex is free no color is being written. -/
theorem Shown.regs_of_free (h : Shown col s) (hfree : s.mutex = none) : s.regs = ⟨col, col⟩ := by
  obtain ⟨left, left', hcaller, hframe, hregs⟩ := h.parts
  have hleft : left = [] := by
    by_contra hne
    have hpos := caller_held h.locks hcaller hne
    rw [hfree] at hpos
    exact absurd hpos (Nat.lt_irrefl 0)
  have hleft' : left' = [] := by
    by_contra hne
    have hpos := frame_held h.locks hframe hne
    rw [hfree] at hpos
    exact absurd hpos (Nat.lt_irrefl 0)
  rw [hleft, hleft'] at hregs
  exact hregs

/-- No duty is above `LEDC_MAX_DUTY`. -/
def Regs.Bounded (regs : Regs) : Prop :=
  ∀ c, regs.duty c ≤ ledcMaxDuty ∧ regs.output c ≤ ledcMaxDuty

theorem clamp_le (v : UInt16) : clamp v ≤ ledcMaxDuty := by
  unfold clamp
  split
  · exact UInt16.le_refl _
  · next h => exact UInt16.not_lt.1 h

theorem duty_of_mem {r g b v : UInt16} {c : Channel} (h : .setDuty c v ∈ registerWrites r g b) :
    v ≤ ledcMaxDuty := by
  simp only [registerWrites, List.mem_cons, Stmt.setDuty.injEq, reduceCtorEq, List.not_mem_nil,
    or_false] at h
  rcases h with ⟨-, rfl⟩ | ⟨-, rfl⟩ | ⟨-, rfl⟩
  · exact clamp_le r
  · exact clamp_le g
  · exact clamp_le b

theorem Whole.duty {code : List Stmt} {v : UInt16} {c : Channel} (h : Whole code)
    (hmem : .setDuty c v ∈ code) : v ≤ ledcMaxDuty := by
  induction h with
  | nil => cases hmem
  | other hx hrest ih =>
      rcases List.mem_cons.1 hmem with rfl | hmem
      · cases hx
      · exact ih hmem
  | color r g b hheld hrest ih =>
      rcases List.mem_append.1 hmem with hmem | hmem
      · exact duty_of_mem hmem
      · exact ih hmem

theorem Cut.duty {left code : List Stmt} {v : UInt16} {c : Channel} (h : Cut left code)
    (hmem : .setDuty c v ∈ code) : v ≤ ledcMaxDuty := by
  obtain ⟨⟨rest, rfl, hwhole, -⟩, r, g, b, k, -, rfl⟩ := h
  rcases List.mem_append.1 hmem with hmem | hmem
  · exact duty_of_mem (List.mem_of_mem_drop hmem)
  · exact hwhole.duty hmem

theorem Regs.Bounded.setDuty {regs : Regs} {c : Channel} {v : UInt16} (h : regs.Bounded)
    (hv : v ≤ ledcMaxDuty) : (regs.setDuty c v).Bounded := by
  intro c'
  refine ⟨?_, (h c').2⟩
  simp only [Regs.setDuty, Function.update_apply]
  split
  · exact hv
  · exact (h c').1

theorem Regs.Bounded.updateDuty {regs : Regs} {c : Channel} (h : regs.Bounded) :
    (regs.updateDuty c).Bounded := by
  intro c'
  refine ⟨(h c').1, ?_⟩
  simp only [Regs.updateDuty, Function.update_apply]
  split
  · exact (h c).1
  · exact (h c').2

theorem exec_bounded {u : State} {task : Task} {x : Stmt} (h : s.regs.Bounded)
    (hx : ∀ c v, x = .setDuty c v → v ≤ ledcMaxDuty) (he : exec task s x = some u) :
    u.regs.Bounded := by
  cases x with
  | setDuty c v =>
      cases he
      exact h.setDuty (hx c v rfl)
  | updateDuty c =>
      cases he
      exact h.updateDuty
  | take | give =>
      obtain ⟨m, -, rfl⟩ := Option.map_eq_some_iff.1 he
      exact h
  | _ =>
      cases he
      exact h

theorem Shown.bounded (h : Shown col s) (hb : s.regs.Bounded) (hstep : Led.step s a = some t) :
    t.regs.Bounded := by
  obtain ⟨left, left', hcaller, hframe, -⟩ := h.parts
  cases a with
  | call setter =>
      simp only [Led.step] at hstep
      split at hstep
      · cases hstep
        exact hb
      · cases hstep
  | caller =>
      simp only [Led.step] at hstep
      split at hstep
      · cases hstep
      · next x rest hcode =>
          obtain ⟨u, hu, rfl⟩ := Option.map_eq_some_iff.1 hstep
          have hbounded : u.regs.Bounded := by
            refine exec_bounded hb (fun c v hx => hcaller.duty (c := c) ?_) hu
            rw [hcode, ← hx]
            exact List.mem_cons_self
          exact hbounded
  | frame i =>
      rcases frameStep_turns hstep with hturns | ⟨x, rest, u, hpc, hu, rfl⟩
      · rw [hturns.regs]
        exact hb
      · have hbounded : u.regs.Bounded := by
          refine exec_bounded hb (fun c v hx => hframe.duty (c := c) ?_) hu
          rw [hpc, ← hx]
          exact List.mem_cons_self
        exact hbounded

theorem Shown.run (h : Shown col s) (hb : s.regs.Bounded)
    (hrun : Transition.run Led.step s as = some t) :
    Shown (lastPainted col s as) t ∧ t.regs.Bounded := by
  induction as generalizing s col with
  | nil =>
      rw [run_nil, Option.some.injEq] at hrun
      exact hrun ▸ ⟨h, hb⟩
  | cons a as ih =>
      rw [run_cons, Option.bind_eq_some_iff] at hrun
      obtain ⟨u, hu, hrest⟩ := hrun
      rw [lastPainted, hu]
      exact ih (h.step hu) (h.bounded hb hu) hrest

/-- In every run of the two tasks: whenever the mutex is free the duties, and those in
effect, are the color of the one call of `led_set_color` that was the last to begin to
write, and at no time is one of them above `LEDC_MAX_DUTY`. -/
theorem led_color_whole (hrun : run step init as = some s) :
    (s.mutex = none →
      s.regs = ⟨lastPainted (fun _ => 0) init as, lastPainted (fun _ => 0) init as⟩) ∧
      s.regs.Bounded := by
  have hzero : init.regs.Bounded := fun _ => ⟨UInt16.zero_le, UInt16.zero_le⟩
  obtain ⟨hshown, hbounded⟩ := shown_init.run hzero hrun
  exact ⟨hshown.regs_of_free, hbounded⟩

/-- A frame of the purple breathing, and a color of a setter after it. -/
def breathThenColor : List Act :=
  [.call .showWifiConnecting, .caller] ++ List.replicate 15 (.frame ⟨100, 7, 0, 0, 0⟩) ++
    .call (.setColor 1 5000 3) :: List.replicate 8 .caller

theorem led_color_whole_breath : ∃ s, run step init breathThenColor = some s ∧
    s.regs.output .r = 1 ∧ s.regs.output .g = 4095 ∧ s.regs.Bounded := by
  have hview : (run step init breathThenColor).map (fun s => s.mutex) = some none := by
    decide
  obtain ⟨s, hrun, hfree⟩ := Option.map_eq_some_iff.1 hview
  obtain ⟨hregs, hbounded⟩ := led_color_whole hrun
  refine ⟨s, hrun, ?_, ?_, hbounded⟩
  · rw [hregs hfree]
    decide
  · rw [hregs hfree]
    decide

end Runs

end Led

end SimiboxDownloader
