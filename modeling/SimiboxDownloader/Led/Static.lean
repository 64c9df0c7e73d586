import SimiboxDownloader.Led.Tasks

/-!
# Static colors

A setter that shows a static color takes the mutex, and from then on `led_task` must not
paint: it is not within a frame then, and every frame that begins later has to find a
pattern that is not animated. `led_show_solid` and `led_show_success` store that pattern
in time, `led_show_progress(100)` only after its last register write; if a frame reads
the pattern in between, it paints over the color (`led_color_sticks`).
-/

namespace SimiboxDownloader

namespace Led

open RecursiveMutex Transition

section Locks

/-- How often the mutex is held before the statements, when it is free behind them. -/
def held : List Stmt → ℤ
  | [] => 0
  | .take :: rest => held rest - 1
  | .give :: rest => held rest + 1
  | _ :: rest => held rest

/-- How often `led_task` holds the mutex. -/
def FramePc.held : FramePc → ℤ
  | .delay | .readLastUpdate | .take => 0
  | .code rest => Led.held rest
  | _ => 1

/-- A frame that will write to the registers. -/
def FramePc.Paints : FramePc → Prop
  | .delay | .readLastUpdate | .take | .switch => False
  | .code rest => ∃ c v, .setDuty c v ∈ rest ∨ .updateDuty c ∈ rest
  | _ => True

/-- The statements of a frame are those of its `led_set_color` and the last give. -/
def FramePc.Code : FramePc → Prop
  | .code rest => ∃ r g b, rest <:+ ledSetColor r g b ++ [.give]
  | _ => True

/-- The pattern after the statements. -/
def patternAfter : List Stmt → Pattern → Pattern
  | [], p => p
  | .storePattern q :: rest, _ => patternAfter rest q
  | _ :: rest, p => patternAfter rest p

/-- The registers after the statements. -/
def regsAfter : List Stmt → Regs → Regs
  | [], regs => regs
  | .setDuty c v :: rest, regs => regsAfter rest (regs.setDuty c v)
  | .updateDuty c :: rest, regs => regsAfter rest (regs.updateDuty c)
  | _ :: rest, regs => regsAfter rest regs

variable {s t u : State} {task : Task} {x : Stmt} {rest : List Stmt} {i : FrameInput}

/-- What a statement does to the pattern, the registers and the mutex. -/
theorem exec_spec (h : exec task s x = some u) (rest : List Stmt) :
    u.code = s.code ∧ u.frame = s.frame ∧
      patternAfter rest u.pattern = patternAfter (x :: rest) s.pattern ∧
      regsAfter rest u.regs = regsAfter (x :: rest) s.regs ∧
      (count u.mutex task - held rest = count s.mutex task - held (x :: rest)) ∧
      ∀ other, other ≠ task → count u.mutex other = count s.mutex other := by
  cases x with
  | take =>
      obtain ⟨m, hm, rfl⟩ := Option.map_eq_some_iff.1 h
      obtain ⟨hcount, hother⟩ := count_take hm
      refine ⟨rfl, rfl, rfl, rfl, ?_, fun other hne => ?_⟩
      · simp only [held, hcount]
        omega
      · rw [(hother other hne).1, (hother other hne).2]
  | give =>
      obtain ⟨m, hm, rfl⟩ := Option.map_eq_some_iff.1 h
      obtain ⟨hcount, hother⟩ := count_give hm
      refine ⟨rfl, rfl, rfl, rfl, ?_, hother⟩
      simp only [held, hcount]
      omega
  | _ =>
      cases h
      exact ⟨rfl, rfl, rfl, rfl, rfl, fun _ _ => rfl⟩

/-- A take is only possible while no other task holds the mutex. -/
theorem exec_take (h : exec task s .take = some u) {other : Task} (hne : other ≠ task) :
    count s.mutex other = 0 := by
  obtain ⟨m, hm, rfl⟩ := Option.map_eq_some_iff.1 h
  exact ((count_take hm).2 other hne).1

/-- The frame draws its next statement on nothing that is shared but `led_state`; it comes
to paint only in the `switch`. -/
structure FrameMoves (s t : State) : Prop where
  pattern : t.pattern = s.pattern
  regs : t.regs = s.regs
  mutex : t.mutex = s.mutex
  code : t.code = s.code
  held : t.frame.held = s.frame.held
  frame : t.frame.Code
  paints : t.frame.Paints → s.frame.Paints ∨
    s.frame = .switch ∧ s.pattern.period.any (· ≤ s.elapsed) = true

/-- A step within a frame that paints. -/
theorem frameMoves_within {pc next : FramePc} (hpc : s.frame = pc) (hheld : pc.held = 1)
    (hpaints : pc.Paints) (hnext : next.held = 1) (hcode : next.Code) (lastUpdate : UInt32)
    (blinkState : Bool) : FrameMoves s
      { s with lastUpdate := lastUpdate, blinkState := blinkState, frame := next } := by
  subst hpc
  exact ⟨rfl, rfl, rfl, rfl, hnext.trans hheld.symm, hcode, fun _ => Or.inl hpaints⟩

theorem code_paint (r g b : UInt16) : (FramePc.code (ledSetColor r g b ++ [.give])).Code :=
  ⟨r, g, b, List.suffix_refl _⟩

theorem frameMoves_paint {pc : FramePc} (hpc : s.frame = pc) (hheld : pc.held = 1)
    (hpaints : pc.Paints) (r g b : UInt16) : FrameMoves s (s.paint r g b) :=
  frameMoves_within hpc hheld hpaints rfl (code_paint r g b) _ _

theorem code_give : (FramePc.code [.give]).Code :=
  ⟨0, 0, 0, List.suffix_append _ _⟩

theorem code_of_cons (h : (FramePc.code (x :: rest)).Code) : (FramePc.code rest).Code := by
  obtain ⟨r, g, b, hsuffix⟩ := h
  exact ⟨r, g, b, (List.suffix_cons x rest).trans hsuffix⟩

theorem paints_cons (h : (FramePc.code rest).Paints) : (FramePc.code (x :: rest)).Paints := by
  obtain ⟨c, v, hmem⟩ := h
  exact ⟨c, v, hmem.imp (List.mem_cons_of_mem x) (List.mem_cons_of_mem x)⟩

/-- The statements of a frame do not store the pattern. -/
theorem pattern_of_code (h : (FramePc.code (x :: rest)).Code) (p : Pattern) :
    patternAfter [x] p = p := by
  obtain ⟨r, g, b, hsuffix⟩ := h
  have hmem := hsuffix.subset List.mem_cons_self
  cases x with
  | storePattern q => simp [ledSetColor, registerWrites] at hmem
  | _ => rfl

theorem regs_of_not_paints (h : ¬ (FramePc.code (x :: rest)).Paints) (regs : Regs) :
    regsAfter [x] regs = regs := by
  cases x with
  | setDuty c v => exact absurd ⟨c, v, Or.inl List.mem_cons_self⟩ h
  | updateDuty c => exact absurd ⟨c, 0, Or.inr List.mem_cons_self⟩ h
  | _ => rfl

/-- What is left of the register writes holds the mutex as all of them do. -/
theorem held_of_suffix {r g b : UInt16} {l : List Stmt} (h : l <:+ registerWrites r g b ++ rest) :
    held l = held rest ∨ l <:+ rest := by
  simp only [registerWrites, List.cons_append, List.nil_append, List.suffix_cons_iff] at h
  rcases h with rfl | rfl | rfl | rfl | rfl | rfl | h
  case inr.inr.inr.inr.inr.inr => exact Or.inr h
  all_goals exact Or.inl rfl

/-- Before gives the mutex is held as often as there are gives. -/
theorem held_of_gives {n : ℕ} {l : List Stmt} (h : l <:+ List.replicate n .give) :
    held l = l.length := by
  rw [(List.suffix_replicate_iff.1 h).2, List.length_replicate]
  induction l.length with
  | zero => rfl
  | succ n ih =>
      rw [List.replicate_succ, held, ih]
      rfl

/-- A frame that paints holds the mutex. -/
theorem held_pos_of_paints {pc : FramePc} (hcode : pc.Code) (h : pc.Paints) :
    0 < pc.held := by
  cases pc with
  | code rest =>
      obtain ⟨r, g, b, hsuffix⟩ := hcode
      rw [ledSetColor, List.cons_append, List.append_assoc, List.suffix_cons_iff] at hsuffix
      rcases hsuffix with rfl | hsuffix
      · exact Int.one_pos
      rcases held_of_suffix hsuffix with heq | hsuffix
      · rw [FramePc.held, heq]
        decide
      · rw [FramePc.held, held_of_gives (n := 2) hsuffix]
        refine Int.natCast_pos.2 (List.length_pos_iff.2 ?_)
        rintro rfl
        simp [FramePc.Paints] at h
  | delay | readLastUpdate | take | switch => exact h.elim
  | _ => exact Int.one_pos

/-- What a step of a frame can do. -/
theorem frameStep_cases (h : frameStep s i = some t) :
    FrameMoves s t ∨
      (s.frame = .take ∧ ∃ u, exec .frame s .take = some u ∧ t = { u with frame := .switch }) ∨
      ∃ x rest u, s.frame = .code (x :: rest) ∧ exec .frame s x = some u ∧
        t = { u with frame := .code rest } := by
  cases hpc : s.frame with
  | take =>
      simp only [frameStep, hpc] at h
      obtain ⟨u, hu, rfl⟩ := Option.map_eq_some_iff.1 h
      exact Or.inr (Or.inl ⟨rfl, u, hu, rfl⟩)
  | code rest =>
      cases rest with
      | nil =>
          simp only [frameStep, hpc] at h
          cases h
          exact Or.inl ⟨rfl, rfl, rfl, rfl, by rw [hpc]; rfl, trivial, False.elim⟩
      | cons x rest =>
          simp only [frameStep, hpc] at h
          obtain ⟨u, hu, rfl⟩ := Option.map_eq_some_iff.1 h
          exact Or.inr (Or.inr ⟨x, rest, u, rfl, hu, rfl⟩)
  | delay | readLastUpdate =>
      simp only [frameStep, hpc] at h
      cases h
      exact Or.inl ⟨rfl, rfl, rfl, rfl, by rw [hpc]; rfl, trivial, False.elim⟩
  | switch =>
      simp only [frameStep, hpc] at h
      left
      split at h
      · next hdue =>
          cases h
          exact ⟨rfl, rfl, rfl, rfl, by rw [hpc]; rfl, trivial, fun _ => Or.inr ⟨hpc, hdue⟩⟩
      · cases h
        refine ⟨rfl, rfl, rfl, rfl, by rw [hpc]; rfl, code_give, fun hpaints => ?_⟩
        simp [FramePc.Paints] at hpaints
  | storeLastUpdate p =>
      simp only [frameStep, hpc] at h
      left
      split at h
      · cases h
        exact frameMoves_within hpc rfl trivial rfl (by trivial) _ _
      · cases h
        exact frameMoves_within hpc rfl trivial rfl (by trivial) _ _
  | color p =>
      simp only [frameStep, hpc] at h
      left
      split at h
      · cases h
        exact frameMoves_paint hpc rfl trivial _ _ _
      · cases h
        exact frameMoves_within hpc rfl trivial rfl (by trivial) _ _
      · cases h
        exact frameMoves_paint hpc rfl trivial _ _ _
  | readBlink | storeBlink on =>
      simp only [frameStep, hpc] at h
      cases h
      exact Or.inl (frameMoves_within hpc rfl trivial rfl (by trivial) _ _)
  | blink =>
      simp only [frameStep, hpc] at h
      cases h
      left
      exact frameMoves_paint hpc rfl trivial _ _ _
  | below25 duty | below50 duty =>
      simp only [frameStep, hpc] at h
      left
      split at h
      · cases h
        exact frameMoves_paint hpc rfl trivial _ _ _
      · cases h
        exact frameMoves_within hpc rfl trivial rfl (by trivial) _ _
  | below75 duty =>
      simp only [frameStep, hpc] at h
      left
      split at h
      · cases h
        exact frameMoves_paint hpc rfl trivial _ _ _
      · cases h
        exact frameMoves_paint hpc rfl trivial _ _ _

/-- The mutex is held as often as the two tasks have it to give back. -/
structure Locks (s : State) : Prop where
  caller : (count s.mutex .caller : ℤ) = held s.code
  frame : (count s.mutex .frame : ℤ) = s.frame.held
  code : s.frame.Code

theorem held_code (setter : Setter) : held setter.code = 0 := by
  cases setter with
  | showProgress percent =>
      simp only [Setter.code, ledShowProgress]
      split
      · rfl
      · rfl
  | _ => rfl

theorem Locks.step {a : Act} (h : Locks s) (hstep : step s a = some t) : Locks t := by
  cases a with
  | call setter =>
      simp only [Led.step] at hstep
      split at hstep
      · next hidle =>
          cases hstep
          refine ⟨?_, h.frame, h.code⟩
          rw [held_code, h.caller, hidle]
          rfl
      · cases hstep
  | caller =>
      simp only [Led.step] at hstep
      split at hstep
      · cases hstep
      · next x rest hcode =>
          obtain ⟨u, hu, rfl⟩ := Option.map_eq_some_iff.1 hstep
          obtain ⟨-, hframe, -, -, hcount, hother⟩ := exec_spec hu rest
          have hcaller := h.caller
          rw [hcode] at hcaller
          refine ⟨by dsimp only; omega, ?_, hframe ▸ h.code⟩
          rw [hother .frame (by decide), hframe, h.frame]
  | frame i =>
      rcases frameStep_cases hstep with hmove | ⟨hpc, u, hu, rfl⟩ | ⟨x, rest, u, hpc, hu, rfl⟩
      · refine ⟨?_, ?_, hmove.frame⟩
        · rw [hmove.mutex, hmove.code, h.caller]
        · rw [hmove.mutex, hmove.held, h.frame]
      · obtain ⟨hcode, -, -, -, hcount, hother⟩ := exec_spec hu [.give]
        have hframe := h.frame
        rw [hpc] at hframe
        refine ⟨?_, ?_, trivial⟩
        · rw [hother .caller (by decide), hcode, h.caller]
        · simp only [FramePc.held, held] at hcount hframe ⊢
          omega
      · obtain ⟨hcode, -, -, -, hcount, hother⟩ := exec_spec hu rest
        have hframe := h.frame
        have hsuffix := h.code
        rw [hpc] at hframe hsuffix
        refine ⟨?_, ?_, code_of_cons hsuffix⟩
        · rw [hother .caller (by decide), hcode, h.caller]
        · simp only [FramePc.held] at hframe ⊢
          omega

theorem locks_init : Locks init :=
  ⟨rfl, rfl, trivial⟩

theorem Locks.of_reaches (h : Reaches Led.step init s) : Locks s :=
  h.invariant (fun _ _ _ hs hstep => hs.step hstep) locks_init

end Locks

section Settling

variable {s t u : State} {a : Act} {i : FrameInput} {setter : Setter}
variable {col : Channel → UInt16} {rest : List Stmt}

/-- A frame that paints holds the mutex, so the caller does not. -/
theorem Locks.not_paints (h : Locks s) (hfree : count s.mutex .frame = 0) :
    ¬ s.frame.Paints := by
  intro hpaints
  have hpos := held_pos_of_paints h.code hpaints
  rw [← h.frame, hfree] at hpos
  exact absurd hpos (by decide)

/-- What a frame leaves alone, and when it comes to paint. -/
structure FrameKeeps (s t : State) : Prop where
  pattern : t.pattern = s.pattern
  code : t.code = s.code
  regs : ¬ s.frame.Paints → t.regs = s.regs
  paints : t.frame.Paints → s.frame.Paints ∨
    s.frame = .switch ∧ s.pattern.period.any (· ≤ s.elapsed) = true

theorem frameStep_keeps (hcode : s.frame.Code) (h : frameStep s i = some t) :
    FrameKeeps s t := by
  rcases frameStep_cases h with hmove | ⟨-, u, hu, rfl⟩ | ⟨x, rest, u, hpc, hu, rfl⟩
  · exact ⟨hmove.pattern, hmove.code, fun _ => hmove.regs, hmove.paints⟩
  · obtain ⟨hcode, -, hpattern, hregs, -, -⟩ := exec_spec hu []
    exact ⟨hpattern, hcode, fun _ => hregs, False.elim⟩
  · obtain ⟨hkept, -, hpattern, hregs, -, -⟩ := exec_spec hu []
    rw [hpc] at hcode
    refine ⟨hpattern.trans (pattern_of_code hcode _), hkept, fun hquiet => ?_, fun hpaints => ?_⟩
    · rw [hpc] at hquiet
      exact hregs.trans (regs_of_not_paints hquiet _)
    · rw [hpc]
      exact Or.inl (paints_cons hpaints)

/-- The colors of the three channels. -/
def rgb (r g b : UInt16) : Channel → UInt16
  | .r => r
  | .g => g
  | .b => b

theorem regsAfter_registerWrites (r g b : UInt16) (rest : List Stmt) (regs : Regs) :
    regsAfter (registerWrites r g b ++ rest) regs =
      regsAfter rest ⟨rgb (clamp r) (clamp g) (clamp b), rgb (clamp r) (clamp g) (clamp b)⟩ := by
  have hduty : Function.update (Function.update (Function.update regs.duty .r (clamp r)) .g
      (clamp g)) .b (clamp b) = rgb (clamp r) (clamp g) (clamp b) := by
    funext c
    cases c with
    | r | g | b => rfl
  have houtput : ∀ duty output : Channel → UInt16, Function.update (Function.update
      (Function.update output .r (duty .r)) .g (duty .g)) .b (duty .b) = duty := by
    intro duty output
    funext c
    cases c with
    | r | g | b => rfl
  simp only [registerWrites, List.cons_append, List.nil_append, regsAfter, Regs.setDuty,
    Regs.updateDuty]
  rw [houtput, hduty]

/-- A pattern `led_task` does not animate. -/
def Pattern.Static (p : Pattern) : Prop := p.period = Option.none

/-- The color of the setters that show a static one. -/
def Setter.color : Setter → Option (Channel → UInt16)
  | .showSolid r g b => some (rgb (clamp r) (clamp g) (clamp b))
  | .showSuccess => some (rgb 0 ledcMaxDuty 0)
  | .showProgress percent => if 100 ≤ percent then some (rgb 0 ledcMaxDuty 0) else none
  | _ => none

theorem color_showProgress (percent : UInt8) : (Setter.showProgress percent).color =
    if 100 ≤ percent then some (rgb 0 ledcMaxDuty 0) else none := rfl

/-- The setter shows `col` with the statements `rest`, which follow on a take of the
mutex; while it is in `rest` it only gives the mutex back for good when the pattern is
static, or, as `led_show_progress` does, one store too early. -/
structure Shows (setter : Setter) (col : Channel → UInt16) (rest : List Stmt) : Prop where
  take : ∃ l, setter.code = l ++ .take :: rest
  regs : ∀ regs, regsAfter rest regs = ⟨col, col⟩
  pattern : ∀ p, (patternAfter setter.code p).Static
  window : ∀ l, l <:+ rest → held l = 0 →
    l = [] ∨ l = [.storePattern .success] ∧ ∃ percent, setter = .showProgress percent

/-- `led_show_solid` holds the mutex around both stores. -/
theorem shows_showSolid (r g b : UInt16) :
    Shows (.showSolid r g b) (rgb (clamp r) (clamp g) (clamp b))
      (.storePattern .none :: (ledSetColor r g b ++ [.give])) where
  take := ⟨[], rfl⟩
  regs regs := regsAfter_registerWrites r g b [.give, .give] regs
  pattern _ := rfl
  window l hl hheld := by
    rw [ledSetColor, List.cons_append, List.append_assoc, List.suffix_cons_iff,
      List.suffix_cons_iff] at hl
    rcases hl with rfl | rfl | hl
    · exact absurd hheld Int.one_ne_zero
    · exact absurd hheld Int.one_ne_zero
    · rcases held_of_suffix hl with heq | hl
      · exact absurd (heq.symm.trans hheld) (by decide)
      · rw [held_of_gives (n := 2) hl] at hheld
        exact Or.inl (List.length_eq_zero_iff.1 (Int.natCast_eq_zero.1 hheld))

/-- `led_show_success` stores the pattern before it takes the mutex. -/
theorem shows_showSuccess :
    Shows .showSuccess (rgb 0 ledcMaxDuty 0) (registerWrites 0 ledcMaxDuty 0 ++ [.give]) where
  take := ⟨[.storePattern .success], rfl⟩
  regs regs := regsAfter_registerWrites 0 ledcMaxDuty 0 [.give] regs
  pattern _ := rfl
  window l hl hheld := by
    rcases held_of_suffix hl with heq | hl
    · exact absurd (heq.symm.trans hheld) (by decide)
    · rw [held_of_gives (n := 1) hl] at hheld
      exact Or.inl (List.length_eq_zero_iff.1 (Int.natCast_eq_zero.1 hheld))

/-- `led_show_progress` stores it after it has given the mutex back. -/
theorem shows_showProgress {percent : UInt8} (h : 100 ≤ percent) :
    Shows (.showProgress percent) (rgb 0 ledcMaxDuty 0)
      (registerWrites 0 ledcMaxDuty 0 ++ [.give, .storePattern .success]) where
  take := by
    refine ⟨[.storePattern .progress, .storePercent percent], ?_⟩
    simp only [Setter.code, ledShowProgress, if_pos h]
    rfl
  regs regs := regsAfter_registerWrites 0 ledcMaxDuty 0 [.give, .storePattern .success] regs
  pattern _ := by
    simp only [Setter.code, ledShowProgress, if_pos h]
    rfl
  window l hl hheld := by
    rcases held_of_suffix hl with heq | hl
    · exact absurd (heq.symm.trans hheld) (by decide)
    simp only [List.suffix_cons_iff, List.suffix_nil] at hl
    rcases hl with rfl | rfl | rfl
    · exact absurd hheld (by decide)
    · exact Or.inr ⟨rfl, percent, rfl⟩
    · exact Or.inl rfl

theorem shows_of_color (h : setter.color = some col) : ∃ rest, Shows setter col rest := by
  cases setter with
  | showSolid r g b =>
      cases h
      exact ⟨_, shows_showSolid r g b⟩
  | showSuccess =>
      cases h
      exact ⟨_, shows_showSuccess⟩
  | showProgress percent =>
      by_cases hfull : 100 ≤ percent
      · rw [color_showProgress, if_pos hfull, Option.some.injEq] at h
        exact ⟨_, h ▸ shows_showProgress hfull⟩
      · rw [color_showProgress, if_neg hfull] at h
        exact absurd h (Option.some_ne_none col).symm
  | _ => cases h

/-- How far a call has come that shows `col`. -/
inductive Stage (col : Channel → UInt16) (rest : List Stmt) (s : State) : Prop
  /-- It has not taken the mutex. -/
  | before (l : List Stmt) (code : s.code = l ++ .take :: rest)
  /-- It has taken the mutex, and no frame paints since. -/
  | after (code : s.code <:+ rest) (regs : regsAfter s.code s.regs = ⟨col, col⟩)
      (quiet : ¬ s.frame.Paints)

structure Settles (col : Channel → UInt16) (rest : List Stmt) (s : State) : Prop where
  locks : Locks s
  pattern : (patternAfter s.code s.pattern).Static
  stage : Stage col rest s

def Act.isCall : Act → Bool
  | .call _ => true
  | _ => false

/-- A frame comes to paint between the last give and the last store of
`led_show_progress`. -/
def repaints (s : State) : Act → Bool
  | .frame _ => s.code = [.storePattern .success] && s.frame = .switch &&
      s.pattern.period.any (· ≤ s.elapsed)
  | _ => false

theorem Settles.caller (hshows : Shows setter col rest) (h : Settles col rest s)
    (hstep : step s .caller = some t) : Settles col rest t := by
  have hlocks := h.locks.step hstep
  simp only [step] at hstep
  split at hstep
  · cases hstep
  · next x left hcode =>
      obtain ⟨u, hu, rfl⟩ := Option.map_eq_some_iff.1 hstep
      obtain ⟨-, hframe, hpattern, hregs, -, -⟩ := exec_spec hu left
      refine ⟨hlocks, ?_, ?_⟩
      · dsimp only
        rw [hpattern, ← hcode]
        exact h.pattern
      · cases h.stage with
        | before l hl =>
            rw [hcode] at hl
            cases l with
            | nil =>
                -- the caller takes the mutex, so no frame is painting
                cases hl
                refine .after (List.suffix_refl _) (hshows.regs _) ?_
                dsimp only
                rw [hframe]
                exact h.locks.not_paints (exec_take hu (by decide))
            | cons y l =>
                cases hl
                exact .before l rfl
        | after hsuffix hcol hquiet =>
            rw [hcode] at hsuffix hcol
            refine .after ((List.suffix_cons x left).trans hsuffix) (hregs.trans hcol) ?_
            dsimp only
            rw [hframe]
            exact hquiet

theorem Settles.frame (hshows : Shows setter col rest) (h : Settles col rest s)
    (hguard : repaints s (.frame i) = false ∨ ∀ percent, setter ≠ .showProgress percent)
    (hstep : step s (.frame i) = some t) : Settles col rest t := by
  have hkeeps := frameStep_keeps h.locks.code hstep
  refine ⟨h.locks.step hstep, ?_, ?_⟩
  · rw [hkeeps.code, hkeeps.pattern]
    exact h.pattern
  · cases h.stage with
    | before l hl => exact .before l (hkeeps.code.trans hl)
    | after hsuffix hcol hquiet =>
        refine .after (hkeeps.code ▸ hsuffix) ?_ fun hpaints => ?_
        · rw [hkeeps.code, hkeeps.regs hquiet]
          exact hcol
        -- a frame at the `switch` holds the mutex, so the caller has given it back
        obtain ⟨hswitch, hdue⟩ := (hkeeps.paints hpaints).resolve_left hquiet
        have hframe := h.locks.frame
        rw [hswitch] at hframe
        have hfree : count s.mutex .caller = 0 := by
          refine count_eq_zero (t := .frame) ?_ (by decide)
          simp only [FramePc.held] at hframe
          omega
        have hheld := h.locks.caller
        rw [hfree] at hheld
        rcases hshows.window s.code hsuffix hheld.symm with hdone | ⟨hlast, percent, hsetter⟩
        · have hstatic := h.pattern
          rw [hdone] at hstatic
          rw [show s.pattern.period = Option.none from hstatic] at hdue
          cases hdue
        · rcases hguard with hno | hnot
          · simp [repaints, hlast, hswitch, hdue] at hno
          · exact hnot percent hsetter

theorem Settles.step (hshows : Shows setter col rest) (h : Settles col rest s)
    (hcall : a.isCall = false)
    (hguard : repaints s a = false ∨ ∀ percent, setter ≠ .showProgress percent)
    (hstep : step s a = some t) : Settles col rest t := by
  cases a with
  | call setter => cases hcall
  | caller => exact h.caller hshows hstep
  | frame i => exact h.frame hshows hguard hstep

theorem settles_call (hshows : Shows setter col rest) (hs : Locks s)
    (hcall : step s (.call setter) = some t) : Settles col rest t := by
  have hlocks := hs.step hcall
  simp only [step] at hcall
  split at hcall
  · cases hcall
    obtain ⟨l, hl⟩ := hshows.take
    exact ⟨hlocks, hshows.pattern _, .before l hl⟩
  · cases hcall

end Settling

section Sticking

/-- No other setter is called. -/
def noCall (_ : State) (a : Act) : Bool := !a.isCall

/-- No other setter is called, and no frame comes to paint before the last store of
`led_show_progress`. -/
def undisturbed (s : State) (a : Act) : Bool := !a.isCall && !repaints s a

/-- Whenever the call has returned, the duties are `col`, in the steps `ok` allows. -/
def Sticks (ok : State → Act → Bool) (col : Channel → UInt16) (s : State) : Prop :=
  ∀ t, Reaches (restrict ok step) s t → t.code = [] → t.regs = ⟨col, col⟩

variable {s t : State} {setter : Setter} {col : Channel → UInt16}

/-- A color that is shown in a run that meets the guard sticks. -/
theorem sticks_of_guard {ok : State → Act → Bool} (hs : Reaches step init s)
    (hcall : step s (.call setter) = some t) (hcolor : setter.color = some col)
    (hok : ∀ s a, ok s a = true → a.isCall = false ∧
      (repaints s a = false ∨ ∀ percent, setter ≠ .showProgress percent)) : Sticks ok col t := by
  intro u hu hreturned
  obtain ⟨rest, hshows⟩ := shows_of_color hcolor
  have hsettles : Settles col rest u := by
    refine hu.invariant (fun v a w hv hstep => ?_)
      (settles_call hshows (Locks.of_reaches hs) hcall)
    obtain ⟨hallowed, hstep⟩ := restrict_eq_some.1 hstep
    obtain ⟨hquiet, hguard⟩ := hok v a hallowed
    exact hv.step hshows hquiet hguard hstep
  cases hsettles.stage with
  | before l hl => simp [hreturned] at hl
  | after _ hregs _ =>
      rw [hreturned] at hregs
      exact hregs

/-- A static color sticks in every run in which no frame comes to paint between the last
give and the last store of `led_show_progress`; in every run at all if another setter
shows it. -/
theorem led_color_sticks (hs : Reaches step init s) (hcall : step s (.call setter) = some t)
    (hcolor : setter.color = some col) :
    Sticks undisturbed col t ∧
      ((∀ percent, setter ≠ .showProgress percent) → Sticks noCall col t) := by
  refine ⟨sticks_of_guard hs hcall hcolor fun v a hok => ?_, fun hother =>
    sticks_of_guard hs hcall hcolor fun v a hok => ?_⟩
  · simp only [undisturbed, Bool.and_eq_true, Bool.not_eq_true'] at hok
    exact ⟨hok.1, Or.inl hok.2⟩
  · simp only [noCall, Bool.not_eq_true'] at hok
    exact ⟨hok, Or.inr hother⟩

/-- `led_show_progress(100)` up to the give in its `led_set_color`, a frame that begins
100 ms after the last one, and the store that is left. -/
def lateStore : List Act :=
  List.replicate 10 .caller ++ List.replicate 18 (.frame ⟨100, 3994, 0, 0, 0⟩) ++ [.caller]

/-- `led_show_progress` stores the static pattern too late: the frame repaints the green,
and no frame comes to correct it. -/
theorem led_color_repainted : ¬ ∀ (s t : State) (setter : Setter) (col : Channel → UInt16),
    Reaches step init s → step s (.call setter) = some t → setter.color = some col →
      Sticks noCall col t := by
  intro h
  have hrun : (run (restrict noCall step) { init with code := ledShowProgress 100 }
      lateStore).map (fun u => (u.code, u.regs.output .g)) = some ([], 3994) := by
    decide
  obtain ⟨u, hu, hview⟩ := Option.map_eq_some_iff.1 hrun
  have hregs := h init _ (.showProgress 100) _ (Reaches.refl step init) rfl rfl u
    (Reaches.of_run hu) (congrArg Prod.fst hview)
  have hgreen : u.regs.output .g = 3994 := congrArg Prod.snd hview
  rw [hregs] at hgreen
  exact absurd hgreen (by decide)

/-- Calls of `led_show_progress(100)` and `led_show_solid(5000, 2, 3)` when a frame has
begun. -/
theorem led_color_sticks_begun :
    Sticks undisturbed (rgb 0 4095 0)
        { init with code := ledShowProgress 100, now := 100, frame := .readLastUpdate } ∧
      Sticks noCall (rgb 4095 2 3)
        { init with code := ledShowSolid 5000 2 3, now := 100, frame := .readLastUpdate } := by
  have hrun : run step init [.frame ⟨100, 0, 0, 0, 0⟩] =
      some { init with now := 100, frame := .readLastUpdate } := rfl
  have hbegun := Reaches.of_run hrun
  have hprogress := led_color_sticks hbegun (t := { init with
    code := ledShowProgress 100, now := 100, frame := .readLastUpdate })
    (show step _ (.call (.showProgress 100)) = _ from rfl) rfl
  have hsolid := led_color_sticks hbegun (t := { init with
    code := ledShowSolid 5000 2 3, now := 100, frame := .readLastUpdate })
    (show step _ (.call (.showSolid 5000 2 3)) = _ from rfl) rfl
  exact ⟨hprogress.1, hsolid.2 (by simp)⟩

end Sticking

end Led

end SimiboxDownloader
