import SimiboxDownloader.Library.Amortized
import SimiboxDownloader.Led.Atomic

/-!
# Nobody waits for the mutex forever

A setter and a frame wait for nothing but the mutex, and both give it back after a few
statements. So one of the two tasks can always go on, and the one that waits does so for
a bounded number of statements of the other (`led_tasks_wait`).
-/

namespace SimiboxDownloader

namespace Led

open RecursiveMutex Transition

section Statements

/-- The mutex is not given back more often than it was taken. -/
def Balanced (code : List Stmt) : Prop := ∀ rest, rest <:+ code → 0 ≤ held rest

variable {x : Stmt} {rest code : List Stmt}

theorem balanced_nil : Balanced [] := by
  intro rest h
  rw [List.suffix_nil.1 h]
  exact Int.le_refl 0

theorem Balanced.cons (h : Balanced rest) (hx : 0 ≤ held (x :: rest)) : Balanced (x :: rest) := by
  intro l hl
  rcases List.suffix_cons_iff.1 hl with rfl | hl
  · exact hx
  · exact h l hl

theorem Balanced.tail (h : Balanced (x :: rest)) : Balanced rest :=
  fun l hl => h l (hl.trans (List.suffix_cons x rest))

theorem Balanced.held (h : Balanced code) : 0 ≤ held code := h code (List.suffix_refl code)

/-- A store does not change what is held. -/
theorem Balanced.store (h : Balanced rest) (hx : Led.held (x :: rest) = Led.held rest) :
    Balanced (x :: rest) :=
  h.cons (hx ▸ h.held)

theorem Balanced.give (h : Balanced rest) : Balanced (.give :: rest) :=
  h.cons (Int.le_add_one h.held)

theorem Balanced.ledSetColor (h : Balanced rest) (r g b : UInt16) :
    Balanced (ledSetColor r g b ++ rest) := by
  have hwrites : Balanced (registerWrites r g b ++ .give :: rest) :=
    (((((h.give.store rfl).store rfl).store rfl).store rfl).store rfl).store rfl
  rw [Led.ledSetColor, List.cons_append, List.append_assoc]
  refine hwrites.cons ?_
  have hsame : Led.held (.take :: (registerWrites r g b ++ .give :: rest)) =
      Led.held rest + 1 - 1 := rfl
  have hheld := h.held
  rw [hsame]
  omega

theorem balanced_code (setter : Setter) : Balanced setter.code := by
  cases setter with
  | setColor r g b =>
      have h := balanced_nil.ledSetColor r g b
      rwa [List.append_nil] at h
  | showSolid r g b =>
      have h := (balanced_nil.give.ledSetColor r g b).store (x := .storePattern .none) rfl
      exact h.cons (Int.le_refl 0)
  | showSuccess =>
      have h := balanced_nil.ledSetColor 0 ledcMaxDuty 0
      rw [List.append_nil] at h
      exact h.store rfl
  | showProgress percent =>
      have hrest : Balanced (if 100 ≤ percent then
          ledSetColor 0 ledcMaxDuty 0 ++ [.storePattern .success] else []) := by
        split
        · exact (balanced_nil.store rfl).ledSetColor 0 ledcMaxDuty 0
        · exact balanced_nil
      exact (hrest.store rfl).store rfl
  | showWifiConnecting | showDownloading => exact balanced_nil.store rfl
  | showDownloadProgress | showError | showRetry => exact (balanced_nil.store rfl).store rfl

theorem length_code (setter : Setter) : setter.code.length ≤ 11 := by
  cases setter with
  | showProgress percent =>
      simp only [Setter.code, ledShowProgress]
      split
      · exact Nat.le_refl 11
      · exact Nat.le_add_left 2 9
  | _ => simp [Setter.code, ledSetColor, ledShowSolid, registerWrites, ledShowWifiConnecting,
      ledShowDownloading, ledShowDownloadProgress, ledShowSuccess, ledShowError, ledShowRetry]

theorem balanced_frame (h : (FramePc.code code).Code) : Balanced code ∧ code.length ≤ 9 := by
  obtain ⟨r, g, b, hsuffix⟩ := h
  refine ⟨fun rest hrest => ?_, hsuffix.length_le⟩
  exact balanced_nil.give.ledSetColor r g b rest (hrest.trans hsuffix)

end Statements

section Steps

variable {s t u : State} {task : Task} {x : Stmt} {rest : List Stmt}

/-- What is known of a state that is reached. -/
structure Orderly (s : State) : Prop where
  locks : Locks s
  balanced : Balanced s.code
  length : s.code.length ≤ 11

theorem Orderly.step {a : Act} (h : Orderly s) (hstep : Led.step s a = some t) : Orderly t := by
  have hlocks := h.locks.step hstep
  cases a with
  | call setter =>
      simp only [Led.step] at hstep
      split at hstep
      · cases hstep
        exact ⟨hlocks, balanced_code setter, length_code setter⟩
      · cases hstep
  | caller =>
      simp only [Led.step] at hstep
      split at hstep
      · cases hstep
      · next x rest hcode =>
          obtain ⟨u, hu, rfl⟩ := Option.map_eq_some_iff.1 hstep
          have hbalanced := h.balanced
          have hlength := h.length
          rw [hcode] at hbalanced hlength
          exact ⟨hlocks, hbalanced.tail, (Nat.le_succ _).trans hlength⟩
  | frame i =>
      have hsame := (frameStep_keeps h.locks.code hstep).code
      exact ⟨hlocks, hsame ▸ h.balanced, hsame ▸ h.length⟩

theorem orderly_of_reaches (h : Reaches Led.step init s) : Orderly s :=
  h.invariant (fun _ _ _ hs hstep => hs.step hstep) ⟨locks_init, balanced_nil, Nat.zero_le 11⟩

/-- A statement only waits for a mutex the other task holds. -/
theorem exec_moves (hheld : (count s.mutex task : ℤ) = held (x :: rest)) (hrest : Balanced rest)
    (hfree : ∀ other, other ≠ task → count s.mutex other = 0) : ∃ u, exec task s x = some u := by
  cases x with
  | take =>
      obtain ⟨m, hm⟩ := exists_take hfree
      exact ⟨_, Option.map_eq_some_iff.2 ⟨m, hm, rfl⟩⟩
  | give =>
      have hpos : 0 < count s.mutex task := by
        have hgiven := hrest.held
        rw [held] at hheld
        omega
      obtain ⟨m, hm⟩ := exists_give hpos
      exact ⟨_, Option.map_eq_some_iff.2 ⟨m, hm, rfl⟩⟩
  | _ => exact ⟨_, rfl⟩

/-- The setter goes on while no frame holds the mutex. -/
theorem Orderly.caller_moves (h : Orderly s) (hcode : s.code ≠ [])
    (hfree : count s.mutex .frame = 0) : ∃ t, Led.step s .caller = some t := by
  obtain ⟨x, rest, heq⟩ := List.exists_cons_of_ne_nil hcode
  have hheld := h.locks.caller
  have hbalanced := h.balanced
  rw [heq] at hheld hbalanced
  have hothers : ∀ other, other ≠ Task.caller → count s.mutex other = 0 := by
    intro other hne
    cases other with
    | caller => exact absurd rfl hne
    | frame => exact hfree
  obtain ⟨u, hu⟩ := exec_moves hheld hbalanced.tail hothers
  rw [← Option.isSome_iff_exists]
  simp only [Led.step, heq, hu]
  rfl

/-- The frame goes on while no setter holds it. -/
theorem Orderly.frame_moves (h : Orderly s) (hfree : count s.mutex .caller = 0)
    (i : FrameInput) : ∃ t, Led.step s (.frame i) = some t := by
  have hothers : ∀ other, other ≠ Task.frame → count s.mutex other = 0 := by
    intro other hne
    cases other with
    | caller => exact hfree
    | frame => exact absurd rfl hne
  rw [← Option.isSome_iff_exists, Led.step]
  cases hpc : s.frame with
  | take =>
      obtain ⟨m, hm⟩ := exists_take hothers
      simp only [frameStep, hpc, exec, hm]
      rfl
  | code rest =>
      cases rest with
      | nil =>
          simp only [frameStep, hpc]
          rfl
      | cons x rest =>
          have hheld := h.locks.frame
          have hcode := h.locks.code
          rw [hpc] at hheld hcode
          obtain ⟨u, hu⟩ := exec_moves hheld (balanced_frame hcode).1.tail hothers
          simp only [frameStep, hpc, hu]
          rfl
  | switch | storeLastUpdate p | color p | below25 duty | below50 duty | below75 duty =>
      simp only [frameStep, hpc]
      split
      · rfl
      all_goals rfl
  | _ =>
      simp only [frameStep, hpc]
      rfl

end Steps

section Waiting

variable {s t : State} {a : Act} {as : List Act}

/-- The task a step is of. -/
def Act.task : Act → Task
  | .call _ | .caller => .caller
  | .frame _ => .frame

/-- The statements until the frame has given the mutex back, at most. -/
def FramePc.left : FramePc → ℕ
  | .delay | .readLastUpdate | .take => 0
  | .switch => 15
  | .storeLastUpdate _ => 14
  | .color _ => 13
  | .readBlink | .below25 _ => 12
  | .storeBlink _ | .below50 _ => 11
  | .blink | .below75 _ => 10
  | .code rest => rest.length

/-- The same of a task. -/
def statementsLeft (task : Task) (s : State) : ℕ :=
  match task with
  | .caller => s.code.length
  | .frame => s.frame.left

/-- Only while the task holds the mutex. -/
def holds (task : Task) (s : State) (_ : Act) : Bool := decide (0 < count s.mutex task)

/-- The steps of the other task, which do not count. -/
def Act.aside (task : Task) (a : Act) : ℕ := if a.task = task then 0 else 1

/-- The steps of the task. -/
def stepsOf (task : Task) : List Act → ℕ
  | [] => 0
  | a :: as => (if a.task = task then 1 else 0) + stepsOf task as

theorem stepsOf_add_income (task : Task) (as : List Act) :
    stepsOf task as + income (Act.aside task) as = as.length := by
  induction as with
  | nil => rfl
  | cons a as ih =>
      rw [stepsOf, income_cons, Act.aside, List.length_cons]
      split
      · omega
      · omega

theorem left_le (h : s.frame.Code) : s.frame.left ≤ 15 := by
  cases hpc : s.frame with
  | code rest =>
      rw [hpc] at h
      exact (balanced_frame h).2.trans (by decide)
  | _ => exact Nat.le_of_ble_eq_true rfl

/-- A frame that holds the mutex comes nearer to its last give. -/
theorem left_frameStep {i : FrameInput} (hpos : 0 < s.frame.held) (h : frameStep s i = some t) :
    t.frame.left + 1 ≤ s.frame.left := by
  cases hpc : s.frame with
  | code rest =>
      rw [hpc] at hpos
      cases rest with
      | nil => exact absurd hpos (Int.lt_irrefl 0)
      | cons x rest =>
          simp only [frameStep, hpc] at h
          obtain ⟨u, -, rfl⟩ := Option.map_eq_some_iff.1 h
          exact Nat.le_refl _
  | delay | readLastUpdate | take =>
      rw [hpc] at hpos
      exact absurd hpos (Int.lt_irrefl 0)
  | switch | storeLastUpdate p | color p | below25 duty | below50 duty | below75 duty =>
      simp only [frameStep, hpc] at h
      split at h
      all_goals
        cases h
        exact Nat.le_of_ble_eq_true rfl
  | readBlink | storeBlink on | blink =>
      simp only [frameStep, hpc] at h
      cases h
      exact Nat.le_of_ble_eq_true rfl

/-- Every statement of the task that holds the mutex counts. -/
theorem pays_holds (task : Task) : Pays (restrict (holds task) Led.step) Orderly
    (statementsLeft task) (Act.aside task) := by
  intro s a t hs hallowed
  obtain ⟨hholds, hstep⟩ := restrict_eq_some.1 hallowed
  rw [holds, decide_eq_true_eq] at hholds
  cases task with
  | caller =>
      have hheld := hs.locks.caller
      cases a with
      | call setter =>
          simp only [Led.step] at hstep
          split at hstep
          · next hidle =>
              rw [hidle] at hheld
              have hzero : held [] = 0 := rfl
              omega
          · cases hstep
      | caller =>
          simp only [Led.step] at hstep
          split at hstep
          · cases hstep
          · next x rest hcode =>
              obtain ⟨u, -, rfl⟩ := Option.map_eq_some_iff.1 hstep
              rw [statementsLeft, statementsLeft, hcode]
              exact Nat.le_refl _
      | frame i =>
          have hsame := (frameStep_keeps hs.locks.code hstep).code
          rw [statementsLeft, statementsLeft, hsame]
          exact Nat.le_refl _
  | frame =>
      cases a with
      | call setter =>
          simp only [Led.step] at hstep
          split at hstep
          · cases hstep
            exact Nat.le_refl _
          · cases hstep
      | caller =>
          simp only [Led.step] at hstep
          split at hstep
          · cases hstep
          · obtain ⟨u, hu, rfl⟩ := Option.map_eq_some_iff.1 hstep
            obtain ⟨-, hsame, -, -, -, -⟩ := exec_spec hu []
            rw [statementsLeft, statementsLeft]
            dsimp only
            rw [hsame]
            exact Nat.le_refl _
      | frame i =>
          refine left_frameStep ?_ hstep
          rw [← hs.locks.frame]
          exact Int.natCast_pos.2 hholds

/-- A task that holds the mutex gives it back within so many of its statements. -/
theorem stepsOf_le (hs : Orderly s) {task : Task}
    (hrun : run (restrict (holds task) Led.step) s as = some t) :
    stepsOf task as ≤ statementsLeft task s := by
  have hbound := (pays_holds task).length_le
    (fun _ _ _ hu hstep => hu.step (restrict_eq_some.1 hstep).2) hs hrun
  have hlength := stepsOf_add_income task as
  omega

/-- In every state the two tasks can reach, one of them can do its next statement, a
frame whatever its computations come to. And while a task holds the mutex it does at most
15 statements, if it is a frame, and at most 11, if it is a setter: so long does the other
one wait. -/
theorem led_tasks_wait (h : Reaches Led.step init s) :
    ((∀ i, ∃ t, Led.step s (.frame i) = some t) ∨ ∃ t, Led.step s .caller = some t) ∧
      (∀ as t, run (restrict (holds .frame) Led.step) s as = some t → stepsOf .frame as ≤ 15) ∧
      ∀ as t, run (restrict (holds .caller) Led.step) s as = some t →
        stepsOf .caller as ≤ 11 := by
  have hs := orderly_of_reaches h
  refine ⟨?_, fun as t hrun => (stepsOf_le hs hrun).trans (left_le hs.locks.code),
    fun as t hrun => (stepsOf_le hs hrun).trans hs.length⟩
  by_cases hfree : count s.mutex .caller = 0
  · exact Or.inl (hs.frame_moves hfree)
  · right
    have hpos := Nat.pos_of_ne_zero hfree
    refine hs.caller_moves ?_ (count_eq_zero hpos (by decide))
    rintro hnil
    have hheld := hs.locks.caller
    rw [hnil] at hheld
    have hzero : held [] = 0 := rfl
    omega

/-- A setter waits for a frame that has taken the mutex. -/
theorem led_tasks_wait_breath : ∃ s, run step init (breathThenColor.take 8 ++
      [.call (.setColor 1 2 3)]) = some s ∧ step s .caller = none ∧
    ∀ i, ∃ t, step s (.frame i) = some t := by
  have hview : (run step init (breathThenColor.take 8 ++ [.call (.setColor 1 2 3)])).map
      (fun s => (step s .caller).isNone) = some true := by
    decide
  obtain ⟨s, hrun, hnone⟩ := Option.map_eq_some_iff.1 hview
  have hblocked := Option.isNone_iff_eq_none.1 hnone
  refine ⟨s, hrun, hblocked, ?_⟩
  rcases (led_tasks_wait (Reaches.of_run hrun)).1 with hmoves | ⟨t, ht⟩
  · exact hmoves
  · rw [hblocked] at ht
    cases ht

end Waiting

end Led

end SimiboxDownloader
