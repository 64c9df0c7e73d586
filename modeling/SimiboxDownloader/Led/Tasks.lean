import SimiboxDownloader.Library.RecursiveMutex
import SimiboxDownloader.Library.Transition
import Mathlib.Logic.Function.Basic

/-!
# The LED: the setters and the animation task

One task calls the setters of `simibox_led_idf.c`, `led_task` draws the frames of the
pattern that is on. They share `led_state` and the LEDC registers, and the recursive
mutex `s_ledc_mutex` guards the registers. Every store to `led_state`, every call of the
LEDC driver and every take and give of the mutex is a step of its own.

A setter is the list of its statements (`Stmt`), a frame branches on what it reads
(`FramePc`). The colors a frame computes in floats, with `hue`, are inputs of its steps.
-/

namespace SimiboxDownloader

namespace Led

open RecursiveMutex

/-- `led_pattern_t` -/
inductive Pattern
  | none
  | wifiConnecting
  | downloading
  | downloadRainbow
  | success
  | error
  | retry
  | progress
  deriving DecidableEq

inductive Channel
  | r
  | g
  | b
  deriving DecidableEq

/-- The two tasks: the one that calls the setters and `led_task`. -/
inductive Task
  | caller
  | frame
  deriving DecidableEq

/-- `LEDC_MAX_DUTY` -/
def ledcMaxDuty : UInt16 := 4095

/-- The duty registers, and the duties in effect, which `ledc_update_duty` takes from
them. -/
structure Regs where
  duty : Channel → UInt16
  output : Channel → UInt16

/-- The statements that touch what the tasks share. -/
inductive Stmt
  /-- `led_state.pattern = ..` -/
  | storePattern (p : Pattern)
  /-- `led_state.progress_percent = ..` -/
  | storePercent (percent : UInt8)
  /-- `led_state.blink_state = ..` -/
  | storeBlink (on : Bool)
  /-- `xSemaphoreTakeRecursive` -/
  | take
  /-- `xSemaphoreGiveRecursive` -/
  | give
  /-- `ledc_set_duty` -/
  | setDuty (c : Channel) (v : UInt16)
  /-- `ledc_update_duty` -/
  | updateDuty (c : Channel)
  deriving DecidableEq

/-- The clamp at the beginning of `led_set_color`. -/
def clamp (v : UInt16) : UInt16 := if ledcMaxDuty < v then ledcMaxDuty else v

/-- The six register writes of `led_set_color`. -/
def registerWrites (r g b : UInt16) : List Stmt :=
  [.setDuty .r (clamp r), .setDuty .g (clamp g), .setDuty .b (clamp b),
    .updateDuty .r, .updateDuty .g, .updateDuty .b]

def ledSetColor (r g b : UInt16) : List Stmt :=
  .take :: (registerWrites r g b ++ [.give])

def ledShowSolid (r g b : UInt16) : List Stmt :=
  .take :: .storePattern .none :: (ledSetColor r g b ++ [.give])

def ledShowWifiConnecting : List Stmt := [.storePattern .wifiConnecting]

def ledShowDownloading : List Stmt := [.storePattern .downloading]

def ledShowDownloadProgress (percent : UInt8) : List Stmt :=
  [.storePattern .downloadRainbow, .storePercent (if 100 < percent then 100 else percent)]

def ledShowSuccess : List Stmt := .storePattern .success :: ledSetColor 0 ledcMaxDuty 0

def ledShowError : List Stmt := [.storePattern .error, .storeBlink false]

def ledShowRetry : List Stmt := [.storePattern .retry, .storeBlink false]

def ledShowProgress (percent : UInt8) : List Stmt :=
  .storePattern .progress :: .storePercent percent ::
    if 100 ≤ percent then ledSetColor 0 ledcMaxDuty 0 ++ [.storePattern .success] else []

/-- A call of a function of the LED. -/
inductive Setter
  | setColor (r g b : UInt16)
  | showSolid (r g b : UInt16)
  | showWifiConnecting
  | showDownloading
  | showDownloadProgress (percent : UInt8)
  | showSuccess
  | showError
  | showRetry
  | showProgress (percent : UInt8)
  deriving DecidableEq

def Setter.code : Setter → List Stmt
  | .setColor r g b => ledSetColor r g b
  | .showSolid r g b => ledShowSolid r g b
  | .showWifiConnecting => ledShowWifiConnecting
  | .showDownloading => ledShowDownloading
  | .showDownloadProgress percent => ledShowDownloadProgress percent
  | .showSuccess => ledShowSuccess
  | .showError => ledShowError
  | .showRetry => ledShowRetry
  | .showProgress percent => ledShowProgress percent

/-- Where `led_task` stands in `led_animate_step`. -/
inductive FramePc
  /-- `vTaskDelayUntil`, and then the read of the tick count into `now` -/
  | delay
  /-- `elapsed = now - led_state.last_update` -/
  | readLastUpdate
  /-- `xSemaphoreTakeRecursive` -/
  | take
  /-- `switch (led_state.pattern)` and the test of `elapsed` in the case it leads to -/
  | switch
  /-- `led_state.last_update = now;` in the case of the pattern -/
  | storeLastUpdate (p : Pattern)
  /-- the color computed in floats in the case of the pattern -/
  | color (p : Pattern)
  /-- the read in `led_state.blink_state = !led_state.blink_state;` -/
  | readBlink
  /-- the store in it -/
  | storeBlink (on : Bool)
  /-- `led_state.blink_state ? LEDC_MAX_DUTY : 0` -/
  | blink
  /-- `if (led_state.progress_percent < 25)` -/
  | below25 (duty : UInt16)
  /-- `else if (led_state.progress_percent < 50)` -/
  | below50 (duty : UInt16)
  /-- `else if (led_state.progress_percent < 75)` -/
  | below75 (duty : UInt16)
  /-- the statements that are left of the frame -/
  | code (rest : List Stmt)
  deriving DecidableEq

/-- What a step of a frame gets from outside: the tick count in milliseconds, and what
the computations in floats come to. -/
structure FrameInput where
  now : UInt32
  duty : UInt16
  r : UInt16
  g : UInt16
  b : UInt16

/-- `led_state` without `hue`, the registers, the mutex and the two tasks. `code` is what
is left of the setter that is being called. -/
structure State where
  pattern : Pattern
  lastUpdate : UInt32
  progressPercent : UInt8
  blinkState : Bool
  regs : Regs
  mutex : Mutex Task
  code : List Stmt
  frame : FramePc
  now : UInt32
  elapsed : UInt32

def Regs.setDuty (regs : Regs) (c : Channel) (v : UInt16) : Regs :=
  { regs with duty := Function.update regs.duty c v }

def Regs.updateDuty (regs : Regs) (c : Channel) : Regs :=
  { regs with output := Function.update regs.output c (regs.duty c) }

/-- A statement of the task `t`; `none` when it has to wait. -/
def exec (t : Task) (s : State) : Stmt → Option State
  | .storePattern p => some { s with pattern := p }
  | .storePercent percent => some { s with progressPercent := percent }
  | .storeBlink on => some { s with blinkState := on }
  | .take => (take s.mutex t).map fun m => { s with mutex := m }
  | .give => (give s.mutex t).map fun m => { s with mutex := m }
  | .setDuty c v => some { s with regs := s.regs.setDuty c v }
  | .updateDuty c => some { s with regs := s.regs.updateDuty c }

/-- The milliseconds between two steps of the animation, for the patterns that have
one. -/
def Pattern.period : Pattern → Option UInt32
  | .wifiConnecting => some 20
  | .downloading => some 20
  | .downloadRainbow => some 10
  | .progress => some 30
  | .error => some 300
  | .retry => some 100
  | .success => Option.none
  | .none => Option.none

/-- The frame goes on to paint its color. -/
def State.paint (s : State) (r g b : UInt16) : State :=
  { s with frame := .code (ledSetColor r g b ++ [.give]) }

/-- One statement of a frame. -/
def frameStep (s : State) (i : FrameInput) : Option State :=
  match s.frame with
  | .delay => some { s with now := i.now, frame := .readLastUpdate }
  | .readLastUpdate => some { s with elapsed := s.now - s.lastUpdate, frame := .take }
  | .take => (exec .frame s .take).map fun t => { t with frame := .switch }
  | .switch =>
      if s.pattern.period.any (· ≤ s.elapsed) then
        some { s with frame := .storeLastUpdate s.pattern }
      else some { s with frame := .code [.give] }
  | .storeLastUpdate p =>
      if p = .error ∨ p = .retry then some { s with lastUpdate := s.now, frame := .readBlink }
      else some { s with lastUpdate := s.now, frame := .color p }
  | .color p =>
      match p with
      | .wifiConnecting => some (s.paint i.duty 0 i.duty)
      | .progress => some { s with frame := .below25 i.duty }
      | _ => some (s.paint i.r i.g i.b)
  | .readBlink => some { s with frame := .storeBlink (!s.blinkState) }
  | .storeBlink on => some { s with blinkState := on, frame := .blink }
  | .blink => some (s.paint (if s.blinkState then ledcMaxDuty else 0) 0 0)
  | .below25 duty =>
      if s.progressPercent < 25 then some (s.paint duty 0 0)
      else some { s with frame := .below50 duty }
  | .below50 duty =>
      if s.progressPercent < 50 then some (s.paint duty (duty / 2) 0)
      else some { s with frame := .below75 duty }
  | .below75 duty =>
      if s.progressPercent < 75 then some (s.paint duty duty 0)
      else some (s.paint 0 duty 0)
  | .code [] => some { s with frame := .delay }
  | .code (x :: rest) => (exec .frame s x).map fun t => { t with frame := .code rest }

/-- A step of the system. -/
inductive Act
  /-- the calling task calls a setter -/
  | call (setter : Setter)
  /-- its next statement -/
  | caller
  | frame (input : FrameInput)

def step (s : State) : Act → Option State
  | .call setter => if s.code = [] then some { s with code := setter.code } else none
  | .caller =>
      match s.code with
      | [] => none
      | x :: rest => (exec .caller s x).map fun t => { t with code := rest }
  | .frame i => frameStep s i

/-- After `led_init`. -/
def init : State where
  pattern := .none
  lastUpdate := 0
  progressPercent := 0
  blinkState := false
  regs := ⟨fun _ => 0, fun _ => 0⟩
  mutex := none
  code := []
  frame := .delay
  now := 0
  elapsed := 0

end Led

end SimiboxDownloader
