import Lox.Proofs.Chronicle.Runs
import Lox.Proofs.Session.Steps

namespace Lox.Chronicle

theorem Keeps.lastState {α : Type} {s : Logged Entry} {x : Logging Entry α}
    {Q : Logged Entry → α → Prop} (h : Keeps s x Q) (sound : Sound s) :
    Sound (Lox.lastState (x s)) := by
  have ends := h sound
  cases result : x s with
  | ok a s' =>
    rw [result] at ends
    exact ends.2.1
  | error reason s' =>
    rw [result] at ends
    exact ends.2

theorem interpret_keeps {s : Logged Entry} (fuel : Nat) {statements : List Stmt}
    (plain : Stmt.AllNamesPlain statements) (locals : Locals) :
    Keeps s (interpret fuel statements locals) fun _ _ => True := by
  have leads : Leads s { s with machine := { s.machine with
      locals := s.machine.locals.merge locals } } :=
    ⟨.refl _, Nat.le_refl _, Nat.le_refl _, List.prefix_refl _⟩
  have learns : Keeps s (Logging.silent (Run.learn locals)) fun _ _ => True :=
    .step rfl leads (fun sound => sound.step leads rfl (fun _ _ _ found => .inl found)
      fun _ _ _ found => .inl found) fun _ => trivial
  exact learns.bind fun _ _ _ _ => program_keeps fuel statements plain

structure Recorded where
  nextId : Nat
  state : Logged Entry

namespace Recorded

def session (r : Recorded) : Session := ⟨r.nextId, r.state.machine⟩

def start (session : Session) : Recorded := ⟨session.nextId, ⟨session.machine, []⟩⟩

def run (fuel : Nat) (source : String) (r : Recorded) : Recorded where
  nextId := nextIdOf source r.nextId
  state :=
    if (staticErrors source r.nextId).isEmpty then
      lastState (interpret fuel (statementsOf source r.nextId) (localsOf source r.nextId) r.state)
    else r.state

def evaluate (fuel : Nat) (source : String) (r : Recorded) : Recorded :=
  match lexErrorsOf (scan source) with
  | [] =>
    let parsed := parseExpression (tokensOf (scan source)) r.nextId
    match parsed.result with
    | .ok e => ⟨parsed.nextId, lastState (Chronicle.evaluate fuel e globals r.state)⟩
    | .error _ => { r with nextId := parsed.nextId }
  | _ => r

def take (r : Recorded) : Session.Step → Recorded
  | .run fuel source => r.run fuel source
  | .evaluate fuel source => r.evaluate fuel source

def after (r : Recorded) (steps : List Session.Step) : Recorded := steps.foldl take r

variable (r : Recorded)

theorem session_run (fuel : Nat) (source : String) :
    (r.run fuel source).session = (r.session.run fuel source).2 := by
  by_cases accepted : IsAccepted source r.nextId
  · rw [Session.run_of_isAccepted fuel accepted, Session.perform_eq, run,
      if_pos (staticErrors_isEmpty.mpr accepted)]
    simp only [session, (interpret_forgets fuel _ _).lastState]
  · rw [Session.run_of_not_isAccepted fuel accepted, run,
      if_neg (mt staticErrors_isEmpty.mp accepted)]
    rfl

theorem session_evaluate (fuel : Nat) (source : String) :
    (r.evaluate fuel source).session = (r.session.evaluate fuel source).2 := by
  simp only [evaluate, Session.evaluate_eq, session]
  cases lexErrorsOf (scan source) with
  | cons error errors => rfl
  | nil =>
    dsimp only
    cases (parseExpression (tokensOf (scan source)) r.nextId).result with
    | ok e => simp only [Session.perform_eq, (evaluate_forgets fuel e globals).lastState]
    | error errors => rfl

theorem session_take (step : Session.Step) : (r.take step).session = r.session.take step := by
  cases step with
  | run fuel source => exact r.session_run fuel source
  | evaluate fuel source => exact r.session_evaluate fuel source

theorem session_after (steps : List Session.Step) :
    (r.after steps).session = r.session.after steps := by
  induction steps generalizing r with
  | nil => rfl
  | cons step rest ih =>
    have behind := ih (r.take step)
    rw [session_take] at behind
    exact behind

def ofSteps (clock : Clock) (limit : Option Nat) (steps : List Session.Step) : Recorded :=
  (start (.initial clock limit)).after steps

theorem session_ofSteps (clock : Clock) (limit : Option Nat) (steps : List Session.Step) :
    (ofSteps clock limit steps).session = (Session.initial clock limit).after steps :=
  (start (.initial clock limit)).session_after steps

end Recorded

def chronicle (clock : Clock) (limit : Option Nat) (steps : List Session.Step) : List Entry :=
  (Recorded.ofSteps clock limit steps).state.log

theorem sound_initial (clock : Clock) (limit : Option Nat) :
    Sound (Recorded.start (.initial clock limit)).state where
  bindings scope name v found := by
    obtain rfl := Machine.binding?_initial found
    trivial
  fields _ _ _ found := by cases found
  computed := nofun
  facts _ _ found := by cases found
  distinct := .nil
  inside := nofun

namespace Sound

variable {r : Recorded}

theorem run (sound : Sound r.state) (fuel : Nat) (source : String) :
    Sound (r.run fuel source).state := by
  rw [Recorded.run]
  split
  next none =>
    have accepted := staticErrors_isEmpty.mp none
    exact (interpret_keeps fuel accepted.namesPlain _).lastState sound
  next => exact sound

theorem evaluate (sound : Sound r.state) (fuel : Nat) (source : String) :
    Sound (r.evaluate fuel source).state := by
  rw [Recorded.evaluate]
  split
  · dsimp only
    split
    next e parsed =>
      exact ((keeps fuel).1 e globals (namesPlain_of_parseExpression parsed) _).lastState sound
    next => exact sound
  · exact sound

theorem take (sound : Sound r.state) (step : Session.Step) : Sound (r.take step).state := by
  cases step with
  | run fuel source => exact sound.run fuel source
  | evaluate fuel source => exact sound.evaluate fuel source

theorem after (sound : Sound r.state) (steps : List Session.Step) :
    Sound (r.after steps).state := by
  induction steps generalizing r with
  | nil => exact sound
  | cons step rest ih => exact ih (sound.take step)

theorem ofSteps (clock : Clock) (limit : Option Nat) (steps : List Session.Step) :
    Sound (Recorded.ofSteps clock limit steps).state :=
  (sound_initial clock limit).after steps

end Sound

end Lox.Chronicle
