import Lox.Proofs.Evaluation.Congruence
import Lox.Proofs.Session.Alike
import Lox.Proofs.Trace.Session

namespace Lox

/-- What a session may be asked to do. -/
inductive Session.Step where
  | run (fuel : Nat) (source : String)
  | evaluate (fuel : Nat) (source : String)

namespace Session

def take (session : Session) : Step → Session
  | .run fuel source => (session.run fuel source).2
  | .evaluate fuel source => (session.evaluate fuel source).2

/-- The session behind all the steps, however each of them ended. -/
def after (session : Session) (steps : List Step) : Session := steps.foldl take session

structure IsOpen (session : Session) : Prop where
  fresh : session.IsFresh
  limit : session.machine.sink.limit = none

namespace IsOpen

variable {session : Session}

theorem initial (clock : Clock) : (Session.initial clock none).IsOpen :=
  ⟨fun _ _ => Std.TreeMap.getElem?_emptyc, rfl⟩

theorem skip (h : session.IsOpen) {nextId : Nat} (later : session.nextId ≤ nextId) :
    IsOpen { session with nextId := nextId } :=
  ⟨fun id new => h.fresh id (Nat.le_trans later new), h.limit⟩

theorem perform {α : Type} (h : session.IsOpen) {nextId : Nat} (later : session.nextId ≤ nextId)
    {action : Run α} (steady : action.IsSteady) : (session.perform nextId action).2.IsOpen := by
  rw [perform_eq]
  refine ⟨fun id new => ?_, (steady.limit session.machine).trans h.limit⟩
  have kept := steady.locals session.machine
  exact (congrArg (·[id]?) kept).trans (h.fresh id (Nat.le_trans later new))

theorem run (h : session.IsOpen) (fuel : Nat) (source : String) :
    (session.run fuel source).2.IsOpen := by
  by_cases accepted : IsAccepted source session.nextId
  · rw [run_eq_proceed fuel accepted]
    have learned : (session.learn source).IsOpen := ⟨h.fresh.learn accepted, h.limit⟩
    exact learned.perform (Nat.le_refl _) (Run.isSteady_program fuel _)
  · rw [run_eq_skip fuel accepted]
    exact h.skip (ordered source session)

theorem evaluate (h : session.IsOpen) (fuel : Nat) (source : String) :
    (session.evaluate fuel source).2.IsOpen := by
  have later := (parseExpression_fresh (tokensOf (scan source)) session.nextId).1
  rw [Session.evaluate_eq]
  split
  · split
    · exact h.perform later (Run.isSteady_evaluate fuel _ globals)
    · exact h.skip later
  · exact h

theorem take (h : session.IsOpen) (step : Step) : (session.take step).IsOpen := by
  cases step with
  | run fuel source => exact h.run fuel source
  | evaluate fuel source => exact h.evaluate fuel source

theorem after (h : session.IsOpen) (steps : List Step) : (session.after steps).IsOpen := by
  induction steps generalizing session with
  | nil => exact h
  | cons step rest ih => exact ih (h.take step)

end IsOpen

/-- A session that started afresh, on a sink that accepts everything, and took any steps. -/
def IsReachable (session : Session) : Prop :=
  ∃ clock steps, session = (Session.initial clock none).after steps

theorem IsReachable.isOpen {session : Session} (h : session.IsReachable) : session.IsOpen := by
  obtain ⟨clock, steps, rfl⟩ := h
  exact (IsOpen.initial clock).after steps

end Session

end Lox
