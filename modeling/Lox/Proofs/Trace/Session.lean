import Lox.Proofs.Session.Accepted
import Lox.Proofs.Trace.Evaluation

namespace Lox

variable {σ τ α : Type}

def Outcome.ofResult : EStateM.Result Stop σ α → Outcome α
  | .ok result _ => .finished result
  | .error reason _ => .ofStop reason

theorem Outcome.ofResult_onState (f : σ → τ) (result : EStateM.Result Stop σ α) :
    ofResult (onState f result) = ofResult result := by
  cases result <;> rfl

theorem Session.perform_eq (session : Session) (nextId : Nat) (action : Run α) :
    session.perform nextId action =
      (.ofResult (action session.machine), ⟨nextId, lastState (action session.machine)⟩) := by
  simp only [perform, Outcome.ofRun]
  cases action session.machine <;> rfl

namespace Traced

structure Recorded where
  outcome : Outcome Unit
  session : Session
  trace : List Event

/-- Runs a text and records what it does, with the same static checks as any session. -/
def record (fuel : Nat) (source : String) (session : Session) : Recorded :=
  let nextId := nextIdOf source session.nextId
  if (staticErrors source session.nextId).isEmpty then
    let result := interpret fuel (statementsOf source session.nextId)
      (localsOf source session.nextId) ⟨session.machine, []⟩
    ⟨.ofResult result, ⟨nextId, (lastState result).machine⟩, (lastState result).log⟩
  else ⟨.rejected (staticErrors source session.nextId), { session with nextId := nextId }, []⟩

/-- Recording changes nothing. -/
theorem record_eq (fuel : Nat) (source : String) (session : Session) :
    ((record fuel source session).outcome, (record fuel source session).session) =
      session.run fuel source := by
  rw [session.run_eq, record]
  split
  · have same := (interpret_forgets fuel (statementsOf source session.nextId)
      (localsOf source session.nextId) ⟨session.machine, []⟩).1
    rw [Session.perform_eq, ← same, Outcome.ofResult_onState, lastState_onState]
  · rfl

theorem record_of_isAccepted {session : Session} {source : String}
    (h : IsAccepted source session.nextId) (fuel : Nat) :
    record fuel source session =
      let result := interpret fuel (statementsOf source session.nextId)
        (localsOf source session.nextId) ⟨session.machine, []⟩
      ⟨.ofResult result, ⟨nextIdOf source session.nextId, (lastState result).machine⟩,
        (lastState result).log⟩ := by
  rw [record, if_pos (staticErrors_isEmpty.mpr h)]

theorem record_of_not_isAccepted {session : Session} {source : String}
    (h : ¬IsAccepted source session.nextId) (fuel : Nat) :
    record fuel source session = ⟨.rejected (staticErrors source session.nextId),
      { session with nextId := nextIdOf source session.nextId }, []⟩ := by
  rw [record, if_neg (mt staticErrors_isEmpty.mp h)]

def recordAll (session : Session) : List (Nat × String) → List Event
  | [] => []
  | (fuel, source) :: rest =>
    (record fuel source session).trace ++ recordAll (session.run fuel source).2 rest

end Traced

end Lox
