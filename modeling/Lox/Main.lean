import Lox.CommandLine
import Mathlib.Tactic.DeprecateTo

namespace Lox

/-- Runs on the clock and the output of the system. A run that stops early keeps its machine. -/
abbrev Live := ExceptT Stop (StateT Machine IO)

namespace Live

variable {α : Type}

def step (action : Run α) : Live α := fun machine =>
  match action machine with
  | .ok value machine => pure (.ok value, machine)
  | .error reason machine => pure (.error reason, machine)

/-- The time of the system is read just before a program asks for it. -/
def setClock : Live Unit := do
  let now ← Std.Time.Timestamp.now
  let reading := Clock.sinceEpoch now.toNanosecondsSinceUnixEpoch.val
  modify fun machine => { machine with clock := ⟨fun _ => reading, 0⟩ }

def flush : Live Unit := do
  let output ← IO.getStdout
  match ← (output.putStr (← get).sink.written *> output.flush).toBaseIO with
  | .ok () => modify fun machine => { machine with sink := .fresh none }
  | .error _ => throw .sinkClosed

def around : Activity α → Live α → Live α
  | .clock, action => do
    setClock
    action
  | .printing _, action => do
    action
    flush
  | _, action => action

def runner : Runner Live := ⟨step, around⟩

def perform (session : Session) (nextId : Nat) (action : Live α) : IO (Outcome α × Session) := do
  let (result, machine) ← action session.machine
  match result with
  | .ok value => return (.finished value, ⟨nextId, machine⟩)
  | .error reason => return (.ofStop reason, ⟨nextId, machine⟩)

def run (source : String) (session : Session) : IO (Outcome Unit × Session) :=
  match checkProgram source session.nextId with
  | (.ok (statements, locals), nextId) =>
    perform session nextId (runner.dialect.interpret globals ampleFuel statements locals)
  | (.error errors, nextId) => pure (.rejected errors, { session with nextId := nextId })

def evaluate (source : String) (session : Session) : IO (Outcome Value × Session) :=
  match checkExpression source session.nextId with
  | (.ok e, nextId) => perform session nextId (runner.dialect.evaluate ampleFuel e globals)
  | (.error errors, nextId) => pure (.rejected errors, { session with nextId := nextId })

def engine : Engine IO := ⟨run, evaluate⟩

def session : Session := .initial (.fixed 0) none

end Live

namespace CommandLine

def errorNumber (code : UInt32) : UInt32 := min code (0 - code)

def failure : IO.Error → FileError
  | .noFileOrDirectory .. => .missing
  | .permissionDenied .. => .denied
  | .inappropriateType _ code _ => if errorNumber code = 20 then .notFolder else .folder
  | .invalidArgument _ code details =>
    if errorNumber code = 36 then .nameTooLong else .unreadable details
  | error => .unreadable (toString error)

def readSource (path : String) : IO (Except FileError ByteArray) := do
  try
    return .ok (← IO.FS.readBinFile path)
  catch error =>
    return .error (failure error)

def printReply (reply : Reply) : IO UInt32 := do
  let output ← IO.getStdout
  output.putStr reply.output
  output.flush
  (← IO.getStderr).putStr reply.errors
  return UInt32.ofNat reply.exitCode

partial def converse (input : IO.FS.Stream) (session : Session) : IO UInt32 := do
  let output ← IO.getStdout
  output.putStr prompt
  output.flush
  let line ← input.getLine
  if endsInteraction line then return 0
  let (reply, session) ← interact Live.engine line session
  let _ ← printReply reply
  converse input session

def start (arguments : List String) : IO UInt32 := do
  match parseArguments arguments with
  | none => printReply usage
  | some .interactive => converse (← IO.getStdin) Live.session
  | some (.file task path) => printReply (← onFile Live.engine Live.session task readSource path)

end CommandLine

end Lox

def main (arguments : List String) : IO UInt32 := Lox.CommandLine.start arguments
