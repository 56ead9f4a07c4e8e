import Lox.FileTree
import Lox.Session
import Lox.Syntax.Encoding
import Lox.Syntax.Text
import Lox.Text.Blank
import Lox.Text.Lines
import Lox.Text.Quoted

namespace Lox

inductive Task where
  | tokenize
  | parse (json : Bool)
  | evaluate
  | run
deriving DecidableEq, Repr

inductive Command where
  | file (task : Task) (path : Option String)
  | interactive
deriving DecidableEq, Repr

structure Reply where
  exitCode : Nat
  output : String
  errors : String
deriving DecidableEq, Repr

/-- Nesting and looping without a practical bound. -/
def ampleFuel : Nat := Nat.pow 2 62

/-- How a session goes on with a program or a single expression. -/
structure Engine (m : Type → Type) where
  run : String → Session → m (Outcome Unit × Session)
  evaluate : String → Session → m (Outcome Value × Session)

def Engine.plain : Engine Id := ⟨Session.run ampleFuel, Session.evaluate ampleFuel⟩

namespace CommandLine

def lines (texts : List String) : String := String.join (texts.map (· ++ "\n"))

def reports (errors : List Diagnostic) : String := lines (errors.map Diagnostic.display)

def fileFailure (path : String) (error : FileError) : Reply :=
  { exitCode := 1
    output := ""
    errors := "Error: Failed to " ++ error.action ++ " file " ++ quote path ++
      "\n\nCaused by:\n    " ++ error.reason ++ "\n" }

def noFile : Reply := ⟨0, "No input filepath was provided. Exiting...\n", ""⟩

def tokenize (source : ByteArray) : Reply :=
  let items := scanBytes source
  let errors := lexErrorsOf items
  { exitCode := if errors.isEmpty then 0 else 65
    output := lines ((tokensOf items).map Token.describe)
    errors := reports (errors.map .lex) }

def parse (json : Bool) (source : String) : Reply :=
  let items := scan source
  let parsed := Lox.parse (tokensOf items) 0
  let errors := (lexErrorsOf items).map .lex ++ parsed.errors.map .parse
  if !errors.isEmpty then ⟨65, "", reports errors⟩
  else if json then
    ⟨0, lines [(Json.array (Stmt.listToJson parsed.statements)).pretty], ""⟩
  else ⟨0, lines (parsed.statements.map Stmt.display), ""⟩

def reply {α : Type} (textOf : α → String) (outcome : Outcome α) (session : Session) : Reply :=
  let result := match outcome with
    | .finished result => textOf result
    | _ => ""
  ⟨outcome.exitCode, session.machine.sink.written ++ result, reports outcome.errors⟩

section Engine

variable {m : Type → Type} [Monad m] (engine : Engine m)

def perform (session : Session) (task : Task) (path : String) (source : ByteArray) : m Reply :=
  match String.fromUTF8? source with
  | none => pure (fileFailure path .invalidText)
  | some text =>
    match task with
    | .tokenize => pure (tokenize source)
    | .parse json => pure (parse json text)
    | .evaluate => do
      let (outcome, session) ← engine.evaluate text session
      pure (reply (fun value => lines [value.display]) outcome session)
    | .run => do
      let (outcome, session) ← engine.run text session
      pure (reply (fun _ => "") outcome session)

def onFile (session : Session) (task : Task) (read : String → m (Except FileError ByteArray)) :
    Option String → m Reply
  | none => pure noFile
  | some path => do
    match ← read path with
    | .error error => pure (fileFailure path error)
    | .ok source => perform engine session task path source

/-- One line of an interactive session: its reply, and the session with its output taken away. -/
def interact (line : String) (session : Session) : m (Reply × Session) := do
  let (outcome, session) ← engine.run line session
  pure (reply (fun _ => "") outcome session, session.withSink none)

end Engine

def prompt : String := "> "

def endsInteraction (line : String) : Bool := isBlank line

def transcript : List String → Session → Reply
  | [], _ => ⟨0, prompt, ""⟩
  | line :: rest, session =>
    if endsInteraction line then ⟨0, prompt, ""⟩
    else
      let (first, session) := (interact .plain line session).run
      let others := transcript rest session
      ⟨0, prompt ++ first.output ++ others.output, first.errors ++ others.errors⟩

def answer (clock : Clock) (read : String → Except FileError ByteArray) (input : String) :
    Command → Reply
  | .file task path => (onFile .plain (.initial clock none) task (fun path => pure (read path)) path).run
  | .interactive => transcript ((splitLines input.toList).map String.ofList) (.initial clock none)

structure Operands where
  log : Bool
  json : Bool
  path : Option String
deriving DecidableEq, Repr

namespace Operands

def empty : Operands := ⟨false, false, none⟩

def withPath? (path : String) (operands : Operands) : Option Operands :=
  if operands.path.isSome || path = "" then none else some { operands with path := some path }

def withOption? (option : String) (operands : Operands) : Option Operands :=
  if option = "--log" && !operands.log then some { operands with log := true }
  else if option = "--json" && !operands.json then some { operands with json := true }
  else none

def readPaths : List String → Operands → Option Operands
  | [], operands => some operands
  | path :: rest, operands => (operands.withPath? path).bind (readPaths rest)

def isOption (argument : String) : Bool := argument.startsWith "-" && argument != "-"

/-- Behind two hyphens nothing is an option. -/
def read : List String → Operands → Option Operands
  | [], operands => some operands
  | argument :: rest, operands =>
    if argument = "--" then readPaths rest operands
    else if isOption argument then (operands.withOption? argument).bind (read rest)
    else (operands.withPath? argument).bind (read rest)

end Operands

def command? (name : String) (operands : Operands) : Option Command :=
  match name with
  | "parse" => some (.file (.parse operands.json) operands.path)
  | "tokenize" => if operands.json then none else some (.file .tokenize operands.path)
  | "evaluate" => if operands.json then none else some (.file .evaluate operands.path)
  | "run" => if operands.json then none else some (.file .run operands.path)
  | "repl" => if operands.json || operands.path.isSome then none else some .interactive
  | _ => none

def readCommand : List String → Option Command
  | [] => none
  | name :: rest => (Operands.empty.read rest).bind (command? name)

/-- The option for logging changes no answer. It may stand before the command as well. -/
def parseArguments : List String → Option Command
  | "--log" :: rest => readCommand rest
  | arguments => readCommand arguments

def usage : Reply :=
  ⟨2, "", "Usage: lox [--log] tokenize|parse [--json]|evaluate|run [FILE], or lox [--log] repl\n"⟩

end CommandLine

end Lox
