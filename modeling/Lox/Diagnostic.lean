import Lox.Evaluation.Machine
import Lox.Parser
import Lox.Token.Scan

namespace Lox

inductive Diagnostic where
  | lex (error : LexError)
  | parse (error : ParseError)
  | resolve (error : ResolveError)
  | runtime (error : RuntimeError)
  | sinkClosed
deriving DecidableEq, Repr

namespace Diagnostic

def kind : Diagnostic → String
  | lex _ => "lex"
  | parse _ => "parse"
  | resolve _ => "resolve"
  | runtime _ => "runtime"
  | sinkClosed => "io"

def line : Diagnostic → Nat
  | lex error => error.line
  | parse error => error.token.line
  | resolve error => error.token.line
  | runtime error => error.token.line
  | sinkClosed => 0

def location : Diagnostic → String
  | lex _ => ""
  | parse error => error.token.place
  | resolve error => error.token.place
  | runtime error => error.token.place
  | sinkClosed => ""

def message : Diagnostic → String
  | lex error => error.cause.message
  | parse error => error.cause.message
  | resolve error => error.cause.message
  | runtime error => error.cause.message
  | sinkClosed => "sink closed"

/-- Errors found before a program starts show their place, later ones only the line. -/
def display : Diagnostic → String
  | sinkClosed => sinkClosed.message
  | runtime error =>
    (runtime error).message ++ "\n[line " ++ toString (runtime error).line ++ "]"
  | error =>
    "[line " ++ toString error.line ++ "] Error" ++ error.location ++ ": " ++ error.message

end Diagnostic

end Lox
