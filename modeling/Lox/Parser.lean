import Lox.Syntax

namespace Lox

inductive FunctionKind where
  | function
  | method
deriving DecidableEq, Repr

def FunctionKind.name : FunctionKind → String
  | function => "function"
  | method => "method"

namespace ParseError

inductive Cause where
  | expression
  | endOfExpression
  | className
  | superclassName
  | classOpening
  | classClosing
  | functionName (kind : FunctionKind)
  | paramsOpening (kind : FunctionKind)
  | paramName
  | paramsClosing
  | bodyOpening (kind : FunctionKind)
  | variableName
  | variableEnd
  | forOpening
  | forConditionEnd
  | forClosing
  | ifOpening
  | ifClosing
  | whileOpening
  | whileClosing
  | printEnd
  | returnEnd
  | expressionEnd
  | blockClosing
  | groupClosing
  | argumentsClosing
  | propertyName
  | superDot
  | superMethodName
  | tooManyParams
  | tooManyArguments
  | assignmentTarget
deriving DecidableEq, Repr

def Cause.message : Cause → String
  | expression => "Expect expression."
  | endOfExpression => "Expect end of expression."
  | className => "Expect class name."
  | superclassName => "Expect superclass name."
  | classOpening => "Expect '\x7b' before class body."
  | classClosing => "Expect '\x7d' after class body."
  | functionName kind => "Expect " ++ kind.name ++ " name."
  | paramsOpening kind => "Expect '(' after " ++ kind.name ++ " name."
  | paramName => "Expect parameter name."
  | paramsClosing => "Expect ')' after parameters."
  | bodyOpening kind => "Expect '\x7b' before " ++ kind.name ++ " body."
  | variableName => "Expect variable name."
  | variableEnd => "Expect ';' after variable declaration."
  | forOpening => "Expect '(' after 'for'."
  | forConditionEnd => "Expect ';' after loop condition."
  | forClosing => "Expect ')' after for clauses."
  | ifOpening => "Expect '(' after 'if'."
  | ifClosing => "Expect ')' after if condition."
  | whileOpening => "Expect '(' after 'while'."
  | whileClosing => "Expect ')' after condition."
  | printEnd => "Expect ';' after value."
  | returnEnd => "Expect ';' after return value."
  | expressionEnd => "Expect ';' after expression."
  | blockClosing => "Expect '\x7d' after block."
  | groupClosing => "Expect ')' after expression."
  | argumentsClosing => "Expect ')' after arguments."
  | propertyName => "Expect property name after '.'."
  | superDot => "Expect '.' after 'super'."
  | superMethodName => "Expect superclass method name."
  | tooManyParams => "Can't have more than 255 parameters."
  | tooManyArguments => "Can't have more than 255 arguments."
  | assignmentTarget => "Invalid assignment target."

end ParseError

structure ParseError where
  cause : ParseError.Cause
  token : Token
deriving DecidableEq, Repr

namespace Parser

/-- `last` is the token to blame when nothing is left to read. -/
structure State where
  rest : List Token
  last : Token
  nextId : Nat
  errors : List ParseError

/-- Reading ends at the first token for the end of the input, or at the end of the list. -/
def State.ofTokens (tokens : List Token) (firstId : Nat) : State :=
  let isEnd := fun (token : Token) => token.kind == .endOfInput
  let last := match tokens.find? isEnd with
    | some token => token
    | none => tokens.getLast?.getD ⟨.endOfInput, "", 1⟩
  ⟨tokens.takeWhile fun token => !isEnd token, last, firstId, []⟩

def State.blamed (s : State) : Token := s.rest.headD s.last

def State.record (error : ParseError) (s : State) : State := { s with errors := s.errors ++ [error] }

end Parser

abbrev Parser := EStateM ParseError Parser.State

namespace Parser

variable {α : Type}

def next? : Parser (Option Token) := fun s => .ok s.rest.head? s

/-- The tokens still to be read, which serve as fuel: every round of a rule reads at least one. -/
def remaining : Parser (List Token) := fun s => .ok s.rest s

def skip : Parser Unit := fun s => .ok () { s with rest := s.rest.tail }

def fail (cause : ParseError.Cause) : Parser α := fun s => .error ⟨cause, s.blamed⟩ s

/-- An error that does not confuse the parser is recorded, and reading goes on. -/
def report (cause : ParseError.Cause) (token : Token) : Parser Unit := fun s =>
  .ok () (s.record ⟨cause, token⟩)

def reportHere (cause : ParseError.Cause) : Parser Unit := fun s =>
  .ok () (s.record ⟨cause, s.blamed⟩)

def freshId : Parser Nat := fun s => .ok s.nextId { s with nextId := s.nextId + 1 }

def takeIf (p : Kind → Bool) : Parser (Option Token) := fun s =>
  match s.rest with
  | [] => .ok none s
  | token :: rest => if p token.kind then .ok (some token) { s with rest := rest } else .ok none s

def takeWhile (p : Kind → Bool) : Parser (List Token) := fun s =>
  .ok (s.rest.takeWhile fun token => p token.kind)
    { s with rest := s.rest.dropWhile fun token => p token.kind }

def accept (symbol : Symbol) : Parser (Option Token) := takeIf (· == .symbol symbol)

def accepts (symbol : Symbol) : Parser Bool := do return (← accept symbol).isSome

def isAt (symbol : Symbol) : Parser Bool := do
  return (← next?).any fun token => token.kind == .symbol symbol

def expectIf (p : Kind → Bool) (cause : ParseError.Cause) : Parser Token := do
  match ← takeIf p with
  | some token => pure token
  | none => fail cause

def expect (symbol : Symbol) (cause : ParseError.Cause) : Parser Token :=
  expectIf (· == .symbol symbol) cause

def expectName (cause : ParseError.Cause) : Parser Token := expectIf (· == .identifier) cause

def maxEntries : Nat := 255

def moreEntries (entry : Parser α) (overflow : ParseError.Cause) :
    List Token → Nat → Parser (List α)
  | [], _ => pure []
  | _ :: fuel, count => do
    if ← accepts .comma then
      if maxEntries ≤ count then reportHere overflow
      let first ← entry
      let others ← moreEntries entry overflow fuel (count + 1)
      pure (first :: others)
    else pure []

def entries (entry : Parser α) (overflow : ParseError.Cause) : Parser (List α) := do
  if ← isAt .rightParen then pure []
  else
    let first ← entry
    let others ← moreEntries entry overflow (← remaining) 1
    pure (first :: others)

end Parser

end Lox
