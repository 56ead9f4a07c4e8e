import Lox.Parser

namespace Lox.Parser

def isOneOf (symbols : List Symbol) (kind : Kind) : Bool :=
  symbols.any fun symbol => kind == .symbol symbol

/-- Operands and operators that follow a first operand, grouped to the left. -/
def chain (node : Expr → Token → Expr → Expr) (operators : List Symbol) (operand : Parser Expr) :
    List Token → Expr → Parser Expr
  | [], left => pure left
  | _ :: fuel, left => do
    match ← takeIf (isOneOf operators) with
    | some operator =>
      let right ← operand
      chain node operators operand fuel (node left operator right)
    | none => pure left

def leftAssociative (node : Expr → Token → Expr → Expr) (operators : List Symbol)
    (operand : Parser Expr) : Parser Expr := do
  let first ← operand
  chain node operators operand (← remaining) first

def primary (nested : Parser Expr) : Parser Expr := do
  match ← next? with
  | none => fail .expression
  | some token =>
    match token.kind with
    | .symbol .falseWord => do skip; pure (.literal (.bool false))
    | .symbol .trueWord => do skip; pure (.literal (.bool true))
    | .symbol .nilWord => do skip; pure (.literal .nil)
    | .number value => do skip; pure (.literal (.number value))
    | .string contents => do skip; pure (.literal (.string contents))
    | .symbol .superWord => do
      skip
      let _ ← expect .dot .superDot
      let method ← expectName .superMethodName
      pure (.super (← freshId) token method)
    | .symbol .thisWord => do
      skip
      pure (.this (← freshId) token)
    | .identifier => do
      skip
      pure (.var (← freshId) token)
    | .symbol .leftParen => do
      skip
      let inner ← nested
      let _ ← expect .rightParen .groupClosing
      pure (.grouping inner)
    | _ => fail .expression

def calls (nested : Parser Expr) : List Token → Expr → Parser Expr
  | [], callee => pure callee
  | _ :: fuel, callee => do
    match ← takeIf (isOneOf [.leftParen, .dot]) with
    | some token =>
      if token.kind == .symbol .dot then
        let name ← expectName .propertyName
        calls nested fuel (.get callee name)
      else
        let arguments ← entries nested .tooManyArguments
        let paren ← expect .rightParen .argumentsClosing
        calls nested fuel (.call callee paren arguments)
    | none => pure callee

def call (nested : Parser Expr) : Parser Expr := do
  let callee ← primary nested
  calls nested (← remaining) callee

def unary (nested : Parser Expr) : Parser Expr := do
  let operators ← takeWhile (isOneOf [.bang, .minus])
  let operand ← call nested
  pure (operators.foldr .unary operand)

def factor (nested : Parser Expr) : Parser Expr :=
  leftAssociative .binary [.slash, .star] (unary nested)

def term (nested : Parser Expr) : Parser Expr :=
  leftAssociative .binary [.minus, .plus] (factor nested)

def comparison (nested : Parser Expr) : Parser Expr :=
  leftAssociative .binary [.greater, .greaterEqual, .less, .lessEqual] (term nested)

def equality (nested : Parser Expr) : Parser Expr :=
  leftAssociative .binary [.bangEqual, .equalEqual] (comparison nested)

def conjunction (nested : Parser Expr) : Parser Expr :=
  leftAssociative .logical [.andWord] (equality nested)

def disjunction (nested : Parser Expr) : Parser Expr :=
  leftAssociative .logical [.orWord] (conjunction nested)

/-- The tree that stores a value in a target. The expression that stood for the target is gone, so
a name takes an id of its own. -/
def assignTo (target : Expr) (equals : Token) (value : Expr) : Parser Expr :=
  match target with
  | .var _ name => do pure (.assign (← freshId) name value)
  | .get object name => pure (.set object name value)
  | other => do
    report .assignmentTarget equals
    pure other

def assignment (nested : Parser Expr) : Parser Expr := do
  let target ← disjunction nested
  match ← accept .equal with
  | some equals =>
    let value ← nested
    assignTo target equals value
  | none => pure target

/-- A nested expression is shorter than the one around it, so as many levels as there are tokens are
enough. -/
def expressionAt : List Token → Parser Expr
  | [], s => fail .expression s
  | _ :: fuel, s => assignment (expressionAt fuel) s

def expression : Parser Expr := do expressionAt (← remaining)

end Lox.Parser
