import Lox.Parser.Expression

namespace Lox

namespace Parser

def startsStatement : Kind → Bool :=
  isOneOf [.classWord, .funWord, .varWord, .forWord, .ifWord, .whileWord, .printWord, .returnWord]

/-- What is left from the next place where a statement may begin: behind a semicolon, or before
a word that starts one. -/
def resume (previous : Token) : List Token → List Token
  | [] => []
  | token :: rest =>
    if previous.kind == .symbol .semicolon || startsStatement token.kind then token :: rest
    else resume token rest

/-- Recovery always skips a token, if there is one. -/
def synchronize (s : State) : State :=
  match s.rest with
  | [] => s
  | token :: rest => { s with rest := resume token rest }

/-- A declaration does not fail: its error is recorded, and reading goes on behind it. -/
def recover (rule : Parser Stmt) : StateM State (Option Stmt) := fun s =>
  match rule s with
  | .ok statement s => (some statement, s)
  | .error error s => (none, synchronize (s.record error))

/-- Declarations up to a closing token, which is left in place, or to the end. -/
def declarations (closes : Kind → Bool) (declaration : StateM State (Option Stmt)) :
    List Token → StateM State (List Stmt)
  | [], s => ([], s)
  | _ :: fuel, s =>
    match s.rest with
    | [] => ([], s)
    | token :: _ =>
      if closes token.kind then ([], s)
      else
        let (statement, s) := declaration s
        let (others, s) := declarations closes declaration fuel s
        (statement.toList ++ others, s)

def block (declaration : StateM State (Option Stmt)) : Parser (List Stmt) := fun s =>
  let (statements, s) := declarations (· == .symbol .rightBrace) declaration s.rest s
  (do let _ ← expect .rightBrace .blockClosing; pure statements : Parser (List Stmt)) s

def functionRule (kind : FunctionKind) (body : Parser (List Stmt)) : Parser FunctionDecl := do
  let name ← expectName (.functionName kind)
  let _ ← expect .leftParen (.paramsOpening kind)
  let params ← entries (expectName .paramName) .tooManyParams
  let _ ← expect .rightParen .paramsClosing
  let _ ← expect .leftBrace (.bodyOpening kind)
  let statements ← body
  pure ⟨name, params, statements⟩

def methods (body : Parser (List Stmt)) : List Token → Parser (List FunctionDecl)
  | [] => pure []
  | _ :: fuel => do
    match ← next? with
    | none => pure []
    | some token =>
      if token.kind == .symbol .rightBrace then pure []
      else
        let first ← functionRule .method body
        let others ← methods body fuel
        pure (first :: others)

def superclassClause : Parser (Option Expr) := do
  if ← accepts .less then
    let name ← expectName .superclassName
    pure (some (.var (← freshId) name))
  else pure none

def classRule (body : Parser (List Stmt)) : Parser Stmt := do
  let name ← expectName .className
  let superclass ← superclassClause
  let _ ← expect .leftBrace .classOpening
  let members ← methods body (← remaining)
  let _ ← expect .rightBrace .classClosing
  pure (.classDecl name superclass members)

def varRule : Parser Stmt := do
  let name ← expectName .variableName
  let initializer ← if ← accepts .equal then some <$> expression else pure none
  let _ ← expect .semicolon .variableEnd
  pure (.var name initializer)

def expressionRule : Parser Stmt := do
  let value ← expression
  let _ ← expect .semicolon .expressionEnd
  pure (.expression value)

def expressionUnlessAt (symbol : Symbol) : Parser (Option Expr) := do
  if ← isAt symbol then pure none else some <$> expression

def forInitializer : Parser (Option Stmt) := do
  if ← accepts .semicolon then pure none
  else if ← accepts .varWord then some <$> varRule
  else some <$> expressionRule

def forRule (statement : Parser Stmt) : Parser Stmt := do
  let _ ← expect .leftParen .forOpening
  let initializer ← forInitializer
  let condition ← expressionUnlessAt .semicolon
  let _ ← expect .semicolon .forConditionEnd
  let increment ← expressionUnlessAt .rightParen
  let _ ← expect .rightParen .forClosing
  let body ← statement
  pure (.forLoop initializer condition increment body)

def ifRule (statement : Parser Stmt) : Parser Stmt := do
  let _ ← expect .leftParen .ifOpening
  let condition ← expression
  let _ ← expect .rightParen .ifClosing
  let thenBranch ← statement
  let elseBranch ← if ← accepts .elseWord then some <$> statement else pure none
  pure (.branch condition thenBranch elseBranch)

def printRule : Parser Stmt := do
  let value ← expression
  let _ ← expect .semicolon .printEnd
  pure (.print value)

def returnRule (keyword : Token) : Parser Stmt := do
  let value ← expressionUnlessAt .semicolon
  let _ ← expect .semicolon .returnEnd
  pure (.ret keyword value)

def whileRule (statement : Parser Stmt) : Parser Stmt := do
  let _ ← expect .leftParen .whileOpening
  let condition ← expression
  let _ ← expect .rightParen .whileClosing
  let body ← statement
  pure (.loop condition body)

def statementRule (statement : Parser Stmt) (body : Parser (List Stmt)) : Parser Stmt := do
  match ← takeIf (isOneOf [.forWord, .ifWord, .printWord, .returnWord, .whileWord, .leftBrace]) with
  | none => expressionRule
  | some token =>
    match token.kind with
    | .symbol .forWord => forRule statement
    | .symbol .ifWord => ifRule statement
    | .symbol .printWord => printRule
    | .symbol .returnWord => returnRule token
    | .symbol .whileWord => whileRule statement
    | _ => .block <$> body

def declarationRule (statement : Parser Stmt) (body : Parser (List Stmt)) : Parser Stmt := do
  match ← takeIf (isOneOf [.classWord, .funWord, .varWord]) with
  | none => statement
  | some token =>
    match token.kind with
    | .symbol .classWord => classRule body
    | .symbol .funWord => .function <$> functionRule .function body
    | _ => varRule

mutual

def statementAt : List Token → Parser Stmt
  | [], s => fail .expression s
  | _ :: fuel, s => statementRule (statementAt fuel) (block (declarationAt fuel)) s

def declarationAt : List Token → StateM State (Option Stmt)
  | [], s => recover (fail .expression) s
  | _ :: fuel, s =>
    let body := block (declarationAt fuel)
    recover (declarationRule (statementRule (statementAt fuel) body) body) s

end

def declaration : StateM State (Option Stmt) := fun s => declarationAt s.rest s

end Parser

structure Parsed where
  statements : List Stmt
  errors : List ParseError
  nextId : Nat

def parse (tokens : List Token) (firstId : Nat) : Parsed :=
  let start := Parser.State.ofTokens tokens firstId
  let (statements, s) :=
    Parser.declarations (fun _ => false) Parser.declaration start.rest start
  ⟨statements, s.errors, s.nextId⟩

structure ParsedExpression where
  result : Except (List ParseError) Expr
  nextId : Nat

namespace Parser

def wholeExpression : Parser Expr := do
  let e ← expression
  if (← next?).isSome then fail .endOfExpression else pure e

end Parser

/-- The one expression of which the tokens consist, if there was no error at all. -/
def parseExpression (tokens : List Token) (firstId : Nat) : ParsedExpression :=
  match Parser.wholeExpression (.ofTokens tokens firstId) with
  | .ok e s => ⟨if s.errors.isEmpty then .ok e else .error s.errors, s.nextId⟩
  | .error error s => ⟨.error (s.errors ++ [error]), s.nextId⟩

end Lox
