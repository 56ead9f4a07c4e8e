import Lox.Proofs.Syntax.WrittenProgram

namespace Lox

def Fits (limit : Option Nat) (length : Nat) : Prop := ∀ most ∈ limit, length ≤ most

variable {limit : Option Nat}

theorem fits_none (length : Nat) : Fits none length := nofun

theorem fits_some {most length : Nat} : Fits (some most) length ↔ length ≤ most := by
  simp [Fits]

namespace Expr

def unaryOperators : List Symbol := [.bang, .minus]

def binaryOperators : List Symbol :=
  [.plus, .minus, .slash, .star, .greater, .greaterEqual, .less, .lessEqual, .bangEqual, .equalEqual]

def logicalOperators : List Symbol := [.andWord, .orWord]

mutual

/-- Operators are ones that can be evaluated, and names are names. -/
def Lawful (limit : Option Nat) : Expr → Prop
  | literal _ | this _ _ => True
  | grouping inner => inner.Lawful limit
  | unary operator operand =>
    Parser.isOneOf unaryOperators operator.kind = true ∧ operand.Lawful limit
  | binary left operator right =>
    Parser.isOneOf binaryOperators operator.kind = true ∧ left.Lawful limit ∧ right.Lawful limit
  | logical left operator right =>
    Parser.isOneOf logicalOperators operator.kind = true ∧ left.Lawful limit ∧ right.Lawful limit
  | var _ name => name.kind = .identifier
  | assign _ name value => name.kind = .identifier ∧ value.Lawful limit
  | call callee _ arguments =>
    Fits limit arguments.length ∧ callee.Lawful limit ∧ AllLawful limit arguments
  | get object name => name.kind = .identifier ∧ object.Lawful limit
  | set object name value =>
    name.kind = .identifier ∧ object.Lawful limit ∧ value.Lawful limit
  | super _ _ method => method.kind = .identifier

def AllLawful (limit : Option Nat) : List Expr → Prop
  | [] => True
  | e :: rest => e.Lawful limit ∧ AllLawful limit rest

end

theorem allLawful_iff {es : List Expr} : AllLawful limit es ↔ ∀ e ∈ es, e.Lawful limit := by
  induction es with
  | nil => simp [AllLawful]
  | cons e rest ih => simp [AllLawful, ih]

theorem isBinaryOperator_of_level {k : Precedence} {kind : Kind} (level : k ∈ Precedence.binaryLevels)
    (found : Precedence.ofOperator kind = some k) : Parser.isOneOf binaryOperators kind = true := by
  unfold Precedence.ofOperator at found
  split at found <;> cases found <;> first | rfl | exact absurd level (by decide)

theorem isLogicalOperator_of_level {k : Precedence} {kind : Kind}
    (level : k ∈ Precedence.logicalLevels) (found : Precedence.ofOperator kind = some k) :
    Parser.isOneOf logicalOperators kind = true := by
  unfold Precedence.ofOperator at found
  split at found <;> cases found <;> first | rfl | exact absurd level (by decide)

mutual

theorem lawful_of_wellFormed : (e : Expr) → e.WellFormed → e.Lawful (some Parser.maxEntries)
  | literal _, _ | this _ _, _ => trivial
  | grouping inner, wellFormed => lawful_of_wellFormed inner wellFormed
  | unary _ operand, ⟨isOperator, _, wellFormed⟩ =>
    ⟨isOperator, lawful_of_wellFormed operand wellFormed⟩
  | binary left _ right, ⟨_, level, found, _, _, wellFormed, wellFormed'⟩ =>
    ⟨isBinaryOperator_of_level level found, lawful_of_wellFormed left wellFormed,
      lawful_of_wellFormed right wellFormed'⟩
  | logical left _ right, ⟨_, level, found, _, _, wellFormed, wellFormed'⟩ =>
    ⟨isLogicalOperator_of_level level found, lawful_of_wellFormed left wellFormed,
      lawful_of_wellFormed right wellFormed'⟩
  | var _ _, isName => isName
  | assign _ _ value, ⟨isName, wellFormed⟩ => ⟨isName, lawful_of_wellFormed value wellFormed⟩
  | call callee _ arguments, ⟨_, _, fits, wellFormed, wellFormed'⟩ =>
    ⟨fits_some.mpr fits, lawful_of_wellFormed callee wellFormed,
      allLawful_of_wellFormed arguments wellFormed'⟩
  | get object _, ⟨_, isName, wellFormed⟩ => ⟨isName, lawful_of_wellFormed object wellFormed⟩
  | set object _ value, ⟨_, isName, wellFormed, wellFormed'⟩ =>
    ⟨isName, lawful_of_wellFormed object wellFormed, lawful_of_wellFormed value wellFormed'⟩
  | super _ _ _, ⟨_, isName⟩ => isName

theorem allLawful_of_wellFormed : (es : List Expr) → AllWellFormed es →
    AllLawful (some Parser.maxEntries) es
  | [], _ => trivial
  | e :: rest, ⟨wellFormed, wellFormed'⟩ =>
    ⟨lawful_of_wellFormed e wellFormed, allLawful_of_wellFormed rest wellFormed'⟩

end

end Expr

namespace Stmt

mutual

def FunctionLawful (limit : Option Nat) : FunctionDecl → Prop
  | ⟨name, params, body⟩ =>
    name.kind = .identifier ∧ Fits limit params.length ∧
      (∀ param ∈ params, param.kind = .identifier) ∧ AllLawful limit body

def MethodsLawful (limit : Option Nat) : List FunctionDecl → Prop
  | [] => True
  | method :: rest => FunctionLawful limit method ∧ MethodsLawful limit rest

/-- In addition, superclasses are names, and branches and bodies of loops are no declarations. -/
def Lawful (limit : Option Nat) : Stmt → Prop
  | expression value | print value => value.Lawful limit
  | var name initializer => name.kind = .identifier ∧ ∀ e ∈ initializer, e.Lawful limit
  | block statements => AllLawful limit statements
  | branch condition thenBranch none =>
    condition.Lawful limit ∧ thenBranch.isStatement = true ∧ thenBranch.Lawful limit
  | branch condition thenBranch (some elseBranch) =>
    condition.Lawful limit ∧ thenBranch.isStatement = true ∧ thenBranch.Lawful limit ∧
      elseBranch.isStatement = true ∧ elseBranch.Lawful limit
  | loop condition body => condition.Lawful limit ∧ body.isStatement = true ∧ body.Lawful limit
  | function declaration => FunctionLawful limit declaration
  | ret _ value => ∀ e ∈ value, e.Lawful limit
  | classDecl name superclass methods =>
    name.kind = .identifier ∧ (∀ e ∈ superclass, IsSuperclass e) ∧ MethodsLawful limit methods

def AllLawful (limit : Option Nat) : List Stmt → Prop
  | [] => True
  | statement :: rest => statement.Lawful limit ∧ AllLawful limit rest

end

theorem allLawful_iff {ss : List Stmt} : AllLawful limit ss ↔ ∀ s ∈ ss, s.Lawful limit := by
  induction ss with
  | nil => simp [AllLawful]
  | cons s rest ih => simp [AllLawful, ih]

theorem methodsLawful_iff {ds : List FunctionDecl} :
    MethodsLawful limit ds ↔ ∀ d ∈ ds, FunctionLawful limit d := by
  induction ds with
  | nil => simp [MethodsLawful]
  | cons d rest ih => simp [MethodsLawful, ih]

theorem functionLawful_iff {d : FunctionDecl} :
    FunctionLawful limit d ↔ d.name.kind = .identifier ∧ Fits limit d.params.length ∧
      (∀ param ∈ d.params, param.kind = .identifier) ∧ AllLawful limit d.body := by
  cases d
  rw [FunctionLawful]

theorem lawful_branch_iff {condition : Expr} {thenBranch : Stmt} {elseBranch : Option Stmt} :
    (branch condition thenBranch elseBranch).Lawful limit ↔ condition.Lawful limit ∧
      (thenBranch.isStatement = true ∧ thenBranch.Lawful limit) ∧
      ∀ other ∈ elseBranch, other.isStatement = true ∧ other.Lawful limit := by
  cases elseBranch <;> simp [Lawful, and_assoc]

theorem lawful_superclass {superclass : Option Expr} (inherits : ∀ e ∈ superclass, IsSuperclass e) :
    ∀ e ∈ superclass, e.Lawful limit := by
  intro e found
  cases e with
  | var id name => exact inherits _ found
  | _ => exact (inherits _ found).elim

theorem lawful_forLoop {initializer : Option Stmt} {condition increment : Option Expr} {body : Stmt}
    (initializes : ∀ s ∈ initializer, s.Lawful limit) (tests : ∀ e ∈ condition, e.Lawful limit)
    (steps : ∀ e ∈ increment, e.Lawful limit) (isStatement : body.isStatement = true)
    (inside : body.Lawful limit) :
    (forLoop initializer condition increment body).Lawful limit := by
  have test : (condition.getD (.literal (.bool true))).Lawful limit := by
    cases condition with
    | none => trivial
    | some e => exact tests e rfl
  have rounds (round : Stmt) (shape : round.isStatement = true) (lawful : round.Lawful limit) :
      (loop (condition.getD (.literal (.bool true))) round).Lawful limit := ⟨test, shape, lawful⟩
  cases increment with
  | none =>
    have whole := rounds body isStatement inside
    cases initializer with
    | none => exact whole
    | some first => exact ⟨initializes first rfl, whole, trivial⟩
  | some step =>
    have whole := rounds (block [body, expression step]) rfl ⟨inside, steps step rfl, trivial⟩
    cases initializer with
    | none => exact whole
    | some first => exact ⟨initializes first rfl, whole, trivial⟩

mutual

theorem functionLawful_of_wellFormed : (d : FunctionDecl) → FunctionWellFormed d →
    FunctionLawful (some Parser.maxEntries) d
  | ⟨_, _, body⟩, ⟨isName, fits, areNames, wellFormed⟩ =>
    ⟨isName, fits_some.mpr fits, areNames, allLawful_of_wellFormed body wellFormed⟩

theorem methodsLawful_of_wellFormed : (ds : List FunctionDecl) → MethodsWellFormed ds →
    MethodsLawful (some Parser.maxEntries) ds
  | [], _ => trivial
  | d :: rest, ⟨wellFormed, wellFormed'⟩ =>
    ⟨functionLawful_of_wellFormed d wellFormed, methodsLawful_of_wellFormed rest wellFormed'⟩

theorem lawful_of_wellFormed : (s : Stmt) → s.WellFormed → s.Lawful (some Parser.maxEntries)
  | expression value, wellFormed | print value, wellFormed => value.lawful_of_wellFormed wellFormed
  | var _ _, ⟨isName, wellFormed⟩ =>
    ⟨isName, fun e found => e.lawful_of_wellFormed (wellFormed e found)⟩
  | block statements, wellFormed => allLawful_of_wellFormed statements wellFormed
  | branch condition thenBranch none, ⟨wellFormed, isStatement, wellFormed'⟩ =>
    ⟨condition.lawful_of_wellFormed wellFormed, isStatement,
      lawful_of_wellFormed thenBranch wellFormed'⟩
  | branch condition thenBranch (some elseBranch),
      ⟨wellFormed, isStatement, wellFormed', _, isStatement', wellFormed''⟩ =>
    ⟨condition.lawful_of_wellFormed wellFormed, isStatement,
      lawful_of_wellFormed thenBranch wellFormed', isStatement',
      lawful_of_wellFormed elseBranch wellFormed''⟩
  | loop condition body, ⟨wellFormed, isStatement, wellFormed'⟩ =>
    ⟨condition.lawful_of_wellFormed wellFormed, isStatement, lawful_of_wellFormed body wellFormed'⟩
  | function declaration, wellFormed => functionLawful_of_wellFormed declaration wellFormed
  | ret _ _, ⟨_, wellFormed⟩ => fun e found => e.lawful_of_wellFormed (wellFormed e found)
  | classDecl _ _ methods, ⟨isName, inherits, wellFormed⟩ =>
    ⟨isName, inherits, methodsLawful_of_wellFormed methods wellFormed⟩

theorem allLawful_of_wellFormed : (ss : List Stmt) → AllWellFormed ss →
    AllLawful (some Parser.maxEntries) ss
  | [], _ => trivial
  | s :: rest, ⟨wellFormed, wellFormed'⟩ =>
    ⟨lawful_of_wellFormed s wellFormed, allLawful_of_wellFormed rest wellFormed'⟩

end

end Stmt

end Lox
