import Lox.Proofs.Printed.Trees
import Lox.Proofs.Parser.Program
import Lox.Proofs.Syntax.Lawful
import Lox.Proofs.Syntax.Names
import Lox.Proofs.Scanning.Factorization
import Lox.Proofs.Session.Accepted

namespace Lox

/-- The values of numerals, as far as they are finite. -/
def IsNumeral (x : Float) : Prop := x.isFinite = true ∧ ∃ numeral, Scan.numberValue numeral = x

/-- Numbers are written with digits and points, and no two of them alike. -/
structure WritesNumerals (number : Float → String) : Prop where
  some : ∀ x, IsNumeral x → (number x).toList ≠ []
  digits : ∀ x, IsNumeral x → ∀ c ∈ (number x).toList, c.isDigit = true ∨ c = '.'
  injective : ∀ x y, IsNumeral x → IsNumeral y → number x = number y → x = y

def Token.IsName (t : Token) : Prop :=
  t.kind = .identifier ∧ Lexeme .identifier t.lexeme.toList

def Token.IsOneOf (symbols : List Symbol) (t : Token) : Prop :=
  ∃ fixed ∈ symbols, t.kind = .symbol fixed ∧ t.lexeme = fixed.spelling

def Literal.Legible : Literal → Prop
  | number value => IsNumeral value
  | string _ => False
  | bool _ | nil => True

namespace Expr

mutual

def Legible : Expr → Prop
  | literal value => value.Legible
  | grouping inner => inner.Legible
  | unary operator operand => operator.IsOneOf unaryOperators ∧ operand.Legible
  | binary left operator right =>
    operator.IsOneOf binaryOperators ∧ left.Legible ∧ right.Legible
  | logical left operator right =>
    operator.IsOneOf logicalOperators ∧ left.Legible ∧ right.Legible
  | var _ name => name.IsName
  | assign _ name value => name.IsName ∧ value.Legible
  | call callee paren arguments =>
    paren.IsOneOf [.rightParen] ∧ callee.Legible ∧ AllLegible arguments
  | get object name => name.IsName ∧ object.Legible
  | set object name value => name.IsName ∧ object.Legible ∧ value.Legible
  | this _ keyword => keyword.IsOneOf [.thisWord]
  | super _ keyword method => keyword.IsOneOf [.superWord] ∧ method.IsName

def AllLegible : List Expr → Prop
  | [] => True
  | e :: rest => e.Legible ∧ AllLegible rest

end

end Expr

namespace Stmt

mutual

def FunctionLegible : FunctionDecl → Prop
  | ⟨name, params, body⟩ => name.IsName ∧ (∀ param ∈ params, param.IsName) ∧ AllLegible body

def MethodsLegible : List FunctionDecl → Prop
  | [] => True
  | method :: rest => FunctionLegible method ∧ MethodsLegible rest

def Legible : Stmt → Prop
  | expression value | print value => value.Legible
  | var name initializer => name.IsName ∧ ∀ e ∈ initializer, e.Legible
  | block statements => AllLegible statements
  | branch condition thenBranch none => condition.Legible ∧ thenBranch.Legible
  | branch condition thenBranch (some elseBranch) =>
    condition.Legible ∧ thenBranch.Legible ∧ elseBranch.Legible
  | loop condition body => condition.Legible ∧ body.Legible
  | function declaration => FunctionLegible declaration
  | ret keyword value => keyword.IsOneOf [.returnWord] ∧ ∀ e ∈ value, e.Legible
  | classDecl name superclass methods =>
    name.IsName ∧ (∀ e ∈ superclass, e.Legible) ∧ MethodsLegible methods

def AllLegible : List Stmt → Prop
  | [] => True
  | statement :: rest => statement.Legible ∧ AllLegible rest

end

end Stmt

/-- A token that the tree holds looks like its kind, and the others that matter are numerals. -/
def Mark.Legible : Mark → Prop
  | exactly t => Lexeme t.kind t.lexeme.toList
  | anyOf (.number value) => IsNumeral value
  | anyOf (.string _) => False
  | anyOf _ => True

theorem Mark.legible_symbol (fixed : Symbol) : (symbol fixed).Legible := trivial

def Kind.isPlain : Kind → Bool
  | .string _ => false
  | .number value => value.isFinite
  | _ => true

theorem Mark.legible_of_admits {mark : Mark} {t : Token} (admits : mark.Admits t)
    (lexeme : Lexeme t.kind t.lexeme.toList) (plain : t.kind.isPlain = true) : mark.Legible := by
  obtain ⟨kind, text, line⟩ := t
  cases mark with
  | exactly kept =>
    obtain rfl : _ = kept := admits
    exact lexeme
  | anyOf kind' =>
    obtain rfl : kind = kind' := admits
    cases kind with
    | string contents => cases plain
    | number value =>
      generalize text.toList = cs at lexeme
      cases lexeme with
      | whole => exact ⟨plain, _, rfl⟩
      | fraction => exact ⟨plain, _, rfl⟩
    | _ => trivial

theorem Token.isName_of_kind {t : Token} (lexeme : Lexeme t.kind t.lexeme.toList)
    (isName : t.kind = .identifier) : t.IsName := ⟨isName, isName ▸ lexeme⟩

theorem Token.isOneOf_of_kind {symbols : List Symbol} {t : Token}
    (lexeme : Lexeme t.kind t.lexeme.toList) (found : Parser.isOneOf symbols t.kind = true) :
    t.IsOneOf symbols := by
  obtain ⟨fixed, member, same⟩ := List.any_eq_true.mp found
  have same : t.kind = .symbol fixed := eq_of_beq same
  rw [same] at lexeme
  exact ⟨fixed, member, same, String.toList_injective lexeme.spelled⟩

def AreLegible (ms : List Mark) : Prop := ∀ mark ∈ ms, mark.Legible

namespace AreLegible

variable {ms ns : List Mark}

@[simp] theorem append_iff : AreLegible (ms ++ ns) ↔ AreLegible ms ∧ AreLegible ns :=
  List.forall_mem_append

@[simp] theorem cons_iff {mark : Mark} :
    AreLegible (mark :: ms) ↔ mark.Legible ∧ AreLegible ms := List.forall_mem_cons

theorem entries {α : Type} {marks : α → List Mark} {items : List α}
    (h : AreLegible (entryMarks marks items)) : ∀ item ∈ items, AreLegible (marks item) := by
  intro item member mark found
  cases items with
  | nil => cases member
  | cons first others =>
    rcases List.mem_cons.mp member with rfl | later
    · exact h mark (List.mem_append_left _ found)
    · exact h mark (List.mem_append_right _
        (List.mem_flatMap.mpr ⟨item, later, List.mem_cons_of_mem _ found⟩))

theorem option {before : List Mark} {e : Option Expr} (h : AreLegible (optionMarks before e)) :
    ∀ inner ∈ e, AreLegible inner.marks := by
  rintro inner rfl
  exact (append_iff.mp h).2

end AreLegible

namespace Expr

mutual

theorem legible_of_marks : (e : Expr) → e.WellFormed → AreLegible e.marks → e.Legible
  | literal (.number _), _, legible => (AreLegible.cons_iff.mp legible).1
  | literal (.string _), _, legible => (AreLegible.cons_iff.mp legible).1
  | literal (.bool _), _, _ | literal .nil, _, _ => trivial
  | grouping inner, wellFormed, legible => by
    simp only [marks, AreLegible.append_iff, AreLegible.cons_iff] at legible
    exact legible_of_marks inner wellFormed legible.1.2
  | unary operator operand, ⟨isOperator, _, wellFormed⟩, legible => by
    simp only [marks, AreLegible.cons_iff] at legible
    exact ⟨Token.isOneOf_of_kind legible.1 isOperator,
      legible_of_marks operand wellFormed legible.2⟩
  | binary left operator right, ⟨_, level, found, _, _, wellFormed, wellFormed'⟩, legible => by
    simp only [marks, AreLegible.append_iff, AreLegible.cons_iff] at legible
    exact ⟨Token.isOneOf_of_kind legible.2.1 (isBinaryOperator_of_level level found),
      legible_of_marks left wellFormed legible.1, legible_of_marks right wellFormed' legible.2.2⟩
  | logical left operator right, ⟨_, level, found, _, _, wellFormed, wellFormed'⟩, legible => by
    simp only [marks, AreLegible.append_iff, AreLegible.cons_iff] at legible
    exact ⟨Token.isOneOf_of_kind legible.2.1 (isLogicalOperator_of_level level found),
      legible_of_marks left wellFormed legible.1, legible_of_marks right wellFormed' legible.2.2⟩
  | var _ name, isName, legible =>
    Token.isName_of_kind (AreLegible.cons_iff.mp legible).1 isName
  | assign _ name value, ⟨isName, wellFormed⟩, legible => by
    simp only [marks, AreLegible.cons_iff] at legible
    exact ⟨Token.isName_of_kind legible.1 isName,
      legible_of_marks value wellFormed legible.2.2⟩
  | call callee paren arguments, ⟨_, closes, _, wellFormed, wellFormed'⟩, legible => by
    simp only [marks, AreLegible.append_iff, AreLegible.cons_iff, argumentMarks_eq] at legible
    exact ⟨Token.isOneOf_of_kind legible.2.1 (by rw [closes]; rfl),
      legible_of_marks callee wellFormed legible.1.1,
      allLegible_of_marks arguments wellFormed' legible.1.2.2.entries⟩
  | get object name, ⟨_, isName, wellFormed⟩, legible => by
    simp only [marks, AreLegible.append_iff, AreLegible.cons_iff] at legible
    exact ⟨Token.isName_of_kind legible.2.2.1 isName,
      legible_of_marks object wellFormed legible.1⟩
  | set object name value, ⟨_, isName, wellFormed, wellFormed'⟩, legible => by
    simp only [marks, AreLegible.append_iff, AreLegible.cons_iff] at legible
    exact ⟨Token.isName_of_kind legible.2.2.1 isName,
      legible_of_marks object wellFormed legible.1,
      legible_of_marks value wellFormed' legible.2.2.2.2⟩
  | this _ keyword, isThis, legible =>
    Token.isOneOf_of_kind (AreLegible.cons_iff.mp legible).1 (by rw [isThis]; rfl)
  | super _ keyword method, ⟨isSuper, isName⟩, legible => by
    simp only [marks, AreLegible.cons_iff] at legible
    exact ⟨Token.isOneOf_of_kind legible.1 (by rw [isSuper]; rfl),
      Token.isName_of_kind legible.2.2.1 isName⟩

theorem allLegible_of_marks : (es : List Expr) → AllWellFormed es →
    (∀ e ∈ es, AreLegible e.marks) → AllLegible es
  | [], _, _ => trivial
  | e :: rest, wellFormed, legible => by
    obtain ⟨first, later⟩ := List.forall_mem_cons.mp legible
    exact ⟨legible_of_marks e wellFormed.1 first, allLegible_of_marks rest wellFormed.2 later⟩

end

theorem optionLegible {before : List Mark} {e : Option Expr}
    (wellFormed : ∀ inner ∈ e, inner.WellFormed) (legible : AreLegible (optionMarks before e)) :
    ∀ inner ∈ e, inner.Legible :=
  fun inner found => inner.legible_of_marks (wellFormed inner found) (legible.option inner found)

end Expr

namespace Stmt

mutual

theorem functionLegible_of_marks : (d : FunctionDecl) → FunctionWellFormed d →
    AreLegible (functionMarks d) → FunctionLegible d
  | ⟨name, params, body⟩, ⟨isName, _, areNames, wellFormed⟩, legible => by
    simp only [functionMarks, functionHeader, AreLegible.append_iff, AreLegible.cons_iff] at legible
    obtain ⟨⟨⟨⟨first, -, entries⟩, -⟩, inside⟩, -⟩ := legible
    refine ⟨Token.isName_of_kind first isName, fun param member => ?_,
      allLegible_of_marks body wellFormed inside⟩
    exact Token.isName_of_kind (AreLegible.cons_iff.mp (entries.entries param member)).1
      (areNames param member)

theorem methodsLegible_of_marks : (ds : List FunctionDecl) → MethodsWellFormed ds →
    AreLegible (methodMarks ds) → MethodsLegible ds
  | [], _, _ => trivial
  | d :: rest, ⟨wellFormed, wellFormed'⟩, legible => by
    obtain ⟨first, others⟩ := AreLegible.append_iff.mp legible
    exact ⟨functionLegible_of_marks d wellFormed first,
      methodsLegible_of_marks rest wellFormed' others⟩

theorem legible_of_marks : (s : Stmt) → s.WellFormed → AreLegible s.marks → s.Legible
  | expression value, wellFormed, legible =>
    value.legible_of_marks wellFormed (AreLegible.append_iff.mp legible).1
  | print value, wellFormed, legible => by
    simp only [marks, AreLegible.append_iff, AreLegible.cons_iff] at legible
    exact value.legible_of_marks wellFormed legible.1.2
  | var name initializer, ⟨isName, wellFormed⟩, legible => by
    simp only [marks, AreLegible.append_iff, AreLegible.cons_iff] at legible
    exact ⟨Token.isName_of_kind legible.1.2.1 isName,
      Expr.optionLegible wellFormed legible.1.2.2⟩
  | block statements, wellFormed, legible => by
    simp only [marks, AreLegible.append_iff, AreLegible.cons_iff] at legible
    exact allLegible_of_marks statements wellFormed legible.1.2
  | branch condition thenBranch none, ⟨wellFormed, _, wellFormed'⟩, legible => by
    simp only [marks, conditionMarks, AreLegible.append_iff, AreLegible.cons_iff] at legible
    exact ⟨condition.legible_of_marks wellFormed legible.1.1.2.2,
      legible_of_marks thenBranch wellFormed' legible.2⟩
  | branch condition thenBranch (some elseBranch),
      ⟨wellFormed, _, wellFormed', _, _, wellFormed''⟩, legible => by
    simp only [marks, conditionMarks, AreLegible.append_iff, AreLegible.cons_iff] at legible
    exact ⟨condition.legible_of_marks wellFormed legible.1.1.1.2.2,
      legible_of_marks thenBranch wellFormed' legible.1.2,
      legible_of_marks elseBranch wellFormed'' legible.2.2⟩
  | loop condition body, ⟨wellFormed, _, wellFormed'⟩, legible => by
    simp only [marks, conditionMarks, AreLegible.append_iff, AreLegible.cons_iff] at legible
    exact ⟨condition.legible_of_marks wellFormed legible.1.1.2.2,
      legible_of_marks body wellFormed' legible.2⟩
  | function declaration, wellFormed, legible =>
    functionLegible_of_marks declaration wellFormed (AreLegible.cons_iff.mp legible).2
  | ret keyword value, ⟨isReturn, wellFormed⟩, legible => by
    simp only [marks, AreLegible.append_iff, AreLegible.cons_iff] at legible
    exact ⟨Token.isOneOf_of_kind legible.1.1 (by rw [isReturn]; rfl),
      Expr.optionLegible wellFormed legible.1.2⟩
  | classDecl name superclass methods, ⟨isName, inherits, wellFormed⟩, legible => by
    simp only [marks, classHeader, AreLegible.append_iff, AreLegible.cons_iff] at legible
    have wellFormed' : ∀ e ∈ superclass, e.WellFormed := by
      intro e found
      cases e with
      | var id name => exact inherits _ found
      | _ => exact (inherits _ found).elim
    exact ⟨Token.isName_of_kind legible.1.1.1.2.1 isName,
      Expr.optionLegible wellFormed' legible.1.1.1.2.2,
      methodsLegible_of_marks methods wellFormed legible.1.2⟩

theorem allLegible_of_marks : (ss : List Stmt) → AllWellFormed ss → AreLegible (allMarks ss) →
    AllLegible ss
  | [], _, _ => trivial
  | s :: rest, ⟨wellFormed, wellFormed'⟩, legible => by
    obtain ⟨first, others⟩ := AreLegible.append_iff.mp legible
    exact ⟨legible_of_marks s wellFormed first, allLegible_of_marks rest wellFormed' others⟩

end

end Stmt

/-- A text without errors, without strings and with finite numbers only. -/
structure IsPlainSource (source : String) (firstId : Nat) : Prop where
  scanned : lexErrorsOf (scan source) = []
  parsed : (parse (tokensOf (scan source)) firstId).errors = []
  plain : ∀ t ∈ tokensOf (scan source), t.kind.isPlain = true

theorem lexeme_of_scan (source : String) :
    ∀ t ∈ beforeEnd (tokensOf (scan source)), Lexeme t.kind t.lexeme.toList := by
  intro t member
  obtain ⟨items, last, whole, factors⟩ := Scan.factors_items 1 source.toList
  have notEnd : t.kind ≠ .endOfInput := by
    simpa using List.all_eq_true.mp List.all_takeWhile t member
  obtain ⟨item, found, same⟩ := List.mem_filterMap.mp ((List.takeWhile_sublist _).subset member)
  rw [scan, whole] at found
  cases item with
  | error e => cases same
  | ok t' =>
    cases same
    rcases List.mem_append.mp found with inside | atEnd
    · exact factors.lexeme t inside
    · cases List.mem_singleton.mp atEnd
      exact absurd rfl notEnd

theorem IsPlainSource.legible {source : String} {firstId : Nat} (h : IsPlainSource source firstId) :
    Stmt.AllLegible (statementsOf source firstId) := by
  have spells := spells_of_parse h.parsed
  refine Stmt.allLegible_of_marks _ spells.wellFormed (spells.forall_marks Mark.legible_symbol ?_)
  intro t member mark admits
  have found : t ∈ tokensOf (scan source) := (List.takeWhile_sublist _).subset member
  exact Mark.legible_of_admits admits (lexeme_of_scan source t member) (h.plain t found)

end Lox
