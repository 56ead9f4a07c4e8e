import Lox.Proofs.Session.Accepted

namespace Lox

namespace Expr

mutual

def NamesPlain : Expr → Prop
  | literal _ | var _ _ | this _ _ | super _ _ _ => True
  | grouping inner | unary _ inner | get inner _ => inner.NamesPlain
  | binary left _ right | logical left _ right => left.NamesPlain ∧ right.NamesPlain
  | set object _ value => object.NamesPlain ∧ value.NamesPlain
  | assign _ name value => IsPlain name.lexeme ∧ value.NamesPlain
  | call callee _ arguments => callee.NamesPlain ∧ AllNamesPlain arguments

def AllNamesPlain : List Expr → Prop
  | [] => True
  | e :: rest => e.NamesPlain ∧ AllNamesPlain rest

end

theorem allNamesPlain_iff {es : List Expr} : AllNamesPlain es ↔ ∀ e ∈ es, e.NamesPlain := by
  induction es with
  | nil => simp [AllNamesPlain]
  | cons e rest ih => simp [AllNamesPlain, ih]

mutual

theorem namesPlain : (e : Expr) → e.WellFormed → AreProper e.marks → e.NamesPlain
  | literal _, _, _ | var _ _, _, _ | this _ _, _, _ | super _ _ _, _, _ => trivial
  | grouping inner, wellFormed, proper => by
    have proper' : AreProper inner.marks := by simpa [marks] using proper
    exact namesPlain inner wellFormed proper'
  | unary _ operand, wellFormed, proper => by
    simp only [marks, AreProper.exactly_iff] at proper
    exact namesPlain operand wellFormed.2.2 proper.2
  | binary left _ right, ⟨_, _, _, _, _, wellFormed, wellFormed'⟩, proper
  | logical left _ right, ⟨_, _, _, _, _, wellFormed, wellFormed'⟩, proper => by
    simp only [marks, AreProper.append_iff, AreProper.exactly_iff] at proper
    exact ⟨namesPlain left wellFormed proper.1, namesPlain right wellFormed' proper.2.2⟩
  | assign _ name value, ⟨isName, wellFormed⟩, proper => by
    simp only [marks, AreProper.exactly_iff, AreProper.symbol_iff] at proper
    exact ⟨proper.1.identifier isName, namesPlain value wellFormed proper.2⟩
  | call callee paren arguments, ⟨_, _, _, wellFormed, wellFormed'⟩, proper => by
    simp only [marks, AreProper.append_iff, AreProper.symbol_iff, argumentMarks_eq,
      AreProper.entries_iff] at proper
    exact ⟨namesPlain callee wellFormed proper.1.1,
      allNamesPlain arguments wellFormed' proper.1.2⟩
  | get object name, ⟨_, _, wellFormed⟩, proper => by
    simp only [marks, AreProper.append_iff] at proper
    exact namesPlain object wellFormed proper.1
  | set object name value, ⟨_, _, wellFormed, wellFormed'⟩, proper => by
    simp only [marks, AreProper.append_iff, AreProper.exactly_iff, AreProper.symbol_iff] at proper
    exact ⟨namesPlain object wellFormed proper.1, namesPlain value wellFormed' proper.2.2⟩

theorem allNamesPlain : (es : List Expr) → AllWellFormed es → (∀ e ∈ es, AreProper e.marks) →
    AllNamesPlain es
  | [], _, _ => trivial
  | e :: rest, wellFormed, proper => by
    obtain ⟨first, later⟩ := List.forall_mem_cons.mp proper
    exact ⟨namesPlain e wellFormed.1 first, allNamesPlain rest wellFormed.2 later⟩

end

end Expr

namespace Stmt

mutual

def FunctionNamesPlain : FunctionDecl → Prop
  | ⟨_, params, body⟩ => (∀ param ∈ params, IsPlain param.lexeme) ∧ AllNamesPlain body

def MethodsNamesPlain : List FunctionDecl → Prop
  | [] => True
  | method :: rest => FunctionNamesPlain method ∧ MethodsNamesPlain rest

def NamesPlain : Stmt → Prop
  | expression value | print value => value.NamesPlain
  | var name initializer => IsPlain name.lexeme ∧ ∀ e ∈ initializer, e.NamesPlain
  | block statements => AllNamesPlain statements
  | branch condition thenBranch none => condition.NamesPlain ∧ thenBranch.NamesPlain
  | branch condition thenBranch (some elseBranch) =>
    condition.NamesPlain ∧ thenBranch.NamesPlain ∧ elseBranch.NamesPlain
  | loop condition body => condition.NamesPlain ∧ body.NamesPlain
  | function declaration =>
    IsPlain declaration.name.lexeme ∧ FunctionNamesPlain declaration
  | ret _ value => ∀ e ∈ value, e.NamesPlain
  | classDecl name superclass methods =>
    IsPlain name.lexeme ∧ (∀ e ∈ superclass, e.NamesPlain) ∧ MethodsNamesPlain methods

def AllNamesPlain : List Stmt → Prop
  | [] => True
  | statement :: rest => statement.NamesPlain ∧ AllNamesPlain rest

end

theorem allNamesPlain_iff {ss : List Stmt} : AllNamesPlain ss ↔ ∀ s ∈ ss, s.NamesPlain := by
  induction ss with
  | nil => simp [AllNamesPlain]
  | cons s rest ih => simp [AllNamesPlain, ih]

theorem methodsNamesPlain_iff {ds : List FunctionDecl} :
    MethodsNamesPlain ds ↔ ∀ d ∈ ds, FunctionNamesPlain d := by
  induction ds with
  | nil => simp [MethodsNamesPlain]
  | cons d rest ih => simp [MethodsNamesPlain, ih]

theorem optionNamesPlain {before : List Mark} {e : Option Expr}
    (wellFormed : ∀ inner ∈ e, inner.WellFormed) (proper : AreProper (optionMarks before e)) :
    ∀ inner ∈ e, inner.NamesPlain :=
  fun inner found => inner.namesPlain (wellFormed inner found) (option_proper proper inner found)

theorem functionNamesPlain_iff {d : FunctionDecl} :
    FunctionNamesPlain d ↔ (∀ param ∈ d.params, IsPlain param.lexeme) ∧ AllNamesPlain d.body := by
  cases d
  rw [FunctionNamesPlain]

theorem namesPlain_branch_iff {condition : Expr} {thenBranch : Stmt} {elseBranch : Option Stmt} :
    (branch condition thenBranch elseBranch).NamesPlain ↔ condition.NamesPlain ∧
      thenBranch.NamesPlain ∧ ∀ other ∈ elseBranch, other.NamesPlain := by
  cases elseBranch <;> simp [NamesPlain]

theorem superclassNamesPlain {superclass : Option Expr}
    (inherits : ∀ e ∈ superclass, IsSuperclass e) : ∀ e ∈ superclass, e.NamesPlain := by
  intro e found
  cases e with
  | var id name => trivial
  | _ => exact (inherits _ found).elim

mutual

theorem functionNamesPlain : (d : FunctionDecl) → FunctionWellFormed d →
    AreProper (functionMarks d) → FunctionNamesPlain d
  | ⟨name, params, body⟩, ⟨_, _, areNames, wellFormed⟩, proper => by
    simp only [functionMarks, functionHeader, AreProper.append_iff, AreProper.exactly_iff,
      AreProper.symbol_iff, AreProper.entries_iff] at proper
    refine ⟨fun param member => ?_, allNamesPlain body wellFormed proper.1.2⟩
    exact (proper.1.1.1.2 param member).1.identifier (areNames param member)

theorem methodsNamesPlain : (ds : List FunctionDecl) → MethodsWellFormed ds →
    AreProper (methodMarks ds) → MethodsNamesPlain ds
  | [], _, _ => trivial
  | d :: rest, ⟨wellFormed, wellFormed'⟩, proper => by
    obtain ⟨proper, proper'⟩ := AreProper.append_iff.mp proper
    exact ⟨functionNamesPlain d wellFormed proper, methodsNamesPlain rest wellFormed' proper'⟩

theorem namesPlain : (s : Stmt) → s.WellFormed → AreProper s.marks → s.NamesPlain
  | expression value, wellFormed, proper =>
    value.namesPlain wellFormed (AreProper.append_iff.mp proper).1
  | print value, wellFormed, proper => by
    simp only [marks, AreProper.append_iff, AreProper.symbol_iff] at proper
    exact value.namesPlain wellFormed proper.1
  | var name initializer, ⟨isName, wellFormed⟩, proper => by
    simp only [marks, AreProper.append_iff, AreProper.symbol_iff, AreProper.exactly_iff] at proper
    exact ⟨proper.1.1.identifier isName, optionNamesPlain wellFormed proper.1.2⟩
  | block statements, wellFormed, proper => by
    simp only [marks, AreProper.append_iff, AreProper.symbol_iff] at proper
    exact allNamesPlain statements wellFormed proper.1
  | branch condition thenBranch none, ⟨wellFormed, _, wellFormed'⟩, proper => by
    simp only [marks, conditionMarks, AreProper.append_iff, AreProper.symbol_iff] at proper
    exact ⟨condition.namesPlain wellFormed proper.1.1, namesPlain thenBranch wellFormed' proper.2⟩
  | branch condition thenBranch (some elseBranch), ⟨wellFormed, _, wellFormed', _, _, wellFormed''⟩,
      proper => by
    simp only [marks, conditionMarks, AreProper.append_iff, AreProper.symbol_iff] at proper
    exact ⟨condition.namesPlain wellFormed proper.1.1.1,
      namesPlain thenBranch wellFormed' proper.1.2, namesPlain elseBranch wellFormed'' proper.2⟩
  | loop condition body, ⟨wellFormed, _, wellFormed'⟩, proper => by
    simp only [marks, conditionMarks, AreProper.append_iff, AreProper.symbol_iff] at proper
    exact ⟨condition.namesPlain wellFormed proper.1.1, namesPlain body wellFormed' proper.2⟩
  | function declaration, wellFormed, proper => by
    have proper' := AreProper.symbol_iff.mp proper
    exact ⟨plain_function wellFormed proper', functionNamesPlain declaration wellFormed proper'⟩
  | ret _ value, ⟨_, wellFormed⟩, proper => by
    simp only [marks, AreProper.append_iff, AreProper.exactly_iff] at proper
    exact optionNamesPlain wellFormed proper.1.2
  | classDecl name superclass methods, ⟨isName, inherits, wellFormed⟩, proper => by
    simp only [marks, classHeader, AreProper.append_iff, AreProper.exactly_iff,
      AreProper.symbol_iff] at proper
    exact ⟨proper.1.1.1.1.identifier isName, superclassNamesPlain inherits,
      methodsNamesPlain methods wellFormed proper.1.2⟩

theorem allNamesPlain : (ss : List Stmt) → AllWellFormed ss → AreProper (allMarks ss) →
    AllNamesPlain ss
  | [], _, _ => trivial
  | s :: rest, ⟨wellFormed, wellFormed'⟩, proper => by
    obtain ⟨proper, proper'⟩ := AreProper.append_iff.mp proper
    exact ⟨namesPlain s wellFormed proper, allNamesPlain rest wellFormed' proper'⟩

end

end Stmt

theorem IsAccepted.namesPlain {source : String} {firstId : Nat} (h : IsAccepted source firstId) :
    Stmt.AllNamesPlain (statementsOf source firstId) := by
  have spells := spells_of_parse h.parsed
  exact Stmt.allNamesPlain _ spells.wellFormed (spells.areProper (isProper_beforeEnd source))

theorem namesPlain_of_parseExpression {source : String} {firstId : Nat} {e : Expr}
    (h : (parseExpression (tokensOf (scan source)) firstId).result = .ok e) : e.NamesPlain := by
  have spells := spells_of_parseExpression h
  exact e.namesPlain spells.wellFormed (.of_spelled spells.spelled (isProper_beforeEnd source))

end Lox
