import Lox.Proofs.Resolution.Scopes
import Lox.Resolution
import Mathlib.Data.Option.Basic

namespace Lox

/-- Which distances at one place and at the other lead to scopes that correspond. -/
abbrev Shift := Nat → Nat → Prop

namespace Shift

inductive Enter (R : Shift) : Shift where
  | here : Enter R 0 0
  | out {d d' : Nat} (further : R d d') : Enter R (d + 1) (d' + 1)

/-- Inside one more scope at the first place that the second lacks. -/
inductive Detour (R : Shift) : Shift where
  | out {d d' : Nat} (further : R d d') : Detour R (d + 1) d'

def IsReflexive (R : Shift) : Prop := ∀ d, R d d

theorem IsReflexive.enter {R : Shift} (h : IsReflexive R) : IsReflexive (Enter R)
  | 0 => .here
  | d + 1 => .out (h d)

end Shift

open Shift

theorem rel_self {R : Shift} (all : IsReflexive R) (distance : Option Nat) :
    Option.Rel R distance distance := by
  cases distance with
  | none => exact .none
  | some d => exact .some (all d)

structure Distances where
  first : Locals
  second : Locals

mutual

inductive Expr.Copies (L : Distances) (R : Shift) : Expr → Expr → Prop where
  | literal (value : Literal) : Copies L R (.literal value) (.literal value)
  | grouping {inner inner' : Expr} (inside : Copies L R inner inner') :
    Copies L R (.grouping inner) (.grouping inner')
  | unary (operator : Token) {operand operand' : Expr} (inside : Copies L R operand operand') :
    Copies L R (.unary operator operand) (.unary operator operand')
  | binary (operator : Token) {left left' right right' : Expr} (first : Copies L R left left')
    (second : Copies L R right right') :
    Copies L R (.binary left operator right) (.binary left' operator right')
  | logical (operator : Token) {left left' right right' : Expr} (first : Copies L R left left')
    (second : Copies L R right right') :
    Copies L R (.logical left operator right) (.logical left' operator right')
  | var (name : Token) {id id' : Nat} (found : Option.Rel R L.first[id]? L.second[id']?) :
    Copies L R (.var id name) (.var id' name)
  | assign (name : Token) {id id' : Nat} {value value' : Expr}
    (found : Option.Rel R L.first[id]? L.second[id']?) (inside : Copies L R value value') :
    Copies L R (.assign id name value) (.assign id' name value')
  | call (paren : Token) {callee callee' : Expr} {arguments arguments' : List Expr}
    (first : Copies L R callee callee') (rest : AllCopies L R arguments arguments') :
    Copies L R (.call callee paren arguments) (.call callee' paren arguments')
  | get (name : Token) {object object' : Expr} (first : Copies L R object object') :
    Copies L R (.get object name) (.get object' name)
  | set (name : Token) {object object' value value' : Expr} (first : Copies L R object object')
    (second : Copies L R value value') :
    Copies L R (.set object name value) (.set object' name value')
  | this (keyword : Token) {id id' : Nat} (found : Option.Rel R L.first[id]? L.second[id']?) :
    Copies L R (.this id keyword) (.this id' keyword)
  -- The receiver lives one scope further in than the superclass.
  | super (keyword method : Token) {id id' : Nat}
    (found : Option.Rel (fun d d' => R d d' ∧ R (d - 1) (d' - 1)) L.first[id]? L.second[id']?) :
    Copies L R (.super id keyword method) (.super id' keyword method)

inductive Expr.AllCopies (L : Distances) (R : Shift) : List Expr → List Expr → Prop where
  | nil : AllCopies L R [] []
  | cons {e e' : Expr} {rest rest' : List Expr} (first : Copies L R e e')
    (others : AllCopies L R rest rest') : AllCopies L R (e :: rest) (e' :: rest')

end

inductive Expr.OptionCopies (L : Distances) (R : Shift) : Option Expr → Option Expr → Prop where
  | none : OptionCopies L R none none
  | some {e e' : Expr} (inside : e.Copies L R e') : OptionCopies L R (some e) (some e')

mutual

/-- Where something is declared, the innermost scopes correspond. -/
inductive Stmt.Copies (L : Distances) : Shift → Stmt → Stmt → Prop where
  | expression {R : Shift} {value value' : Expr} (inside : value.Copies L R value') :
    Copies L R (.expression value) (.expression value')
  | print {R : Shift} {value value' : Expr} (inside : value.Copies L R value') :
    Copies L R (.print value) (.print value')
  | var {R : Shift} (name : Token) {initializer initializer' : Option Expr} (level : R 0 0)
    (inside : Expr.OptionCopies L R initializer initializer') :
    Copies L R (.var name initializer) (.var name initializer')
  | block {R : Shift} {statements statements' : List Stmt}
    (inside : AllCopies L (Enter R) statements statements') :
    Copies L R (.block statements) (.block statements')
  | branch {R : Shift} {condition condition' : Expr} {thenBranch thenBranch' : Stmt}
    (test : condition.Copies L R condition') (first : Copies L R thenBranch thenBranch') :
    Copies L R (.branch condition thenBranch none) (.branch condition' thenBranch' none)
  | branchElse {R : Shift} {condition condition' : Expr}
    {thenBranch thenBranch' elseBranch elseBranch' : Stmt}
    (test : condition.Copies L R condition') (first : Copies L R thenBranch thenBranch')
    (second : Copies L R elseBranch elseBranch') :
    Copies L R (.branch condition thenBranch (some elseBranch))
      (.branch condition' thenBranch' (some elseBranch'))
  | loop {R : Shift} {condition condition' : Expr} {body body' : Stmt}
    (test : condition.Copies L R condition') (inside : Copies L R body body') :
    Copies L R (.loop condition body) (.loop condition' body')
  | function {R : Shift} {d d' : FunctionDecl} (level : R 0 0) (inside : FunctionCopies L R d d') :
    Copies L R (.function d) (.function d')
  | ret {R : Shift} (keyword : Token) {value value' : Option Expr}
    (inside : Expr.OptionCopies L R value value') :
    Copies L R (.ret keyword value) (.ret keyword value')
  | classDecl {R : Shift} (name : Token) {methods methods' : List FunctionDecl} (level : R 0 0)
    (members : MethodsCopies L (Enter R) methods methods') :
    Copies L R (.classDecl name none methods) (.classDecl name none methods')
  | subclassDecl {R : Shift} (name : Token) {superclass superclass' : Expr}
    {methods methods' : List FunctionDecl} (level : R 0 0)
    (inherited : superclass.Copies L R superclass')
    (members : MethodsCopies L (Enter (Enter R)) methods methods') :
    Copies L R (.classDecl name (some superclass) methods)
      (.classDecl name (some superclass') methods')

inductive Stmt.FunctionCopies (L : Distances) : Shift → FunctionDecl → FunctionDecl → Prop where
  | mk {R : Shift} (name : Token) (params : List Token) {body body' : List Stmt}
    (inside : AllCopies L (Enter R) body body') :
    FunctionCopies L R ⟨name, params, body⟩ ⟨name, params, body'⟩

inductive Stmt.MethodsCopies (L : Distances) :
  Shift → List FunctionDecl → List FunctionDecl → Prop where
  | nil {R : Shift} : MethodsCopies L R [] []
  | cons {R : Shift} {d d' : FunctionDecl} {rest rest' : List FunctionDecl}
    (first : FunctionCopies L R d d') (others : MethodsCopies L R rest rest') :
    MethodsCopies L R (d :: rest) (d' :: rest')

inductive Stmt.AllCopies (L : Distances) : Shift → List Stmt → List Stmt → Prop where
  | nil {R : Shift} : AllCopies L R [] []
  | cons {R : Shift} {s s' : Stmt} {rest rest' : List Stmt} (first : Copies L R s s')
    (others : AllCopies L R rest rest') : AllCopies L R (s :: rest) (s' :: rest')

end

namespace Stmt.FunctionCopies

variable {L : Distances} {R : Shift} {d d' : FunctionDecl}

theorem name (h : FunctionCopies L R d d') : d'.name = d.name := by
  cases h
  rfl

theorem params (h : FunctionCopies L R d d') : d'.params = d.params := by
  cases h
  rfl

theorem body (h : FunctionCopies L R d d') : AllCopies L (Enter R) d.body d'.body := by
  obtain ⟨_, _, inside⟩ := h
  exact inside

end Stmt.FunctionCopies

theorem Stmt.superclassName_copies {L : Distances} {R : Shift} (name : Token) {e e' : Expr}
    (h : e.Copies L R e') : Stmt.superclassName name e' = Stmt.superclassName name e := by
  cases h <;> rfl

def Distances.Agree (L : Distances) (occurrences : List (Nat × Token)) : Prop :=
  ∀ occurrence ∈ occurrences, L.second[occurrence.1]? = L.first[occurrence.1]?

section Self

variable {L : Distances}

theorem Distances.agree_append {first second : List (Nat × Token)} :
    L.Agree (first ++ second) ↔ L.Agree first ∧ L.Agree second :=
  List.forall_mem_append

theorem Distances.Agree.rel {R : Shift} (all : IsReflexive R) {id : Nat} {name : Token}
    (same : L.Agree [(id, name)]) : Option.Rel R L.first[id]? L.second[id]? := by
  rw [same _ List.mem_cons_self]
  exact rel_self all _

mutual

theorem Expr.copies_self {R : Shift} (all : IsReflexive R) :
    (e : Expr) → L.Agree e.occurrences → e.Copies L R e
  | .literal value, _ => .literal value
  | .grouping inner, same => .grouping (copies_self all inner same)
  | .unary _ operand, same => .unary _ (copies_self all operand same)
  | .binary left _ right, same => by
    obtain ⟨same, same'⟩ := Distances.agree_append.mp same
    exact .binary _ (copies_self all left same) (copies_self all right same')
  | .logical left _ right, same => by
    obtain ⟨same, same'⟩ := Distances.agree_append.mp same
    exact .logical _ (copies_self all left same) (copies_self all right same')
  | .var _ name, same => .var name (same.rel all)
  | .assign _ name value, same => by
    obtain ⟨same, same'⟩ := Distances.agree_append.mp same
    exact .assign name (same'.rel all) (copies_self all value same)
  | .call callee _ arguments, same => by
    obtain ⟨same, same'⟩ := Distances.agree_append.mp same
    exact .call _ (copies_self all callee same) (allCopies_self all arguments same')
  | .get object name, same => .get name (copies_self all object same)
  | .set object name value, same => by
    obtain ⟨same, same'⟩ := Distances.agree_append.mp same
    exact .set name (copies_self all object same') (copies_self all value same)
  | .this _ keyword, same => .this keyword (same.rel all)
  | .super _ keyword method, same =>
    .super keyword method (same.rel fun d => ⟨all d, all (d - 1)⟩)

theorem Expr.allCopies_self {R : Shift} (all : IsReflexive R) :
    (es : List Expr) → L.Agree (allOccurrences es) → AllCopies L R es es
  | [], _ => .nil
  | e :: rest, same => by
    obtain ⟨same, same'⟩ := Distances.agree_append.mp same
    exact .cons (copies_self all e same) (allCopies_self all rest same')

end

theorem Expr.optionCopies_self {R : Shift} (all : IsReflexive R) (e : Option Expr)
    (same : L.Agree (optionOccurrences e)) : OptionCopies L R e e := by
  cases e with
  | none => exact .none
  | some e => exact .some (copies_self all e same)

mutual

theorem Stmt.copies_self : (s : Stmt) → ∀ {R : Shift}, IsReflexive R → L.Agree s.occurrences →
    s.Copies L R s
  | .expression value, _, all, same => .expression (Expr.copies_self all value same)
  | .print value, _, all, same => .print (Expr.copies_self all value same)
  | .var name initializer, _, all, same =>
    .var name (all 0) (Expr.optionCopies_self all initializer same)
  | .block statements, _, all, same => .block (allCopies_self statements all.enter same)
  | .branch condition thenBranch none, _, all, same => by
    obtain ⟨same, same'⟩ := Distances.agree_append.mp same
    exact .branch (Expr.copies_self all condition same) (copies_self thenBranch all same')
  | .branch condition thenBranch (some elseBranch), _, all, same => by
    obtain ⟨same, rest⟩ := Distances.agree_append.mp same
    obtain ⟨same', same''⟩ := Distances.agree_append.mp rest
    exact .branchElse (Expr.copies_self all condition same) (copies_self thenBranch all same')
      (copies_self elseBranch all same'')
  | .loop condition body, _, all, same => by
    obtain ⟨same, same'⟩ := Distances.agree_append.mp same
    exact .loop (Expr.copies_self all condition same) (copies_self body all same')
  | .function declaration, _, all, same =>
    .function (all 0) (functionCopies_self declaration all same)
  | .ret keyword value, _, all, same => .ret keyword (Expr.optionCopies_self all value same)
  | .classDecl name none methods, _, all, same =>
    .classDecl name (all 0) (methodsCopies_self methods all.enter same)
  | .classDecl name (some superclass) methods, _, all, same => by
    obtain ⟨same, same'⟩ := Distances.agree_append.mp same
    exact .subclassDecl name (all 0) (Expr.copies_self all superclass same)
      (methodsCopies_self methods all.enter.enter same')

theorem Stmt.functionCopies_self : (d : FunctionDecl) → ∀ {R : Shift}, IsReflexive R →
    L.Agree (functionOccurrences d) → FunctionCopies L R d d
  | ⟨name, params, body⟩, _, all, same => .mk name params (allCopies_self body all.enter same)

theorem Stmt.methodsCopies_self : (ds : List FunctionDecl) → ∀ {R : Shift}, IsReflexive R →
    L.Agree (methodOccurrences ds) → MethodsCopies L R ds ds
  | [], _, _, _ => .nil
  | d :: rest, _, all, same => by
    obtain ⟨same, same'⟩ := Distances.agree_append.mp same
    exact .cons (functionCopies_self d all same) (methodsCopies_self rest all same')

theorem Stmt.allCopies_self : (ss : List Stmt) → ∀ {R : Shift}, IsReflexive R →
    L.Agree (allOccurrences ss) → AllCopies L R ss ss
  | [], _, _, _ => .nil
  | s :: rest, _, all, same => by
    obtain ⟨same, same'⟩ := Distances.agree_append.mp same
    exact .cons (copies_self s all same) (allCopies_self rest all same')

end

end Self

end Lox
