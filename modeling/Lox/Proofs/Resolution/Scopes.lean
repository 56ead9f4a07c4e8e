import Lox.Syntax
import Lox.Proofs.Syntax.WrittenProgram

namespace Lox

/-- The names declared so far in the scopes around a place. Innermost scopes and latest names come
first, and global names are left out. -/
abbrev Scopes := List (List String)

namespace Scopes

def distance? (Γ : Scopes) (name : String) : Option Nat := Γ.findIdx? fun names => name ∈ names

def declare (Γ : Scopes) (name : String) : Scopes :=
  match Γ with
  | [] => []
  | names :: outer => (name :: names) :: outer

def IsFresh (Γ : Scopes) (name : String) : Prop := ∀ names ∈ Γ.head?, name ∉ names

/-- The name that may not be read while its own declaration is going on. -/
def pending (Γ : Scopes) (name : String) : Option String := if Γ = [] then none else some name

theorem distance?_cons (names : List String) (Γ : Scopes) (name : String) :
    distance? (names :: Γ) name =
      if name ∈ names then some 0 else (Γ.distance? name).map (· + 1) := by
  by_cases h : name ∈ names <;> simp [distance?, List.findIdx?_cons, h]

end Scopes

/-- The names that no program can declare. -/
def IsPlain (name : String) : Prop := name ≠ "this" ∧ name ≠ "super"

/-- An occurrence of a name, with how many scopes out its binding lives if it is not global. -/
structure Site where
  id : Nat
  name : Token
  distance : Option Nat

namespace Expr

mutual

/-- The occurrences of names with ids, in the order in which they are resolved. -/
def occurrences : Expr → List (Nat × Token)
  | literal _ => []
  | grouping inner => inner.occurrences
  | unary _ operand => operand.occurrences
  | binary left _ right | logical left _ right => left.occurrences ++ right.occurrences
  | var id name => [(id, name)]
  | assign id name value => value.occurrences ++ [(id, name)]
  | call callee _ arguments => callee.occurrences ++ allOccurrences arguments
  | get object _ => object.occurrences
  | set object _ value => value.occurrences ++ object.occurrences
  | this id keyword => [(id, keyword)]
  | super id keyword _ => [(id, keyword)]

def allOccurrences : List Expr → List (Nat × Token)
  | [] => []
  | e :: rest => e.occurrences ++ allOccurrences rest

end

def optionOccurrences : Option Expr → List (Nat × Token)
  | none => []
  | some e => e.occurrences

end Expr

namespace Stmt

mutual

def functionOccurrences : FunctionDecl → List (Nat × Token)
  | ⟨_, _, body⟩ => allOccurrences body

def methodOccurrences : List FunctionDecl → List (Nat × Token)
  | [] => []
  | method :: rest => functionOccurrences method ++ methodOccurrences rest

def occurrences : Stmt → List (Nat × Token)
  | expression value | print value => value.occurrences
  | var _ initializer => Expr.optionOccurrences initializer
  | block statements => allOccurrences statements
  | branch condition thenBranch none => condition.occurrences ++ thenBranch.occurrences
  | branch condition thenBranch (some elseBranch) =>
    condition.occurrences ++ (thenBranch.occurrences ++ elseBranch.occurrences)
  | loop condition body => condition.occurrences ++ body.occurrences
  | function declaration => functionOccurrences declaration
  | ret _ value => Expr.optionOccurrences value
  | classDecl _ superclass methods =>
    Expr.optionOccurrences superclass ++ methodOccurrences methods

def allOccurrences : List Stmt → List (Nat × Token)
  | [] => []
  | statement :: rest => statement.occurrences ++ allOccurrences rest

end

/-- The scopes behind a statement that was read with the given ones around it. -/
def after (Γ : Scopes) : Stmt → Scopes
  | var name _ => Γ.declare name.lexeme
  | function declaration => Γ.declare declaration.name.lexeme
  | classDecl name _ _ => Γ.declare name.lexeme
  | _ => Γ

def classScopes (superclass : Option Expr) (Γ : Scopes) : Scopes :=
  match superclass with
  | none => ["this"] :: Γ
  | some _ => ["this"] :: ["super"] :: Γ

def bodyScopes (params : List Token) (Γ : Scopes) : Scopes :=
  (params.map Token.lexeme).reverse :: Γ

end Stmt

def sitesOf (Γ : Scopes) (occurrences : List (Nat × Token)) : List Site :=
  occurrences.map fun occurrence =>
    ⟨occurrence.1, occurrence.2, Γ.distance? occurrence.2.lexeme⟩

namespace Stmt

mutual

def functionSites (Γ : Scopes) : FunctionDecl → List Site
  | ⟨_, params, body⟩ => allSites (bodyScopes params Γ) body

def methodSites (Γ : Scopes) : List FunctionDecl → List Site
  | [] => []
  | method :: rest => functionSites Γ method ++ methodSites Γ rest

/-- The occurrences of names in a statement, each with its distance. -/
def sites (Γ : Scopes) : Stmt → List Site
  | expression value | print value => sitesOf Γ value.occurrences
  | var name initializer => sitesOf (Γ.declare name.lexeme) (Expr.optionOccurrences initializer)
  | block statements => allSites ([] :: Γ) statements
  | branch condition thenBranch none => sitesOf Γ condition.occurrences ++ thenBranch.sites Γ
  | branch condition thenBranch (some elseBranch) =>
    sitesOf Γ condition.occurrences ++ (thenBranch.sites Γ ++ elseBranch.sites Γ)
  | loop condition body => sitesOf Γ condition.occurrences ++ body.sites Γ
  | function declaration => functionSites (Γ.declare declaration.name.lexeme) declaration
  | ret _ value => sitesOf Γ (Expr.optionOccurrences value)
  | classDecl name superclass methods =>
    sitesOf (Γ.declare name.lexeme) (Expr.optionOccurrences superclass) ++
      methodSites (classScopes superclass (Γ.declare name.lexeme)) methods

def allSites (Γ : Scopes) : List Stmt → List Site
  | [] => []
  | statement :: rest => statement.sites Γ ++ allSites (statement.after Γ) rest

end

end Stmt

/-- What is on record for the occurrences of names: a distance, or that there is none. -/
abbrev Records := Nat → Token → Option Nat → Prop

def Agrees (records : Records) (sites : List Site) : Prop :=
  ∀ site ∈ sites, records site.id site.name site.distance

theorem agrees_append {records : Records} {first second : List Site} :
    Agrees records (first ++ second) ↔ Agrees records first ∧ Agrees records second :=
  List.forall_mem_append

namespace Expr

mutual

/-- Every occurrence has its lexical distance on record, none reads the pending name, and what is
assigned is no receiver or superclass. -/
def Resolved (records : Records) (Γ : Scopes) (pending : Option String) : Expr → Prop
  | literal _ => True
  | grouping inner => inner.Resolved records Γ pending
  | unary _ operand => operand.Resolved records Γ pending
  | binary left _ right | logical left _ right =>
    left.Resolved records Γ pending ∧ right.Resolved records Γ pending
  | var id name => records id name (Γ.distance? name.lexeme) ∧ pending ≠ some name.lexeme
  | assign id name value =>
    value.Resolved records Γ pending ∧ records id name (Γ.distance? name.lexeme) ∧
      IsPlain name.lexeme
  | call callee _ arguments =>
    callee.Resolved records Γ pending ∧ AllResolved records Γ pending arguments
  | get object _ => object.Resolved records Γ pending
  | set object _ value => object.Resolved records Γ pending ∧ value.Resolved records Γ pending
  | this id keyword =>
    keyword.lexeme = "this" ∧ pending ≠ some "this" ∧
      ∃ d, Γ.distance? "this" = some d ∧ records id keyword (some d)
  | super id keyword _ =>
    pending ≠ some "super" ∧ pending ≠ some "this" ∧
      ∃ d, Γ.distance? "super" = some (d + 1) ∧ Γ.distance? "this" = some d ∧
        records id keyword (some (d + 1))

def AllResolved (records : Records) (Γ : Scopes) (pending : Option String) : List Expr → Prop
  | [] => True
  | e :: rest => e.Resolved records Γ pending ∧ AllResolved records Γ pending rest

end

theorem allResolved_iff {records : Records} {Γ : Scopes} {pending : Option String} {es : List Expr} :
    AllResolved records Γ pending es ↔ ∀ e ∈ es, e.Resolved records Γ pending := by
  induction es with
  | nil => simp [AllResolved]
  | cons e rest ih => simp [AllResolved, ih]

end Expr

namespace Stmt

mutual

def FunctionResolved (records : Records) (Γ : Scopes) : FunctionDecl → Prop
  | ⟨_, params, body⟩ =>
    (params.map Token.lexeme).Nodup ∧ (∀ param ∈ params, IsPlain param.lexeme) ∧
      AllResolved records (bodyScopes params Γ) body

def MethodsResolved (records : Records) (Γ : Scopes) : List FunctionDecl → Prop
  | [] => True
  | method :: rest => FunctionResolved records Γ method ∧ MethodsResolved records Γ rest

/-- Every occurrence has its lexical distance on record, and no scope declares a name twice. -/
def Resolved (records : Records) (Γ : Scopes) : Stmt → Prop
  | expression value | print value => value.Resolved records Γ none
  | var name initializer =>
    IsPlain name.lexeme ∧ Γ.IsFresh name.lexeme ∧
      ∀ e ∈ initializer, e.Resolved records (Γ.declare name.lexeme) (Γ.pending name.lexeme)
  | block statements => AllResolved records ([] :: Γ) statements
  | branch condition thenBranch none =>
    condition.Resolved records Γ none ∧ thenBranch.isStatement = true ∧
      thenBranch.Resolved records Γ
  | branch condition thenBranch (some elseBranch) =>
    condition.Resolved records Γ none ∧
      (thenBranch.isStatement = true ∧ thenBranch.Resolved records Γ) ∧
        (elseBranch.isStatement = true ∧ elseBranch.Resolved records Γ)
  | loop condition body =>
    condition.Resolved records Γ none ∧ body.isStatement = true ∧ body.Resolved records Γ
  | function declaration =>
    IsPlain declaration.name.lexeme ∧ Γ.IsFresh declaration.name.lexeme ∧
      FunctionResolved records (Γ.declare declaration.name.lexeme) declaration
  | ret _ value => ∀ e ∈ value, e.Resolved records Γ none
  | classDecl name superclass methods =>
    IsPlain name.lexeme ∧ Γ.IsFresh name.lexeme ∧
      (∀ e ∈ superclass, e.Resolved records (Γ.declare name.lexeme) (Γ.pending name.lexeme)) ∧
        MethodsResolved records (classScopes superclass (Γ.declare name.lexeme)) methods

def AllResolved (records : Records) (Γ : Scopes) : List Stmt → Prop
  | [] => True
  | statement :: rest =>
    statement.Resolved records Γ ∧ AllResolved records (statement.after Γ) rest

end

theorem functionResolved_iff {records : Records} {Γ : Scopes} {d : FunctionDecl} :
    FunctionResolved records Γ d ↔ (d.params.map Token.lexeme).Nodup ∧
      (∀ param ∈ d.params, IsPlain param.lexeme) ∧
        AllResolved records (bodyScopes d.params Γ) d.body := by
  cases d
  rfl

theorem methodsResolved_iff {records : Records} {Γ : Scopes} {methods : List FunctionDecl} :
    MethodsResolved records Γ methods ↔ ∀ d ∈ methods, FunctionResolved records Γ d := by
  induction methods with
  | nil => simp [MethodsResolved]
  | cons d rest ih => simp [MethodsResolved, ih]

theorem after_eq_of_isStatement {s : Stmt} (h : s.isStatement = true) (Γ : Scopes) :
    s.after Γ = Γ := by
  cases s <;> first | rfl | cases h

end Stmt

def Records.Grow (records records' : Records) : Prop :=
  ∀ id name d, records id name d → records' id name d

section Mono

variable {records records' : Records}

mutual

theorem Expr.Resolved.mono (grows : records.Grow records') {Γ : Scopes}
    {pending : Option String} :
    (e : Expr) → e.Resolved records Γ pending → e.Resolved records' Γ pending
  | .literal _, _ => trivial
  | .grouping inner, h => Expr.Resolved.mono grows inner h
  | .unary _ operand, h => Expr.Resolved.mono grows operand h
  | .binary left _ right, h | .logical left _ right, h =>
    ⟨Expr.Resolved.mono grows left h.1, Expr.Resolved.mono grows right h.2⟩
  | .var _ _, h => ⟨grows _ _ _ h.1, h.2⟩
  | .assign _ _ value, h => ⟨Expr.Resolved.mono grows value h.1, grows _ _ _ h.2.1, h.2.2⟩
  | .call callee _ arguments, h =>
    ⟨Expr.Resolved.mono grows callee h.1, Expr.AllResolved.mono grows arguments h.2⟩
  | .get object _, h => Expr.Resolved.mono grows object h
  | .set object _ value, h =>
    ⟨Expr.Resolved.mono grows object h.1, Expr.Resolved.mono grows value h.2⟩
  | .this _ _, ⟨spelled, free, d, found, known⟩ => ⟨spelled, free, d, found, grows _ _ _ known⟩
  | .super _ _ _, ⟨free, free', d, found, found', known⟩ =>
    ⟨free, free', d, found, found', grows _ _ _ known⟩

theorem Expr.AllResolved.mono (grows : records.Grow records') {Γ : Scopes}
    {pending : Option String} : (es : List Expr) →
    Expr.AllResolved records Γ pending es → Expr.AllResolved records' Γ pending es
  | [], _ => trivial
  | e :: rest, h => ⟨Expr.Resolved.mono grows e h.1, Expr.AllResolved.mono grows rest h.2⟩

end

mutual

theorem Stmt.FunctionResolved.mono (grows : records.Grow records') :
    (d : FunctionDecl) → ∀ {Γ : Scopes},
    Stmt.FunctionResolved records Γ d → Stmt.FunctionResolved records' Γ d
  | ⟨_, _, body⟩, _, h => ⟨h.1, h.2.1, Stmt.AllResolved.mono grows body h.2.2⟩

theorem Stmt.MethodsResolved.mono (grows : records.Grow records') :
    (ds : List FunctionDecl) → ∀ {Γ : Scopes},
    Stmt.MethodsResolved records Γ ds → Stmt.MethodsResolved records' Γ ds
  | [], _, _ => trivial
  | d :: rest, _, h =>
    ⟨Stmt.FunctionResolved.mono grows d h.1, Stmt.MethodsResolved.mono grows rest h.2⟩

theorem Stmt.Resolved.mono (grows : records.Grow records') :
    (s : Stmt) → ∀ {Γ : Scopes}, s.Resolved records Γ → s.Resolved records' Γ
  | .expression value, _, h | .print value, _, h => Expr.Resolved.mono grows value h
  | .var _ _, _, h => ⟨h.1, h.2.1, fun e found => Expr.Resolved.mono grows e (h.2.2 e found)⟩
  | .block statements, _, h => Stmt.AllResolved.mono grows statements h
  | .branch condition thenBranch none, _, h =>
    ⟨Expr.Resolved.mono grows condition h.1, h.2.1, Stmt.Resolved.mono grows thenBranch h.2.2⟩
  | .branch condition thenBranch (some elseBranch), _, h =>
    ⟨Expr.Resolved.mono grows condition h.1,
      ⟨h.2.1.1, Stmt.Resolved.mono grows thenBranch h.2.1.2⟩,
      ⟨h.2.2.1, Stmt.Resolved.mono grows elseBranch h.2.2.2⟩⟩
  | .loop condition body, _, h =>
    ⟨Expr.Resolved.mono grows condition h.1, h.2.1, Stmt.Resolved.mono grows body h.2.2⟩
  | .function declaration, _, h =>
    ⟨h.1, h.2.1, Stmt.FunctionResolved.mono grows declaration h.2.2⟩
  | .ret _ _, _, h => fun e found => Expr.Resolved.mono grows e (h e found)
  | .classDecl _ _ methods, _, h =>
    ⟨h.1, h.2.1, fun e found => Expr.Resolved.mono grows e (h.2.2.1 e found),
      Stmt.MethodsResolved.mono grows methods h.2.2.2⟩

theorem Stmt.AllResolved.mono (grows : records.Grow records') :
    (ss : List Stmt) → ∀ {Γ : Scopes},
    Stmt.AllResolved records Γ ss → Stmt.AllResolved records' Γ ss
  | [], _, _ => trivial
  | s :: rest, _, h => ⟨Stmt.Resolved.mono grows s h.1, Stmt.AllResolved.mono grows rest h.2⟩

end

end Mono

end Lox
