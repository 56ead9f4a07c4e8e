import Lox.Proofs.Parser.StatementIds
import Lox.Proofs.Resolution.Places

namespace Lox

/-- Static resolution so far, and the distances entered on the way, earliest first. -/
structure Journal where
  resolution : Resolution
  entries : List (Nat × Nat)

namespace Journal

def empty : Journal := ⟨.empty, []⟩

def silent (step : Resolution → Resolution) (j : Journal) : Journal :=
  { j with resolution := step j.resolution }

def occurrence (id : Nat) (name : Token) (j : Journal) : Journal :=
  match j.resolution.distance? name.lexeme with
  | some distance =>
    { resolution := { j.resolution with locals := j.resolution.locals.insert id distance }
      entries := j.entries ++ [(id, distance)] }
  | none => j

end Journal

namespace Expr

def journalThis (enclosing : EnclosingClass) (id : Nat) (keyword : Token) (j : Journal) : Journal :=
  match enclosing with
  | .none => j.silent fun r => r.report .thisOutsideClass keyword
  | _ => j.occurrence id keyword

def journalSuper (enclosing : EnclosingClass) (id : Nat) (keyword : Token) (j : Journal) :
    Journal :=
  match enclosing with
  | .none => j.silent fun r => r.report .superOutsideClass keyword
  | .plain => j.silent fun r => r.report .superWithoutSuperclass keyword
  | .subclass => j.occurrence id keyword

mutual

def journal (enclosing : EnclosingClass) : Expr → Journal → Journal
  | literal _, j => j
  | grouping inner, j => journal enclosing inner j
  | unary _ operand, j => journal enclosing operand j
  | binary left _ right, j => journal enclosing right (journal enclosing left j)
  | logical left _ right, j => journal enclosing right (journal enclosing left j)
  | var id name, j =>
    (j.silent fun r => r.reportIf (r.isPending name.lexeme) .ownInitializer name).occurrence id name
  | assign id name value, j => (journal enclosing value j).occurrence id name
  | call callee _ arguments, j => journalList enclosing arguments (journal enclosing callee j)
  | get object _, j => journal enclosing object j
  | set object _ value, j => journal enclosing object (journal enclosing value j)
  | this id keyword, j => journalThis enclosing id keyword j
  | super id keyword _, j => journalSuper enclosing id keyword j

def journalList (enclosing : EnclosingClass) : List Expr → Journal → Journal
  | [], j => j
  | e :: rest, j => journalList enclosing rest (journal enclosing e j)

end

def journalOption (enclosing : EnclosingClass) : Option Expr → Journal → Journal
  | none, j => j
  | some e, j => e.journal enclosing j

end Expr

namespace Stmt

def journalSuperclass (name : Token) (superclass : Option Expr) (j : Journal) : Journal :=
  match superclass with
  | none => j.silent fun r => r.enter.define "this"
  | some e =>
    let j := j.silent fun r => r.reportIf (inheritsItself name e) .inheritsItself
      (superclassName name e)
    (e.journal .subclass j).silent fun r => (r.enter.define "super").enter.define "this"

mutual

def journalFunction (enclosing : EnclosingClass) (kind : EnclosingFunction) :
    FunctionDecl → Journal → Journal
  | ⟨_, params, body⟩, j =>
    (journalList enclosing kind body
      (j.silent fun r => params.foldl Resolution.declareAndDefine r.enter)).silent Resolution.leave

def journalMethods (enclosing : EnclosingClass) : List FunctionDecl → Journal → Journal
  | [], j => j
  | method :: rest, j =>
    journalMethods enclosing rest (journalFunction enclosing (.ofMethod method.name) method j)

def journal (enclosing : EnclosingClass) (kind : EnclosingFunction) : Stmt → Journal → Journal
  | expression value, j => value.journal enclosing j
  | print value, j => value.journal enclosing j
  | var name initializer, j =>
    (Expr.journalOption enclosing initializer (j.silent fun r => r.declare name)).silent
      fun r => r.define name.lexeme
  | block statements, j =>
    (journalList enclosing kind statements (j.silent Resolution.enter)).silent Resolution.leave
  | branch condition thenBranch none, j =>
    journal enclosing kind thenBranch (condition.journal enclosing j)
  | branch condition thenBranch (some elseBranch), j =>
    journal enclosing kind elseBranch
      (journal enclosing kind thenBranch (condition.journal enclosing j))
  | loop condition body, j => journal enclosing kind body (condition.journal enclosing j)
  | function declaration, j =>
    journalFunction enclosing .function declaration
      (j.silent fun r => r.declareAndDefine declaration.name)
  | ret keyword value, j =>
    Expr.journalOption enclosing value (j.silent fun r =>
      (r.reportIf (kind == .none) .topLevelReturn keyword).reportIf
        (value.isSome && kind == .initializer) .initializerReturn keyword)
  | classDecl name superclass methods, j =>
    (journalMethods (enclosedBy superclass) methods
      (journalSuperclass name superclass (j.silent fun r => r.declareAndDefine name))).silent
      (leaveClass superclass)

def journalList (enclosing : EnclosingClass) (kind : EnclosingFunction) :
    List Stmt → Journal → Journal
  | [], j => j
  | statement :: rest, j => journalList enclosing kind rest (journal enclosing kind statement j)

end

end Stmt

def journal (program : List Stmt) : Journal := Stmt.journalList .none .none program .empty

/-- The walk `g` takes the step `f`. On the way it enters distances for some of the occurrences, one
at most for each, and nothing else happens to the distances on record. -/
def Enters (occurrences : List (Nat × Token)) (f : Resolution → Resolution)
    (g : Journal → Journal) : Prop :=
  ∀ j, (g j).resolution = f j.resolution ∧
    ∃ new : List (Nat × Nat), (g j).entries = j.entries ++ new ∧
      (new.map Prod.fst).Sublist (idsOf occurrences) ∧
        (f j.resolution).locals = j.resolution.locals.enterAll new

namespace Enters

variable {first second occurrences : List (Nat × Token)} {f f' : Resolution → Resolution}
  {g g' : Journal → Journal}

theorem silent (kept : ∀ r, (f r).locals = r.locals) : Enters occurrences f (Journal.silent f) :=
  fun j => ⟨rfl, [], (List.append_nil _).symm, List.nil_sublist _, kept j.resolution⟩

theorem nothing : Enters [] (fun r => r) fun j => j := silent fun _ => rfl

theorem occurrence (id : Nat) (name : Token) :
    Enters [(id, name)] (fun r => r.occurrence id name) fun j => j.occurrence id name := by
  intro j
  cases found : j.resolution.distance? name.lexeme with
  | none =>
    simp only [Journal.occurrence, Resolution.occurrence, found]
    exact ⟨trivial, [], (List.append_nil _).symm, List.nil_sublist _, rfl⟩
  | some distance =>
    simp only [Journal.occurrence, Resolution.occurrence, found]
    exact ⟨trivial, [(id, distance)], rfl, List.Sublist.refl _, rfl⟩

theorem seq (one : Enters first f g) (other : Enters second f' g') :
    Enters (first ++ second) (fun r => f' (f r)) fun j => g' (g j) := by
  intro j
  obtain ⟨step, new, entries, ids, locals⟩ := one j
  obtain ⟨step', new', entries', ids', locals'⟩ := other (g j)
  rw [step] at step' locals'
  refine ⟨step', new ++ new', ?_, ?_, ?_⟩
  · rw [entries', entries, List.append_assoc]
  · rw [idsOf, List.map_append, List.map_append]
    exact ids.append ids'
  · rw [locals', locals, Locals.enterAll_append]

theorem behind (kept : ∀ r, (f r).locals = r.locals) (other : Enters occurrences f' g') :
    Enters occurrences (fun r => f' (f r)) fun j => g' (j.silent f) := by
  have quiet : Enters [] f (Journal.silent f) := silent kept
  exact quiet.seq other

theorem before (one : Enters occurrences f g) (kept : ∀ r, (f' r).locals = r.locals) :
    Enters occurrences (fun r => f' (f r)) fun j => (g j).silent f' := by
  have quiet : Enters [] f' (Journal.silent f') := silent kept
  simpa using one.seq quiet

end Enters

namespace Expr

variable {enclosing : EnclosingClass}

theorem enters_this (id : Nat) (keyword : Token) :
    Enters [(id, keyword)] (resolveThis enclosing id keyword) (journalThis enclosing id keyword) := by
  cases enclosing with
  | none => exact .silent fun _ => rfl
  | plain => exact .occurrence id keyword
  | subclass => exact .occurrence id keyword

theorem enters_super (id : Nat) (keyword : Token) :
    Enters [(id, keyword)] (resolveSuper enclosing id keyword)
      (journalSuper enclosing id keyword) := by
  cases enclosing with
  | none => exact .silent fun _ => rfl
  | plain => exact .silent fun _ => rfl
  | subclass => exact .occurrence id keyword

mutual

theorem enters : (e : Expr) → Enters e.occurrences (e.resolve enclosing) (e.journal enclosing)
  | literal _ => .nothing
  | grouping inner => enters inner
  | unary _ operand => enters operand
  | binary left _ right | logical left _ right => (enters left).seq (enters right)
  | var id name =>
    .behind (f := fun r => r.reportIf (r.isPending name.lexeme) .ownInitializer name)
      (fun r => by simp) (.occurrence id name)
  | assign id name value => (enters value).seq (.occurrence id name)
  | call callee _ arguments => (enters callee).seq (entersAll arguments)
  | get object _ => enters object
  | set object _ value => (enters value).seq (enters object)
  | this id keyword => enters_this id keyword
  | super id keyword _ => enters_super id keyword

theorem entersAll : (es : List Expr) →
    Enters (allOccurrences es) (resolveList enclosing es) (journalList enclosing es)
  | [] => .nothing
  | e :: rest => (enters e).seq (entersAll rest)

end

theorem enters_option (e : Option Expr) :
    Enters (optionOccurrences e) (resolveOption enclosing e) (journalOption enclosing e) := by
  cases e with
  | none => exact .nothing
  | some e => exact e.enters

end Expr

namespace Resolution

@[simp] theorem define_locals (r : Resolution) (name : String) : (r.define name).locals = r.locals :=
  r.mark_locals name true

@[simp] theorem enter_locals (r : Resolution) : r.enter.locals = r.locals := rfl

@[simp] theorem leave_locals (r : Resolution) : r.leave.locals = r.locals := rfl

theorem declareAndDefine_locals (r : Resolution) (name : Token) :
    (r.declareAndDefine name).locals = r.locals := by
  rw [declareAndDefine, define_locals, declare_locals]

theorem declareAll_locals (params : List Token) (r : Resolution) :
    (params.foldl declareAndDefine r).locals = r.locals := by
  induction params generalizing r with
  | nil => rfl
  | cons param rest ih => rw [List.foldl_cons, ih, declareAndDefine_locals]

end Resolution

namespace Stmt

theorem enters_superclass (name : Token) (superclass : Option Expr) :
    Enters (Expr.optionOccurrences superclass) (enterClass name superclass)
      (journalSuperclass name superclass) := by
  cases superclass with
  | none => exact .silent fun r => r.enter.define_locals "this"
  | some e =>
    have report : ∀ r : Resolution, (r.reportIf (inheritsItself name e) .inheritsItself
        (superclassName name e)).locals = r.locals := fun r => by simp
    have bind : ∀ r : Resolution, ((r.enter.define "super").enter.define "this").locals =
        r.locals := fun r => by simp
    exact (Enters.behind report e.enters).before bind

theorem leaveClass_locals (superclass : Option Expr) (r : Resolution) :
    (leaveClass superclass r).locals = r.locals := by
  cases superclass <;> rfl

mutual

theorem entersFunction {enclosing : EnclosingClass} {kind : EnclosingFunction} :
    (d : FunctionDecl) → Enters (functionOccurrences d) (resolveFunction enclosing kind d)
      (journalFunction enclosing kind d)
  | ⟨_, params, body⟩ =>
    (Enters.behind (fun r => Resolution.declareAll_locals params r.enter) (entersAll body)).before
      Resolution.leave_locals

theorem entersMethods {enclosing : EnclosingClass} : (ds : List FunctionDecl) →
    Enters (methodOccurrences ds) (resolveMethods enclosing ds) (journalMethods enclosing ds)
  | [] => .nothing
  | d :: rest => (entersFunction d).seq (entersMethods rest)

theorem enters {enclosing : EnclosingClass} {kind : EnclosingFunction} : (s : Stmt) →
    Enters s.occurrences (s.resolve enclosing kind) (s.journal enclosing kind)
  | .expression value | .print value => value.enters
  | .var name initializer =>
    (Enters.behind (fun r => r.declare_locals name) (Expr.enters_option initializer)).before
      fun r => r.define_locals name.lexeme
  | .block statements =>
    (Enters.behind Resolution.enter_locals (entersAll statements)).before Resolution.leave_locals
  | .branch condition thenBranch none => condition.enters.seq (enters thenBranch)
  | .branch condition thenBranch (some elseBranch) =>
    condition.enters.seq ((enters thenBranch).seq (enters elseBranch))
  | .loop condition body => condition.enters.seq (enters body)
  | .function declaration =>
    .behind (f := fun r => r.declareAndDefine declaration.name)
      (fun r => r.declareAndDefine_locals declaration.name) (entersFunction declaration)
  | .ret keyword value =>
    .behind (f := fun r => (r.reportIf (kind == .none) .topLevelReturn keyword).reportIf
      (value.isSome && kind == .initializer) .initializerReturn keyword)
      (fun r => by simp) (Expr.enters_option value)
  | .classDecl name superclass methods =>
    (Enters.behind (fun r => r.declareAndDefine_locals name)
      ((enters_superclass name superclass).seq (entersMethods methods))).before
        (leaveClass_locals superclass)

theorem entersAll {enclosing : EnclosingClass} {kind : EnclosingFunction} : (ss : List Stmt) →
    Enters (allOccurrences ss) (resolveList enclosing kind ss) (journalList enclosing kind ss)
  | [] => .nothing
  | s :: rest => (enters s).seq (entersAll rest)

end

end Stmt

section Program

variable (program : List Stmt)

theorem journal_resolution : (journal program).resolution = resolve program :=
  (Stmt.entersAll program .empty).1

theorem journal_entries : ((journal program).entries.map Prod.fst).Sublist (Stmt.allIds program) ∧
    (resolve program).locals = Locals.enterAll ∅ (journal program).entries := by
  have walk : Enters (Stmt.allOccurrences program) (Stmt.resolveList .none .none program)
      (Stmt.journalList .none .none program) := Stmt.entersAll program
  obtain ⟨-, new, entries, ids, locals⟩ := walk .empty
  have same : (journal program).entries = new := entries
  rw [same]
  exact ⟨ids, locals⟩

theorem mem_ids_of_resolved {program : List Stmt} {id d : Nat}
    (found : (resolve program).locals[id]? = some d) : id ∈ Stmt.allIds program := by
  obtain ⟨ids, locals⟩ := journal_entries program
  refine ids.subset (Classical.not_not.mp fun absent => ?_)
  rw [locals, Locals.getElem?_enterAll_of_not_mem _ _ absent, Std.TreeMap.getElem?_emptyc] at found
  cases found

end Program

end Lox
