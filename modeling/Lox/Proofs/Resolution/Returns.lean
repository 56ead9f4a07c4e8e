import Lox.Proofs.Resolution.Places

namespace Lox

namespace Stmt

mutual

/-- A statement and those inside it. What functions and methods declared in it hold is theirs. -/
def parts : Stmt → List Stmt
  | block statements => block statements :: allParts statements
  | branch condition thenBranch none => branch condition thenBranch none :: parts thenBranch
  | branch condition thenBranch (some elseBranch) =>
    branch condition thenBranch (some elseBranch) :: (parts thenBranch ++ parts elseBranch)
  | loop condition body => loop condition body :: parts body
  | statement => [statement]

def allParts : List Stmt → List Stmt
  | [] => []
  | statement :: rest => parts statement ++ allParts rest

end

theorem self_mem_parts (statement : Stmt) : statement ∈ statement.parts := by
  cases statement with
  | branch condition thenBranch elseBranch => cases elseBranch <;> simp [parts]
  | _ => simp [parts]

theorem mem_allParts {part : Stmt} {statements : List Stmt} :
    part ∈ allParts statements ↔ ∃ statement ∈ statements, part ∈ statement.parts := by
  induction statements with
  | nil => simp [allParts]
  | cons statement rest ih => simp [allParts, ih]

def isReturn : Stmt → Bool
  | ret _ _ => true
  | _ => false

/-- Whether a statement may stand in a body of this kind, as far as `return` goes. -/
def MayReturn (kind : EnclosingFunction) : Stmt → Prop
  | ret _ value => kind ≠ .none ∧ (kind = .initializer → value = none)
  | _ => True

end Stmt

/-- A step of static resolution that reports what it finds, and if that is nothing makes sure of a
fact. -/
def Vets (f : Resolution → Resolution) (Fact : Prop) : Prop :=
  ∀ r, ∃ new, (f r).errors = r.errors ++ new ∧ (new = [] → Fact)

namespace Vets

variable {f g : Resolution → Resolution} {Fact Fact' : Prop}

theorem seq (first : Vets f Fact) (second : Vets g Fact') :
    Vets (fun r => g (f r)) (Fact ∧ Fact') := by
  intro r
  obtain ⟨new, errors, holds⟩ := first r
  obtain ⟨more, errors', holds'⟩ := second (f r)
  refine ⟨new ++ more, by rw [errors', errors, List.append_assoc], fun none => ?_⟩
  obtain ⟨noneBefore, noneAfter⟩ := List.append_eq_nil_iff.mp none
  exact ⟨holds noneBefore, holds' noneAfter⟩

theorem weaken (h : Vets f Fact) (implies : Fact → Fact') : Vets f Fact' := by
  intro r
  obtain ⟨new, errors, holds⟩ := h r
  exact ⟨new, errors, fun none => implies (holds none)⟩

theorem quiet (same : ∀ r, (f r).errors = r.errors) : Vets f True :=
  fun r => ⟨[], by rw [same, List.append_nil], fun _ => trivial⟩

theorem enter : Vets Resolution.enter True := quiet fun _ => rfl

theorem leave : Vets Resolution.leave True := quiet fun _ => rfl

theorem report (cause : ResolveError.Cause) (token : Token) :
    Vets (fun r => r.report cause token) Fact :=
  fun _ => ⟨_, rfl, fun none => (List.cons_ne_nil _ _ none).elim⟩

theorem reportIf (Fact : Prop) (violated : Resolution → Bool) (cause : ResolveError.Cause)
    (token : Token) (holds : ∀ r, violated r = false → Fact) :
    Vets (fun r => r.reportIf (violated r) cause token) Fact := by
  intro r
  refine ⟨_, Resolution.reportIf_errors .., fun none => holds r ?_⟩
  cases v : violated r with
  | false => rfl
  | true => simp [v] at none

theorem occurrence (id : Nat) (name : Token) : Vets (fun r => r.occurrence id name) True :=
  quiet fun r => r.occurrence_errors id name

theorem declare (name : Token) : Vets (fun r => r.declare name) True :=
  fun r => ⟨_, r.declare_errors name, fun _ => trivial⟩

theorem declareAndDefine (name : Token) : Vets (fun r => r.declareAndDefine name) True :=
  ((declare name).seq (quiet fun r => r.mark_errors name.lexeme true)).weaken fun _ => trivial

theorem declareAll (names : List Token) :
    Vets (fun r => names.foldl Resolution.declareAndDefine r) True := by
  induction names with
  | nil => exact quiet fun _ => rfl
  | cons name rest ih => exact ((declareAndDefine name).seq ih).weaken fun _ => trivial

end Vets

namespace Expr

variable (enclosing : EnclosingClass)

mutual

theorem vets : (e : Expr) → Vets (fun r => e.resolve enclosing r) True
  | literal _ => .quiet fun _ => rfl
  | grouping inner => vets inner
  | unary _ operand => vets operand
  | binary left _ right | logical left _ right =>
    ((vets left).seq (vets right)).weaken fun _ => trivial
  | var id name =>
    ((Vets.reportIf True _ _ _ fun _ _ => trivial).seq (.occurrence id name)).weaken
      fun _ => trivial
  | assign id name value => ((vets value).seq (.occurrence id name)).weaken fun _ => trivial
  | call callee _ arguments => ((vets callee).seq (vetsList arguments)).weaken fun _ => trivial
  | get object _ => vets object
  | set object _ value => ((vets value).seq (vets object)).weaken fun _ => trivial
  | this id keyword => by
    cases enclosing with
    | none => exact .report _ _
    | _ => exact .occurrence id keyword
  | super id keyword _ => by
    cases enclosing with
    | subclass => exact .occurrence id keyword
    | _ => exact .report _ _

theorem vetsList : (es : List Expr) → Vets (fun r => resolveList enclosing es r) True
  | [] => .quiet fun _ => rfl
  | e :: rest => ((vets e).seq (vetsList rest)).weaken fun _ => trivial

end

theorem vetsOption : (e : Option Expr) → Vets (fun r => resolveOption enclosing e r) True
  | none => .quiet fun _ => rfl
  | some e => e.vets enclosing

end Expr

namespace Stmt

theorem vets_enterClass (name : Token) (superclass : Option Expr) :
    Vets (fun r => enterClass name superclass r) True := by
  have enter (key : String) : Vets (fun r => r.enter.define key) True :=
    .quiet fun r => r.enter.mark_errors key true
  cases superclass with
  | none => exact enter "this"
  | some e =>
    have superclass := (Vets.reportIf True (fun _ => inheritsItself name e) .inheritsItself
      (superclassName name e) fun _ _ => trivial).seq (e.vets .subclass)
    exact ((superclass.seq (enter "super")).seq (enter "this")).weaken fun _ => trivial

theorem vets_leaveClass (superclass : Option Expr) :
    Vets (fun r => leaveClass superclass r) True :=
  .quiet fun _ => by cases superclass <;> rfl

theorem vets_ret (enclosing : EnclosingClass) (kind : EnclosingFunction) (keyword : Token)
    (value : Option Expr) :
    Vets (fun r => (ret keyword value).resolve enclosing kind r)
      ((ret keyword value).MayReturn kind) := by
  have inside := Vets.reportIf (kind ≠ .none) (fun _ => kind == .none) .topLevelReturn
    keyword fun _ passed => by simpa using passed
  have bare := Vets.reportIf (kind = .initializer → value = none)
    (fun _ => value.isSome && kind == .initializer) .initializerReturn keyword fun _ passed => by
      rintro rfl
      simpa using passed
  exact ((inside.seq bare).seq (Expr.vetsOption enclosing value)).weaken And.left

mutual

theorem vetsFunction (enclosing : EnclosingClass) (kind : EnclosingFunction) :
    (d : FunctionDecl) → Vets (fun r => resolveFunction enclosing kind d r) True
  | ⟨_, params, body⟩ =>
    (((Vets.enter.seq (.declareAll params)).seq (vetsList enclosing kind body)).seq
      .leave).weaken fun _ => trivial

theorem vetsMethods (enclosing : EnclosingClass) :
    (ds : List FunctionDecl) → Vets (fun r => resolveMethods enclosing ds r) True
  | [] => .quiet fun _ => rfl
  | d :: rest =>
    ((vetsFunction enclosing _ d).seq (vetsMethods enclosing rest)).weaken fun _ => trivial

theorem vets (enclosing : EnclosingClass) (kind : EnclosingFunction) :
    (s : Stmt) → Vets (fun r => s.resolve enclosing kind r) (∀ part ∈ s.parts, part.MayReturn kind)
  | expression value | print value =>
    (value.vets enclosing).weaken fun _ => by simp [parts, MayReturn]
  | var name initializer =>
    (((Vets.declare name).seq (Expr.vetsOption enclosing initializer)).seq
      (.quiet fun r => r.mark_errors name.lexeme true)).weaken fun _ => by simp [parts, MayReturn]
  | block statements =>
    ((Vets.enter.seq (vetsList enclosing kind statements)).seq .leave).weaken fun facts => by
      simpa [parts, MayReturn] using facts.1.2
  | branch condition thenBranch none =>
    ((condition.vets enclosing).seq (vets enclosing kind thenBranch)).weaken fun facts => by
      simpa [parts, MayReturn] using facts.2
  | branch condition thenBranch (some elseBranch) =>
    (((condition.vets enclosing).seq (vets enclosing kind thenBranch)).seq
      (vets enclosing kind elseBranch)).weaken fun facts => by
        have both : ∀ part ∈ thenBranch.parts ++ elseBranch.parts, part.MayReturn kind :=
          List.forall_mem_append.mpr ⟨facts.1.2, facts.2⟩
        simpa only [parts, List.forall_mem_cons] using ⟨trivial, both⟩
  | loop condition body =>
    ((condition.vets enclosing).seq (vets enclosing kind body)).weaken fun facts => by
      simpa [parts, MayReturn] using facts.2
  | function declaration =>
    ((Vets.declareAndDefine declaration.name).seq
      (vetsFunction enclosing .function declaration)).weaken fun _ => by simp [parts, MayReturn]
  | ret keyword value =>
    (vets_ret enclosing kind keyword value).weaken fun allowed => by simpa [parts] using allowed
  | classDecl name superclass methods =>
    ((((Vets.declareAndDefine name).seq (vets_enterClass name superclass)).seq
      (vetsMethods (enclosedBy superclass) methods)).seq
        (vets_leaveClass superclass)).weaken fun _ => by simp [parts, MayReturn]

theorem vetsList (enclosing : EnclosingClass) (kind : EnclosingFunction) :
    (ss : List Stmt) →
      Vets (fun r => resolveList enclosing kind ss r) (∀ part ∈ allParts ss, part.MayReturn kind)
  | [] => (Vets.quiet fun _ => rfl).weaken fun _ => by simp [allParts]
  | s :: rest =>
    ((vets enclosing kind s).seq (vetsList enclosing kind rest)).weaken fun facts =>
      List.forall_mem_append.mpr facts

end

/-- A program that is resolved without errors has no `return` at the top level. -/
theorem not_isReturn_of_resolve {program : List Stmt} (clean : (Lox.resolve program).errors = []) :
    ∀ part ∈ allParts program, part.isReturn = false := by
  obtain ⟨new, errors, holds⟩ := vetsList .none .none program .empty
  have none : new = [] := errors.symm.trans clean
  intro part member
  have allowed := holds none part member
  cases part with
  | ret keyword value => exact absurd rfl allowed.1
  | _ => rfl

end Stmt

end Lox
