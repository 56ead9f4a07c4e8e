import Lox.Proofs.Loops.Steps

namespace Lox.Run

open Shift

variable {L : Distances} {W : Pairing} {R : Shift} {env env' : Env}

def ExprMoved (L : Distances) (fuel : Nat) : Prop :=
  ∀ {W : Pairing} {R : Shift} {e e' : Expr} {env env' : Env}, EnvMoved W R env env' →
    e.Copies L R e' → Moved L W (Value.Moved L) (evaluate fuel e env) (evaluate fuel e' env')

def StmtMoved (L : Distances) (fuel : Nat) : Prop :=
  ∀ {W : Pairing} {R : Shift} {s s' : Stmt} {env env' : Env}, EnvMoved W R env env' →
    s.Copies L R s' → Moved L W (Flow.Moved L) (execute fuel s env) (execute fuel s' env')

theorem traverse_moved {fuel : Nat} (exprs : ExprMoved L fuel) (place : EnvMoved W R env env')
    {es es' : List Expr} (h : Expr.AllCopies L R es es') :
    Moved L W (fun W => List.Forall₂ (Value.Moved L W)) (traverse (fun e => evaluate fuel e env) es)
      (traverse (fun e => evaluate fuel e env') es') := by
  induction es generalizing W es' with
  | nil =>
    cases h
    exact .pure .nil
  | cons e rest ih =>
    cases h with
    | cons first others =>
      refine (exprs place first).bind fun W' v v' grows value => ?_
      refine (ih (place.mono grows) others).bind fun W'' vs vs' grows' values => ?_
      exact .pure (.cons (value.mono grows') values)

section Statements

variable {fuel : Nat} (stmts : StmtMoved L fuel)
include stmts

theorem sequence_moved (place : EnvMoved W R env env') {ss ss' : List Stmt}
    (h : Stmt.AllCopies L R ss ss') :
    Moved L W (Flow.Moved L) (sequence (fun s => execute fuel s env) ss)
      (sequence (fun s => execute fuel s env') ss') := by
  induction ss generalizing W ss' with
  | nil =>
    cases h
    exact .pure .normal
  | cons s rest ih =>
    cases h with
    | cons first others =>
      refine (stmts place first).bind fun W' flow flow' grows ended => ?_
      cases ended with
      | normal => exact ih (place.mono grows) others
      | returning value => exact .pure (.returning value)

theorem repeatWhile_moved (exprs : ExprMoved L fuel) (place : EnvMoved W R env env')
    {condition condition' : Expr} {body body' : Stmt} (test : condition.Copies L R condition')
    (inside : body.Copies L R body') (rounds : Nat) :
    Moved L W (Flow.Moved L)
      (repeatWhile (evaluate fuel condition env) (execute fuel body env) rounds)
      (repeatWhile (evaluate fuel condition' env') (execute fuel body' env') rounds) := by
  induction rounds generalizing W with
  | zero => exact .stop _
  | succ rounds ih =>
    refine (exprs place test).bind fun W' v v' grows value => .ite value.isTruthy ?_ (.pure .normal)
    have place' := place.mono grows
    refine (stmts place' inside).bind fun W'' flow flow' grows' ended => ?_
    cases ended with
    | normal => exact ih (place'.mono grows')
    | returning value => exact .pure (.returning value)

theorem callClosure_moved {c c' : Closure} (h : c.FunctionMoved L W c') (paren : Token)
    {arguments arguments' : List Value}
    (values : List.Forall₂ (Value.Moved L W) arguments arguments') :
    Moved L W (Value.Moved L) (callClosure (execute fuel) c paren arguments)
      (callClosure (execute fuel) c' paren arguments') := by
  have function := h
  obtain ⟨R, level, moved⟩ := h
  simp only [callClosure_eq, moved.declaration.params, moved.isInitializer]
  refine (Moved.openScope moved.env).bind fun W₁ inner inner' grows₁ entered => ?_
  have values₁ := values.imp fun _ _ value => value.mono grows₁
  refine (Moved.bindParams entered .here _ values₁).bind fun W₂ _ _ grows₂ _ => ?_
  refine (sequence_moved stmts (entered.mono grows₂) moved.declaration.body).bind
    fun W₃ flow flow' grows₃ ended => ?_
  have grows := (grows₁.trans grows₂).trans grows₃
  exact .ite rfl (Moved.boundReceiver ⟨R, level, moved.mono grows⟩ paren) (.pure ended.result)

theorem instantiate_moved {c c' : Class} (h : c.Moved L W c') (paren : Token)
    {arguments arguments' : List Value}
    (values : List.Forall₂ (Value.Moved L W) arguments arguments') :
    Moved L W (Value.Moved L) (instantiate (execute fuel) c paren arguments)
      (instantiate (execute fuel) c' paren arguments') := by
  refine Moved.newObject.bind ?_
  rintro W₁ id _ grows₁ rfl
  have moved := h.mono grows₁
  have found := moved.methods initializerName
  generalize c.findMethod initializerName = initializer at found ⊢
  generalize c'.findMethod initializerName = initializer' at found ⊢
  cases found with
  | none => exact .pure (.object id moved)
  | some method =>
    have receiver := Moved.bindReceiver method (.object id moved)
    refine receiver.bind fun W₂ bound bound' grows₂ closed => ?_
    have values₂ := values.imp fun _ _ value => value.mono (grows₁.trans grows₂)
    refine (callClosure_moved stmts closed paren values₂).bind fun W₃ _ _ grows₃ _ => ?_
    exact .pure (.object id (moved.mono (grows₂.trans grows₃)))

theorem call_moved {v v' : Value} (callee : v.Moved L W v') (paren : Token)
    {arguments arguments' : List Value}
    (values : List.Forall₂ (Value.Moved L W) arguments arguments') :
    Moved L W (Value.Moved L) (call (execute fuel) v paren arguments)
      (call (execute fuel) v' paren arguments') := by
  cases callee with
  | native f =>
    cases f
    exact Moved.readClock paren
  | function id h => exact callClosure_moved stmts h paren values
  | classValue h => exact instantiate_moved stmts h paren values
  | _ => exact Moved.fail _ paren

end Statements

theorem methodTable_moved {around inside : Shift} (place : EnvMoved W around env env')
    (wraps : inside = Enter around) {ds ds' : List FunctionDecl}
    (h : Stmt.MethodsCopies L inside ds ds') (name : String) :
    Option.Rel (Closure.MethodMoved L W) ((methodTable env ds).get? name)
      ((methodTable env' ds').get? name) := by
  -- A later method replaces an earlier one of the same name, so the tables are built up together.
  have general : ∀ table table' : Table Closure,
      Option.Rel (Closure.MethodMoved L W) (table.get? name) (table'.get? name) →
      Option.Rel (Closure.MethodMoved L W)
        ((List.foldl (fun table entry => table.insert entry.1 entry.2) table
          (ds.map fun method => (method.name.lexeme,
            (⟨method, env, method.name.lexeme == initializerName⟩ : Closure)))).get? name)
        ((List.foldl (fun table entry => table.insert entry.1 entry.2) table'
          (ds'.map fun method => (method.name.lexeme,
            (⟨method, env', method.name.lexeme == initializerName⟩ : Closure)))).get? name) := by
    induction ds generalizing ds' with
    | nil =>
      cases h
      exact fun _ _ related => related
    | cons d rest ih =>
      cases h with
      | cons first others =>
        intro table table' related
        simp only [List.map_cons, List.foldl_cons]
        refine ih others _ _ ?_
        rw [Table.get?_insert, Table.get?_insert, first.name]
        split
        · exact .some ⟨around, place, wraps ▸ first, rfl⟩
        · exact related
  exact general _ _ .none

theorem classValue_moved {around inside : Shift} (place : EnvMoved W around env env')
    (wraps : inside = Enter around) (id : Nat) (name : String)
    {superclass superclass' : Option Class} (inherited : Option.Rel (Class.Moved L W) superclass superclass')
    {methods methods' : List FunctionDecl}
    (members : Stmt.MethodsCopies L inside methods methods') :
    Value.Moved L W (.classValue ⟨id, name, superclass, methodTable env methods⟩)
      (.classValue ⟨id, name, superclass', methodTable env' methods'⟩) := by
  refine .classValue ⟨rfl, rfl, fun n => ?_⟩
  rw [Class.findMethod_mk, Class.findMethod_mk]
  have own := methodTable_moved place wraps members n
  generalize (methodTable env methods).get? n = found at own ⊢
  generalize (methodTable env' methods').get? n = found' at own ⊢
  cases own with
  | some moved => exact .some moved
  | none =>
    cases inherited with
    | none => exact .none
    | some moved => exact moved.methods n

theorem declareClass_moved (place : EnvMoved W R env env') (level : R 0 0) (name : Token)
    {methods methods' : List FunctionDecl}
    (members : Stmt.MethodsCopies L (Enter R) methods methods') :
    Moved L W Same (declareClass env name none methods) (declareClass env' name none methods') := by
  refine (Moved.define place level _ .nil).bind fun W₁ _ _ grows₁ _ => ?_
  refine (Moved.pure (V := fun W => EnvMoved W R) (place.mono grows₁)).bind
    fun W₂ scope scope' grows₂ around => ?_
  refine Moved.newIdentity.bind ?_
  rintro W₃ id _ grows₃ rfl
  have place₃ := place.mono ((grows₁.trans grows₂).trans grows₃)
  exact Moved.define place₃ level _ (classValue_moved (around.mono grows₃) rfl id _ .none members)

theorem declareSubclass_moved (place : EnvMoved W R env env') (level : R 0 0) (name : Token)
    {superclass superclass' : Class} (inherited : superclass.Moved L W superclass')
    {methods methods' : List FunctionDecl}
    (members : Stmt.MethodsCopies L (Enter (Enter R)) methods methods') :
    Moved L W Same (declareClass env name (some superclass) methods)
      (declareClass env' name (some superclass') methods') := by
  refine (Moved.define place level _ .nil).bind fun W₁ _ _ grows₁ _ => ?_
  simp only [methodScope, bind_assoc, pure_bind]
  refine (Moved.openScope (place.mono grows₁)).bind fun W₂ scope scope' grows₂ around => ?_
  have above := inherited.mono (grows₁.trans grows₂)
  refine (Moved.define around .here "super" (.classValue above)).bind fun W₃ _ _ grows₃ _ => ?_
  refine Moved.newIdentity.bind ?_
  rintro W₄ id _ grows₄ rfl
  have grows := ((grows₁.trans grows₂).trans grows₃).trans grows₄
  exact Moved.define (place.mono grows) level _
    (classValue_moved (around.mono (grows₃.trans grows₄)) rfl id _ (.some (inherited.mono grows))
      members)

theorem requireClass_moved {v v' : Value} (h : v.Moved L W v') (name : Token) :
    Moved L W (Class.Moved L) (requireClass name v) (requireClass name v') := by
  cases h with
  | classValue moved => exact .pure moved
  | _ => exact Moved.fail _ name

section Fuel

variable {fuel : Nat} (exprs : ExprMoved L fuel) (stmts : StmtMoved L fuel)
include exprs stmts

theorem evaluate_moved : ExprMoved L (fuel + 1) := by
  intro W R e e' env env' place h
  cases h with
  | literal value => exact .pure (.of_isAtom value.isAtom_value)
  | grouping inside => exact exprs place inside
  | unary operator inside =>
    refine (exprs place inside).bind fun W' v v' _ operand => ?_
    rw [operand.unary operator]
    exact Moved.ofExcept fun v => Operator.isAtom_of_unary
  | binary operator first second =>
    refine (exprs place first).bind fun W₁ v v' grows₁ left => ?_
    refine (exprs (place.mono grows₁) second).bind fun W₂ w w' grows₂ right => ?_
    rw [(left.mono grows₂).binary operator right]
    exact Moved.ofExcept fun v => Operator.isAtom_of_binary
  | logical operator first second =>
    refine (exprs place first).bind fun W₁ v v' grows₁ left => ?_
    exact .ite (left.decides operator) (.pure left) (exprs (place.mono grows₁) second)
  | var name found => exact Moved.readVariable place found name
  | assign name found inside =>
    refine (exprs place inside).bind fun W₁ v v' grows₁ value => ?_
    refine (Moved.writeVariable (place.mono grows₁) found name value).bind
      fun W₂ _ _ grows₂ _ => ?_
    exact .pure (value.mono grows₂)
  | call paren first rest =>
    refine (exprs place first).bind fun W₁ f f' grows₁ callee => ?_
    refine (traverse_moved exprs (place.mono grows₁) rest).bind
      fun W₂ arguments arguments' grows₂ values => ?_
    have callee₂ := callee.mono grows₂
    rw [← values.length_eq]
    refine (Moved.checkCall callee₂ paren _).bind fun W₃ _ _ grows₃ _ => ?_
    exact call_moved stmts (callee₂.mono grows₃) paren
      (values.imp fun _ _ value => value.mono grows₃)
  | get name first =>
    refine (exprs place first).bind fun W₁ v v' grows₁ object => ?_
    cases object with
    | object id moved => exact Moved.property id moved name
    | _ => exact Moved.fail _ name
  | set name first second =>
    refine (exprs place first).bind fun W₁ v v' grows₁ object => ?_
    cases object with
    | object id moved =>
      refine (exprs (place.mono grows₁) second).bind fun W₂ w w' grows₂ value => ?_
      refine (Moved.setField id name.lexeme value).bind fun W₃ _ _ grows₃ _ => ?_
      exact .pure (value.mono grows₃)
    | _ => exact Moved.fail _ name
  | this keyword found => exact Moved.readVariable place found keyword
  | super keyword method found => exact Moved.superMethod place found keyword method

theorem execute_moved : StmtMoved L (fuel + 1) := by
  intro W R s s' env env' place h
  cases h with
  | expression inside => exact (exprs place inside).bind fun _ _ _ _ _ => .pure .normal
  | print inside =>
    refine (exprs place inside).bind fun W₁ v v' grows₁ value => ?_
    rw [value.display]
    exact (Moved.printLine _).bind fun _ _ _ _ _ => .pure .normal
  | var name level inside =>
    cases inside with
    | none => exact (Moved.define place level _ .nil).bind fun _ _ _ _ _ => .pure .normal
    | some inside =>
      refine (exprs place inside).bind fun W₁ v v' grows₁ value => ?_
      exact (Moved.define (place.mono grows₁) level _ value).bind fun _ _ _ _ _ => .pure .normal
  | block inside =>
    refine (Moved.openScope place).bind fun W₁ inner inner' grows₁ entered => ?_
    exact sequence_moved stmts entered inside
  | branch test first =>
    refine (exprs place test).bind fun W₁ v v' grows₁ value => ?_
    exact .ite value.isTruthy (stmts (place.mono grows₁) first) (.pure .normal)
  | branchElse test first second =>
    refine (exprs place test).bind fun W₁ v v' grows₁ value => ?_
    exact .ite value.isTruthy (stmts (place.mono grows₁) first) (stmts (place.mono grows₁) second)
  | loop test inside => exact repeatWhile_moved stmts exprs place test inside fuel
  | @function _ d d' level inside =>
    simp only [execute_succ, Dialect.executeStep, plain_step, inside.name]
    have closed : Closure.FunctionMoved L W ⟨d, env, false⟩ ⟨d', env', false⟩ :=
      ⟨R, level, place, inside, rfl⟩
    refine (Moved.newFunction closed).bind fun W₁ v v' grows₁ value => ?_
    exact (Moved.define (place.mono grows₁) level _ value).bind fun _ _ _ _ _ => .pure .normal
  | ret keyword inside =>
    cases inside with
    | none => exact .pure (.returning .nil)
    | some inside => exact (exprs place inside).bind fun _ _ _ _ value => .pure (.returning value)
  | classDecl name level members =>
    exact (declareClass_moved place level name members).bind fun _ _ _ _ _ => .pure .normal
  | @subclassDecl _ name e e' _ _ level inherited members =>
    simp only [execute_succ, Dialect.executeStep, plain_step, Stmt.superclassName_copies name inherited]
    refine (exprs place inherited).bind fun W₁ v v' grows₁ value => ?_
    refine (requireClass_moved value _).bind fun W₂ c c' grows₂ superclass => ?_
    have place₂ := place.mono (grows₁.trans grows₂)
    exact (declareSubclass_moved place₂ level name superclass members).bind
      fun _ _ _ _ _ => .pure .normal

end Fuel

theorem moved (L : Distances) (fuel : Nat) : ExprMoved L fuel ∧ StmtMoved L fuel := by
  induction fuel with
  | zero => exact ⟨fun _ _ => .stop _, fun _ _ => .stop _⟩
  | succ fuel ih => exact ⟨evaluate_moved ih.1 ih.2, execute_moved ih.1 ih.2⟩

end Lox.Run
