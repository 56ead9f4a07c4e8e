import Lox.Proofs.Alike.Machines
import Lox.Proofs.Alike.Static

namespace Lox.Run

variable {M : Matching} {L L' : Locals}

inductive FlowLike (M : Matching) : Flow → Flow → Prop where
  | normal : FlowLike M .normal .normal
  | returning {v v' : Value} (like : v.Like M v') : FlowLike M (.returning v) (.returning v')

theorem FlowLike.result {flow flow' : Flow} (h : FlowLike M flow flow') :
    flow.result.Like M flow'.result := by
  cases h with
  | normal => exact .nil
  | returning like => exact like

def ExprAlike (M : Matching) (L L' : Locals) (fuel : Nat) : Prop :=
  ∀ {e e' : Expr} (env : Env), e.Like M e' →
    Alike M L L' (Value.Like M) (evaluate fuel e env) (evaluate fuel e' env)

def StmtAlike (M : Matching) (L L' : Locals) (fuel : Nat) : Prop :=
  ∀ {s s' : Stmt} (env : Env), s.Like M s' →
    Alike M L L' (FlowLike M) (execute fuel s env) (execute fuel s' env)

theorem alike_traverse {fuel : Nat} (exprs : ExprAlike M L L' fuel) (env : Env) {es es' : List Expr}
    (h : Expr.AllLike M es es') :
    Alike M L L' (List.Forall₂ (Value.Like M)) (traverse (fun e => evaluate fuel e env) es)
      (traverse (fun e => evaluate fuel e env) es') := by
  induction es generalizing es' with
  | nil =>
    cases h
    exact .pure .nil
  | cons e rest ih =>
    cases h with
    | cons first others =>
      exact (exprs env first).bind fun _ _ value => (ih others).bind fun _ _ values =>
        .pure (.cons value values)

section Statements

variable {fuel : Nat} (stmts : StmtAlike M L L' fuel)
include stmts

theorem alike_sequence (env : Env) {ss ss' : List Stmt} (h : Stmt.AllLike M ss ss') :
    Alike M L L' (FlowLike M) (sequence (fun s => execute fuel s env) ss)
      (sequence (fun s => execute fuel s env) ss') := by
  induction ss generalizing ss' with
  | nil =>
    cases h
    exact .pure .normal
  | cons s rest ih =>
    cases h with
    | cons first others =>
      refine (stmts env first).bind fun flow flow' ended => ?_
      cases ended with
      | normal => exact ih others
      | returning like => exact .pure (.returning like)

theorem alike_repeatWhile (exprs : ExprAlike M L L' fuel) (env : Env) {condition condition' : Expr}
    {body body' : Stmt} (test : condition.Like M condition') (inside : body.Like M body')
    (rounds : Nat) :
    Alike M L L' (FlowLike M)
      (repeatWhile (evaluate fuel condition env) (execute fuel body env) rounds)
      (repeatWhile (evaluate fuel condition' env) (execute fuel body' env) rounds) := by
  induction rounds with
  | zero => exact Alike.outOfFuel
  | succ rounds ih =>
    refine (exprs env test).bind fun v v' like => .ite like.isTruthy ?_ (.pure .normal)
    refine (stmts env inside).bind fun flow flow' ended => ?_
    cases ended with
    | normal => exact ih
    | returning like => exact .pure (.returning like)

theorem alike_callClosure {c c' : Closure} (h : c.Like M c') {paren paren' : Token}
    (token : paren.Like M paren') {arguments arguments' : List Value}
    (values : List.Forall₂ (Value.Like M) arguments arguments') :
    Alike M L L' (Value.Like M) (callClosure (execute fuel) c paren arguments)
      (callClosure (execute fuel) c' paren' arguments') := by
  simp only [callClosure_eq, h.env]
  refine (Alike.openScope c.env).bind fun env env' same => ?_
  subst same
  refine (Alike.bindParams env h.declaration.params values).bind fun _ _ _ => ?_
  refine (alike_sequence stmts env h.declaration.body).bind fun flow flow' ended => ?_
  exact .ite h.isInitializer (Alike.boundReceiver h token) (.pure ended.result)

theorem alike_instantiate {c c' : Class} (h : c.Like M c') {paren paren' : Token}
    (token : paren.Like M paren') {arguments arguments' : List Value}
    (values : List.Forall₂ (Value.Like M) arguments arguments') :
    Alike M L L' (Value.Like M) (instantiate (execute fuel) c paren arguments)
      (instantiate (execute fuel) c' paren' arguments') := by
  refine Alike.newObject.bind fun id id' same => ?_
  subst same
  have found := h.methods initializerName
  generalize c.findMethod initializerName = initializer at found ⊢
  generalize c'.findMethod initializerName = initializer' at found ⊢
  cases found with
  | none => exact .pure (.object id h)
  | some like =>
    exact (Alike.bindReceiver like (.object id h)).bind fun bound bound' closed =>
      (alike_callClosure stmts closed token values).bind fun _ _ _ => .pure (.object id h)

theorem alike_call {v v' : Value} (like : v.Like M v') {paren paren' : Token}
    (token : paren.Like M paren') {arguments arguments' : List Value}
    (values : List.Forall₂ (Value.Like M) arguments arguments') :
    Alike M L L' (Value.Like M) (call (execute fuel) v paren arguments)
      (call (execute fuel) v' paren' arguments') := by
  cases like with
  | native f =>
    cases f
    exact Alike.readClock token
  | function id h => exact alike_callClosure stmts h token values
  | classValue h => exact alike_instantiate stmts h token values
  | _ => exact Alike.fail _ token

end Statements

theorem methodTable_like {ds ds' : List FunctionDecl} (h : Stmt.MethodsLike M ds ds') (env : Env)
    (name : String) :
    Option.Rel (Closure.Like M) ((methodTable env ds).get? name)
      ((methodTable env ds').get? name) := by
  -- A later method replaces an earlier one of the same name, so the tables are built up together.
  have general : ∀ table table' : Table Closure,
      Option.Rel (Closure.Like M) (table.get? name) (table'.get? name) →
      Option.Rel (Closure.Like M)
        ((List.foldl (fun table entry => table.insert entry.1 entry.2) table
          (ds.map fun method => (method.name.lexeme,
            (⟨method, env, method.name.lexeme == initializerName⟩ : Closure)))).get? name)
        ((List.foldl (fun table entry => table.insert entry.1 entry.2) table'
          (ds'.map fun method => (method.name.lexeme,
            (⟨method, env, method.name.lexeme == initializerName⟩ : Closure)))).get? name) := by
    induction ds generalizing ds' with
    | nil =>
      cases h
      exact fun _ _ related => related
    | cons d rest ih =>
      cases h with
      | cons first others =>
        intro table table' related
        simp only [List.map_cons, List.foldl_cons]
        refine ih others _ _ ?_
        rw [Table.get?_insert, Table.get?_insert, first.name.lexeme]
        split
        · exact .some ⟨first, rfl, rfl⟩
        · exact related
  exact general _ _ .none

theorem alike_methodScope (env : Env) {c c' : Option Class} (h : Option.Rel (Class.Like M) c c') :
    Alike M L L' Eq (methodScope env c) (methodScope env c') := by
  cases h with
  | none => exact .pure rfl
  | some like =>
    refine (Alike.openScope env).bind fun scope scope' same => ?_
    subst same
    exact (Alike.define scope "super" (.classValue like)).bind fun _ _ _ => .pure rfl

theorem alike_declareClass (env : Env) {name name' : Token} (token : name.Like M name')
    {superclass superclass' : Option Class}
    (inherited : Option.Rel (Class.Like M) superclass superclass')
    {methods methods' : List FunctionDecl} (members : Stmt.MethodsLike M methods methods') :
    Alike M L L' Eq (declareClass env name superclass methods)
      (declareClass env name' superclass' methods') := by
  simp only [declareClass, token.lexeme]
  refine (Alike.define env _ .nil).bind fun _ _ _ =>
    (alike_methodScope env inherited).bind fun scope scope' same => ?_
  subst same
  refine Alike.newIdentity.bind fun id id' same => ?_
  subst same
  refine Alike.define env _ (.classValue ⟨rfl, rfl, fun n => ?_⟩)
  rw [Class.findMethod_mk, Class.findMethod_mk]
  have own := methodTable_like members scope n
  generalize (methodTable scope methods).get? n = found at own ⊢
  generalize (methodTable scope methods').get? n = found' at own ⊢
  cases own with
  | some like => exact .some like
  | none =>
    cases inherited with
    | none => exact .none
    | some like => exact like.methods n

theorem alike_requireClass {v v' : Value} (like : v.Like M v') {name name' : Token}
    (token : name.Like M name') :
    Alike M L L' (Class.Like M) (requireClass name v) (requireClass name' v') := by
  cases like with
  | classValue h => exact .pure h
  | _ => exact Alike.fail _ token

section Fuel

variable {fuel : Nat} (exprs : ExprAlike M L L' fuel) (stmts : StmtAlike M L L' fuel)
include exprs stmts

theorem alike_evaluate : ExprAlike M L L' (fuel + 1) := by
  intro e e' env h
  cases h with
  | literal value => exact .pure value.value_like
  | grouping inside => exact exprs env inside
  | unary token inside =>
    exact (exprs env inside).bind fun _ _ operand =>
      Alike.ofExcept (Operator.unary_like token operand)
  | binary first token second =>
    exact (exprs env first).bind fun _ _ left => (exprs env second).bind fun _ _ right =>
      Alike.ofExcept (Operator.binary_like token left right)
  | logical first token second =>
    exact (exprs env first).bind fun _ _ left =>
      .ite (Operator.decides_like token left) (.pure left) (exprs env second)
  | var same token => exact Alike.readVariable same token env
  | assign same token inside =>
    exact (exprs env inside).bind fun _ _ value =>
      (Alike.writeVariable same token env value).bind fun _ _ _ => .pure value
  | call first token rest =>
    refine (exprs env first).bind fun _ _ callee =>
      (alike_traverse exprs env rest).bind fun arguments arguments' values => ?_
    rw [← values.length_eq]
    exact (Alike.checkCall callee token _).bind fun _ _ _ => alike_call stmts callee token values
  | get first token =>
    refine (exprs env first).bind fun _ _ object => ?_
    cases object with
    | object id h => exact Alike.property id h token
    | _ => exact Alike.fail _ token
  | set first token second =>
    refine (exprs env first).bind fun _ _ object => ?_
    cases object with
    | object id h =>
      simp only [token.lexeme]
      exact (exprs env second).bind fun _ _ value =>
        (Alike.setField id _ value).bind fun _ _ _ => .pure value
    | _ => exact Alike.fail _ token
  | this same token => exact Alike.readVariable same token env
  | super same token name => exact Alike.superMethod same token name env

theorem alike_execute : StmtAlike M L L' (fuel + 1) := by
  intro s s' env h
  cases h with
  | expression inside => exact (exprs env inside).bind fun _ _ _ => .pure .normal
  | print inside =>
    refine (exprs env inside).bind fun v v' value => ?_
    rw [value.display]
    exact (Alike.printLine _).bind fun _ _ _ => .pure .normal
  | var token inside =>
    cases inside with
    | none =>
      simp only [execute_succ, Dialect.executeStep, plain_step, plain_env, token.lexeme]
      exact (Alike.define env _ .nil).bind fun _ _ _ => .pure .normal
    | some inside =>
      simp only [execute_succ, Dialect.executeStep, plain_step, plain_env, token.lexeme]
      exact (exprs env inside).bind fun _ _ value =>
        (Alike.define env _ value).bind fun _ _ _ => .pure .normal
  | block inside =>
    refine (Alike.openScope env).bind fun inner inner' same => ?_
    subst same
    exact alike_sequence stmts inner inside
  | branch test first =>
    exact (exprs env test).bind fun _ _ value =>
      .ite value.isTruthy (stmts env first) (.pure .normal)
  | branchElse test first second =>
    exact (exprs env test).bind fun _ _ value =>
      .ite value.isTruthy (stmts env first) (stmts env second)
  | loop test inside => exact alike_repeatWhile stmts exprs env test inside fuel
  | @function d d' inside =>
    have closed : Closure.Like M ⟨d, env, false⟩ ⟨d', env, false⟩ := ⟨inside, rfl, rfl⟩
    simp only [execute_succ, Dialect.executeStep, plain_step, plain_env, inside.name.lexeme]
    exact (Alike.newFunction closed).bind fun _ _ value =>
      (Alike.define env _ value).bind fun _ _ _ => .pure .normal
  | ret token inside =>
    cases inside with
    | none => exact .pure (.returning .nil)
    | some inside => exact (exprs env inside).bind fun _ _ value => .pure (.returning value)
  | classDecl token inherited members =>
    cases inherited with
    | none => exact (alike_declareClass env token .none members).bind fun _ _ _ => .pure .normal
    | some inside =>
      exact (exprs env inside).bind fun _ _ value =>
        (alike_requireClass value (Stmt.superclassName_like token inside)).bind fun _ _ c =>
        (alike_declareClass env token (.some c) members).bind fun _ _ _ => .pure .normal

end Fuel

theorem alike (M : Matching) (L L' : Locals) (fuel : Nat) :
    ExprAlike M L L' fuel ∧ StmtAlike M L L' fuel := by
  induction fuel with
  | zero => exact ⟨fun _ _ => Alike.outOfFuel, fun _ _ => Alike.outOfFuel⟩
  | succ fuel ih => exact ⟨alike_evaluate ih.1 ih.2, alike_execute ih.1 ih.2⟩

theorem alike_program (fuel : Nat) {ss ss' : List Stmt} (h : Stmt.AllLike M ss ss') :
    Alike M L L' Eq (program fuel ss) (program fuel ss') := by
  induction ss generalizing ss' with
  | nil =>
    cases h
    exact .pure rfl
  | cons s rest ih =>
    cases h with
    | cons first others => exact ((alike M L L' fuel).2 globals first).bind fun _ _ _ => ih others

end Lox.Run
