import Lox.Evaluation

namespace Lox

def onState {ε σ τ α : Type} (f : σ → τ) : EStateM.Result ε σ α → EStateM.Result ε τ α
  | .ok a s => .ok a (f s)
  | .error e s => .error e (f s)

def lastState {ε σ α : Type} : EStateM.Result ε σ α → σ
  | .ok _ s => s
  | .error _ s => s

theorem lastState_onState {ε σ τ α : Type} (f : σ → τ) (result : EStateM.Result ε σ α) :
    lastState (onState f result) = f (lastState result) := by
  cases result <;> rfl

def Machine.printingTo (m : Machine) (sink : Sink) : Machine := { m with sink := sink }

namespace Run

variable {α β : Type}

/-- A step that has nothing to do with the sink and leaves the distances alone. -/
structure IsQuiet (x : Run α) : Prop where
  anySink : ∀ m sink, x (m.printingTo sink) = onState (·.printingTo sink) (x m)
  locals : ∀ m, (lastState (x m)).locals = m.locals

namespace IsQuiet

theorem pure (a : α) : IsQuiet (Pure.pure a : Run α) := ⟨fun _ _ => rfl, fun _ => rfl⟩

theorem stop (reason : Stop) : IsQuiet (Run.stop reason : Run α) := ⟨fun _ _ => rfl, fun _ => rfl⟩

theorem fail (cause : RuntimeError.Cause) (token : Token) :
    IsQuiet (Run.fail cause token : Run α) :=
  stop _

theorem bind {x : Run α} {f : α → Run β} (first : IsQuiet x) (second : ∀ a, IsQuiet (f a)) :
    IsQuiet (x >>= f) where
  anySink m sink := by
    simp only [Bind.bind, EStateM.bind, first.anySink]
    cases x m with
    | ok a m' => exact (second a).anySink m' sink
    | error reason m' => rfl
  locals m := by
    have start := first.locals m
    simp only [Bind.bind, EStateM.bind]
    cases ends : x m with
    | ok a m' =>
      rw [ends] at start
      exact ((second a).locals m').trans start
    | error reason m' =>
      rw [ends] at start
      exact start

theorem onStore (f : Store → α × Store) : IsQuiet (Run.onStore f) := ⟨fun _ _ => rfl, fun _ => rfl⟩

theorem read {f : Machine → α} (h : ∀ m sink, f (m.printingTo sink) = f m) :
    IsQuiet (Run.read f) where
  anySink m sink := by simp only [Run.read, h, onState]
  locals _ := rfl

theorem ofExcept (result : Except RuntimeError α) : IsQuiet (Run.ofExcept result) := by
  cases result with
  | ok a => exact pure a
  | error error => exact stop _

theorem readClock (paren : Token) : IsQuiet (Run.readClock paren) := by
  have tick : IsQuiet Run.tick := ⟨fun _ _ => rfl, fun _ => rfl⟩
  refine tick.bind fun reading => ?_
  cases reading with
  | ok seconds => exact pure _
  | error reason => exact fail _ _

theorem sink {x : Run α} (h : IsQuiet x) (m : Machine) : (lastState (x m)).sink = m.sink := by
  have same : lastState (x m) = (lastState (x m)).printingTo m.sink :=
    (congrArg lastState (h.anySink m m.sink)).trans (lastState_onState _ _)
  rw [same]
  rfl

theorem openScope (env : Env) : IsQuiet (Run.openScope env) := (onStore _).bind fun _ => pure _

theorem define (env : Env) (name : String) (value : Value) :
    IsQuiet (Run.define env name value) := by
  cases env with
  | nil => exact pure _
  | cons scope env => exact onStore fun store => ((), store.define scope name value)

theorem readVariable (id : Nat) (name : Token) (env : Env) :
    IsQuiet (Run.readVariable id name env) := by
  have same (m : Machine) (sink : Sink) :
      Run.readVariable id name env (m.printingTo sink) =
          onState (·.printingTo sink) (Run.readVariable id name env m) ∧
        lastState (Run.readVariable id name env m) = m := by
    cases hd : m.locals[id]? with
    | some distance =>
      cases hv : m.store.getAt? env distance name.lexeme <;>
        simp [Run.readVariable, Run.fail, Run.stop, Machine.printingTo, onState, lastState, hd, hv]
    | none =>
      cases hv : m.store.get? globals name.lexeme <;>
        simp [Run.readVariable, Run.fail, Run.stop, Machine.printingTo, onState, lastState, hd, hv]
  exact ⟨fun m sink => (same m sink).1, fun m => congrArg Machine.locals (same m m.sink).2⟩

theorem writeVariable (id : Nat) (name : Token) (env : Env) (value : Value) :
    IsQuiet (Run.writeVariable id name env value) := by
  refine (read fun _ _ => rfl).bind fun distance => ?_
  cases distance with
  | some distance =>
    dsimp only
    split
    · exact onStore _
    · exact fail _ _
  | none =>
    refine (read fun _ _ => rfl).bind fun scope => ?_
    cases scope with
    | some scope => exact onStore _
    | none => exact fail _ _

theorem newFunction (closure : Closure) : IsQuiet (Run.newFunction closure) :=
  (onStore _).bind fun _ => pure _

theorem bindReceiver (method : Closure) (receiver : Value) :
    IsQuiet (Run.bindReceiver method receiver) :=
  (openScope _).bind fun _ => (define _ _ _).bind fun _ => pure _

theorem superMethod (id : Nat) (keyword method : Token) (env : Env) :
    IsQuiet (Run.superMethod id keyword method env) := by
  refine (read fun _ _ => rfl).bind fun distance => ?_
  cases distance with
  | none => exact fail _ _
  | some distance =>
    refine (read fun _ _ => rfl).bind fun above => ?_
    split
    · rename_i superclass
      refine (read fun _ _ => rfl).bind fun receiver => ?_
      split
      · cases superclass.findMethod method.lexeme with
        | some found => exact (bindReceiver _ _).bind fun _ => newFunction _
        | none => exact fail _ _
      · exact fail _ _
    · exact fail _ _

theorem bindParams (env : Env) (params : List Token) (arguments : List Value) :
    IsQuiet (Run.bindParams env params arguments) := by
  induction params generalizing arguments with
  | nil => exact pure _
  | cons param params ih =>
    cases arguments with
    | nil => exact pure _
    | cons argument arguments => exact (define _ _ _).bind fun _ => ih arguments

theorem boundReceiver (closure : Closure) (paren : Token) :
    IsQuiet (Run.boundReceiver closure paren) := by
  refine (read fun _ _ => rfl).bind fun value => ?_
  cases value with
  | some value => exact pure _
  | none => exact fail _ _

theorem checkCall (callee : Value) (paren : Token) (given : Nat) :
    IsQuiet (Run.checkCall callee paren given) := by
  unfold Run.checkCall
  split
  · exact fail _ _
  · split
    · exact pure _
    · exact fail _ _

theorem requireClass (token : Token) (value : Value) : IsQuiet (Run.requireClass token value) := by
  cases value with
  | classValue c => exact pure c
  | _ => exact fail _ _

theorem methodScope (env : Env) (superclass : Option Class) :
    IsQuiet (Run.methodScope env superclass) := by
  cases superclass with
  | none => exact pure _
  | some c => exact (openScope env).bind fun _ => (define _ _ _).bind fun _ => pure _

theorem declareClass (env : Env) (name : Token) (superclass : Option Class)
    (methods : List FunctionDecl) : IsQuiet (Run.declareClass env name superclass methods) :=
  (define _ _ _).bind fun _ => (methodScope _ _).bind fun _ => (onStore _).bind fun _ =>
    define _ _ _

end IsQuiet

end Run

/-- A relation between the runs of a runner and the plain ones that is kept by everything that running
is made of. -/
structure Runner.Follows {m : Type → Type} [Monad m] (runner : Runner m)
    (R : (α : Type) → m α → Run α → Prop) : Prop where
  pure : ∀ {α : Type} (a : α), R α (Pure.pure a) (Pure.pure a)
  bind : ∀ {α β : Type} {x : m α} {y : Run α} {f : α → m β} {g : α → Run β},
    R α x y → (∀ a, R β (f a) (g a)) → R β (x >>= f) (y >>= g)
  quiet : ∀ {α : Type} {x : Run α}, x.IsQuiet → R α (runner.step x) x
  printLine : ∀ text,
    R Unit (runner.around (.printing text) (runner.step (Run.printLine text))) (Run.printLine text)
  around : ∀ {α : Type} {activity : Activity α} {x : m α} {y : Run α},
    activity.isPrinting = false → R α x y → R α (runner.around activity x) y

namespace Runner.Follows

variable {m : Type → Type} [Monad m] {runner : Runner m} {R : (α : Type) → m α → Run α → Prop}
  {α β : Type}

omit [Monad m] in
theorem ite {b : Bool} {x x' : m α} {y y' : Run α} (yes : R α x y) (no : R α x' y') :
    R α (if b then x else x') (if b then y else y') := by
  cases b with
  | true => exact yes
  | false => exact no

variable (follows : runner.Follows R)
include follows

theorem stop (reason : Stop) : R α (runner.step (Run.stop reason)) (Run.stop reason) :=
  follows.quiet (.stop reason)

theorem fail (cause : RuntimeError.Cause) (token : Token) :
    R α (runner.step (Run.fail cause token)) (Run.fail cause token) :=
  follows.quiet (.fail cause token)

theorem traverse {f : α → m β} {g : α → Run β} (each : ∀ a, R β (f a) (g a)) (as : List α) :
    R (List β) (Run.traverse f as) (Run.traverse g as) := by
  induction as with
  | nil => exact follows.pure []
  | cons a rest ih =>
    exact follows.bind (each a) fun b => follows.bind ih fun others => follows.pure (b :: others)

theorem sequence {execute : Stmt → m Flow} {execute' : Stmt → Run Flow}
    (each : ∀ s, R Flow (execute s) (execute' s)) (ss : List Stmt) :
    R Flow (Run.sequence execute ss) (Run.sequence execute' ss) := by
  induction ss with
  | nil => exact follows.pure Flow.normal
  | cons s rest ih =>
    refine follows.bind (each s) fun flow => ?_
    cases flow with
    | normal => exact ih
    | returning value => exact follows.pure _

theorem repeatWhile {condition : m Value} {condition' : Run Value} {body : m Flow}
    {body' : Run Flow} (first : R Value condition condition') (second : R Flow body body')
    (rounds : Nat) :
    R Flow (runner.repeatWhile condition body rounds) (Run.repeatWhile condition' body' rounds) := by
  induction rounds with
  | zero => exact follows.stop _
  | succ rounds ih =>
    refine follows.bind first fun v => ite (follows.bind second fun flow => ?_)
      (follows.pure _)
    cases flow with
    | normal => exact ih
    | returning value => exact follows.pure _

theorem bindReceiver (method : Closure) (receiver : Value) :
    R Closure (runner.bindReceiver method receiver) (Run.bindReceiver method receiver) :=
  follows.around rfl (follows.quiet (.bindReceiver method receiver))

theorem boundFunction (method : Closure) (receiver : Value) :
    R Value (runner.bindReceiver method receiver >>= fun c => runner.step (Run.newFunction c))
      (Run.bindReceiver method receiver >>= fun c => Run.newFunction c) :=
  follows.bind (follows.bindReceiver _ _) fun c => follows.quiet (.newFunction c)

theorem property (object : Nat) (c : Class) (name : Token) :
    R Value (runner.property object c name) (Run.property object c name) := by
  refine follows.bind (follows.quiet (.read fun _ _ => rfl)) fun field => ?_
  cases field with
  | some value => exact follows.pure _
  | none =>
    dsimp only
    cases c.findMethod name.lexeme with
    | some method => exact follows.boundFunction _ _
    | none => exact follows.fail _ _

theorem superMethod (id : Nat) (keyword method : Token) (env : Env) :
    R Value (runner.superMethod id keyword method env) (Run.superMethod id keyword method env) := by
  refine follows.bind (follows.quiet (.read fun _ _ => rfl)) fun distance => ?_
  cases distance with
  | none => exact follows.fail _ _
  | some distance =>
    refine follows.bind (follows.quiet (.read fun _ _ => rfl)) fun above => ?_
    split
    · rename_i superclass
      refine follows.bind (follows.quiet (.read fun _ _ => rfl)) fun receiver => ?_
      split
      · cases superclass.findMethod method.lexeme with
        | some found => exact follows.boundFunction _ _
        | none => exact follows.fail _ _
      · exact follows.fail _ _
    · exact follows.fail _ _

section Calls

variable {execute : Stmt → Env → m Flow} {execute' : Stmt → Env → Run Flow}
  (each : ∀ s env, R Flow (execute s env) (execute' s env))
include each

theorem callClosure (closure : Closure) (paren : Token) (arguments : List Value) :
    R Value (runner.callClosure execute closure paren arguments)
      (Run.callClosure execute' closure paren arguments) := by
  refine follows.around rfl ?_
  refine follows.bind (follows.around rfl (follows.quiet (.openScope _))) fun env => ?_
  refine follows.bind (follows.quiet (.bindParams _ _ _)) fun _ => ?_
  refine follows.bind (follows.sequence (fun s => each s env) _) fun flow => ?_
  refine follows.around rfl (follows.quiet ?_)
  cases closure.isInitializer with
  | true => exact .boundReceiver _ _
  | false => exact .pure _

theorem instantiate (c : Class) (paren : Token) (arguments : List Value) :
    R Value (runner.instantiate execute c paren arguments)
      (Run.instantiate execute' c paren arguments) := by
  refine follows.around rfl (follows.bind (follows.quiet (.onStore _)) fun id => ?_)
  cases c.findMethod initializerName with
  | none => exact follows.pure _
  | some initializer =>
    refine follows.bind (follows.bindReceiver _ _) fun bound => ?_
    exact follows.bind (follows.callClosure each _ _ _) fun _ => follows.pure _

theorem call (callee : Value) (paren : Token) (arguments : List Value) :
    R Value (runner.call execute callee paren arguments)
      (Run.call execute' callee paren arguments) := by
  cases callee with
  | native function =>
    cases function
    exact follows.around rfl (follows.quiet (.readClock paren))
  | function id closure => exact follows.callClosure each _ _ _
  | classValue c => exact follows.instantiate each _ _ _
  | _ => exact follows.fail _ _

end Calls

section Level

variable {evaluate : Expr → Env → m Value} {evaluate' : Expr → Env → Run Value}
  {execute : Stmt → Env → m Flow} {execute' : Stmt → Env → Run Flow}
  (exprs : ∀ e env, R Value (evaluate e env) (evaluate' e env))
  (stmts : ∀ s env, R Flow (execute s env) (execute' s env))
include exprs stmts

theorem evaluateStep (e : Expr) (env : Env) :
    R Value (runner.dialect.evaluateStep evaluate execute e env)
      (Run.plain.dialect.evaluateStep evaluate' execute' e env) := by
  cases e with
  | literal literal => exact follows.pure _
  | grouping inner => exact exprs inner env
  | unary operator operand =>
    exact follows.bind (exprs operand env) fun _ => follows.quiet (.ofExcept _)
  | binary left operator right =>
    exact follows.bind (exprs left env) fun _ => follows.bind (exprs right env) fun _ =>
      follows.quiet (.ofExcept _)
  | logical left operator right =>
    exact follows.bind (exprs left env) fun v => ite (follows.pure v) (exprs right env)
  | var id name => exact follows.quiet (.readVariable _ _ _)
  | assign id name value =>
    exact follows.bind (exprs value env) fun _ =>
      follows.bind (follows.quiet (.writeVariable _ _ _ _)) fun _ => follows.pure _
  | call callee paren arguments =>
    refine follows.bind (exprs callee env) fun f => ?_
    refine follows.bind (follows.traverse (fun argument => exprs argument env) _) fun values => ?_
    exact follows.bind (follows.quiet (.checkCall _ _ _)) fun _ => follows.call stmts _ _ _
  | get object name =>
    refine follows.bind (exprs object env) fun v => ?_
    cases v with
    | object id c => exact follows.property _ _ _
    | _ => exact follows.fail _ _
  | set object name value =>
    refine follows.bind (exprs object env) fun v => ?_
    cases v with
    | object id c =>
      exact follows.bind (exprs value env) fun _ =>
        follows.bind (follows.quiet (.onStore _)) fun _ => follows.pure _
    | _ => exact follows.fail _ _
  | this id keyword => exact follows.quiet (.readVariable _ _ _)
  | super id keyword method => exact follows.superMethod _ _ _ _

theorem executeStep (rounds : Nat) (s : Stmt) (env : Env) :
    R Flow (runner.dialect.executeStep evaluate execute rounds s env)
      (Run.plain.dialect.executeStep evaluate' execute' rounds s env) := by
  cases s with
  | expression value => exact follows.bind (exprs value env) fun _ => follows.pure _
  | print value =>
    exact follows.bind (exprs value env) fun _ =>
      follows.bind (follows.printLine _) fun _ => follows.pure _
  | var name initializer =>
    cases initializer with
    | none => exact follows.bind (follows.quiet (.define _ _ _)) fun _ => follows.pure _
    | some value =>
      exact follows.bind (exprs value env) fun _ =>
        follows.bind (follows.quiet (.define _ _ _)) fun _ => follows.pure _
  | block statements =>
    exact follows.bind (follows.quiet (.openScope _)) fun inner =>
      follows.sequence (fun s => stmts s inner) _
  | branch condition thenBranch elseBranch =>
    refine follows.bind (exprs condition env) fun v => ite (stmts thenBranch env) ?_
    cases elseBranch with
    | none => exact follows.pure _
    | some s => exact stmts s env
  | loop condition body => exact follows.repeatWhile (exprs condition env) (stmts body env) _
  | function declaration =>
    exact follows.bind (follows.quiet (.newFunction _)) fun _ =>
      follows.bind (follows.quiet (.define _ _ _)) fun _ => follows.pure _
  | ret keyword value =>
    cases value with
    | none => exact follows.pure _
    | some value => exact follows.bind (exprs value env) fun _ => follows.pure _
  | classDecl name superclass methods =>
    cases superclass with
    | none => exact follows.bind (follows.quiet (.declareClass _ _ _ _)) fun _ => follows.pure _
    | some e =>
      exact follows.bind (exprs e env) fun _ =>
        follows.bind (follows.quiet (.requireClass _ _)) fun _ =>
          follows.bind (follows.quiet (.declareClass _ _ _ _)) fun _ => follows.pure _

end Level

theorem both (fuel : Nat) :
    (∀ e env, R Value (runner.dialect.evaluate fuel e env) (Run.evaluate fuel e env)) ∧
      ∀ s env, R Flow (runner.dialect.execute fuel s env) (Run.execute fuel s env) := by
  induction fuel with
  | zero => exact ⟨fun _ _ => follows.stop _, fun _ _ => follows.stop _⟩
  | succ fuel ih =>
    exact ⟨fun e env => follows.around rfl (follows.evaluateStep ih.1 ih.2 e env),
      fun s env => follows.around rfl (follows.executeStep ih.1 ih.2 fuel s env)⟩

theorem evaluate (fuel : Nat) (e : Expr) (env : Env) :
    R Value (runner.dialect.evaluate fuel e env) (Run.evaluate fuel e env) :=
  (follows.both fuel).1 e env

theorem program (fuel : Nat) (statements : List Stmt) :
    R Unit (runner.dialect.program globals fuel statements) (Run.program fuel statements) := by
  induction statements with
  | nil => exact follows.pure ()
  | cons s rest ih => exact follows.bind ((follows.both fuel).2 s globals) fun _ => ih

end Runner.Follows

end Lox
