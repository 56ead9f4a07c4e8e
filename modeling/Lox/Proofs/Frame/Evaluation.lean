import Lox.Proofs.Frame.Steps

namespace Lox.Frame

open Traced (Observed Tracing runner)
open Logging (silent silent_bind)

variable {records : Records} {o : Observed} {added failed unbound : Additions} {Γ : Scopes}
  {env : Env}

theorem fits_of_isAtom {v : Value} (h : v.IsAtom) (store : Store) : Fits records store v := by
  cases v <;> trivial

theorem classFits {store : Store} {superclass : Option Class} {methods : List FunctionDecl}
    (id : Nat) (className : String) (holds : Holds store nothing Γ env)
    (resolved : ∀ d ∈ methods, Stmt.FunctionResolved records (["this"] :: Γ) d)
    (inherited : ∀ c ∈ superclass, ClassFits records store c) :
    ClassFits records store ⟨id, className, superclass, Run.methodTable env methods⟩ := by
  refine Class.forall_findMethod id className (fun name method found => ?_) inherited
  obtain ⟨d, member, -, rfl⟩ := Run.methodTable_get? found
  exact ⟨Γ, holds, resolved _ member⟩

/-- What a statement may add that stops the run: a local name whose declaration was going on. -/
def ofStopped (statement : Stmt) (Γ : Scopes) (env : Env) : Additions :=
  match declaredName statement with
  | some name => Holds.pending Γ env name
  | none => nothing

theorem ofStopped_le (statement : Stmt) (Γ : Scopes) (env : Env) (scope : Nat) (name : String)
    (h : ofStopped statement Γ env scope name) : ofStatement statement env scope name := by
  rw [ofStopped] at h
  rw [ofStatement]
  cases declared : declaredName statement with
  | some name =>
    rw [declared] at h
    exact h.2
  | none =>
    rw [declared] at h
    exact h

theorem nothing_of_isStatement {statement : Stmt} (h : statement.isStatement = true) (Γ : Scopes)
    (env : Env) : ofStatement statement env = nothing ∧ ofStopped statement Γ env = nothing := by
  cases statement <;> first | exact ⟨rfl, rfl⟩ | cases h

def FlowFits (records : Records) (store : Store) : Flow → Prop
  | .normal => True
  | .returning v => Fits records store v

theorem FlowFits.result {store : Store} {flow : Flow} (h : FlowFits records store flow) :
    Fits records store flow.result := by
  cases flow with
  | normal => trivial
  | returning v => exact h

/-- Behind a statement: the names in scope there are bound, the one just declared among them. -/
structure Behind (records : Records) (before : Store) (statement : Stmt) (Γ : Scopes) (env : Env)
    (store : Store) (flow : Flow) : Prop where
  flow : FlowFits records store flow
  holds : Holds store nothing (statement.after Γ) env
  declared : ∀ name scope, declaredName statement = some name → env.head? = some scope →
    scope < before.scopes.size → store.binds scope name = true

theorem Behind.of_grows {before store : Store} {statement : Stmt} {flow : Flow}
    (none : declaredName statement = none) (holds : Holds before nothing Γ env)
    (grows : Grows added before store) (fits : FlowFits records store flow) :
    Behind records before statement Γ env store flow where
  flow := fits
  holds := by
    have same : statement.after Γ = Γ := by cases statement <;> first | rfl | cases none
    rw [same]
    exact holds.mono grows
  declared name scope found := by
    rw [none] at found
    cases found

theorem Behind.of_declared {before store : Store} {statement : Stmt} {name : String}
    (declares : declaredName statement = some name) (after : statement.after Γ = Γ.declare name)
    (holds : Holds before nothing Γ env) (grows : Grows added before store)
    (bound : ∀ scope, env.head? = some scope → scope < before.scopes.size →
      store.binds scope name = true) :
    Behind records before statement Γ env store .normal where
  flow := trivial
  holds := by
    rw [after]
    exact holds.bind grows bound
  declared name' scope found first inside := by
    cases declares.symm.trans found
    exact bound scope first inside

def ExprKeeps (fuel : Nat) : Prop :=
  ∀ {records : Records} {o : Observed} {unbound : Additions} {Γ : Scopes} {env : Env}
    {pending : Option String} (e : Expr), Holds o.machine.store unbound Γ env →
      e.Resolved records Γ pending →
      Keeps records o (Traced.evaluate fuel e env) unbound unbound (Fits records)

def StmtKeeps (fuel : Nat) : Prop :=
  ∀ {records : Records} {o : Observed} {Γ : Scopes} {env : Env} (s : Stmt),
    Holds o.machine.store nothing Γ env → s.Resolved records Γ →
      Keeps records o (Traced.execute fuel s env) (ofStatement s env) (ofStopped s Γ env)
        (Behind records o.machine.store s Γ env)

theorem traverse_keeps {f : Expr → Tracing Value} (es : List Expr)
    (each : ∀ e ∈ es, ∀ o', Leads unbound o o' →
      Keeps records o' (f e) unbound unbound (Fits records)) :
    Keeps records o (Run.traverse f es) unbound unbound
      fun store values => ∀ v ∈ values, Fits records store v := by
  induction es generalizing o with
  | nil => exact Keeps.pure (by simp)
  | cons e rest ih =>
    refine (each e List.mem_cons_self o (.refl _ _)).bind fun o' v leads fits => ?_
    have others := ih fun later member o'' leads' =>
      each later (List.mem_cons_of_mem _ member) o'' (leads.trans leads')
    refine others.bind fun o'' values leads' all => Keeps.pure ?_
    intro w member
    rcases List.mem_cons.mp member with rfl | later
    · exact fits.mono leads'.grows
    · exact all w later

theorem bindParams_keeps (scope : Nat) (outer : Env) (params : List Token) (arguments : List Value)
    (same : arguments.length = params.length) (inside : scope < o.machine.store.scopes.size)
    (fits : ∀ v ∈ arguments, Fits records o.machine.store v) :
    Keeps records o (silent (Run.bindParams (scope :: outer) params arguments)) (inScope scope)
      (inScope scope) fun store _ => ∀ param ∈ params, store.binds scope param.lexeme = true := by
  induction params generalizing o arguments with
  | nil => exact Keeps.pure (by simp)
  | cons param params ih =>
    cases arguments with
    | nil => cases same
    | cons argument arguments =>
      obtain ⟨first, others⟩ := List.forall_mem_cons.mp fits
      rw [Run.bindParams, silent_bind]
      have grows : Grows (inScope scope) o.machine.store
          (o.machine.store.define scope param.lexeme argument) := .define argument (.inr rfl)
      have defined : Keeps records o (silent (Run.define (scope :: outer) param.lexeme argument))
          (inScope scope) (inScope scope) fun store _ => store.binds scope param.lexeme = true := by
        refine (Keeps.defineIn (.inr rfl) (first.mono grows)).weaken (fun _ _ may => may)
          (fun _ _ may => may) fun o' _ _ same => ?_
        rw [same]
        simp [Store.binds, Store.binding?_define, inside]
      refine defined.bind fun o' _ leads bound => ?_
      refine (ih arguments (Nat.succ.inj same) (Nat.lt_of_lt_of_le inside leads.grows.size)
        fun v member => (others v member).mono leads.grows).weaken (fun _ _ may => may)
          (fun _ _ may => may) fun o'' _ leads' all => ?_
      intro other member
      rcases List.mem_cons.mp member with rfl | later
      · exact leads'.grows.kept scope _ bound
      · exact all other later

section Calls

variable {fuel : Nat} (stmts : StmtKeeps fuel)
include stmts

theorem sequence_keeps (scope : Nat) (outer : Env) (ss : List Stmt)
    (holds : Holds o.machine.store nothing Γ (scope :: outer))
    (resolved : Stmt.AllResolved records Γ ss) :
    Keeps records o (Run.sequence (fun s => Traced.execute fuel s (scope :: outer)) ss)
      (inScope scope) (inScope scope) (FlowFits records) := by
  induction ss generalizing o Γ with
  | nil => exact Keeps.pure trivial
  | cons s rest ih =>
    have first : Keeps records o (Traced.execute fuel s (scope :: outer)) (inScope scope)
        (inScope scope) (Behind records o.machine.store s Γ (scope :: outer)) := by
      have inside (other : Nat) (name : String) (may : ofStatement s (scope :: outer) other name) :
          inScope scope other name :=
        (Option.some.inj (ofStatement_iff.mp may).2).symm
      exact (stmts s holds resolved.1).weaken inside
        (fun other name may => inside other name (ofStopped_le s Γ _ other name may))
        fun _ _ _ behind => behind
    refine first.bind fun o' flow leads behind => ?_
    cases flow with
    | normal => exact ih behind.holds resolved.2
    | returning v => exact Keeps.pure behind.flow

theorem repeatWhile_keeps {condition : Expr} {body : Stmt} (exprs : ExprKeeps fuel) (rounds : Nat)
    (holds : Holds o.machine.store nothing Γ env) (resolved : condition.Resolved records Γ none)
    (isStatement : body.isStatement = true) (resolved' : body.Resolved records Γ) :
    Keeps records o
      (runner.repeatWhile (Traced.evaluate fuel condition env) (Traced.execute fuel body env)
        rounds)
      nothing nothing (FlowFits records) := by
  induction rounds generalizing o with
  | zero => exact Keeps.stop _
  | succ rounds ih =>
    refine (exprs condition holds resolved).bind fun o' v leads _ => ?_
    have holds' := holds.mono leads.grows
    by_cases truthy : v.isTruthy = true
    · rw [if_pos truthy]
      have first := stmts body holds' resolved'
      rw [(nothing_of_isStatement isStatement Γ env).1,
        (nothing_of_isStatement isStatement Γ env).2] at first
      refine first.bind fun o'' flow leads' behind => ?_
      cases flow with
      | normal => exact ih (holds'.mono leads'.grows)
      | returning v => exact Keeps.pure behind.flow
    · rw [if_neg truthy]
      exact Keeps.pure trivial

theorem callClosure_keeps {closure : Closure} (paren : Token) {arguments : List Value}
    (fits : FunctionFits records o.machine.store closure)
    (same : arguments.length = closure.declaration.params.length)
    (known : ∀ v ∈ arguments, Fits records o.machine.store v) :
    Keeps records o (runner.callClosure (Traced.execute fuel) closure paren arguments)
      nothing nothing (Fits records) := by
  obtain ⟨Γ, holds, resolved⟩ := fits
  obtain ⟨-, -, body⟩ := Stmt.functionResolved_iff.mp resolved
  refine Keeps.called closure ?_
  refine Keeps.hide (Nat.le_refl _) ?_
  refine (Keeps.openScope closure.env).bind fun o₁ inner leads₁ made => ?_
  obtain ⟨rfl, inside⟩ := made
  refine (bindParams_keeps _ closure.env closure.declaration.params arguments same inside
    fun v member => (known v member).mono leads₁.grows).bind fun o₂ _ leads₂ bound => ?_
  have holds' : Holds o₂.machine.store nothing (Stmt.bodyScopes closure.declaration.params Γ)
      (o.machine.store.scopes.size :: closure.env) := by
    refine (holds.mono (leads₁.trans leads₂).grows).push
      (Nat.lt_of_lt_of_le inside leads₂.grows.size) fun name member => ?_
    obtain ⟨param, listed, rfl⟩ := List.mem_map.mp (List.mem_reverse.mp member)
    exact bound param listed
  refine (sequence_keeps stmts _ closure.env closure.declaration.body holds' body).bind
    fun o₃ flow _ ended => ?_
  cases closure.isInitializer with
  | false => exact Keeps.pure ended.result
  | true => exact (Keeps.boundReceiver closure paren).anyway

theorem instantiate_keeps {c : Class} (paren : Token) {arguments : List Value}
    (fits : ClassFits records o.machine.store c) (same : c.arity = arguments.length)
    (known : ∀ v ∈ arguments, Fits records o.machine.store v) :
    Keeps records o (runner.instantiate (Traced.execute fuel) c paren arguments) nothing nothing
      (Fits records) := by
  refine Keeps.newObject.bind fun o₁ id leads₁ _ => ?_
  have fits₁ := fits.mono leads₁.grows
  rw [Class.arity] at same
  cases found : c.findMethod initializerName with
  | none => exact Keeps.pure fits₁
  | some initializer =>
    rw [found] at same
    dsimp only at same ⊢
    refine (Keeps.bindReceiver id (fits₁ _ _ found) fits₁).bind fun o₂ bound leads₂ made => ?_
    have length : arguments.length = bound.declaration.params.length := by
      rw [made.2, ← same]
      rfl
    refine (callClosure_keeps stmts paren made.1 length fun v member =>
      (known v member).mono (leads₁.trans leads₂).grows).bind fun o₃ _ leads₃ _ => ?_
    exact Keeps.pure (fits₁.mono (leads₂.trans leads₃).grows)

theorem call_keeps {callee : Value} (paren : Token) {arguments : List Value}
    (fits : Fits records o.machine.store callee) (arity : callee.arity? = some arguments.length)
    (known : ∀ v ∈ arguments, Fits records o.machine.store v) :
    Keeps records o (runner.call (Traced.execute fuel) callee paren arguments) nothing nothing
      (Fits records) := by
  cases callee with
  | native f =>
    cases f
    exact Keeps.readClock paren
  | function id closure =>
    exact callClosure_keeps stmts paren fits (Option.some.inj arity).symm known
  | classValue c => exact instantiate_keeps stmts paren fits (Option.some.inj arity) known
  | _ => exact Keeps.stop _

end Calls

theorem declareClass_keeps (superclass : Option Class) {name : Token} {inherits : Option Expr}
    {methods : List FunctionDecl} (holds : Holds o.machine.store nothing Γ env)
    (inherited : ∀ c ∈ superclass, ClassFits records o.machine.store c)
    (same : inherits.isSome = superclass.isSome)
    (resolved : Stmt.MethodsResolved records
      (Stmt.classScopes inherits (Γ.declare name.lexeme)) methods) :
    Keeps records o (silent (Run.declareClass env name superclass methods)) (own env name.lexeme)
      failed fun store _ => ∀ scope, env.head? = some scope →
        scope < o.machine.store.scopes.size → store.binds scope name.lexeme = true := by
  refine Keeps.of_succeeds (.declareClass env name superclass methods) ?_
  rw [Run.declareClass, silent_bind]
  refine (Keeps.define (v := .nil) env name.lexeme fun _ _ _ => trivial).bind
    fun o₁ _ leads₁ bound₁ => ?_
  have holds₁ := holds.bind leads₁.grows bound₁
  rw [silent_bind]
  have inherited₁ := fun c member => (inherited c member).mono leads₁.grows
  refine (Keeps.methodScope holds₁ inherited₁ same).bind fun o₂ scope leads₂ made => ?_
  obtain ⟨inner, shape, holds₂⟩ := made
  rw [shape] at resolved
  rw [silent_bind]
  refine Keeps.newIdentity.bind fun o₃ id leads₃ _ => ?_
  refine (Keeps.define env name.lexeme fun store grows _ => ?_).weaken (fun _ _ may => may)
    (fun _ _ may => may) fun o₄ _ leads₄ bound₄ other first inside => ?_
  · refine classFits id name.lexeme (holds₂.mono (leads₃.grows.trans grows))
      (Stmt.methodsResolved_iff.mp resolved) fun c member => ?_
    exact (inherited c member).mono
      ((leads₁.grows.trans leads₂.grows).trans (leads₃.grows.trans grows))
  · exact bound₄ other first (Nat.lt_of_lt_of_le inside
      (leads₁.grows.trans (leads₂.grows.trans leads₃.grows)).size)

section Fuel

variable {fuel : Nat} (exprs : ExprKeeps fuel) (stmts : StmtKeeps fuel)
include exprs stmts

theorem evaluate_keeps : ExprKeeps (fuel + 1) := by
  intro records o unbound Γ env pending e holds resolved
  cases e with
  | literal literal =>
    exact Keeps.pure (fits_of_isAtom literal.isAtom_value _)
  | grouping inner => exact exprs inner holds resolved
  | unary operator operand =>
    refine (exprs operand holds resolved).bind fun o₁ v _ _ => ?_
    exact Keeps.ofExcept fun _ result => fits_of_isAtom (Operator.isAtom_of_unary result) _
  | binary left operator right =>
    refine (exprs left holds resolved.1).bind fun o₁ x leads₁ _ => ?_
    refine (exprs right (holds.mono leads₁.grows) resolved.2).bind fun o₂ y _ _ => ?_
    exact Keeps.ofExcept fun _ result => fits_of_isAtom (Operator.isAtom_of_binary result) _
  | logical left operator right =>
    refine (exprs left holds resolved.1).bind fun o₁ x leads₁ fits => ?_
    by_cases decides : Operator.decides operator x = true
    · rw [if_pos decides]
      exact Keeps.pure fits
    · rw [if_neg decides]
      exact exprs right (holds.mono leads₁.grows) resolved.2
  | var id name => exact Keeps.readVariable id name env
  | assign id name value =>
    obtain ⟨resolved', recorded, -⟩ := resolved
    refine (exprs value holds resolved').bind fun o₁ v leads₁ fits => ?_
    refine (Keeps.writeVariable (holds.mono leads₁.grows) recorded fits).bind
      fun o₂ _ leads₂ _ => ?_
    exact Keeps.pure (fits.mono leads₂.grows)
  | call callee paren arguments =>
    refine (exprs callee holds resolved.1).bind fun o₁ f leads₁ fits => ?_
    have each := Expr.allResolved_iff.mp resolved.2
    refine (traverse_keeps arguments fun argument member o' leads' => exprs argument
      (holds.mono (leads₁.trans leads').grows) (each argument member)).bind
      fun o₂ values leads₂ known => ?_
    refine (Keeps.checkCall f paren values.length).bind fun o₃ _ leads₃ arity => ?_
    exact (call_keeps stmts paren (fits.mono (leads₂.trans leads₃).grows) arity
      fun v member => (known v member).mono leads₃.grows).anyway
  | get object name =>
    refine (exprs object holds resolved).bind fun o₁ v leads₁ fits => ?_
    cases v with
    | object id c => exact (Keeps.property id fits name).anyway
    | _ => exact Keeps.stop _
  | set object name value =>
    refine (exprs object holds resolved.1).bind fun o₁ v leads₁ _ => ?_
    cases v with
    | object id c =>
      refine (exprs value (holds.mono leads₁.grows) resolved.2).bind fun o₂ w leads₂ fits => ?_
      refine (Keeps.setField id name.lexeme fits).bind fun o₃ _ leads₃ _ => ?_
      exact Keeps.pure (fits.mono leads₃.grows)
    | _ => exact Keeps.stop _
  | this id keyword => exact Keeps.readVariable id keyword env
  | super id keyword method => exact (Keeps.superMethod id keyword method env).anyway

theorem execute_keeps : StmtKeeps (fuel + 1) := by
  intro records o Γ env s holds resolved
  refine Keeps.recorded ?_ (fun _ grows => grows) fun _ grows =>
    grows.weaken (ofStopped_le s Γ env)
  cases s with
  | expression value =>
    refine (exprs value holds resolved).bind fun o₁ v leads₁ _ => ?_
    exact Keeps.pure (.of_grows rfl holds leads₁.grows trivial)
  | print value =>
    refine (exprs value holds resolved).bind fun o₁ v leads₁ _ => ?_
    refine (Keeps.printLine v.display).bind fun o₂ _ leads₂ _ => ?_
    exact Keeps.pure (.of_grows rfl holds (leads₁.trans leads₂).grows trivial)
  | var name initializer =>
    obtain ⟨-, -, each⟩ := resolved
    cases initializer with
    | none =>
      refine (Keeps.define (v := .nil) env name.lexeme fun _ _ _ => trivial).finish ?_
      exact fun o₁ _ leads₁ bound => .of_declared rfl rfl holds leads₁.grows bound
    | some value =>
      refine (exprs value (holds.declare name.lexeme) (each value rfl)).andThen
        (fun o₁ v leads₁ fits => ?_) fun _ _ may => may.2
      refine (Keeps.define env name.lexeme fun _ grows _ => fits.mono grows).finish
        fun o₂ _ leads₂ bound => ?_
      have grows := (leads₁.grows.weaken fun _ _ may => may.2).trans leads₂.grows
      exact .of_declared rfl rfl holds grows fun scope first inside =>
        bound scope first (Nat.lt_of_lt_of_le inside leads₁.grows.size)
  | block statements =>
    refine Keeps.hide (Nat.le_refl _) ((Keeps.openScope env).bind fun o₁ inner leads₁ made => ?_)
    obtain ⟨rfl, inside⟩ := made
    have holds' : Holds o₁.machine.store nothing ([] :: Γ) (o.machine.store.scopes.size :: env) :=
      (holds.mono leads₁.grows).push inside (List.forall_mem_nil _)
    refine (sequence_keeps stmts _ env statements holds' resolved).weaken (fun _ _ may => may)
      (fun _ _ may => may) fun o₂ flow leads₂ fits => ?_
    exact .of_grows rfl holds (leads₁.trans leads₂).grows fits
  | branch condition thenBranch elseBranch =>
    have resolved' : condition.Resolved records Γ none ∧
        (thenBranch.isStatement = true ∧ thenBranch.Resolved records Γ) ∧
          ∀ s ∈ elseBranch, s.isStatement = true ∧ s.Resolved records Γ := by
      cases elseBranch with
      | none => exact ⟨resolved.1, resolved.2, by simp⟩
      | some s =>
        refine ⟨resolved.1, resolved.2.1, ?_⟩
        rintro _ ⟨⟩
        exact resolved.2.2
    obtain ⟨first, yes, no⟩ := resolved'
    refine (exprs condition holds first).bind fun o₁ v leads₁ _ => ?_
    have chosen (s : Stmt) (isStatement : s.isStatement = true) (resolved : s.Resolved records Γ) :
        Keeps records o₁ (Traced.execute fuel s env) nothing nothing
          (Behind records o.machine.store (.branch condition thenBranch elseBranch) Γ env) := by
      have executed := stmts s (holds.mono leads₁.grows) resolved
      rw [(nothing_of_isStatement isStatement Γ env).1,
        (nothing_of_isStatement isStatement Γ env).2] at executed
      exact executed.weaken (fun _ _ may => may) (fun _ _ may => may) fun o₂ flow leads₂ behind =>
        .of_grows rfl holds (leads₁.trans leads₂).grows behind.flow
    by_cases truthy : v.isTruthy = true
    · rw [if_pos truthy]
      exact chosen thenBranch yes.1 yes.2
    · rw [if_neg truthy]
      cases elseBranch with
      | none => exact Keeps.pure (.of_grows rfl holds leads₁.grows trivial)
      | some s => exact chosen s (no s rfl).1 (no s rfl).2
  | loop condition body =>
    refine (repeatWhile_keeps stmts exprs fuel holds resolved.1 resolved.2.1 resolved.2.2).weaken
      (fun _ _ may => may) (fun _ _ may => may) fun o₁ flow leads₁ fits => ?_
    exact .of_grows rfl holds leads₁.grows fits
  | function declaration =>
    obtain ⟨-, -, resolved'⟩ := resolved
    refine (Keeps.makeFunction ⟨declaration, env, false⟩).andThen (fun o₁ v leads₁ made => ?_) ?_
    · obtain ⟨id, rfl⟩ := made
      have bound' {store : Store} (bound : ∀ scope, env.head? = some scope →
          scope < o₁.machine.store.scopes.size →
            store.binds scope declaration.name.lexeme = true) (scope : Nat)
          (first : env.head? = some scope) (inside : scope < o.machine.store.scopes.size) :
          store.binds scope declaration.name.lexeme = true :=
        bound scope first (Nat.lt_of_lt_of_le inside leads₁.grows.size)
      have grows₁ := leads₁.grows.weaken (ofStopped_le (.function declaration) Γ env)
      refine (Keeps.define env declaration.name.lexeme fun store grows bound => ?_).finish
        fun o₂ _ leads₂ bound =>
          .of_declared rfl rfl holds (grows₁.trans leads₂.grows) (bound' bound)
      exact ⟨_, holds.bind (grows₁.trans grows) (bound' bound), resolved'⟩
    · exact ofStopped_le _ Γ env
  | ret keyword value =>
    cases value with
    | none => exact Keeps.pure (.of_grows rfl holds (.refl nothing _) trivial)
    | some value =>
      refine (exprs value holds (resolved value rfl)).bind fun o₁ v leads₁ fits => ?_
      exact Keeps.pure (.of_grows rfl holds leads₁.grows fits)
  | classDecl name superclass methods =>
    obtain ⟨-, -, inherits, members⟩ := resolved
    cases superclass with
    | none =>
      refine (declareClass_keeps none holds (by simp) rfl members).finish
        fun o₁ _ leads₁ bound => ?_
      exact .of_declared rfl rfl holds leads₁.grows bound
    | some e =>
      refine (exprs e (holds.declare name.lexeme) (inherits e rfl)).andThen
        (fun o₁ v leads₁ fits => ?_) fun _ _ may => may.2
      refine (Keeps.requireClass _ fits).andThen (fun o₂ c leads₂ fits' => ?_) fun _ _ may => may.2
      have grows := (leads₁.trans leads₂).grows.weaken fun _ _ may => may.2
      refine (declareClass_keeps (some c) (holds.mono grows) ?_ rfl members).finish
        fun o₃ _ leads₃ bound => .of_declared rfl rfl holds (grows.trans leads₃.grows)
          fun scope first inside => bound scope first (Nat.lt_of_lt_of_le inside grows.size)
      rintro _ ⟨⟩
      exact fits'

end Fuel

theorem keeps (fuel : Nat) : ExprKeeps fuel ∧ StmtKeeps fuel := by
  induction fuel with
  | zero => exact ⟨fun _ _ _ => Keeps.stop _, fun _ _ _ => Keeps.stop _⟩
  | succ fuel ih => exact ⟨evaluate_keeps ih.1 ih.2, execute_keeps ih.1 ih.2⟩

end Lox.Frame
