import Lox.Proofs.Evaluation.Calls

namespace Lox.Reference

open World

variable {current : Option Nat} {W : World} {Γ : Scopes} {env cells : Env}

inductive FlowRel (W : World) (Γ : Scopes) (env : Env) : Flow → Progress → Prop where
  | next {place : Place} (h : PlaceRel W none Γ env place) : FlowRel W Γ env .normal (.next place)
  | returning {v v' : Value} (h : ValueRel W v v') :
    FlowRel W Γ env (.returning v) (.returning v')

theorem FlowRel.result {flow : Flow} {progress : Progress} (h : FlowRel W Γ env flow progress) :
    ValueRel W flow.result progress.result := by
  cases h with
  | next _ => exact .nil
  | returning h => exact h

def ExprAgrees (fuel : Nat) : Prop :=
  ∀ {W : World} {pending : Option String} {Γ : Scopes} {env cells : Env} (e : Expr),
    Linked W pending Γ env cells → e.Resolved W.records Γ pending →
      Sim none W (Run.evaluate fuel e env) (Reference.evaluate fuel e cells) ValueRel

def StmtAgrees (fuel : Nat) : Prop :=
  ∀ {W : World} {Γ : Scopes} {env : Env} {place : Place} (s : Stmt),
    PlaceRel W none Γ env place → s.Resolved W.records Γ →
      Sim env.head? W (Run.execute fuel s env) (Reference.execute fuel s place)
        fun W' => FlowRel W' (s.after Γ) env

theorem bindParams_agrees {names : List String} {scope : Nat} {place : Place} (params : List Token)
    (arguments arguments' : List Value)
    (here : PlaceRel W none (names :: Γ) (scope :: env) place)
    (distinct : (params.map Token.lexeme).Nodup)
    (plain : ∀ param ∈ params, IsPlain param.lexeme)
    (fresh : ∀ param ∈ params, param.lexeme ∉ names)
    (count : arguments.length = params.length)
    (related : List.Forall₂ (ValueRel W) arguments arguments') :
    Sim (some scope) W (Run.bindParams (scope :: env) params arguments)
      (Reference.bindParams place.cells params arguments') fun W' _ cells =>
        PlaceRel W' none (((params.map Token.lexeme).reverse ++ names) :: Γ) (scope :: env)
          (.inside cells) := by
  induction params generalizing W names place arguments arguments' with
  | nil =>
    obtain ⟨cells, isLocal⟩ := place
    obtain rfl : isLocal = true := here.isLocal
    cases related with
    | nil => exact Sim.pure here
    | cons _ _ => cases count
  | cons param params ih =>
    cases related with
    | nil => cases count
    | @cons argument argument' arguments arguments' first others =>
      simp only [Run.bindParams, Reference.bindParams]
      obtain ⟨place', inside, exact'⟩ := here.current names rfl scope rfl
      have free : W.cell scope param.lexeme = none := by
        by_contra declared
        exact fresh param List.mem_cons_self (exact' _ declared)
      have plain' := plain param List.mem_cons_self
      simp only [List.map_cons, List.nodup_cons] at distinct
      refine Sim.parameter place' inside free first (.plain plain' _) fun c => ?_
      have grows : Grows (some scope) W ((W.declare scope param.lexeme c).bind scope param.lexeme) :=
        (Grows.declare free).trans Grows.bind
      have names' : ((param :: params).map Token.lexeme).reverse ++ names =
          (params.map Token.lexeme).reverse ++ (param.lexeme :: names) := by simp
      rw [names']
      refine ih arguments arguments' (here.declare free c).bind distinct.2
        (fun p member => plain p (List.mem_cons_of_mem _ member)) (fun p member declared => ?_)
        (Nat.succ.inj count) (valuesRel_mono grows others)
      cases List.mem_cons.mp declared with
      | inl same => exact distinct.1 (same ▸ List.mem_map_of_mem member)
      | inr outer => exact fresh p (List.mem_cons_of_mem _ member) outer

section Sequences

variable {fuel : Nat} (agrees : StmtAgrees fuel)
include agrees

theorem sequence_agrees (statements : List Stmt) {place : Place}
    (here : PlaceRel W none Γ env place) (resolved : Stmt.AllResolved W.records Γ statements) :
    Sim env.head? W (Run.sequence (fun s => Run.execute fuel s env) statements)
      (Reference.sequence (Reference.execute fuel) statements place)
        fun W' flow progress => ∃ Γ', FlowRel W' Γ' env flow progress := by
  induction statements generalizing W Γ place with
  | nil => exact Sim.pure ⟨Γ, .next here⟩
  | cons s rest ih =>
    simp only [Run.sequence, Reference.sequence]
    refine (agrees s here resolved.1).bind fun W' flow progress grows ended => ?_
    cases ended with
    | next behind => exact ih behind (Stmt.AllResolved.mono grows.records _ resolved.2)
    | returning value => exact Sim.pure ⟨Γ, .returning value⟩

theorem repeatWhile_agrees {condition : Expr} {body : Stmt} {place : Place}
    (isStatement : body.isStatement = true) (exprs : ExprAgrees fuel) (rounds : Nat)
    (here : PlaceRel W none Γ env place) (resolved : condition.Resolved W.records Γ none)
    (resolved' : body.Resolved W.records Γ) :
    Sim env.head? W
      (Run.repeatWhile (Run.evaluate fuel condition env) (Run.execute fuel body env) rounds)
      (Reference.repeatWhile place (Reference.evaluate fuel condition place.cells)
        (Reference.execute fuel body place) rounds)
      fun W' => FlowRel W' Γ env := by
  induction rounds generalizing W with
  | zero => exact Sim.stop _ fun _ => trivial
  | succ rounds ih =>
    simp only [Run.repeatWhile, Reference.repeatWhile]
    refine (exprs condition here.linked resolved).bindNone fun W' v v' grows related => ?_
    have here' := here.mono grows
    rw [related.isTruthy]
    by_cases truthy : v.isTruthy = true
    · rw [if_pos truthy, if_pos truthy]
      have resolvedBody := Stmt.Resolved.mono grows.records _ resolved'
      refine (agrees body here' resolvedBody).bind fun W'' flow progress grows' ended => ?_
      rw [Stmt.after_eq_of_isStatement isStatement] at ended
      have all := (grows.loosen.trans grows').records
      cases ended with
      | next behind =>
        have again : PlaceRel W'' none Γ env place :=
          ⟨here'.linked.mono grows', behind.current, here.isLocal⟩
        exact ih again (Expr.Resolved.mono all _ resolved) (Stmt.Resolved.mono all _ resolved')
      | returning value => exact Sim.pure (.returning value)
    · rw [if_neg truthy, if_neg truthy]
      exact Sim.pure (.next here')

theorem callClosure_agrees {c c' : Closure} (paren : Token) {arguments arguments' : List Value}
    (function : FunctionRel W c c') (related : List.Forall₂ (ValueRel W) arguments arguments')
    (count : arguments.length = c.arity) :
    Sim current W (Run.callClosure (Run.execute fuel) c paren arguments)
      (Reference.callClosure (Reference.execute fuel) c' paren arguments') ValueRel := by
  obtain ⟨Γ, closure, resolved, receiver⟩ := function
  obtain ⟨distinct, plain, body⟩ := Stmt.functionResolved_iff.mp resolved
  simp only [Run.callClosure, Reference.callClosure, closure.declaration, closure.isInitializer]
  refine Sim.openScope c.env fun place free => ?_
  have entered : Grows none W W.enter := Grows.enter W
  have start := PlaceRel.enter closure.linked place free
  refine (bindParams_agrees c.declaration.params arguments arguments' start distinct plain nofun
    count (valuesRel_mono entered related)).bind fun W' _ cells grows here => ?_
  rw [List.append_nil] at here
  have body' := Stmt.AllResolved.mono (entered.loosen.trans grows).records _ body
  refine (sequence_agrees agrees c.declaration.body here body').bind
    fun W'' flow progress grows' ended => ?_
  obtain ⟨Γ', ended⟩ := ended
  cases isInitializer : c.isInitializer with
  | false => exact Sim.pure ended.result
  | true =>
    obtain ⟨outer, rfl⟩ := receiver isInitializer
    exact Sim.boundReceiver paren (closure.mono ((entered.loosen.trans grows).trans grows'))

theorem instantiate_agrees {c c' : Class} (paren : Token) {arguments arguments' : List Value}
    (classes : ClassRel W c c') (related : List.Forall₂ (ValueRel W) arguments arguments')
    (count : arguments.length = c.arity) :
    Sim none W (Run.instantiate (Run.execute fuel) c paren arguments)
      (Reference.instantiate (Reference.execute fuel) c' paren arguments') ValueRel := by
  simp only [Run.instantiate, Reference.instantiate]
  refine Sim.newObject.bind fun W' id id' grows same => ?_
  subst same
  have classes' : ClassRel W' c c' := classes.mono grows
  have methods := classes'.methods initializerName
  simp only [Class.arity] at count
  revert methods count
  generalize c.findMethod initializerName = found
  generalize c'.findMethod initializerName = found'
  intro count methods
  cases methods with
  | none => exact Sim.pure (.object id' classes')
  | some method =>
    refine Sim.bindReceiver method (.object id' classes') ⟨id', c, rfl⟩
      fun W'' b b' grows' same bound => ?_
    have count' : arguments.length = b.arity := by
      rw [Closure.arity, same]
      exact count
    have both : Grows none W W'' := grows.trans grows'
    have related' : List.Forall₂ (ValueRel W'') arguments arguments' := valuesRel_mono both related
    refine (callClosure_agrees agrees paren bound related' count').bind fun W₃ _ _ grows'' _ => ?_
    exact Sim.pure (.object id' (classes'.mono (grows'.trans grows'')))

theorem call_agrees {v v' : Value} (paren : Token) {arguments arguments' : List Value}
    (callee : ValueRel W v v') (related : List.Forall₂ (ValueRel W) arguments arguments')
    (count : v.arity? = some arguments.length) :
    Sim none W (Run.call (Run.execute fuel) v paren arguments)
      (Reference.call (Reference.execute fuel) v' paren arguments') ValueRel := by
  cases callee with
  | native f => exact Sim.readClock paren
  | function id h =>
    exact callClosure_agrees agrees paren h related (Option.some.inj count).symm
  | classValue h => exact instantiate_agrees agrees paren h related (Option.some.inj count).symm
  | _ => cases count

end Sequences

theorem classValue_agrees {inner : Scopes} {scope cells : Env} {name : Token} {place : Place}
    {methods : List FunctionDecl} {superclass superclass' : Option Class}
    (here : PlaceRel W none (Γ.declare name.lexeme) env place) (plain : IsPlain name.lexeme)
    (inherited : Option.Rel (ClassRel W) superclass superclass')
    (linked : Linked W none inner scope cells)
    (resolved : Stmt.MethodsResolved W.records (["this"] :: inner) methods) :
    Sim none W
      (do
        let id ← Run.onStore Store.newIdentity
        Run.define env name.lexeme
          (.classValue ⟨id, name.lexeme, superclass, Run.methodTable scope methods⟩))
      (do
        let id ← Run.onStore Store.newIdentity
        Run.define place.target name.lexeme
          (.classValue ⟨id, name.lexeme, superclass', Run.methodTable cells methods⟩))
      fun W' _ _ => PlaceRel W' none (Γ.declare name.lexeme) env place := by
  refine Sim.newIdentity.bind fun W' id id' grows same => ?_
  subst same
  have resolved' := Stmt.methodsResolved_iff.mp (Stmt.MethodsResolved.mono grows.records _ resolved)
  have inherited' : Option.Rel (ClassRel W') superclass superclass' := by
    cases inherited with
    | some related => exact .some (related.mono grows)
    | none => exact .none
  have value : ValueRel W' _ _ := .classValue (ClassRel.mk' id' name.lexeme inherited'
    (methodTable_related (linked.mono grows) methods resolved'))
  exact Sim.define ((here.mono grows).pend _) (fun _ grows' _ => value.mono grows') plain

theorem declareClass_agrees {name : Token} {place : Place} {methods : List FunctionDecl}
    {superclass superclass' : Option Class} {inherits : Option Expr}
    (here : PlaceRel W (Γ.pending name.lexeme) (Γ.declare name.lexeme) env place)
    (plain : IsPlain name.lexeme) (inherited : Option.Rel (ClassRel W) superclass superclass')
    (same : inherits.isSome = superclass.isSome)
    (resolved : Stmt.MethodsResolved W.records
      (Stmt.classScopes inherits (Γ.declare name.lexeme)) methods) :
    Sim none W (Run.declareClass env name superclass methods)
      (Reference.declareClass place name superclass' methods)
      fun W' _ _ => PlaceRel W' none (Γ.declare name.lexeme) env place := by
  simp only [Run.declareClass, Reference.declareClass]
  refine (Sim.define here (fun _ _ _ => .nil) plain).bind fun W' _ _ grows here' => ?_
  have resolved' := Stmt.MethodsResolved.mono grows.records _ resolved
  cases inherited with
  | none =>
    obtain rfl : inherits = none := by simpa using same
    simp only [Run.methodScope, pure_bind]
    exact classValue_agrees here' plain .none here'.linked resolved'
  | @some c c' related =>
    obtain ⟨e, rfl⟩ := Option.isSome_iff_exists.mp same
    simp only [Run.methodScope, bind_assoc, pure_bind]
    have value : ValueRel W' _ _ := .classValue (related.mono grows)
    have suits : Suits "super" (.classValue c) := ⟨nofun, fun _ => ⟨c, rfl⟩⟩
    refine Sim.ownScope here'.linked value suits fun W'' env' cells' grows' linked => ?_
    exact classValue_agrees (here'.mono grows') plain (.some (related.mono (grows.trans grows')))
      linked (Stmt.MethodsResolved.mono grows'.records _ resolved')

theorem literal_related (literal : Literal) : ValueRel W literal.value literal.value := by
  cases literal with
  | number x => exact .number x
  | string s => exact .string s
  | bool b => exact .bool b
  | nil => exact .nil

section Fuel

variable {fuel : Nat} (exprs : ExprAgrees fuel) (stmts : StmtAgrees fuel)
include exprs stmts

theorem evaluate_agrees : ExprAgrees (fuel + 1) := by
  intro W pending Γ env cells e linked resolved
  cases e with
  | literal literal => exact Sim.pure (literal_related literal)
  | grouping inner => exact exprs inner linked resolved
  | unary operator operand =>
    simp only [Reference.evaluate]
    refine (exprs operand linked resolved).bind fun W' v v' grows related => ?_
    exact Sim.unary operator related
  | binary left operator right =>
    simp only [Reference.evaluate]
    refine (exprs left linked resolved.1).bind fun W' x x' grows first => ?_
    have right' := Expr.Resolved.mono grows.records _ resolved.2
    refine (exprs right (linked.mono grows) right').bind fun W'' y y' grows' second => ?_
    exact Sim.binary operator (first.mono grows') second
  | logical left operator right =>
    simp only [Reference.evaluate]
    refine (exprs left linked resolved.1).bind fun W' x x' grows first => ?_
    rw [Sim.decides_same operator first]
    by_cases decides : Operator.decides operator x = true
    · rw [if_pos decides, if_pos decides]
      exact Sim.pure first
    · rw [if_neg decides, if_neg decides]
      exact exprs right (linked.mono grows) (Expr.Resolved.mono grows.records _ resolved.2)
  | var id name =>
    simp only [Reference.evaluate]
    exact Sim.readVariable linked resolved.1 resolved.2
  | assign id name value =>
    simp only [Reference.evaluate]
    obtain ⟨value', known, plain⟩ := resolved
    refine (exprs value linked value').bind fun W' v v' grows related => ?_
    have known' := grows.records _ _ _ known
    refine (Sim.writeVariable (linked.mono grows) known' plain related).bind
      fun W'' _ _ grows' _ => ?_
    exact Sim.pure (related.mono grows')
  | call callee paren arguments =>
    simp only [Reference.evaluate]
    refine (exprs callee linked resolved.1).bind fun W' f f' grows function => ?_
    have each := Expr.allResolved_iff.mp (Expr.AllResolved.mono grows.records _ resolved.2)
    have linked' : Linked W' pending Γ env cells := linked.mono grows
    refine (Sim.traverse (Q := ValueRel) (fun _ _ _ _ grows' value => ValueRel.mono grows' value)
      fun argument member W'' grows' => exprs argument (linked'.mono grows')
        (Expr.Resolved.mono grows'.records _ (each argument member))).bind
      fun W₁ values values' grows₁ related => ?_
    have function₁ : ValueRel W₁ f f' := function.mono grows₁
    have count : values'.length = values.length := related.length_eq.symm
    rw [count]
    refine (Sim.checkCall paren values.length function₁).bind fun W₂ _ _ grows₂ arity => ?_
    exact call_agrees stmts paren (function₁.mono grows₂)
      (valuesRel_mono grows₂ related) arity
  | get object name =>
    simp only [Reference.evaluate]
    refine (exprs object linked resolved).bind fun W' v v' grows related => ?_
    cases related with
    | object id h => exact Sim.property id name h
    | _ => exact Sim.stop _ fun _ => trivial
  | set object name value =>
    simp only [Reference.evaluate]
    refine (exprs object linked resolved.1).bind fun W' v v' grows related => ?_
    cases related with
    | object id h =>
      have value' := Expr.Resolved.mono grows.records _ resolved.2
      refine (exprs value (linked.mono grows) value').bind fun W'' w w' grows' stored => ?_
      refine (Sim.setField id name.lexeme stored).bind fun W₁ _ _ grows₁ _ => ?_
      exact Sim.pure (stored.mono grows₁)
    | _ => exact Sim.stop _ fun _ => trivial
  | this id keyword =>
    simp only [Reference.evaluate]
    obtain ⟨spelled, ready, distance, found, known⟩ := resolved
    refine Sim.readVariable linked ?_ ?_
    · rw [spelled, found]
      exact known
    · rw [spelled]
      exact ready
  | super id keyword method =>
    simp only [Reference.evaluate]
    obtain ⟨ready, ready', distance, foundSuper, foundThis, known⟩ := resolved
    exact Sim.superMethod linked foundSuper foundThis known ready ready'

theorem execute_agrees : StmtAgrees (fuel + 1) := by
  intro W Γ env place s here resolved
  cases s with
  | expression e =>
    simp only [Reference.execute]
    refine (exprs e here.linked resolved).bindNone fun W' _ _ grows _ => ?_
    exact Sim.pure (.next (here.mono grows))
  | print e =>
    simp only [Reference.execute]
    refine (exprs e here.linked resolved).bindNone fun W' v v' grows related => ?_
    rw [related.display]
    refine (Sim.printLine _).bindNone fun W'' _ _ grows' _ => ?_
    exact Sim.pure (.next (here.mono (grows.trans grows')))
  | var name initializer =>
    obtain ⟨plain, fresh, value⟩ := resolved
    cases initializer with
    | none =>
      simp only [Reference.execute]
      refine Sim.declare here fresh fun W' place' grows declared => ?_
      refine (Sim.define declared (fun _ _ _ => .nil) plain).bind fun W'' _ _ grows' behind => ?_
      exact Sim.pure (.next behind)
    | some e =>
      simp only [Reference.execute]
      refine Sim.declare here fresh fun W' place' grows declared => ?_
      have value' := Expr.Resolved.mono grows.records _ (value e rfl)
      refine (exprs e declared.linked value').bindNone fun W'' v v' grows' related => ?_
      refine (Sim.define (declared.mono grows') (fun _ grows₁ _ => related.mono grows₁) plain).bind
        fun W₁ _ _ grows₁ behind => ?_
      exact Sim.pure (.next behind)
  | block statements =>
    simp only [Reference.execute]
    refine Sim.openScope env fun place' free => ?_
    have inner := PlaceRel.enter here.linked place' free
    have entered : Grows none W W.enter := Grows.enter W
    have resolved' := Stmt.AllResolved.mono entered.records _ resolved
    refine (sequence_agrees stmts statements inner resolved').after
      fun W' flow progress grows ended => ?_
    obtain ⟨Γ', ended⟩ := ended
    cases ended with
    | next _ => exact Sim.pure (.next (here.mono (entered.within (Nat.le_refl _) grows)))
    | returning value => exact Sim.pure (.returning value)
  | branch condition thenBranch elseBranch =>
    simp only [Reference.execute]
    cases elseBranch with
    | none =>
      obtain ⟨condition', isStatement, thenBranch'⟩ := resolved
      refine (exprs condition here.linked condition').bindNone fun W' v v' grows related => ?_
      rw [related.isTruthy]
      by_cases truthy : v.isTruthy = true
      · rw [if_pos truthy, if_pos truthy]
        have resolved' := Stmt.Resolved.mono grows.records _ thenBranch'
        have run := stmts thenBranch (here.mono grows) resolved'
        rwa [Stmt.after_eq_of_isStatement isStatement] at run
      · rw [if_neg truthy, if_neg truthy]
        exact Sim.pure (.next (here.mono grows))
    | some elseBranch =>
      obtain ⟨condition', ⟨isStatement, thenBranch'⟩, isStatement', elseBranch'⟩ := resolved
      refine (exprs condition here.linked condition').bindNone fun W' v v' grows related => ?_
      rw [related.isTruthy]
      by_cases truthy : v.isTruthy = true
      · rw [if_pos truthy, if_pos truthy]
        have resolved' := Stmt.Resolved.mono grows.records _ thenBranch'
        have run := stmts thenBranch (here.mono grows) resolved'
        rwa [Stmt.after_eq_of_isStatement isStatement] at run
      · rw [if_neg truthy, if_neg truthy]
        have resolved' := Stmt.Resolved.mono grows.records _ elseBranch'
        have run := stmts elseBranch (here.mono grows) resolved'
        rwa [Stmt.after_eq_of_isStatement isStatement'] at run
  | loop condition body =>
    simp only [Reference.execute]
    obtain ⟨condition', isStatement, body'⟩ := resolved
    exact repeatWhile_agrees stmts isStatement exprs fuel here condition' body'
  | function declaration =>
    simp only [Reference.execute]
    obtain ⟨plain, fresh, body⟩ := resolved
    refine Sim.declare here fresh fun W' place' grows declared => ?_
    have body' := Stmt.FunctionResolved.mono grows.records _ body
    simp only [Run.execute_succ, Dialect.executeStep, Run.plain_newFunction, Run.newFunction,
      bind_assoc, pure_bind]
    refine Sim.newIdentity.bindNone fun W₁ id id' grows₁ same => ?_
    subst same
    have body₁ := Stmt.FunctionResolved.mono grows₁.records _ body'
    refine (Sim.define (declared.mono grows₁) (fun W₂ grows₂ behind => ?_) plain).bind
      fun W₂ _ _ grows₂ behind => ?_
    · have closed : ClosureRel W₂ _ ⟨declaration, env, false⟩ ⟨declaration, place'.cells, false⟩ :=
        ⟨rfl, rfl, behind.linked⟩
      exact .function id' ⟨_, closed, Stmt.FunctionResolved.mono grows₂.records _ body₁,
        fun isInitializer => absurd isInitializer Bool.false_ne_true⟩
    · exact Sim.pure (.next behind)
  | ret keyword value =>
    cases value with
    | none => exact Sim.pure (.returning .nil)
    | some e =>
      simp only [Reference.execute]
      refine (exprs e here.linked (resolved e rfl)).bindNone fun W' v v' grows related => ?_
      exact Sim.pure (.returning related)
  | classDecl name superclass methods =>
    obtain ⟨plain, fresh, superclass', methods'⟩ := resolved
    cases superclass with
    | none =>
      simp only [Reference.execute]
      refine Sim.declare here fresh fun W' place' grows declared => ?_
      refine (declareClass_agrees declared plain .none rfl
        (Stmt.MethodsResolved.mono grows.records _ methods')).bindNone
        fun W'' _ _ grows' behind => ?_
      exact Sim.pure (.next behind)
    | some e =>
      simp only [Reference.execute]
      refine Sim.declare here fresh fun W' place' grows declared => ?_
      have e' := Expr.Resolved.mono grows.records _ (superclass' e rfl)
      refine (exprs e declared.linked e').bindNone fun W₁ v v' grows₁ related => ?_
      refine (Sim.requireClass _ related).bindNone fun W₂ c c' grows₂ inherited => ?_
      have all := (grows.trans grows₁.loosen).trans grows₂.loosen
      have methods'' : Stmt.MethodsResolved W₂.records
          (Stmt.classScopes (some e) (Γ.declare name.lexeme)) methods :=
        Stmt.MethodsResolved.mono all.records _ methods'
      refine (declareClass_agrees (declared.mono (grows₁.trans grows₂)) plain (.some inherited)
        rfl methods'').bindNone fun W'' _ _ grows' behind => ?_
      exact Sim.pure (.next behind)

end Fuel

theorem agrees (fuel : Nat) : ExprAgrees fuel ∧ StmtAgrees fuel := by
  induction fuel with
  | zero =>
    constructor
    · intro W pending Γ env cells e linked resolved
      exact Sim.stop _ fun _ => trivial
    · intro W Γ env place s here resolved
      exact Sim.stop _ fun _ => trivial
  | succ fuel ih => exact ⟨evaluate_agrees ih.1 ih.2, execute_agrees ih.1 ih.2⟩

theorem after_top (s : Stmt) : s.after [] = [] := by
  cases s <;> rfl

theorem program_agrees (fuel : Nat) (statements : List Stmt)
    (resolved : Stmt.AllResolved W.records [] statements) :
    Sim globals.head? W (Run.program fuel statements) (Reference.program fuel statements)
      fun _ _ _ => True := by
  induction statements generalizing W with
  | nil => exact Sim.pure trivial
  | cons s rest ih =>
    simp only [Run.program, Reference.program]
    have top : PlaceRel W none [] globals .top := ⟨.globals, nofun, rfl⟩
    refine ((agrees fuel).2 s top resolved.1).bind fun W' flow progress grows _ => ?_
    have resolved' := Stmt.AllResolved.mono grows.records _ resolved.2
    rw [after_top] at resolved'
    exact ih resolved'

end Lox.Reference
