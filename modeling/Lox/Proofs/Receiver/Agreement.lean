import Lox.Proofs.Evaluation.Agreement
import Lox.Proofs.Receiver.Methods

namespace Lox.Lexical

variable {records : Records} {t : Tracked} {Γ : Scopes} {env : Env} {own : Option Self}

theorem knows_of_isAtom {v : Value} (h : v.IsAtom) : Knows records t v := by
  cases v <;> trivial

def FlowKnows (records : Records) (t : Tracked) : Flow → Prop
  | .normal => True
  | .returning v => Knows records t v

theorem FlowKnows.result {flow : Flow} (h : FlowKnows records t flow) :
    Knows records t flow.result := by
  cases flow with
  | normal => trivial
  | returning v => exact h

/-- The innermost scope is none of a receiver or a superclass. -/
def IsOwn (Γ : Scopes) : Prop := ∀ names ∈ Γ.head?, ∀ n ∈ names, IsPlain n

theorem isOwn_nil : IsOwn [] := fun _ found => nomatch found

theorem isOwn_cons {names : List String} (plain : ∀ n ∈ names, IsPlain n) : IsOwn (names :: Γ) := by
  intro names' found
  cases found
  exact plain

theorem IsOwn.declare (h : IsOwn Γ) {name : String} (plain : IsPlain name) :
    IsOwn (Γ.declare name) := by
  cases Γ with
  | nil => exact isOwn_nil
  | cons names Γ =>
    refine isOwn_cons fun n member => ?_
    rcases List.mem_cons.mp member with rfl | earlier
    · exact plain
    · exact h names rfl n earlier

theorem shows_after {s : Stmt} (shows' : Shows t.machine.store Γ env own) (isOwn : IsOwn Γ)
    (resolved : s.Resolved records Γ) :
    Shows t.machine.store (s.after Γ) env own ∧ IsOwn (s.after Γ) := by
  cases s with
  | var name _ => exact ⟨shows'.declare resolved.1, isOwn.declare resolved.1⟩
  | function declaration => exact ⟨shows'.declare resolved.1, isOwn.declare resolved.1⟩
  | classDecl name _ _ => exact ⟨shows'.declare resolved.1, isOwn.declare resolved.1⟩
  | _ => exact ⟨shows', isOwn⟩

def ExprAgrees (fuel : Nat) : Prop :=
  ∀ {records : Records} {t : Tracked} {pending : Option String} {Γ : Scopes} {env : Env}
    {own : Option Self} (e : Expr), Shows t.machine.store Γ env own →
      e.Resolved records Γ pending →
      Agrees records t (Run.evaluate fuel e env) (evaluate fuel e (env, own)) (Knows records)

def StmtAgrees (fuel : Nat) : Prop :=
  ∀ {records : Records} {t : Tracked} {Γ : Scopes} {env : Env} {own : Option Self} (s : Stmt),
    Shows t.machine.store Γ env own → IsOwn Γ → s.Resolved records Γ →
      Agrees records t (Run.execute fuel s env) (execute fuel s (env, own)) (FlowKnows records)

theorem traverse_agrees {α β : Type} {f : α → Run β} {g : α → Follow β} {Q : Tracked → β → Prop}
    (kept : ∀ t t' b, Leads t t' → Q t b → Q t' b) (items : List α)
    (each : ∀ item ∈ items, ∀ t', Leads t t' → Agrees records t' (f item) (g item) Q) :
    Agrees records t (Run.traverse f items) (Run.traverse g items) fun t' bs => ∀ b ∈ bs, Q t' b := by
  induction items generalizing t with
  | nil => exact Agrees.pure nofun
  | cons item rest ih =>
    refine (each item List.mem_cons_self t (.refl t)).bind fun t' b leads holds => ?_
    have others := ih fun later member t'' leads' =>
      each later (List.mem_cons_of_mem _ member) t'' (leads.trans leads')
    refine others.bind fun t'' bs leads' all => Agrees.pure fun b' member => ?_
    rcases List.mem_cons.mp member with rfl | later
    · exact kept _ _ _ leads' holds
    · exact all b' later

theorem bindParams_agrees (env : Env) (params : List Token) (arguments : List Value)
    (plain : ∀ param ∈ params, IsPlain param.lexeme)
    (known : ∀ argument ∈ arguments, Knows records t argument) :
    Agrees records t (Run.bindParams env params arguments)
      (lift (Run.bindParams env params arguments)) fun _ _ => True := by
  induction params generalizing t arguments with
  | nil => exact Agrees.pure trivial
  | cons param params ih =>
    cases arguments with
    | nil => exact Agrees.pure trivial
    | cons argument arguments =>
      rw [Run.bindParams, lift_bind]
      refine (Agrees.define env (plain _ List.mem_cons_self)
        (known _ List.mem_cons_self)).bind fun t' _ leads _ => ?_
      exact ih arguments (fun p member => plain p (List.mem_cons_of_mem _ member))
        fun a member => (known a (List.mem_cons_of_mem _ member)).mono leads

section Calls

variable {fuel : Nat} (agrees : StmtAgrees fuel)
include agrees

theorem sequence_agrees (statements : List Stmt) (shows' : Shows t.machine.store Γ env own)
    (isOwn : IsOwn Γ) (resolved : Stmt.AllResolved records Γ statements) :
    Agrees records t (Run.sequence (fun s => Run.execute fuel s env) statements)
      (Run.sequence (fun s => execute fuel s (env, own)) statements) (FlowKnows records) := by
  induction statements generalizing t Γ with
  | nil => exact Agrees.pure trivial
  | cons s rest ih =>
    refine (agrees s shows' isOwn resolved.1).bind fun t' flow leads knows => ?_
    cases flow with
    | normal =>
      obtain ⟨behind, isOwn'⟩ := shows_after (shows'.mono leads.later) isOwn resolved.1
      exact ih behind isOwn' resolved.2
    | returning v => exact Agrees.pure knows

theorem repeatWhile_agrees {condition : Expr} {body : Stmt} (exprs : ExprAgrees fuel)
    (rounds : Nat) (shows' : Shows t.machine.store Γ env own) (isOwn : IsOwn Γ)
    (resolved : condition.Resolved records Γ none) (resolved' : body.Resolved records Γ) :
    Agrees records t
      (Run.repeatWhile (Run.evaluate fuel condition env) (Run.execute fuel body env) rounds)
      (dialect.repeatWhile (evaluate fuel condition (env, own)) (execute fuel body (env, own)) rounds)
      (FlowKnows records) := by
  induction rounds generalizing t with
  | zero => exact Agrees.stop _
  | succ rounds ih =>
    refine (exprs condition shows' resolved).bind fun t' v leads _ => ?_
    have shows₁ := shows'.mono leads.later
    by_cases truthy : v.isTruthy = true
    · rw [if_pos truthy, if_pos truthy]
      refine (agrees body shows₁ isOwn resolved').bind fun t'' flow leads' knows => ?_
      cases flow with
      | normal => exact ih (shows₁.mono leads'.later)
      | returning v => exact Agrees.pure knows
    · rw [if_neg truthy, if_neg truthy]
      exact Agrees.pure trivial

theorem callClosure_agrees {closure : Closure} (paren : Token) {arguments : List Value}
    (knows : FunctionKnows records t.machine.store closure own Γ)
    (known : ∀ argument ∈ arguments, Knows records t argument) :
    Agrees records t (Run.callClosure (Run.execute fuel) closure paren arguments)
      (callClosure (execute fuel) closure own paren arguments) (Knows records) := by
  obtain ⟨-, plain, body⟩ := Stmt.functionResolved_iff.mp knows.resolved
  have plain' : ∀ n ∈ (closure.declaration.params.map Token.lexeme).reverse, IsPlain n := by
    intro n member
    obtain ⟨param, member', rfl⟩ := List.mem_map.mp (List.mem_reverse.mp member)
    exact plain param member'
  refine (Agrees.openScope closure.env).bind fun t₁ inner leads₁ made => ?_
  obtain ⟨scope, rfl⟩ := made
  refine (bindParams_agrees _ closure.declaration.params arguments plain
    fun argument member => (known argument member).mono leads₁).bind fun t₂ _ leads₂ _ => ?_
  have leads := leads₁.trans leads₂
  have inside := (knows.shows'.mono leads.later).push plain' scope
  refine (sequence_agrees agrees closure.declaration.body inside (isOwn_cons plain') body).bind
    fun t₃ flow leads₃ ended => ?_
  cases isInitializer : closure.isInitializer with
  | false => exact Agrees.pure ended.result
  | true => exact Agrees.boundReceiver (knows.mono (leads.trans leads₃).later) isInitializer paren

theorem instantiate_agrees {c : Class} (paren : Token) {arguments : List Value}
    (knows : ClassKnows records t.machine.store c)
    (known : ∀ argument ∈ arguments, Knows records t argument) :
    Agrees records t (Run.instantiate (Run.execute fuel) c paren arguments)
      (instantiate (execute fuel) c paren arguments) (Knows records) := by
  refine Agrees.newObject.bind fun t₁ id leads₁ _ => ?_
  have knows₁ := knows.mono leads₁.later
  rw [findMethod_eq]
  cases found : findDeclared initializerName c with
  | none => exact Agrees.pure knows₁
  | some declared =>
    obtain ⟨initializer, superclass⟩ := declared
    refine (Agrees.bindReceiver id (knows₁ _ _ _ found) knows₁).bind
      fun t₂ bound leads₂ made => ?_
    obtain ⟨Γ, knows₂⟩ := made
    refine (callClosure_agrees agrees paren knows₂ fun argument member =>
      (known argument member).mono (leads₁.trans leads₂)).bind fun t₃ _ leads₃ _ => ?_
    exact Agrees.pure (knows₁.mono (leads₂.trans leads₃).later)

theorem call_agrees {callee : Value} (paren : Token) {arguments : List Value}
    (knows : Knows records t callee) (known : ∀ argument ∈ arguments, Knows records t argument) :
    Agrees records t (Run.call (Run.execute fuel) callee paren arguments)
      (call (execute fuel) callee paren arguments) (Knows records) := by
  cases callee with
  | native f =>
    cases f
    exact Agrees.readClock paren
  | function id closure =>
    obtain ⟨-, Γ, knows⟩ := knows
    exact callClosure_agrees agrees paren knows known
  | classValue c => exact instantiate_agrees agrees paren knows known
  | _ => exact Agrees.stop _

end Calls

theorem classValue_agrees {inner : Scopes} {scope : Env} {name : Token} {superclass : Option Class}
    {methods : List FunctionDecl} (shows' : ShowsSuper t.machine.store inner scope superclass)
    (plain : IsPlain name.lexeme)
    (inherited : ∀ c ∈ superclass, ClassKnows records t.machine.store c)
    (resolved : Stmt.MethodsResolved records (["this"] :: inner) methods) (env : Env) :
    Agrees records t
      (do
        let id ← Run.onStore Store.newIdentity
        Run.define env name.lexeme
          (.classValue ⟨id, name.lexeme, superclass, Run.methodTable scope methods⟩))
      (lift do
        let id ← Run.onStore Store.newIdentity
        Run.define env name.lexeme
          (.classValue ⟨id, name.lexeme, superclass, Run.methodTable scope methods⟩))
      fun _ _ => True := by
  rw [lift_bind]
  refine Agrees.newIdentity.bind fun t' id leads _ => ?_
  have each := methodTable_knows (shows'.mono leads.later) methods
    (Stmt.methodsResolved_iff.mp resolved)
  exact Agrees.define env plain (ClassKnows.mk' id name.lexeme
    (fun c member => (inherited c member).mono leads.later) each)

theorem declareClass_agrees {name : Token} {superclass : Option Class} {inherits : Option Expr}
    {methods : List FunctionDecl} (isOwn : IsOwn Γ) (plain : IsPlain name.lexeme)
    (inherited : ∀ c ∈ superclass, ClassKnows records t.machine.store c)
    (same : inherits.isSome = superclass.isSome)
    (resolved : Stmt.MethodsResolved records (Stmt.classScopes inherits Γ) methods) (env : Env) :
    Agrees records t (Run.declareClass env name superclass methods)
      (lift (Run.declareClass env name superclass methods)) fun _ _ => True := by
  rw [Run.declareClass, lift_bind]
  refine (Agrees.define env plain (v := .nil) trivial).bind fun t₁ _ leads₁ _ => ?_
  cases superclass with
  | none =>
    obtain rfl : inherits = none := by simpa using same
    exact classValue_agrees (.plain isOwn) plain (by simp) resolved env
  | some c =>
    obtain ⟨e, rfl⟩ := Option.isSome_iff_exists.mp same
    have known : ClassKnows records t₁.machine.store c := (inherited c rfl).mono leads₁.later
    rw [lift_bind]
    refine (Agrees.ownScope env "super" (v := .classValue c) known).bind fun t₂ _ leads₂ made => ?_
    obtain ⟨scope, rfl, bound⟩ := made
    refine classValue_agrees (.subclass bound) plain (fun c' member => ?_) resolved env
    cases member
    exact known.mono leads₂.later

section Fuel

variable {fuel : Nat} (exprs : ExprAgrees fuel) (stmts : StmtAgrees fuel)
include exprs stmts

theorem evaluate_agrees : ExprAgrees (fuel + 1) := by
  intro records t pending Γ env own e shows' resolved
  cases e with
  | literal literal =>
    exact Agrees.pure (knows_of_isAtom literal.isAtom_value)
  | grouping inner => exact exprs inner shows' resolved
  | unary operator operand =>
    refine (exprs operand shows' resolved).bind fun t' v leads _ => ?_
    exact Agrees.ofExcept fun _ result => knows_of_isAtom (Operator.isAtom_of_unary result)
  | binary left operator right =>
    refine (exprs left shows' resolved.1).bind fun t₁ x leads₁ _ => ?_
    refine (exprs right (shows'.mono leads₁.later) resolved.2).bind fun t₂ y leads₂ _ => ?_
    exact Agrees.ofExcept fun _ result => knows_of_isAtom (Operator.isAtom_of_binary result)
  | logical left operator right =>
    refine (exprs left shows' resolved.1).bind fun t₁ x leads₁ knows => ?_
    by_cases decides : Operator.decides operator x = true
    · rw [if_pos decides, if_pos decides]
      exact Agrees.pure knows
    · rw [if_neg decides, if_neg decides]
      exact exprs right (shows'.mono leads₁.later) resolved.2
  | var id name => exact Agrees.readVariable id name env
  | assign id name value =>
    obtain ⟨value', -, plain⟩ := resolved
    refine (exprs value shows' value').bind fun t₁ v leads₁ knows => ?_
    refine (Agrees.writeVariable id env plain knows).bind fun t₂ _ leads₂ _ => ?_
    exact Agrees.pure (knows.mono leads₂)
  | call callee paren arguments =>
    refine (exprs callee shows' resolved.1).bind fun t₁ f leads₁ knows => ?_
    have each := Expr.allResolved_iff.mp resolved.2
    refine (traverse_agrees (Q := Knows records) (fun _ _ _ leads known => known.mono leads)
      arguments fun argument member t' leads' => exprs argument
        (shows'.mono (leads₁.trans leads').later) (each argument member)).bind
      fun t₂ values leads₂ known => ?_
    refine (Agrees.checkCall f paren values.length).bind fun t₃ _ leads₃ _ => ?_
    exact call_agrees stmts paren (knows.mono (leads₂.trans leads₃))
      fun value member => (known value member).mono leads₃
  | get object name =>
    refine (exprs object shows' resolved).bind fun t₁ v leads₁ knows => ?_
    cases v with
    | object id c => exact Agrees.property id knows name
    | _ => exact Agrees.stop _
  | set object name value =>
    refine (exprs object shows' resolved.1).bind fun t₁ v leads₁ knows => ?_
    cases v with
    | object id c =>
      refine (exprs value (shows'.mono leads₁.later) resolved.2).bind fun t₂ w leads₂ known => ?_
      refine (Agrees.setField id name.lexeme known).bind fun t₃ _ leads₃ _ => ?_
      exact Agrees.pure (known.mono leads₃)
    | _ => exact Agrees.stop _
  | this id keyword =>
    obtain ⟨spelled, -, d, found, known⟩ := resolved
    exact Agrees.readReceiver shows' spelled found known _
  | super id keyword method =>
    obtain ⟨-, -, d, found, found', known⟩ := resolved
    exact Agrees.superMethod shows' found found' known method

theorem execute_agrees : StmtAgrees (fuel + 1) := by
  intro records t Γ env own s shows' isOwn resolved
  cases s with
  | expression value =>
    exact (exprs value shows' resolved).bind fun _ _ _ _ => Agrees.pure trivial
  | print value =>
    refine (exprs value shows' resolved).bind fun t₁ v _ _ => ?_
    exact (Agrees.printLine v.display).bind fun _ _ _ _ => Agrees.pure trivial
  | var name initializer =>
    obtain ⟨plain, -, each⟩ := resolved
    cases initializer with
    | none =>
      exact (Agrees.define env plain (v := .nil) trivial).bind fun _ _ _ _ => Agrees.pure trivial
    | some value =>
      refine (exprs value (shows'.declare plain) (each value rfl)).bind fun t₁ v _ knows => ?_
      exact (Agrees.define env plain knows).bind fun _ _ _ _ => Agrees.pure trivial
  | block statements =>
    refine (Agrees.openScope env).bind fun t₁ inner leads₁ made => ?_
    obtain ⟨scope, rfl⟩ := made
    have none : ∀ n ∈ ([] : List String), IsPlain n := List.forall_mem_nil _
    exact sequence_agrees stmts statements ((shows'.mono leads₁.later).push none scope)
      (isOwn_cons none) resolved
  | branch condition thenBranch elseBranch =>
    have resolved' : condition.Resolved records Γ none ∧ thenBranch.Resolved records Γ ∧
        ∀ s ∈ elseBranch, s.Resolved records Γ := by
      cases elseBranch with
      | none => exact ⟨resolved.1, resolved.2.2, by simp⟩
      | some s =>
        refine ⟨resolved.1, resolved.2.1.2, ?_⟩
        rintro _ ⟨⟩
        exact resolved.2.2.2
    obtain ⟨first, yes, no⟩ := resolved'
    refine (exprs condition shows' first).bind fun t₁ v leads₁ _ => ?_
    have shows₁ := shows'.mono leads₁.later
    by_cases truthy : v.isTruthy = true
    · rw [if_pos truthy, if_pos truthy]
      exact stmts thenBranch shows₁ isOwn yes
    · rw [if_neg truthy, if_neg truthy]
      cases elseBranch with
      | none => exact Agrees.pure trivial
      | some s => exact stmts s shows₁ isOwn (no s rfl)
  | loop condition body =>
    exact repeatWhile_agrees stmts exprs fuel shows' isOwn resolved.1 resolved.2.2
  | function declaration =>
    obtain ⟨plain, -, resolved'⟩ := resolved
    have knows : FunctionKnows records t.machine.store ⟨declaration, env, false⟩ own
        (Γ.declare declaration.name.lexeme) := ⟨shows'.declare plain, resolved', by simp⟩
    refine (Agrees.newFunction knows).bind fun t₁ v leads₁ known => ?_
    exact (Agrees.define env plain known).bind fun _ _ _ _ => Agrees.pure trivial
  | ret keyword value =>
    cases value with
    | none => exact Agrees.pure trivial
    | some value =>
      exact (exprs value shows' (resolved value rfl)).bind fun _ _ _ knows => Agrees.pure knows
  | classDecl name superclass methods =>
    obtain ⟨plain, -, inherits, members⟩ := resolved
    have isOwn' := isOwn.declare plain
    cases superclass with
    | none =>
      have inherited : ∀ c ∈ (none : Option Class), ClassKnows records t.machine.store c := by
        simp
      have declared : Agrees records t (Run.declareClass env name none methods)
          (lift (Run.declareClass env name none methods)) fun _ _ => True :=
        declareClass_agrees isOwn' plain inherited rfl members env
      exact declared.bind fun _ _ _ _ => Agrees.pure trivial
    | some e =>
      refine (exprs e (shows'.declare plain) (inherits e rfl)).bind fun t₁ v leads₁ knows => ?_
      refine (Agrees.requireClass _ knows).bind fun t₂ c leads₂ known => ?_
      have inherited : ∀ c' ∈ some c, ClassKnows records t₂.machine.store c' := by
        rintro c' ⟨⟩
        exact known
      have declared : Agrees records t₂ (Run.declareClass env name (some c) methods)
          (lift (Run.declareClass env name (some c) methods)) fun _ _ => True :=
        declareClass_agrees isOwn' plain inherited rfl members env
      exact declared.bind fun _ _ _ _ => Agrees.pure trivial

end Fuel

theorem agrees (fuel : Nat) : ExprAgrees fuel ∧ StmtAgrees fuel := by
  induction fuel with
  | zero =>
    exact ⟨fun _ _ _ => Agrees.stop _, fun _ _ _ _ => Agrees.stop _⟩
  | succ fuel ih => exact ⟨evaluate_agrees ih.1 ih.2, execute_agrees ih.1 ih.2⟩

theorem program_agrees (fuel : Nat) (statements : List Stmt)
    (resolved : Stmt.AllResolved records [] statements) :
    Agrees records t (Run.program fuel statements) (program fuel statements) fun _ _ => True := by
  induction statements generalizing t with
  | nil => exact Agrees.pure trivial
  | cons s rest ih =>
    refine ((agrees fuel).2 s .globals isOwn_nil resolved.1).bind fun t' _ _ _ => ?_
    have outside : s.after [] = [] := Reference.after_top s
    exact ih (outside ▸ resolved.2)

end Lox.Lexical
