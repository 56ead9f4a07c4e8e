import Lox.Proofs.Locality.Steps

namespace Lox.Locality

variable {α β : Type} {start : Store} {roots : Env}

theorem traverse_stays {f : α → Run β} {Q : β → Prop} (items : List α)
    (each : ∀ item ∈ items, Stays start roots (f item) Q) :
    Stays start roots (Run.traverse f items) fun results => ∀ result ∈ results, Q result := by
  induction items with
  | nil => exact Stays.pure nofun
  | cons item rest ih =>
    obtain ⟨first, later⟩ := List.forall_mem_cons.mp each
    refine first.bind fun result holds => (ih later).bind fun others all => Stays.pure ?_
    exact List.forall_mem_cons.mpr ⟨holds, all⟩

def FlowNear (start : Store) (roots : Env) : Flow → Prop
  | .normal => True
  | .returning v => Near start roots v

theorem FlowNear.result {flow : Flow} (h : FlowNear start roots flow) :
    Near start roots flow.result := by
  cases flow with
  | normal => trivial
  | returning v => exact h

theorem andThen_stays {x y : Run Flow} (first : Stays start roots x (FlowNear start roots))
    (second : Stays start roots y (FlowNear start roots)) :
    Stays start roots (do
      match ← x with
      | .normal => y
      | .returning value => pure (.returning value)) (FlowNear start roots) := by
  refine first.bind fun flow known => ?_
  cases flow with
  | normal => exact second
  | returning v => exact Stays.pure known

theorem sequence_stays {execute : Stmt → Run Flow} (statements : List Stmt)
    (each : ∀ s, Stays start roots (execute s) (FlowNear start roots)) :
    Stays start roots (Run.sequence execute statements) (FlowNear start roots) := by
  induction statements with
  | nil => exact Stays.pure trivial
  | cons s rest ih => exact andThen_stays (each s) ih

theorem repeatWhile_stays {condition : Run Value} {body : Run Flow} {Q : Value → Prop}
    (first : Stays start roots condition Q)
    (second : Stays start roots body (FlowNear start roots)) (rounds : Nat) :
    Stays start roots (Run.repeatWhile condition body rounds) (FlowNear start roots) := by
  induction rounds with
  | zero => exact Stays.stop _
  | succ rounds ih =>
    refine first.bind fun v _ => ?_
    by_cases truthy : v.isTruthy = true
    · rw [if_pos truthy]
      exact andThen_stays second ih
    · rw [if_neg truthy]
      exact Stays.pure trivial

section Calls

variable {execute : Stmt → Env → Run Flow}
  (each : ∀ s {env}, EnvNear start roots env →
    Stays start roots (execute s env) (FlowNear start roots))
include each

theorem callClosure_stays {closure : Closure} (h : EnvNear start roots closure.env) (paren : Token)
    (arguments : List Value) (known : ∀ argument ∈ arguments, Near start roots argument) :
    Stays start roots (Run.callClosure execute closure paren arguments) (Near start roots) := by
  refine (Stays.openScope h).bind fun env inner => ?_
  refine (Stays.bindParams inner _ _ known).bind fun _ _ => ?_
  refine (sequence_stays _ fun s => each s inner).bind fun flow ended => ?_
  cases closure.isInitializer with
  | true => exact Stays.boundReceiver h paren
  | false => exact Stays.pure ended.result

theorem instantiate_stays {c : Class} (h : ClassNear start roots c) (paren : Token)
    (arguments : List Value) (known : ∀ argument ∈ arguments, Near start roots argument) :
    Stays start roots (Run.instantiate execute c paren arguments) (Near start roots) := by
  refine Stays.newObject.bind fun id near => ?_
  have object : Near start roots (.object id c) := ⟨near, h⟩
  cases found : c.findMethod initializerName with
  | none => exact Stays.pure object
  | some initializer =>
    refine (Stays.bindReceiver (h _ _ found) object).bind fun bound inner => ?_
    exact (callClosure_stays each inner paren arguments known).bind fun _ _ => Stays.pure object

theorem call_stays {callee : Value} (h : Near start roots callee) (paren : Token)
    (arguments : List Value) (known : ∀ argument ∈ arguments, Near start roots argument) :
    Stays start roots (Run.call execute callee paren arguments) (Near start roots) := by
  cases callee with
  | native function =>
    cases function
    exact Stays.readClock paren
  | function id closure => exact callClosure_stays each h paren arguments known
  | classValue c => exact instantiate_stays each h paren arguments known
  | _ => exact Stays.fail _ _

end Calls

section Fuel

variable {fuel : Nat}
  (exprs : ∀ e {env}, EnvNear start roots env →
    Stays start roots (Run.evaluate fuel e env) (Near start roots))
  (stmts : ∀ s {env}, EnvNear start roots env →
    Stays start roots (Run.execute fuel s env) (FlowNear start roots))
include exprs stmts

theorem evaluate_stays (e : Expr) {env : Env} (h : EnvNear start roots env) :
    Stays start roots (Run.evaluate (fuel + 1) e env) (Near start roots) := by
  cases e with
  | literal literal => exact Stays.pure (near_of_isAtom literal.isAtom_value)
  | grouping inner => exact exprs inner h
  | unary operator operand =>
    exact (exprs operand h).bind fun _ _ =>
      Stays.ofExcept fun _ result => near_of_isAtom (Operator.isAtom_of_unary result)
  | binary left operator right =>
    exact (exprs left h).bind fun _ _ => (exprs right h).bind fun _ _ =>
      Stays.ofExcept fun _ result => near_of_isAtom (Operator.isAtom_of_binary result)
  | logical left operator right =>
    refine (exprs left h).bind fun v known => ?_
    by_cases decides : Operator.decides operator v = true
    · rw [if_pos decides]
      exact Stays.pure known
    · rw [if_neg decides]
      exact exprs right h
  | var id name => exact Stays.readVariable h id name
  | assign id name value =>
    exact (exprs value h).bind fun _ known =>
      (Stays.writeVariable h id name known).bind fun _ _ => Stays.pure known
  | call callee paren arguments =>
    refine (exprs callee h).bind fun f known => ?_
    refine (traverse_stays arguments fun argument _ => exprs argument h).bind fun values all => ?_
    exact (Stays.checkCall _ _ _).bind fun _ _ => call_stays stmts known paren values all
  | get object name =>
    refine (exprs object h).bind fun v known => ?_
    cases v with
    | object id c => exact Stays.property known.1 known.2 name
    | _ => exact Stays.fail _ _
  | set object name value =>
    refine (exprs object h).bind fun v known => ?_
    cases v with
    | object id c =>
      exact (exprs value h).bind fun _ known' =>
        (Stays.setField known.1 _ known').bind fun _ _ => Stays.pure known'
    | _ => exact Stays.fail _ _
  | this id keyword => exact Stays.readVariable h id keyword
  | super id keyword method => exact Stays.superMethod h id keyword method

theorem execute_stays (s : Stmt) {env : Env} (h : EnvNear start roots env) :
    Stays start roots (Run.execute (fuel + 1) s env) (FlowNear start roots) := by
  have normal : FlowNear start roots .normal := trivial
  cases s with
  | expression value => exact (exprs value h).bind fun _ _ => Stays.pure normal
  | print value =>
    exact (exprs value h).bind fun _ _ => (Stays.printLine _).bind fun _ _ => Stays.pure normal
  | var name initializer =>
    cases initializer with
    | none =>
      exact (Stays.define (v := .nil) h _ trivial).bind fun _ _ => Stays.pure normal
    | some value =>
      exact (exprs value h).bind fun _ known =>
        (Stays.define h _ known).bind fun _ _ => Stays.pure normal
  | block statements =>
    exact (Stays.openScope h).bind fun _ inner => sequence_stays _ fun s => stmts s inner
  | branch condition thenBranch elseBranch =>
    refine (exprs condition h).bind fun v _ => ?_
    by_cases truthy : v.isTruthy = true
    · rw [if_pos truthy]
      exact stmts thenBranch h
    · rw [if_neg truthy]
      cases elseBranch with
      | none => exact Stays.pure normal
      | some s => exact stmts s h
  | loop condition body => exact repeatWhile_stays (exprs condition h) (stmts body h) fuel
  | function declaration =>
    exact (Stays.newFunction h).bind fun _ known =>
      (Stays.define h _ known).bind fun _ _ => Stays.pure normal
  | ret keyword value =>
    cases value with
    | none => exact Stays.pure (a := Flow.returning .nil) trivial
    | some e => exact (exprs e h).bind fun _ known => Stays.pure known
  | classDecl name superclass methods =>
    cases superclass with
    | none =>
      exact (Stays.declareClass h name (by simp) methods).bind fun _ _ => Stays.pure normal
    | some e =>
      refine (exprs e h).bind fun v known => ?_
      refine (Stays.requireClass _ known).bind fun c inherited => ?_
      refine (Stays.declareClass h name ?_ methods).bind fun _ _ => Stays.pure normal
      rintro _ ⟨⟩
      exact inherited

end Fuel

theorem stays (fuel : Nat) :
    (∀ e {env}, EnvNear start roots env →
      Stays start roots (Run.evaluate fuel e env) (Near start roots)) ∧
    ∀ s {env}, EnvNear start roots env →
      Stays start roots (Run.execute fuel s env) (FlowNear start roots) := by
  induction fuel with
  | zero => exact ⟨fun _ _ _ => Stays.stop _, fun _ _ _ => Stays.stop _⟩
  | succ fuel ih => exact ⟨evaluate_stays ih.1 ih.2, execute_stays ih.1 ih.2⟩

theorem untouched_evaluate (fuel : Nat) (e : Expr) (env : Env) (m : Machine) :
    Untouched env m.store (lastState (Run.evaluate fuel e env m)).store :=
  ((stays fuel).1 e envNear_roots m .refl).1.untouched

theorem untouched_execute (fuel : Nat) (s : Stmt) (env : Env) (m : Machine) :
    Untouched env m.store (lastState (Run.execute fuel s env m)).store :=
  ((stays fuel).2 s envNear_roots m .refl).1.untouched

theorem Untouched.of_changed {before after : Store} {roots : Env} {scope : Nat}
    (h : Untouched roots before after) (old : scope < before.scopes.size)
    (changed : after.scopes[scope]? ≠ before.scopes[scope]?) :
    scope ∈ roots ∨ scope = 0 ∨
      ∃ closure, Reaches before roots (.closure closure) ∧ scope ∈ closure.env := by
  by_cases reached : Reaches before roots (.scope scope)
  · exact reached.scope_cases
  · exact absurd (h.scopes scope old reached) changed

end Lox.Locality
