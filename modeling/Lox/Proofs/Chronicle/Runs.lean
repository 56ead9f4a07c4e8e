import Lox.Proofs.Chronicle.Steps

namespace Lox.Chronicle

open Logging (silent)
open Stmt (FunctionNamesPlain)

variable {s s' : Logged Entry}

def FlowKnown (s : Logged Entry) : Flow → Prop
  | .normal => True
  | .returning v => Known s v

theorem FlowKnown.result {flow : Flow} (h : FlowKnown s flow) : Known s flow.result := by
  cases flow with
  | normal => trivial
  | returning v => exact h

def AllKnown (s : Logged Entry) (values : List Value) : Prop := ∀ v ∈ values, Known s v

theorem AllKnown.mono {values : List Value} (h : AllKnown s values) (leads : Leads s s') :
    AllKnown s' values :=
  fun v member => (h v member).mono leads

theorem traverse_keeps {f : Expr → Logging Entry Value} (es : List Expr)
    (each : ∀ e ∈ es, ∀ s, Keeps s (f e) Known) : Keeps s (Run.traverse f es) AllKnown := by
  induction es generalizing s with
  | nil => exact Keeps.pure (by simp [AllKnown])
  | cons e rest ih =>
    obtain ⟨first, later⟩ := List.forall_mem_cons.mp each
    refine (first s).bind fun s' v _ known => (ih later).bind fun s'' values leads all => ?_
    exact Keeps.pure (List.forall_mem_cons.mpr ⟨known.mono leads, all⟩)

theorem andThen_keeps {x y : Logging Entry Flow} (first : Keeps s x FlowKnown)
    (second : ∀ s, Keeps s y FlowKnown) :
    Keeps s (do
      match ← x with
      | .normal => y
      | .returning value => pure (.returning value)) FlowKnown := by
  refine first.bind fun s' flow _ known => ?_
  cases flow with
  | normal => exact second s'
  | returning v => exact Keeps.pure known

theorem sequence_keeps {execute : Stmt → Logging Entry Flow} (statements : List Stmt)
    (each : ∀ statement ∈ statements, ∀ s, Keeps s (execute statement) FlowKnown) :
    Keeps s (Run.sequence execute statements) FlowKnown := by
  induction statements generalizing s with
  | nil => exact Keeps.pure trivial
  | cons statement rest ih =>
    obtain ⟨first, later⟩ := List.forall_mem_cons.mp each
    exact andThen_keeps (first s) fun s' => ih later

theorem repeatWhile_keeps {condition : Logging Entry Value} {body : Logging Entry Flow}
    {Q : Logged Entry → Value → Prop} (first : ∀ s, Keeps s condition Q)
    (second : ∀ s, Keeps s body FlowKnown) (rounds : Nat) :
    Keeps s (runner.repeatWhile condition body rounds) FlowKnown := by
  induction rounds generalizing s with
  | zero => exact Keeps.stop _
  | succ rounds ih =>
    refine (first s).bind fun s' v _ _ => ?_
    by_cases truthy : v.isTruthy = true
    · rw [if_pos truthy]
      exact andThen_keeps (second s') fun s'' => ih
    · rw [if_neg truthy]
      exact Keeps.pure trivial

section Calls

variable {execute : Stmt → Env → Logging Entry Flow}
  (each : ∀ statement env, statement.NamesPlain → ∀ s, Keeps s (execute statement env) FlowKnown)

theorem enterScope_keeps (closure : Closure) :
    Keeps s (runner.around (.entering closure) (silent (Run.openScope closure.env)))
      fun _ _ => True := by
  refine Keeps.ofSound fun start => (Keeps.openScope closure.env).around rfl
    (fun _ _ _ _ made => ⟨_, made.2.1⟩) nofun (fun s' env scope _ made opens => ?_)
    fun _ _ _ _ => trivial
  obtain ⟨sameLog, rfl, inside⟩ := made
  cases opens
  rw [sameLog]
  exact ⟨start.inside, inside⟩

theorem finish_keeps {closure : Closure} (function : FunctionKnown s.log closure) (paren : Token)
    {flow : Flow} (ended : FlowKnown s flow) :
    Keeps s (runner.around (.leaving closure flow)
      (silent (if closure.isInitializer then Run.boundReceiver closure paren
        else pure flow.result))) Known := by
  have ends : Keeps s (silent (if closure.isInitializer then Run.boundReceiver closure paren
      else pure flow.result)) fun s' v => Known s' v ∧
        (closure.isInitializer = false → v = flow.result) ∧
          (closure.isInitializer = true →
            s'.machine.store.getAt? closure.env 0 "this" = some v) := by
    cases closure.isInitializer with
    | true =>
      exact (Keeps.boundReceiver closure paren).weaken fun s' v _ found =>
        ⟨found.2.1, nofun, fun _ => found.2.2⟩
    | false => exact Keeps.pure ⟨ended.result, fun _ => rfl, nofun⟩
  refine ends.around rfl (fun s' v leads _ found => ?_) nofun nofun
    fun s' v _ found => found.1.mono ((Leads.refl s').note _)
  refine ⟨found.2.1, fun isInitializer => ⟨found.2.2 isInitializer, ?_⟩⟩
  exact (function.mono leads).wasBound isInitializer

include each

theorem callClosure_keeps {closure : Closure} (function : FunctionKnown s.log closure)
    (paren : Token) {arguments : List Value} (known : AllKnown s arguments) :
    Keeps s (runner.callClosure execute closure paren arguments) Known := by
  obtain ⟨params, body⟩ := Stmt.functionNamesPlain_iff.mp function.plain
  refine (enterScope_keeps closure).bind fun s₁ env leads₁ _ => ?_
  refine (Keeps.bindParams env _ arguments params (known.mono leads₁)).bind fun s₂ _ leads₂ _ => ?_
  refine (sequence_keeps _ fun statement member => each statement env
    (Stmt.allNamesPlain_iff.mp body statement member)).bind fun s₃ flow leads₃ ended => ?_
  exact finish_keeps (function.mono ((leads₁.trans leads₂).trans leads₃)) paren ended

theorem instantiate_keeps {c : Class} (sound : ClassSound c) (paren : Token)
    {arguments : List Value} (known : AllKnown s arguments) :
    Keeps s (runner.instantiate execute c paren arguments) Known := by
  refine Keeps.ofSound fun start => Keeps.around (Q := fun s' v =>
    v = .object s.machine.store.objects.size c ∧ Known s' v) rfl ?_ (fun s' v leads _ made => ?_)
    nofun nofun fun s' v _ made => made.2.mono ((Leads.refl s').note _)
  · refine Keeps.newObject.bind fun s₁ id leads₁ made => ?_
    obtain ⟨rfl, inside⟩ := made
    have object : Known s₁ (.object s.machine.store.objects.size c) := ⟨inside, sound⟩
    cases found : c.findMethod initializerName with
    | none => exact Keeps.pure ⟨rfl, object⟩
    | some initializer =>
      refine (Keeps.bindReceiver (sound _ _ found) object).bind fun s₂ bound leads₂ function => ?_
      refine (callClosure_keeps each function paren (known.mono (leads₁.trans leads₂))).bind
        fun s₃ _ leads₃ _ => Keeps.pure ⟨rfl, object.mono (leads₂.trans leads₃)⟩
  · have same : s'.log.take s.log.length = s.log := (List.prefix_iff_eq_take.mp leads.log).symm
    exact ⟨_, made.1, Nat.le_refl _, leads.log.length_le,
      fun v member => start.computed v (same ▸ member),
      fun scope name v found => (start.bindings scope name v found).older,
      fun other name v found => (start.fields other name v found).older⟩

theorem call_keeps {callee : Value} (function : Known s callee) (paren : Token)
    {arguments : List Value} (known : AllKnown s arguments) :
    Keeps s (runner.call execute callee paren arguments) Known := by
  cases callee with
  | native f =>
    cases f
    exact Keeps.readClock paren
  | function id closure => exact callClosure_keeps each function paren known
  | classValue c => exact instantiate_keeps each function paren known
  | _ => exact Keeps.stop _

end Calls

section Fuel

variable {fuel : Nat}
  (exprs : ∀ e env, e.NamesPlain → ∀ s, Keeps s (evaluate fuel e env) Known)
  (stmts : ∀ statement env, statement.NamesPlain → ∀ s,
    Keeps s (execute fuel statement env) FlowKnown)
include exprs stmts

theorem evaluate_keeps (e : Expr) (env : Env) (plain : e.NamesPlain) (s : Logged Entry) :
    Keeps s (evaluate (fuel + 1) e env) Known := by
  refine Keeps.around (Q := Known) rfl ?_ (fun _ _ _ _ _ => trivial) (fun s' a v known same => ?_)
    nofun fun s' v _ known => known.mono ((Leads.refl s').note _)
  rotate_left
  · cases same
    exact known.older
  cases e with
  | literal literal => exact Keeps.pure (known_of_isAtom literal.isAtom_value)
  | grouping inner => exact exprs inner env plain s
  | unary operator operand =>
    exact (exprs operand env plain s).bind fun _ _ _ _ =>
      Keeps.ofExcept fun _ result => known_of_isAtom (Operator.isAtom_of_unary result)
  | binary left operator right =>
    exact (exprs left env plain.1 s).bind fun s' _ _ _ =>
      (exprs right env plain.2 s').bind fun _ _ _ _ =>
        Keeps.ofExcept fun _ result => known_of_isAtom (Operator.isAtom_of_binary result)
  | logical left operator right =>
    refine (exprs left env plain.1 s).bind fun s' v _ known => ?_
    by_cases decides : Operator.decides operator v = true
    · rw [if_pos decides]
      exact Keeps.pure known
    · rw [if_neg decides]
      exact exprs right env plain.2 s'
  | var id name => exact Keeps.readVariable id name env
  | assign id name value =>
    exact (exprs value env plain.2 s).bind fun s' _ _ known =>
      (Keeps.writeVariable id env plain.1 known).bind fun _ _ leads _ =>
        Keeps.pure (known.mono leads)
  | call callee paren arguments =>
    have each := Expr.allNamesPlain_iff.mp plain.2
    refine (exprs callee env plain.1 s).bind fun s₁ f _ function => ?_
    refine (traverse_keeps arguments fun argument member =>
      exprs argument env (each argument member)).bind fun s₂ values leads₂ known => ?_
    refine (Keeps.checkCall _ _ _).bind fun s₃ _ leads₃ _ => ?_
    exact call_keeps stmts (function.mono (leads₂.trans leads₃)) paren (known.mono leads₃)
  | get object name =>
    refine (exprs object env plain s).bind fun s' v _ known => ?_
    cases v with
    | object id c => exact Keeps.property known name
    | _ => exact Keeps.stop _
  | set object name value =>
    refine (exprs object env plain.1 s).bind fun s' v _ _ => ?_
    cases v with
    | object id c =>
      exact (exprs value env plain.2 s').bind fun _ _ _ known =>
        (Keeps.setField id name.lexeme known).bind fun _ _ leads _ =>
          Keeps.pure (known.mono leads)
    | _ => exact Keeps.stop _
  | this id keyword => exact Keeps.readVariable id keyword env
  | super id keyword method => exact Keeps.superMethod id keyword method env

theorem execute_keeps (statement : Stmt) (env : Env) (plain : statement.NamesPlain)
    (s : Logged Entry) : Keeps s (execute (fuel + 1) statement env) FlowKnown := by
  have normal {s : Logged Entry} : FlowKnown s .normal := trivial
  cases statement with
  | expression value => exact (exprs value env plain s).bind fun _ _ _ _ => Keeps.pure normal
  | print value =>
    exact (exprs value env plain s).bind fun _ _ _ _ =>
      (Keeps.printLine _).bind fun _ _ _ _ => Keeps.pure normal
  | var name initializer =>
    cases initializer with
    | none =>
      exact (Keeps.define (v := .nil) env plain.1 trivial).bind fun _ _ _ _ => Keeps.pure normal
    | some value =>
      exact (exprs value env (plain.2 value rfl) s).bind fun _ _ _ known =>
        (Keeps.define env plain.1 known).bind fun _ _ _ _ => Keeps.pure normal
  | block statements =>
    have each := Stmt.allNamesPlain_iff.mp plain
    exact (Keeps.openScope env).bind fun _ inner _ _ =>
      sequence_keeps statements fun statement member => stmts statement inner (each statement member)
  | branch condition thenBranch elseBranch =>
    obtain ⟨plain, thenPlain, elsePlain⟩ := Stmt.namesPlain_branch_iff.mp plain
    refine (exprs condition env plain s).bind fun s' v _ _ => ?_
    by_cases truthy : v.isTruthy = true
    · rw [if_pos truthy]
      exact stmts thenBranch env thenPlain s'
    · rw [if_neg truthy]
      cases elseBranch with
      | none => exact Keeps.pure normal
      | some other => exact stmts other env (elsePlain other rfl) s'
  | loop condition body =>
    exact repeatWhile_keeps (exprs condition env plain.1) (stmts body env plain.2) fuel
  | function declaration =>
    have known {log : List Entry} : FunctionKnown log ⟨declaration, env, false⟩ := ⟨plain.2, nofun⟩
    exact (Keeps.newFunction known).bind fun _ _ _ known =>
      (Keeps.define env plain.1 known).bind fun _ _ _ _ => Keeps.pure normal
  | ret keyword value =>
    cases value with
    | none => exact Keeps.pure (a := Flow.returning .nil) trivial
    | some e =>
      exact (exprs e env (plain e rfl) s).bind fun _ _ _ known =>
        Keeps.pure (a := Flow.returning _) known
  | classDecl name superclass methods =>
    cases superclass with
    | none =>
      exact (Keeps.declareClass env plain.1 (by simp) plain.2.2).bind fun _ _ _ _ =>
        Keeps.pure normal
    | some e =>
      refine (exprs e env (plain.2.1 e rfl) s).bind fun s' v _ known => ?_
      refine (Keeps.requireClass _ known).bind fun s'' c _ inherited => ?_
      refine (Keeps.declareClass env plain.1 ?_ plain.2.2).bind fun _ _ _ _ => Keeps.pure normal
      rintro _ ⟨⟩
      exact inherited

end Fuel

theorem keeps (fuel : Nat) :
    (∀ e env, e.NamesPlain → ∀ s, Keeps s (evaluate fuel e env) Known) ∧
      ∀ statement env, statement.NamesPlain → ∀ s,
        Keeps s (execute fuel statement env) FlowKnown := by
  induction fuel with
  | zero => exact ⟨fun _ _ _ _ => Keeps.stop _, fun _ _ _ _ => Keeps.stop _⟩
  | succ fuel ih => exact ⟨evaluate_keeps ih.1 ih.2, execute_keeps ih.1 ih.2⟩

theorem program_keeps (fuel : Nat) (statements : List Stmt)
    (plain : Stmt.AllNamesPlain statements) : Keeps s (program fuel statements) fun _ _ => True := by
  induction statements generalizing s with
  | nil => exact Keeps.pure trivial
  | cons statement rest ih =>
    exact ((keeps fuel).2 statement globals plain.1 s).bind fun _ _ _ _ => ih plain.2

end Lox.Chronicle
