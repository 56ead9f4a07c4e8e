import Lox.Proofs.Lawful.Steps

namespace Lox

namespace Lawful

variable {α β : Type}

theorem traverse_abides {f : α → Run β} {Q : β → Prop} (items : List α)
    (each : ∀ item ∈ items, Abides (f item) Q) :
    Abides (Run.traverse f items) fun results => ∀ result ∈ results, Q result := by
  induction items with
  | nil => exact .pure nofun
  | cons item rest ih =>
    obtain ⟨first, later⟩ := List.forall_mem_cons.mp each
    exact first.bind fun result holds => (ih later).bind fun others all =>
      .pure (List.forall_mem_cons.mpr ⟨holds, all⟩)

def IsLawfulFlow : Flow → Prop
  | .normal => True
  | .returning v => v.IsLawful

theorem IsLawfulFlow.result {flow : Flow} (h : IsLawfulFlow flow) : flow.result.IsLawful := by
  cases flow with
  | normal => trivial
  | returning v => exact h

theorem andThen_abides {x y : Run Flow} (first : Abides x IsLawfulFlow)
    (second : Abides y IsLawfulFlow) :
    Abides (do
      match ← x with
      | .normal => y
      | .returning value => pure (.returning value)) IsLawfulFlow := by
  refine first.bind fun flow known => ?_
  cases flow with
  | normal => exact second
  | returning v => exact .pure known

theorem sequence_abides {execute : Stmt → Run Flow} (statements : List Stmt)
    (each : ∀ s ∈ statements, Abides (execute s) IsLawfulFlow) :
    Abides (Run.sequence execute statements) IsLawfulFlow := by
  induction statements with
  | nil => exact .pure trivial
  | cons s rest ih =>
    obtain ⟨first, later⟩ := List.forall_mem_cons.mp each
    exact andThen_abides first (ih later)

theorem repeatWhile_abides {condition : Run Value} {body : Run Flow} {Q : Value → Prop}
    (first : Abides condition Q) (second : Abides body IsLawfulFlow) (rounds : Nat) :
    Abides (Run.repeatWhile condition body rounds) IsLawfulFlow := by
  induction rounds with
  | zero => exact .outOfFuel
  | succ rounds ih =>
    refine first.bind fun v _ => ?_
    by_cases truthy : v.isTruthy = true
    · rw [if_pos truthy]
      exact andThen_abides second ih
    · rw [if_neg truthy]
      exact .pure trivial

section Calls

variable {execute : Stmt → Env → Run Flow}
  (each : ∀ s env, s.Lawful none → Abides (execute s env) IsLawfulFlow)
include each

theorem callClosure_abides {closure : Closure}
    (lawful : Stmt.FunctionLawful none closure.declaration) (paren : Token)
    {arguments : List Value} (known : ∀ argument ∈ arguments, argument.IsLawful) :
    Abides (Run.callClosure execute closure paren arguments) Value.IsLawful := by
  obtain ⟨-, -, -, body⟩ := Stmt.functionLawful_iff.mp lawful
  refine (Abides.openScope closure.env).bind fun env _ => ?_
  refine (Abides.bindParams env _ _ known).bind fun _ _ => ?_
  refine (sequence_abides _ fun s member => each s env (Stmt.allLawful_iff.mp body s member)).bind
    fun flow ended => ?_
  cases closure.isInitializer with
  | true => exact Abides.boundReceiver closure paren
  | false => exact .pure ended.result

theorem instantiate_abides {c : Class} (h : c.IsLawful) (paren : Token) {arguments : List Value}
    (known : ∀ argument ∈ arguments, argument.IsLawful) :
    Abides (Run.instantiate execute c paren arguments) Value.IsLawful := by
  refine Abides.newObject.bind fun id _ => ?_
  have object : (Value.object id c).IsLawful := h
  cases found : c.findMethod initializerName with
  | none => exact .pure object
  | some initializer =>
    refine (Abides.bindReceiver (h _ _ found) object).bind fun bound lawful => ?_
    exact (callClosure_abides each lawful paren known).bind fun _ _ => .pure object

theorem call_abides {callee : Value} (h : callee.IsLawful) (paren : Token) {arguments : List Value}
    (known : ∀ argument ∈ arguments, argument.IsLawful) :
    Abides (Run.call execute callee paren arguments) Value.IsLawful := by
  cases callee with
  | native function =>
    cases function
    exact .readClock paren
  | function id closure => exact callClosure_abides each h paren known
  | classValue c => exact instantiate_abides each h paren known
  | _ => exact .fail rfl paren

end Calls

section Fuel

variable {fuel : Nat}
  (exprs : ∀ e env, e.Lawful none → Abides (Run.evaluate fuel e env) Value.IsLawful)
  (stmts : ∀ s env, s.Lawful none → Abides (Run.execute fuel s env) IsLawfulFlow)
include exprs stmts

theorem evaluate_abides (e : Expr) (env : Env) (h : e.Lawful none) :
    Abides (Run.evaluate (fuel + 1) e env) Value.IsLawful := by
  cases e with
  | literal literal => exact .pure literal.isAtom_value.isLawful
  | grouping inner => exact exprs inner env h
  | unary operator operand =>
    obtain ⟨isOperator, h⟩ := h
    exact (exprs operand env h).bind fun _ _ =>
      .ofExcept (fun _ result => (Operator.isAtom_of_unary result).isLawful)
        fun _ => Operator.unary_allowed isOperator
  | binary left operator right =>
    obtain ⟨isOperator, h, h'⟩ := h
    exact (exprs left env h).bind fun _ _ => (exprs right env h').bind fun _ _ =>
      .ofExcept (fun _ result => (Operator.isAtom_of_binary result).isLawful)
        fun _ => Operator.binary_allowed isOperator
  | logical left operator right =>
    obtain ⟨-, h, h'⟩ := h
    refine (exprs left env h).bind fun v known => ?_
    by_cases decides : Operator.decides operator v = true
    · rw [if_pos decides]
      exact .pure known
    · rw [if_neg decides]
      exact exprs right env h'
  | var id name => exact .readVariable id name env
  | assign id name value =>
    exact (exprs value env h.2).bind fun _ known =>
      (Abides.writeVariable id name env known).bind fun _ _ => .pure known
  | call callee paren arguments =>
    obtain ⟨-, h, h'⟩ := h
    refine (exprs callee env h).bind fun f known => ?_
    refine (traverse_abides arguments fun argument member =>
      exprs argument env (Expr.allLawful_iff.mp h' argument member)).bind fun values all => ?_
    exact (Abides.checkCall f paren values.length).bind fun _ _ => call_abides stmts known paren all
  | get object name =>
    refine (exprs object env h.2).bind fun v known => ?_
    cases v with
    | object id c => exact .property id known name
    | _ => exact .fail rfl name
  | set object name value =>
    refine (exprs object env h.2.1).bind fun v known => ?_
    cases v with
    | object id c =>
      exact (exprs value env h.2.2).bind fun _ known' =>
        (Abides.setField id name.lexeme known').bind fun _ _ => .pure known'
    | _ => exact .fail rfl name
  | this id keyword => exact .readVariable id keyword env
  | super id keyword method => exact .superMethod id keyword method env

theorem execute_abides (s : Stmt) (env : Env) (h : s.Lawful none) :
    Abides (Run.execute (fuel + 1) s env) IsLawfulFlow := by
  have normal : IsLawfulFlow .normal := trivial
  cases s with
  | expression value => exact (exprs value env h).bind fun _ _ => .pure normal
  | print value =>
    exact (exprs value env h).bind fun _ _ => (Abides.printLine _).bind fun _ _ => .pure normal
  | var name initializer =>
    cases initializer with
    | none =>
      exact (Abides.define (v := .nil) env name.lexeme trivial).bind fun _ _ => .pure normal
    | some value =>
      exact (exprs value env (h.2 value rfl)).bind fun _ known =>
        (Abides.define env name.lexeme known).bind fun _ _ => .pure normal
  | block statements =>
    exact (Abides.openScope env).bind fun inner _ =>
      sequence_abides _ fun s member => stmts s inner (Stmt.allLawful_iff.mp h s member)
  | branch condition thenBranch elseBranch =>
    obtain ⟨h, ⟨-, first⟩, second⟩ := Stmt.lawful_branch_iff.mp h
    refine (exprs condition env h).bind fun v _ => ?_
    by_cases truthy : v.isTruthy = true
    · rw [if_pos truthy]
      exact stmts thenBranch env first
    · rw [if_neg truthy]
      cases elseBranch with
      | none => exact .pure normal
      | some other => exact stmts other env (second other rfl).2
  | loop condition body =>
    obtain ⟨h, -, inside⟩ := h
    exact repeatWhile_abides (exprs condition env h) (stmts body env inside) fuel
  | function declaration =>
    have lawful : Stmt.FunctionLawful none declaration := h
    exact (Abides.newFunction lawful).bind fun _ known =>
      (Abides.define env _ known).bind fun _ _ => .pure normal
  | ret keyword value =>
    cases value with
    | none => exact .pure (a := Flow.returning .nil) trivial
    | some e => exact (exprs e env (h e rfl)).bind fun _ known => .pure known
  | classDecl name superclass methods =>
    obtain ⟨-, inherits, lawful⟩ := h
    cases superclass with
    | none => exact (Abides.declareClass env name (by simp) lawful).bind fun _ _ => .pure normal
    | some e =>
      refine (exprs e env (Stmt.lawful_superclass inherits e rfl)).bind fun v known => ?_
      refine (Abides.requireClass _ known).bind fun c inherited => ?_
      refine (Abides.declareClass env name ?_ lawful).bind fun _ _ => .pure normal
      rintro _ ⟨⟩
      exact inherited

end Fuel

theorem abides (fuel : Nat) :
    (∀ e env, e.Lawful none → Abides (Run.evaluate fuel e env) Value.IsLawful) ∧
      ∀ s env, s.Lawful none → Abides (Run.execute fuel s env) IsLawfulFlow := by
  induction fuel with
  | zero => exact ⟨fun _ _ _ => .outOfFuel, fun _ _ _ => .outOfFuel⟩
  | succ fuel ih => exact ⟨evaluate_abides ih.1 ih.2, execute_abides ih.1 ih.2⟩

theorem program_abides (fuel : Nat) {statements : List Stmt}
    (lawful : Stmt.AllLawful none statements) :
    Abides (Run.program fuel statements) fun _ => True := by
  induction statements with
  | nil => exact .pure trivial
  | cons s rest ih =>
    exact ((abides fuel).2 s globals lawful.1).bind fun _ _ => ih lawful.2

theorem interpret_abides (fuel : Nat) {statements : List Stmt} (locals : Locals)
    (lawful : Stmt.AllLawful none statements) :
    Abides (Run.interpret fuel statements locals) fun _ => True := by
  intro m store
  exact program_abides fuel lawful { m with locals := m.locals.merge locals } store

end Lawful

end Lox
