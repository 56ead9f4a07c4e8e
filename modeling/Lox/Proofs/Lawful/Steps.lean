import Lox.Proofs.Evaluation.Values
import Lox.Proofs.Syntax.Lawful

namespace Lox

/-- The errors that a tree causes which no parser makes. -/
def RuntimeError.Cause.isOperator : RuntimeError.Cause → Bool
  | .unaryOperator | .binaryOperator => true
  | _ => false

def Stop.IsAllowed (reason : Stop) : Prop :=
  ∀ error, reason = .error error → error.cause.isOperator = false

namespace Operator

theorem unary_allowed {operator : Token} {operand : Value} {error : RuntimeError}
    (lawful : Parser.isOneOf Expr.unaryOperators operator.kind = true)
    (h : unary operator operand = .error error) : error.cause.isOperator = false := by
  unfold unary at h
  split at h
  · split at h <;> cases h
    rfl
  · cases h
  next noMinus noBang =>
    have kinds : operator.kind = .symbol .bang ∨ operator.kind = .symbol .minus := by
      simpa [Parser.isOneOf, Expr.unaryOperators] using lawful
    exact (kinds.elim noBang noMinus).elim

theorem onNumbers_allowed {operator : Token} {left right : Value} {f : Float → Float → Value}
    {error : RuntimeError} (h : onNumbers operator left right f = .error error) :
    error.cause.isOperator = false := by
  unfold onNumbers at h
  split at h <;> cases h
  rfl

theorem binary_allowed {operator : Token} {left right : Value} {error : RuntimeError}
    (lawful : Parser.isOneOf Expr.binaryOperators operator.kind = true)
    (h : binary operator left right = .error error) : error.cause.isOperator = false := by
  unfold binary at h
  split at h
  case h_1 =>
    unfold sum at h
    split at h <;> cases h
    rfl
  case h_9 => cases h
  case h_10 => cases h
  case h_11 =>
    -- All lawful operators have had their turn.
    simp_all [Parser.isOneOf, Expr.binaryOperators]
  all_goals exact onNumbers_allowed h

end Operator

namespace Class

def IsLawful (c : Class) : Prop :=
  ∀ name method, c.findMethod name = some method → Stmt.FunctionLawful none method.declaration

end Class

def Value.IsLawful : Value → Prop
  | .function _ closure => Stmt.FunctionLawful none closure.declaration
  | .classValue c | .object _ c => c.IsLawful
  | _ => True

theorem Value.IsAtom.isLawful {v : Value} (h : v.IsAtom) : v.IsLawful := by
  cases v <;> trivial

structure Store.IsLawful (store : Store) : Prop where
  bindings : ∀ scope name v, store.binding? scope name = some v → v.IsLawful
  fields : ∀ object name v, store.field? object name = some v → v.IsLawful

namespace Store.IsLawful

variable {store : Store} (h : store.IsLawful)
include h

theorem define (scope : Nat) (name : String) {v : Value} (lawful : v.IsLawful) :
    (store.define scope name v).IsLawful where
  bindings scope' name' v' bound := by
    rw [binding?_define] at bound
    split at bound
    · cases bound
      exact lawful
    · exact h.bindings scope' name' v' bound
  fields := h.fields

theorem newScope : store.newScope.2.IsLawful where
  bindings scope name v bound := h.bindings scope name v (by rwa [binding?_newScope] at bound)
  fields := h.fields

theorem newObject : store.newObject.2.IsLawful where
  bindings := h.bindings
  fields object name v found := h.fields object name v (by rwa [field?_newObject] at found)

theorem newIdentity : store.newIdentity.2.IsLawful := ⟨h.bindings, h.fields⟩

theorem setField (object : Nat) (name : String) {v : Value} (lawful : v.IsLawful) :
    (store.setField object name v).IsLawful where
  bindings := h.bindings
  fields object' name' v' found := by
    rw [field?_setField] at found
    split at found
    · cases found
      exact lawful
    · exact h.fields object' name' v' found

theorem getAt? {env : Env} {distance : Nat} {name : String} {v : Value}
    (found : store.getAt? env distance name = some v) : v.IsLawful := by
  obtain ⟨scope, -, bound⟩ := Option.bind_eq_some_iff.mp found
  exact h.bindings scope name v bound

theorem get? {env : Env} {name : String} {v : Value} (found : store.get? env name = some v) :
    v.IsLawful := by
  obtain ⟨scope, -, bound⟩ := Option.bind_eq_some_iff.mp found
  exact h.bindings scope name v bound

end Store.IsLawful

theorem Machine.initial_lawful (clock : Clock) (limit : Option Nat) :
    (Machine.initial clock limit).store.IsLawful where
  bindings scope name v found := by
    rw [Machine.binding?_initial found]
    trivial
  fields object name v found := by
    have none : (Machine.initial clock limit).store.field? object name = none := rfl
    rw [none] at found
    cases found

namespace Lawful

variable {α β : Type}

inductive Ends (Q : α → Prop) : EStateM.Result Stop Machine α → Prop where
  | ok {a : α} {m : Machine} (store : m.store.IsLawful) (result : Q a) : Ends Q (.ok a m)
  | error {reason : Stop} {m : Machine} (store : m.store.IsLawful) (allowed : reason.IsAllowed) :
    Ends Q (.error reason m)

def Abides (x : Run α) (Q : α → Prop) : Prop := ∀ m, m.store.IsLawful → Ends Q (x m)

namespace Abides

variable {x : Run α} {Q Q' : α → Prop} {R : β → Prop}

theorem pure {a : α} (h : Q a) : Abides (Pure.pure a) Q := fun _ lawful => .ok lawful h

theorem bind {f : α → Run β} (first : Abides x Q) (second : ∀ a, Q a → Abides (f a) R) :
    Abides (x >>= f) R := by
  intro m lawful
  have start := first m lawful
  simp only [Bind.bind, EStateM.bind]
  generalize x m = result at start
  cases start with
  | ok store result => exact second _ result _ store
  | error store allowed => exact .error store allowed

theorem stop {reason : Stop} (allowed : reason.IsAllowed) : Abides (Run.stop reason) Q :=
  fun _ lawful => .error lawful allowed

theorem outOfFuel : Abides (Run.stop .outOfFuel) Q := stop fun _ same => nomatch same

theorem fail {cause : RuntimeError.Cause} (other : cause.isOperator = false) (token : Token) :
    Abides (Run.fail cause token) Q := by
  refine stop ?_
  rintro _ ⟨⟩
  exact other

theorem ofExcept {result : Except RuntimeError α} (holds : ∀ a, result = .ok a → Q a)
    (allowed : ∀ error, result = .error error → error.cause.isOperator = false) :
    Abides (Run.ofExcept result) Q := by
  cases result with
  | ok a => exact pure (holds a rfl)
  | error error =>
    refine stop ?_
    rintro _ ⟨⟩
    exact allowed error rfl

theorem onStore {f : Store → α × Store}
    (keeps : ∀ store, store.IsLawful → (f store).2.IsLawful ∧ Q (f store).1) :
    Abides (Run.onStore f) Q :=
  fun m lawful => .ok (keeps m.store lawful).1 (keeps m.store lawful).2

theorem read {f : Machine → α} (holds : ∀ m, m.store.IsLawful → Q (f m)) :
    Abides (Run.read f) Q :=
  fun m lawful => .ok lawful (holds m lawful)

theorem readClock (paren : Token) : Abides (Run.readClock paren) Value.IsLawful := by
  have tick : Abides Run.tick fun _ => True := fun _ lawful => .ok lawful trivial
  refine tick.bind fun reading _ => ?_
  cases reading with
  | ok seconds => exact pure trivial
  | error reason => exact fail rfl paren

variable {v : Value}

theorem openScope (env : Env) : Abides (Run.openScope env) fun _ => True :=
  (onStore (Q := fun _ => True) fun _ lawful => ⟨lawful.newScope, trivial⟩).bind
    fun _ _ => pure trivial

theorem defineIn (scope : Nat) (name : String) (known : v.IsLawful) :
    Abides (Run.onStore fun store => ((), store.define scope name v)) fun _ => True :=
  onStore fun _ lawful => ⟨lawful.define scope name known, trivial⟩

theorem define (env : Env) (name : String) (known : v.IsLawful) :
    Abides (Run.define env name v) fun _ => True := by
  cases env with
  | nil => exact pure trivial
  | cons scope outer => exact defineIn scope name known

theorem lookup (env : Env) (distance : Nat) (name : String) :
    Abides (Run.read fun m => m.store.getAt? env distance name)
      fun found => ∀ v, found = some v → v.IsLawful :=
  read fun _ lawful _ found => lawful.getAt? found

theorem readVariable (id : Nat) (name : Token) (env : Env) :
    Abides (Run.readVariable id name env) Value.IsLawful := by
  intro m lawful
  unfold Run.readVariable
  cases m.locals[id]? with
  | some distance =>
    dsimp only
    cases found : m.store.getAt? env distance name.lexeme with
    | some v => exact .ok lawful (lawful.getAt? found)
    | none => exact fail rfl name m lawful
  | none =>
    dsimp only
    cases found : m.store.get? globals name.lexeme with
    | some v => exact .ok lawful (lawful.get? found)
    | none => exact fail rfl name m lawful

theorem writeVariable (id : Nat) (name : Token) (env : Env) (known : v.IsLawful) :
    Abides (Run.writeVariable id name env v) fun _ => True := by
  refine (read (Q := fun _ => True) fun _ _ => trivial).bind fun distance _ => ?_
  cases distance with
  | some distance =>
    dsimp only
    split
    next scope _ => exact defineIn scope _ known
    next => exact fail rfl _
  | none =>
    refine (read (Q := fun _ => True) fun _ _ => trivial).bind fun target _ => ?_
    cases target with
    | some scope => exact defineIn scope _ known
    | none => exact fail rfl _

theorem bindParams (env : Env) (params : List Token) (arguments : List Value)
    (known : ∀ argument ∈ arguments, argument.IsLawful) :
    Abides (Run.bindParams env params arguments) fun _ => True := by
  induction params generalizing arguments with
  | nil => exact pure trivial
  | cons param params ih =>
    cases arguments with
    | nil => exact pure trivial
    | cons argument arguments =>
      obtain ⟨first, later⟩ := List.forall_mem_cons.mp known
      exact (define env param.lexeme first).bind fun _ _ => ih arguments later

theorem newFunction {closure : Closure} (lawful : Stmt.FunctionLawful none closure.declaration) :
    Abides (Run.newFunction closure) Value.IsLawful :=
  (onStore (Q := fun _ => True) fun _ lawful => ⟨lawful.newIdentity, trivial⟩).bind
    fun _ _ => pure lawful

theorem bindReceiver {method : Closure} {receiver : Value}
    (lawful : Stmt.FunctionLawful none method.declaration) (known : receiver.IsLawful) :
    Abides (Run.bindReceiver method receiver)
      fun closure => Stmt.FunctionLawful none closure.declaration :=
  (openScope method.env).bind fun env _ => (define env "this" known).bind fun _ _ => pure lawful

theorem property (object : Nat) {c : Class} (known : c.IsLawful) (name : Token) :
    Abides (Run.property object c name) Value.IsLawful := by
  have field : Abides (Run.read fun m => m.store.field? object name.lexeme)
      fun found => ∀ v, found = some v → v.IsLawful :=
    read fun _ lawful v found => lawful.fields object name.lexeme v found
  refine field.bind fun value lawful => ?_
  cases value with
  | some v => exact pure (lawful v rfl)
  | none =>
    dsimp only
    split
    next method found =>
      have receiver : (Value.object object c).IsLawful := known
      exact (bindReceiver (known _ _ found) receiver).bind fun _ lawful => newFunction lawful
    next => exact fail rfl name

theorem superMethod (id : Nat) (keyword method : Token) (env : Env) :
    Abides (Run.superMethod id keyword method env) Value.IsLawful := by
  refine (read (Q := fun _ => True) fun _ _ => trivial).bind fun distance _ => ?_
  cases distance with
  | none => exact fail rfl keyword
  | some distance =>
    refine (lookup env distance "super").bind fun above known => ?_
    split
    next superclass =>
      have inherited : superclass.IsLawful := known _ rfl
      refine (lookup env (distance - 1) "this").bind fun receiver known => ?_
      split
      next object c =>
        split
        next found isMethod =>
          exact (bindReceiver (inherited _ _ isMethod) (known _ rfl)).bind
            fun _ lawful => newFunction lawful
        next => exact fail rfl method
      next => exact fail rfl keyword
    next => exact fail rfl keyword

theorem boundReceiver (closure : Closure) (paren : Token) :
    Abides (Run.boundReceiver closure paren) Value.IsLawful := by
  refine (lookup closure.env 0 "this").bind fun value known => ?_
  cases value with
  | some v => exact pure (known v rfl)
  | none => exact fail rfl paren

theorem checkCall (callee : Value) (paren : Token) (given : Nat) :
    Abides (Run.checkCall callee paren given) fun _ => True := by
  unfold Run.checkCall
  split
  · exact fail rfl paren
  · split
    · exact pure trivial
    · exact fail rfl paren

theorem requireClass (token : Token) (known : v.IsLawful) :
    Abides (Run.requireClass token v) Class.IsLawful := by
  cases v with
  | classValue c => exact pure known
  | _ => exact fail rfl token

theorem methodScope (env : Env) {superclass : Option Class}
    (inherited : ∀ c ∈ superclass, c.IsLawful) :
    Abides (Run.methodScope env superclass) fun _ => True := by
  cases superclass with
  | none => exact pure trivial
  | some c =>
    have known : (Value.classValue c).IsLawful := inherited c rfl
    exact (openScope env).bind fun inner _ => (define inner "super" known).bind
      fun _ _ => pure trivial

theorem declareClass (env : Env) (name : Token) {superclass : Option Class}
    (inherited : ∀ c ∈ superclass, c.IsLawful) {methods : List FunctionDecl}
    (lawful : Stmt.MethodsLawful none methods) :
    Abides (Run.declareClass env name superclass methods) fun _ => True := by
  refine (define (v := .nil) env name.lexeme trivial).bind fun _ _ => ?_
  refine (methodScope env inherited).bind fun scope _ => ?_
  refine (onStore (Q := fun _ => True) fun _ lawful => ⟨lawful.newIdentity, trivial⟩).bind
    fun id _ => ?_
  have known : Class.IsLawful ⟨id, name.lexeme, superclass, Run.methodTable scope methods⟩ := by
    refine Class.forall_findMethod id name.lexeme (fun _ _ found => ?_) inherited
    obtain ⟨d, member, -, rfl⟩ := Run.methodTable_get? found
    exact Stmt.methodsLawful_iff.mp lawful d member
  exact define (v := .classValue _) env name.lexeme known

theorem newObject : Abides (Run.onStore Store.newObject) fun _ => True :=
  onStore fun _ lawful => ⟨lawful.newObject, trivial⟩

theorem setField (object : Nat) (name : String) (known : v.IsLawful) :
    Abides (Run.onStore fun store => ((), store.setField object name v)) fun _ => True :=
  onStore fun _ lawful => ⟨lawful.setField object name known, trivial⟩

theorem write (text : String) : Abides (Run.write text) fun _ => True := by
  intro m lawful
  unfold Run.write
  split
  · exact .ok lawful trivial
  · exact .error lawful fun _ same => nomatch same

theorem printLine (text : String) : Abides (Run.printLine text) fun _ => True :=
  (write text).bind fun _ _ => write "\n"

end Abides

end Lawful

end Lox
