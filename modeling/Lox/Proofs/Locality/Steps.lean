import Lox.Proofs.Locality.Reaches
import Lox.Proofs.Trace.Following

namespace Lox.Locality

variable {α β : Type} {start : Store} {roots : Env}

/-- From a state that a run may get into the action leads to another one, and to a result of which
something is known. -/
def Stays (start : Store) (roots : Env) (x : Run α) (Q : α → Prop) : Prop :=
  ∀ m, Confined start roots m.store →
    Confined start roots (lastState (x m)).store ∧ ∀ a m', x m = .ok a m' → Q a

namespace Stays

variable {x : Run α} {Q Q' : α → Prop} {R : β → Prop}

theorem pure {a : α} (h : Q a) : Stays start roots (Pure.pure a) Q := by
  intro m confined
  refine ⟨confined, ?_⟩
  rintro _ _ ⟨⟩
  exact h

theorem stop (reason : Stop) : Stays start roots (Run.stop reason) Q :=
  fun _ confined => ⟨confined, nofun⟩

theorem fail (cause : RuntimeError.Cause) (token : Token) :
    Stays start roots (Run.fail cause token) Q :=
  stop _

theorem bind {f : α → Run β} (first : Stays start roots x Q)
    (second : ∀ a, Q a → Stays start roots (f a) R) : Stays start roots (x >>= f) R := by
  intro m confined
  obtain ⟨middle, holds⟩ := first m confined
  simp only [Bind.bind, EStateM.bind]
  cases ends : x m with
  | ok a m' =>
    rw [ends] at middle
    exact second a (holds a m' ends) m' middle
  | error reason m' =>
    rw [ends] at middle
    exact ⟨middle, nofun⟩

theorem onStore {f : Store → α × Store}
    (keeps : ∀ store, Confined start roots store → Confined start roots (f store).2)
    (holds : ∀ store, Confined start roots store → Q (f store).1) :
    Stays start roots (Run.onStore f) Q := by
  intro m confined
  refine ⟨keeps m.store confined, ?_⟩
  rintro _ _ ⟨⟩
  exact holds m.store confined

theorem read {f : Machine → α} (holds : ∀ m, Confined start roots m.store → Q (f m)) :
    Stays start roots (Run.read f) Q := by
  intro m confined
  refine ⟨confined, ?_⟩
  rintro _ _ ⟨⟩
  exact holds m confined

theorem ofExcept {result : Except RuntimeError α} (holds : ∀ a, result = .ok a → Q a) :
    Stays start roots (Run.ofExcept result) Q := by
  cases result with
  | ok a => exact pure (holds a rfl)
  | error error => exact stop _

theorem readClock (paren : Token) :
    Stays start roots (Run.readClock paren) (Near start roots) := by
  have tick : Stays start roots Run.tick fun _ => True := fun _ confined =>
    ⟨confined, fun _ _ _ => trivial⟩
  refine tick.bind fun reading _ => ?_
  cases reading with
  | ok seconds => exact pure trivial
  | error reason => exact fail _ _

variable {env : Env} {name : String} {v : Value}

theorem openScope (h : EnvNear start roots env) :
    Stays start roots (Run.openScope env) (EnvNear start roots) := by
  have new : Stays start roots (Run.onStore Store.newScope) (ScopeNear start roots) :=
    onStore (fun _ confined => confined.newScope) fun _ confined => .inr confined.moreScopes
  exact new.bind fun scope near => pure (h.cons near)

theorem defineIn {scope : Nat} (near : ScopeNear start roots scope) (name : String)
    (known : Near start roots v) :
    Stays start roots (Run.onStore fun store => ((), store.define scope name v)) fun _ => True :=
  onStore (fun _ confined => confined.define near name known) fun _ _ => trivial

theorem define (h : EnvNear start roots env) (name : String) (known : Near start roots v) :
    Stays start roots (Run.define env name v) fun _ => True := by
  cases env with
  | nil => exact pure trivial
  | cons scope outer => exact defineIn (h scope List.mem_cons_self) name known

theorem near_of_getAt? {store : Store} {d : Nat} (confined : Confined start roots store)
    (h : EnvNear start roots env) (found : store.getAt? env d name = some v) :
    Near start roots v := by
  obtain ⟨scope, here, bound⟩ := Option.bind_eq_some_iff.mp found
  exact confined.bindings scope name v (h scope (List.mem_of_getElem? here)) bound

theorem lookup (h : EnvNear start roots env) (d : Nat) (name : String) :
    Stays start roots (Run.read fun m => m.store.getAt? env d name)
      fun found => ∀ v, found = some v → Near start roots v :=
  read fun _ confined _ found => near_of_getAt? confined h found

theorem readVariable (h : EnvNear start roots env) (id : Nat) (name : Token) :
    Stays start roots (Run.readVariable id name env) (Near start roots) := by
  intro m confined
  rcases Run.readVariable_cases id name env m with ⟨v, scope, place, bound, ends⟩ | ⟨reason, ends⟩
  · have near : ScopeNear start roots scope := place.elim (h scope) (envNear_globals scope)
    rw [ends]
    exact pure (confined.bindings scope _ v near bound) m confined
  · rw [ends]
    exact ⟨confined, nofun⟩

theorem writeVariable (h : EnvNear start roots env) (id : Nat) (name : Token)
    (known : Near start roots v) :
    Stays start roots (Run.writeVariable id name env v) fun _ => True := by
  refine (read (Q := fun _ => True) fun _ _ => trivial).bind fun distance _ => ?_
  cases distance with
  | some d =>
    dsimp only
    split
    next scope here => exact defineIn (h scope (List.mem_of_getElem? here)) _ known
    next => exact fail _ _
  | none =>
    have target : Stays start roots
        (Run.read fun m => m.store.bindingScope? globals name.lexeme)
        fun found => ∀ scope, found = some scope → ScopeNear start roots scope :=
      read fun _ _ scope found => envNear_globals scope (List.mem_of_find?_eq_some found)
    refine target.bind fun found near => ?_
    cases found with
    | some scope => exact defineIn (near scope rfl) _ known
    | none => exact fail _ _

theorem bindParams (h : EnvNear start roots env) (params : List Token) (arguments : List Value)
    (known : ∀ argument ∈ arguments, Near start roots argument) :
    Stays start roots (Run.bindParams env params arguments) fun _ => True := by
  induction params generalizing arguments with
  | nil => exact pure trivial
  | cons param params ih =>
    cases arguments with
    | nil => exact pure trivial
    | cons argument arguments =>
      obtain ⟨first, later⟩ := List.forall_mem_cons.mp known
      exact (define h param.lexeme first).bind fun _ _ => ih arguments later

theorem write (text : String) : Stays start roots (Run.write text) fun _ => True := by
  intro m confined
  unfold Run.write
  split
  · exact ⟨confined, fun _ _ _ => trivial⟩
  · exact ⟨confined, nofun⟩

theorem printLine (text : String) : Stays start roots (Run.printLine text) fun _ => True :=
  (write text).bind fun _ _ => write "\n"

theorem checkCall (callee : Value) (paren : Token) (given : Nat) :
    Stays start roots (Run.checkCall callee paren given) fun _ => True := by
  unfold Run.checkCall
  split
  · exact fail _ _
  · split
    · exact pure trivial
    · exact fail _ _

theorem requireClass (token : Token) (known : Near start roots v) :
    Stays start roots (Run.requireClass token v) (ClassNear start roots) := by
  cases v with
  | classValue c => exact pure known
  | _ => exact fail _ _

variable {c : Class}

theorem newFunction {closure : Closure} (h : EnvNear start roots closure.env) :
    Stays start roots (Run.newFunction closure) (Near start roots) := by
  have new : Stays start roots (Run.onStore Store.newIdentity) fun _ => True :=
    onStore (fun _ confined => confined.newIdentity) fun _ _ => trivial
  exact new.bind fun _ _ => pure h

theorem bindReceiver {method : Closure} (h : EnvNear start roots method.env)
    (known : Near start roots v) :
    Stays start roots (Run.bindReceiver method v)
      fun closure => EnvNear start roots closure.env :=
  (openScope h).bind fun _ inner => (define inner "this" known).bind fun _ _ => pure inner

theorem property {object : Nat} (near : ObjectNear start roots object)
    (known : ClassNear start roots c) (name : Token) :
    Stays start roots (Run.property object c name) (Near start roots) := by
  have field : Stays start roots (Run.read fun m => m.store.field? object name.lexeme)
      fun found => ∀ v, found = some v → Near start roots v :=
    read fun _ confined v found => confined.fields object _ v near found
  refine field.bind fun found value => ?_
  cases found with
  | some v => exact pure (value v rfl)
  | none =>
    dsimp only
    cases method : c.findMethod name.lexeme with
    | some method' =>
      have receiver : Near start roots (.object object c) := ⟨near, known⟩
      exact (bindReceiver (known _ _ method) receiver).bind fun _ inner => newFunction inner
    | none => exact fail _ _

theorem superMethod (h : EnvNear start roots env) (id : Nat) (keyword method : Token) :
    Stays start roots (Run.superMethod id keyword method env) (Near start roots) := by
  refine (read (Q := fun _ => True) fun _ _ => trivial).bind fun distance _ => ?_
  cases distance with
  | none => exact fail _ _
  | some d =>
    refine (lookup h d "super").bind fun above known => ?_
    split
    next superclass =>
      have inherited : ClassNear start roots superclass := known _ rfl
      refine (lookup h (d - 1) "this").bind fun receiver known' => ?_
      split
      next object c' =>
        cases found : superclass.findMethod method.lexeme with
        | some method' =>
          exact (bindReceiver (inherited _ _ found) (known' _ rfl)).bind fun _ inner =>
            newFunction inner
        | none => exact fail _ _
      next => exact fail _ _
    next => exact fail _ _

theorem boundReceiver {closure : Closure} (h : EnvNear start roots closure.env) (paren : Token) :
    Stays start roots (Run.boundReceiver closure paren) (Near start roots) := by
  refine (lookup h 0 "this").bind fun found known => ?_
  cases found with
  | some v => exact pure (known v rfl)
  | none => exact fail _ _

theorem newObject : Stays start roots (Run.onStore Store.newObject) (ObjectNear start roots) :=
  onStore (fun _ confined => confined.newObject) fun _ confined => .inr confined.moreObjects

theorem setField {object : Nat} (near : ObjectNear start roots object) (name : String)
    (known : Near start roots v) :
    Stays start roots (Run.onStore fun store => ((), store.setField object name v))
      fun _ => True :=
  onStore (fun _ confined => confined.setField near name known) fun _ _ => trivial

theorem methodScope {superclass : Option Class} (h : EnvNear start roots env)
    (inherited : ∀ c ∈ superclass, ClassNear start roots c) :
    Stays start roots (Run.methodScope env superclass) (EnvNear start roots) := by
  cases superclass with
  | none => exact pure h
  | some c =>
    have known : Near start roots (.classValue c) := inherited c rfl
    exact (openScope h).bind fun _ inner => (define inner "super" known).bind fun _ _ => pure inner

theorem declareClass {superclass : Option Class} (h : EnvNear start roots env) (name : Token)
    (inherited : ∀ c ∈ superclass, ClassNear start roots c) (methods : List FunctionDecl) :
    Stays start roots (Run.declareClass env name superclass methods) fun _ => True := by
  have new : Stays start roots (Run.onStore Store.newIdentity) fun _ => True :=
    onStore (fun _ confined => confined.newIdentity) fun _ _ => trivial
  refine (define (v := .nil) h name.lexeme trivial).bind fun _ _ => ?_
  refine (methodScope h inherited).bind fun scope inner => new.bind fun id _ => ?_
  have known : ClassNear start roots
      ⟨id, name.lexeme, superclass, Run.methodTable scope methods⟩ := by
    refine Class.forall_findMethod id name.lexeme (fun _ _ found => ?_) inherited
    obtain ⟨d, -, -, rfl⟩ := Run.methodTable_get? found
    exact inner
  exact define (v := .classValue _) h name.lexeme known

end Stays

end Lox.Locality
