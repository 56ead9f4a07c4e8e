import Lox.Proofs.Loops.Fuel
import Lox.Proofs.Loops.Pairings

namespace Lox.Run

open Shift

variable {α α' β β' : Type}

/-- Both runs end in the same way, and what corresponds now includes what did before. -/
inductive EndMoved (L : Distances) (W : Pairing) (V : Pairing → α → α' → Prop) :
    EStateM.Result Stop Machine α → EStateM.Result Stop Machine α' → Prop where
  | ok {W' : Pairing} {a : α} {a' : α'} {m m' : Machine} (grows : W.Grows W')
    (machine : m.Moved L W' m') (result : V W' a a') : EndMoved L W V (.ok a m) (.ok a' m')
  | error {W' : Pairing} (reason : Stop) {m m' : Machine} (grows : W.Grows W')
    (machine : m.Moved L W' m') : EndMoved L W V (.error reason m) (.error reason m')

def Moved (L : Distances) (W : Pairing) (V : Pairing → α → α' → Prop) (x : Run α) (x' : Run α') :
    Prop :=
  ∀ m m', m.Moved L W m' → EndMoved L W V (x m) (x' m')

abbrev Same : Pairing → α → α → Prop := fun _ => Eq

variable {L : Distances} {W : Pairing} {V : Pairing → α → α' → Prop} {U : Pairing → β → β' → Prop}

theorem EndMoved.earlier {W' : Pairing} {result : EStateM.Result Stop Machine α}
    {result' : EStateM.Result Stop Machine α'} (h : EndMoved L W' V result result')
    (grows : W.Grows W') : EndMoved L W V result result' := by
  cases h with
  | ok further machine value => exact .ok (grows.trans further) machine value
  | error reason further machine => exact .error reason (grows.trans further) machine

theorem EndMoved.ranOut {result : EStateM.Result Stop Machine α}
    {result' : EStateM.Result Stop Machine α'} (h : EndMoved L W V result result') :
    RanOut result ↔ RanOut result' := by
  cases h with
  | ok => exact Iff.rfl
  | error reason => cases reason <;> exact Iff.rfl

/-- Whatever one of the runs comes to with enough fuel, the other comes to as well. -/
structure ComeToMoved (L : Distances) (W : Pairing) (V : Pairing → α → α' → Prop)
    (run : Nat → Run α) (run' : Nat → Run α') (m m' : Machine) : Prop where
  forth : ∀ result, ComesTo run m result →
    ∃ result', ComesTo run' m' result' ∧ EndMoved L W V result result'
  back : ∀ result', ComesTo run' m' result' →
    ∃ result, ComesTo run m result ∧ EndMoved L W V result result'

namespace Moved

variable {x : Run α} {x' : Run α'} {R : Shift} {env env' : Env} {v v' : Value}

theorem pure {a : α} {a' : α'} (h : V W a a') : Moved L W V (Pure.pure a) (Pure.pure a') :=
  fun _ _ machine => .ok (.refl W) machine h

theorem bind {f : α → Run β} {f' : α' → Run β'} (first : Moved L W V x x')
    (second : ∀ W' a a', W.Grows W' → V W' a a' → Moved L W' U (f a) (f' a')) :
    Moved L W U (x >>= f) (x' >>= f') := by
  intro m m' machine
  have start := first m m' machine
  simp only [Bind.bind, EStateM.bind]
  generalize x m = result at start
  generalize x' m' = result' at start
  cases start with
  | ok grows machine value => exact (second _ _ _ grows value _ _ machine).earlier grows
  | error reason grows machine => exact .error reason grows machine

theorem after {f' : α' → Run β'} {U : Pairing → α → β' → Prop} (first : Moved L W V x x')
    (second : ∀ W' a a', W.Grows W' → V W' a a' → Moved L W' U (Pure.pure a) (f' a')) :
    Moved L W U x (x' >>= f') := by
  have both := first.bind second
  rwa [bind_pure] at both

theorem ite {b b' : Bool} {y : Run α} {y' : Run α'} (same : b' = b) (yes : Moved L W V x x')
    (no : Moved L W V y y') : Moved L W V (if b then x else y) (if b' then x' else y') := by
  subst same
  cases b' with
  | true => exact yes
  | false => exact no

theorem stop (reason : Stop) : Moved L W V (Run.stop reason) (Run.stop reason) :=
  fun _ _ machine => .error reason (.refl W) machine

theorem fail (cause : RuntimeError.Cause) (token : Token) :
    Moved L W V (Run.fail cause token) (Run.fail cause token) :=
  stop _

theorem read {f : Machine → α} {f' : Machine → α'}
    (h : ∀ m m', m.Moved L W m' → V W (f m) (f' m')) : Moved L W V (Run.read f) (Run.read f') :=
  fun m m' machine => .ok (.refl W) machine (h m m' machine)

theorem readClock (paren : Token) :
    Moved L W (Value.Moved L) (Run.readClock paren) (Run.readClock paren) := by
  have tick : Moved L W Same Run.tick Run.tick := fun m m' machine =>
    .ok (.refl W) { machine with clock := congrArg Clock.next machine.clock }
      (congrArg Clock.reading machine.clock.symm)
  refine tick.bind fun W' reading _ _ same => ?_
  subst same
  cases reading with
  | ok seconds => exact pure (.number seconds)
  | error reason => exact fail _ paren

theorem onStore {f : Store → α × Store} {f' : Store → α' × Store}
    (h : ∀ s s', s.Moved L W s' → V W (f s).1 (f' s').1 ∧ (f s).2.Moved L W (f' s').2) :
    Moved L W V (Run.onStore f) (Run.onStore f') := by
  intro m m' machine
  obtain ⟨result, store⟩ := h m.store m'.store machine.store
  exact .ok (.refl W) { machine with store := store } result

theorem newObject :
    Moved L W Same (Run.onStore Store.newObject) (Run.onStore Store.newObject) :=
  onStore fun _ _ h => ⟨h.objects.symm, h.newObject⟩

theorem newIdentity :
    Moved L W Same (Run.onStore Store.newIdentity) (Run.onStore Store.newIdentity) :=
  onStore fun _ _ h => ⟨h.identity.symm, h.newIdentity⟩

theorem setField (object : Nat) (name : String) (value : v.Moved L W v') :
    Moved L W Same (Run.onStore fun store => ((), store.setField object name v))
      (Run.onStore fun store => ((), store.setField object name v')) :=
  onStore fun _ _ h => ⟨rfl, h.setField object name value⟩

theorem defineIn {scope scope' : Nat} (same : W scope scope') (name : String)
    (value : v.Moved L W v') :
    Moved L W Same (Run.onStore fun store => ((), store.define scope name v))
      (Run.onStore fun store => ((), store.define scope' name v')) :=
  onStore fun _ _ h => ⟨rfl, h.define same name value⟩

theorem define (place : EnvMoved W R env env') (level : R 0 0) (name : String)
    (value : v.Moved L W v') :
    Moved L W Same (Run.define env name v) (Run.define env' name v') := by
  have first := place.same 0 0 level
  cases env with
  | nil =>
    cases env' with
    | nil => exact .pure rfl
    | cons => cases first
  | cons scope rest =>
    cases env' with
    | nil => cases first
    | cons scope' rest' =>
      cases first with
      | some same => exact defineIn same name value

theorem openScope (place : EnvMoved W R env env') :
    Moved L W (fun W' => EnvMoved W' (Enter R)) (Run.openScope env) (Run.openScope env') := by
  intro m m' machine
  have grows := Pairing.grows_push W m.store.scopes.size m'.store.scopes.size
  refine .ok grows { machine with store := machine.store.newScope } ?_
  exact (place.mono grows).enter (.inr ⟨rfl, rfl⟩)

theorem spareScope {f : Env → Run α} (env : Env)
    (further : ∀ scope, Moved L W V (f (scope :: env)) x') :
    Moved L W V (Run.openScope env >>= f) x' :=
  fun m m' machine =>
    further m.store.scopes.size _ m' { machine with store := machine.store.spareScope }

theorem write (text : String) : Moved L W Same (Run.write text) (Run.write text) := by
  intro m m' machine
  simp only [Run.write, machine.sink]
  split
  · exact .ok (.refl W) { machine with sink := rfl } rfl
  · exact .error .sinkClosed (.refl W) machine

theorem printLine (text : String) : Moved L W Same (Run.printLine text) (Run.printLine text) :=
  (write text).bind fun _ _ _ _ _ => write _

theorem ofExcept {result : Except RuntimeError Value} (atom : ∀ v, result = .ok v → v.IsAtom) :
    Moved L W (Value.Moved L) (Run.ofExcept result) (Run.ofExcept result) := by
  intro m m' machine
  cases result with
  | ok v => exact .ok (.refl W) machine (.of_isAtom (atom v rfl))
  | error error => exact .error _ (.refl W) machine

theorem readVariable (place : EnvMoved W R env env') {id id' : Nat}
    (found : Option.Rel R L.first[id]? L.second[id']?) (name : Token) :
    Moved L W (Value.Moved L) (Run.readVariable id name env) (Run.readVariable id' name env') := by
  intro m m' machine
  simp only [Run.readVariable, machine.locals.1, machine.locals.2]
  generalize L.first[id]? = distance at found ⊢
  generalize L.second[id']? = distance' at found ⊢
  cases found with
  | some related =>
    have value := machine.store.getAt? place related name.lexeme
    dsimp only
    generalize m.store.getAt? env _ name.lexeme = v at value ⊢
    generalize m'.store.getAt? env' _ name.lexeme = v' at value ⊢
    cases value with
    | some value => exact .ok (.refl W) machine value
    | none => exact .error _ (.refl W) machine
  | none =>
    have value := machine.store.get?_globals name.lexeme
    dsimp only
    generalize m.store.get? globals name.lexeme = v at value ⊢
    generalize m'.store.get? globals name.lexeme = v' at value ⊢
    cases value with
    | some value => exact .ok (.refl W) machine value
    | none => exact .error _ (.refl W) machine

theorem assignIn (name : Token) (value : v.Moved L W v') (cause : RuntimeError.Cause) :
    ∀ scope scope' : Option Nat, Option.Rel W scope scope' →
    Moved L W Same
      (match scope with
        | some scope => Run.onStore fun store => ((), store.define scope name.lexeme v)
        | none => Run.fail cause name)
      (match scope' with
        | some scope => Run.onStore fun store => ((), store.define scope name.lexeme v')
        | none => Run.fail cause name)
  | _, _, .none => fail cause name
  | _, _, .some same => defineIn same name.lexeme value

theorem writeVariable (place : EnvMoved W R env env') {id id' : Nat}
    (found : Option.Rel R L.first[id]? L.second[id']?) (name : Token) (value : v.Moved L W v') :
    Moved L W Same (Run.writeVariable id name env v) (Run.writeVariable id' name env' v') := by
  simp only [Run.writeVariable]
  refine (read (V := fun _ => Option.Rel R) fun m m' machine => ?_).bind
    fun W' distance distance' grows found => ?_
  · rwa [machine.locals.1, machine.locals.2]
  have value := value.mono grows
  cases found with
  | some related => exact assignIn name value _ _ _ ((place.mono grows).same _ _ related)
  | none =>
    refine (read (V := fun W => Option.Rel W) fun m m' machine =>
      machine.store.bindingScope?_globals name.lexeme).bind fun W'' scope scope' grows' found => ?_
    exact assignIn name (value.mono grows') _ _ _ found

theorem newFunction {c c' : Closure} (h : c.FunctionMoved L W c') :
    Moved L W (Value.Moved L) (Run.newFunction c) (Run.newFunction c') := by
  refine newIdentity.bind ?_
  rintro W' id _ grows rfl
  obtain ⟨R, level, moved⟩ := h
  exact .pure (.function id ⟨R, level, moved.mono grows⟩)

theorem bindReceiver {c c' : Closure} (h : c.MethodMoved L W c') (value : v.Moved L W v') :
    Moved L W (fun W' => Closure.FunctionMoved L W') (Run.bindReceiver c v)
      (Run.bindReceiver c' v') := by
  obtain ⟨R, moved⟩ := h
  refine (openScope moved.env).bind fun W' inner inner' grows entered => ?_
  refine (define entered .here "this" (value.mono grows)).bind fun W'' _ _ grows' _ => ?_
  exact .pure ⟨Enter R, .here, entered.mono grows', moved.declaration, moved.isInitializer⟩

theorem boundMethod (value : v.Moved L W v') (cause : RuntimeError.Cause) (name : Token) :
    ∀ found found' : Option Closure, Option.Rel (Closure.MethodMoved L W) found found' →
    Moved L W (Value.Moved L)
      (match found with
        | some method => do Run.newFunction (← Run.bindReceiver method v)
        | none => Run.fail cause name)
      (match found' with
        | some method => do Run.newFunction (← Run.bindReceiver method v')
        | none => Run.fail cause name)
  | _, _, .none => fail cause name
  | _, _, .some h => (bindReceiver h value).bind fun _ _ _ _ bound => newFunction bound

theorem property (object : Nat) {c c' : Class} (h : c.Moved L W c') (name : Token) :
    Moved L W (Value.Moved L) (Run.property object c name) (Run.property object c' name) := by
  refine (read (V := fun W => Option.Rel (Value.Moved L W)) fun m m' machine =>
    machine.store.fields object name.lexeme).bind fun W' field field' grows found => ?_
  cases found with
  | some value => exact .pure value
  | none =>
    have moved := h.mono grows
    exact boundMethod (.object object moved) _ name _ _ (moved.methods name.lexeme)

theorem superMethod (place : EnvMoved W R env env') {id id' : Nat}
    (found : Option.Rel (fun d d' => R d d' ∧ R (d - 1) (d' - 1)) L.first[id]? L.second[id']?)
    (keyword method : Token) :
    Moved L W (Value.Moved L) (Run.superMethod id keyword method env)
      (Run.superMethod id' keyword method env') := by
  simp only [Run.superMethod_eq]
  refine (read (V := fun _ => Option.Rel fun d d' => R d d' ∧ R (d - 1) (d' - 1))
    fun m m' machine => ?_).bind fun W₁ distance distance' grows found => ?_
  · rwa [machine.locals.1, machine.locals.2]
  cases found with
  | none => exact fail _ keyword
  | @some d d' related =>
    have place₁ := place.mono grows
    refine (read (V := fun W => Option.Rel (Value.Moved L W)) fun m m' machine =>
      machine.store.getAt? place₁ related.1 "super").bind fun W₂ v v' grows₂ found => ?_
    have place₂ := place₁.mono grows₂
    cases found with
    | none => exact fail _ keyword
    | some value =>
      cases value with
      | classValue superclass =>
        refine (read (V := fun W => Option.Rel (Value.Moved L W)) fun m m' machine =>
          machine.store.getAt? place₂ related.2 "this").bind fun W₃ v v' grows₃ found => ?_
        cases found with
        | none => exact fail _ keyword
        | some value =>
          cases value with
          | object object c =>
            have above := (superclass.mono grows₃).methods method.lexeme
            exact boundMethod (.object object c) _ method _ _ above
          | _ => exact fail _ keyword
      | _ => exact fail _ keyword

theorem bindParams (place : EnvMoved W R env env') (level : R 0 0) (params : List Token)
    {arguments arguments' : List Value}
    (values : List.Forall₂ (Value.Moved L W) arguments arguments') :
    Moved L W Same (Run.bindParams env params arguments)
      (Run.bindParams env' params arguments') := by
  induction params generalizing W arguments arguments' with
  | nil => exact .pure rfl
  | cons param rest ih =>
    cases values with
    | nil => exact .pure rfl
    | cons value others =>
      refine (define place level _ value).bind fun W' _ _ grows _ => ?_
      exact ih (place.mono grows) (others.imp fun _ _ value => value.mono grows)

theorem boundReceiver {c c' : Closure} (h : c.FunctionMoved L W c') (paren : Token) :
    Moved L W (Value.Moved L) (Run.boundReceiver c paren) (Run.boundReceiver c' paren) := by
  obtain ⟨R, level, moved⟩ := h
  refine (read (V := fun W => Option.Rel (Value.Moved L W)) fun m m' machine =>
    machine.store.getAt? moved.env level "this").bind fun W' v v' grows found => ?_
  cases found with
  | none => exact fail _ paren
  | some value => exact .pure value

theorem checkCall (h : v.Moved L W v') (paren : Token) (given : Nat) :
    Moved L W Same (Run.checkCall v paren given) (Run.checkCall v' paren given) := by
  simp only [Run.checkCall, h.arity?]
  cases v.arity? with
  | none => exact fail _ paren
  | some expected =>
    dsimp only
    split
    · exact .pure rfl
    · exact fail _ paren

end Moved

end Lox.Run
