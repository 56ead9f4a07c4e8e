import Lox.Evaluation
import Lox.Proofs.Alike.Steps
import Lox.Proofs.Alike.Trees
import Lox.Proofs.Evaluation.Calls

namespace Lox

variable {M N : Matching}

structure Closure.Like (M : Matching) (c c' : Closure) : Prop where
  declaration : Stmt.FunctionLike M c.declaration c'.declaration
  env : c'.env = c.env
  isInitializer : c'.isInitializer = c.isInitializer

structure Class.Like (M : Matching) (c c' : Class) : Prop where
  id : c'.id = c.id
  name : c'.name = c.name
  methods : ∀ name, Option.Rel (Closure.Like M) (c.findMethod name) (c'.findMethod name)

inductive Value.Like (M : Matching) : Value → Value → Prop where
  | nil : Like M .nil .nil
  | bool (b : Bool) : Like M (.bool b) (.bool b)
  | number (x : Float) : Like M (.number x) (.number x)
  | string (s : String) : Like M (.string s) (.string s)
  | native (f : Native) : Like M (.native f) (.native f)
  | function (id : Nat) {c c' : Closure} (h : c.Like M c') :
    Like M (.function id c) (.function id c')
  | classValue {c c' : Class} (h : c.Like M c') : Like M (.classValue c) (.classValue c')
  | object (id : Nat) {c c' : Class} (h : c.Like M c') : Like M (.object id c) (.object id c')

structure Store.Like (M : Matching) (s s' : Store) : Prop where
  scopes : s'.scopes.size = s.scopes.size
  objects : s'.objects.size = s.objects.size
  identity : s'.nextIdentity = s.nextIdentity
  bindings : ∀ scope name,
    Option.Rel (Value.Like M) (s.binding? scope name) (s'.binding? scope name)
  fields : ∀ object name,
    Option.Rel (Value.Like M) (s.field? object name) (s'.field? object name)

/-- The distances on record are fixed on either side and agree on occurrences that match. -/
structure Machine.Like (M : Matching) (L L' : Locals) (m m' : Machine) : Prop where
  fixed : m.locals = L ∧ m'.locals = L'
  locals : ∀ id id', M.ids id id' → m'.locals[id']? = m.locals[id]?
  store : m.store.Like M m'.store
  sink : m'.sink = m.sink
  clock : m'.clock = m.clock

inductive Stop.Like (lines : Lines) : Stop → Stop → Prop where
  | error (cause : RuntimeError.Cause) {t t' : Token} (token : t.Like lines t') :
    Like lines (.error ⟨cause, t⟩) (.error ⟨cause, t'⟩)
  | sinkClosed : Like lines .sinkClosed .sinkClosed
  | outOfFuel : Like lines .outOfFuel .outOfFuel

section Mono

variable (within : M.Within N)
include within

theorem Closure.Like.mono {c c' : Closure} (h : c.Like M c') : c.Like N c' :=
  ⟨h.declaration.mono within, h.env, h.isInitializer⟩

theorem Class.Like.mono {c c' : Class} (h : c.Like M c') : c.Like N c' :=
  ⟨h.id, h.name, fun name => optionRel_imp (h.methods name) fun _ _ method => method.mono within⟩

theorem Value.Like.mono {v v' : Value} (h : v.Like M v') : v.Like N v' := by
  cases h with
  | nil => exact .nil
  | bool b => exact .bool b
  | number x => exact .number x
  | string s => exact .string s
  | native f => exact .native f
  | function id h => exact .function id (h.mono within)
  | classValue h => exact .classValue (h.mono within)
  | object id h => exact .object id (h.mono within)

theorem Store.Like.mono {s s' : Store} (h : s.Like M s') : s.Like N s' :=
  ⟨h.scopes, h.objects, h.identity,
    fun scope name => optionRel_imp (h.bindings scope name) fun _ _ value => value.mono within,
    fun object name => optionRel_imp (h.fields object name) fun _ _ value => value.mono within⟩

end Mono

namespace Value.Like

variable {v v' w w' : Value}

theorem isTruthy (h : v.Like M v') : v'.isTruthy = v.isTruthy := by
  cases h <;> rfl

theorem display (h : v.Like M v') : v'.display = v.display := by
  cases h with
  | function id h => simp only [Value.display, Closure.name, h.declaration.name.lexeme]
  | classValue h => exact h.name
  | object id h => simp only [Value.display, h.name]
  | _ => rfl

theorem equals (h : v.Like M v') (k : w.Like M w') : v'.equals w' = v.equals w := by
  cases h with
  | classValue h =>
    cases k with
    | classValue k => simp only [Value.equals, h.id, k.id]
    | _ => rfl
  | _ => cases k <;> rfl

end Value.Like

theorem Closure.Like.arity {c c' : Closure} (h : c.Like M c') : c'.arity = c.arity :=
  h.declaration.params.length_eq.symm

theorem Class.Like.arity {c c' : Class} (h : c.Like M c') : c'.arity = c.arity := by
  have found := h.methods initializerName
  simp only [Class.arity]
  generalize c.findMethod initializerName = method at found
  generalize c'.findMethod initializerName = method' at found
  cases found with
  | none => rfl
  | some like => exact like.arity

theorem Value.Like.arity? {v v' : Value} (h : v.Like M v') : v'.arity? = v.arity? := by
  cases h with
  | function id h => exact congrArg some h.arity
  | classValue h => exact congrArg some h.arity
  | _ => rfl

theorem Literal.value_like (literal : Literal) : literal.value.Like M literal.value := by
  cases literal with
  | number x => exact .number x
  | string s => exact .string s
  | bool b => exact .bool b
  | nil => exact .nil

namespace Operator

inductive ResultLike (M : Matching) :
    Except RuntimeError Value → Except RuntimeError Value → Prop where
  | ok {v v' : Value} (like : v.Like M v') : ResultLike M (.ok v) (.ok v')
  | error (cause : RuntimeError.Cause) {t t' : Token} (token : t.Like M t') :
    ResultLike M (.error ⟨cause, t⟩) (.error ⟨cause, t'⟩)

variable {operator operator' : Token} (token : operator.Like M operator') {v v' w w' : Value}

include token

theorem unary_like (operand : v.Like M v') :
    ResultLike M (unary operator v) (unary operator' v') := by
  simp only [unary, token.kind, operand.isTruthy]
  split
  · cases operand with
    | number x => exact .ok (.number _)
    | _ => exact .error _ token
  · exact .ok (.bool _)
  · exact .error _ token

theorem onNumbers_like (left : v.Like M v') (right : w.Like M w') {f : Float → Float → Value}
    (plain : ∀ x y, (f x y).Like M (f x y)) :
    ResultLike M (onNumbers operator v w f) (onNumbers operator' v' w' f) := by
  cases left with
  | number x =>
    cases right with
    | number y => exact .ok (plain x y)
    | _ => exact .error _ token
  | _ => exact .error _ token

theorem sum_like (left : v.Like M v') (right : w.Like M w') :
    ResultLike M (sum operator v w) (sum operator' v' w') := by
  cases left with
  | number x =>
    cases right with
    | number y => exact .ok (.number _)
    | _ => exact .error _ token
  | string s =>
    cases right with
    | string t => exact .ok (.string _)
    | _ => exact .error _ token
  | _ => exact .error _ token

theorem binary_like (left : v.Like M v') (right : w.Like M w') :
    ResultLike M (binary operator v w) (binary operator' v' w') := by
  have number {f : Float → Float → Float} :=
    onNumbers_like token left right fun x y => Value.Like.number (M := M) (f x y)
  have bool {f : Float → Float → Bool} :=
    onNumbers_like token left right fun x y => Value.Like.bool (M := M) (f x y)
  simp only [binary, token.kind, left.equals right]
  split
  case h_1 => exact sum_like token left right
  case h_9 => exact .ok (.bool _)
  case h_10 => exact .ok (.bool _)
  case h_11 => exact .error _ token
  all_goals first
    | exact number
    | exact bool

theorem decides_like (left : v.Like M v') : decides operator' v' = decides operator v := by
  simp only [decides, token.kind, left.isTruthy]

end Operator

namespace Store.Like

variable {s s' : Store}

theorem initial : Store.initial.Like M .initial := by
  refine ⟨rfl, rfl, rfl, fun scope name => ?_, fun object name => ?_⟩
  · have unbound : Store.initial.binding? scope name = none := by
      cases scope <;> rfl
    rw [unbound]
    exact .none
  · exact .none

theorem newScope (h : s.Like M s') :
    s'.newScope.1 = s.newScope.1 ∧ s.newScope.2.Like M s'.newScope.2 := by
  refine ⟨h.scopes, by simp [h.scopes], h.objects, h.identity, fun scope name => ?_, h.fields⟩
  rw [binding?_newScope, binding?_newScope]
  exact h.bindings scope name

theorem newObject (h : s.Like M s') :
    s'.newObject.1 = s.newObject.1 ∧ s.newObject.2.Like M s'.newObject.2 := by
  refine ⟨h.objects, h.scopes, by simp [Store.newObject, h.objects], h.identity, h.bindings,
    fun object name => ?_⟩
  rw [field?_newObject, field?_newObject]
  exact h.fields object name

theorem newIdentity (h : s.Like M s') :
    s'.newIdentity.1 = s.newIdentity.1 ∧ s.newIdentity.2.Like M s'.newIdentity.2 :=
  ⟨h.identity, h.scopes, h.objects, congrArg (· + 1) h.identity, h.bindings, h.fields⟩

theorem define (h : s.Like M s') (scope : Nat) (name : String) {v v' : Value}
    (value : v.Like M v') : (s.define scope name v).Like M (s'.define scope name v') := by
  refine ⟨by simp [h.scopes], h.objects, h.identity, fun scope' name' => ?_, h.fields⟩
  rw [binding?_define, binding?_define, h.scopes]
  split
  · exact .some value
  · exact h.bindings scope' name'

theorem setField (h : s.Like M s') (object : Nat) (name : String) {v v' : Value}
    (value : v.Like M v') : (s.setField object name v).Like M (s'.setField object name v') := by
  refine ⟨h.scopes, by simp [Store.setField, h.objects], h.identity, h.bindings,
    fun object' name' => ?_⟩
  rw [field?_setField, field?_setField, h.objects]
  split
  · exact .some value
  · exact h.fields object' name'

theorem bindingScope? (h : s.Like M s') (env : Env) (name : String) :
    s'.bindingScope? env name = s.bindingScope? env name := by
  simp only [Store.bindingScope?]
  congr 1
  funext scope
  have found := h.bindings scope name
  simp only [binds]
  generalize s.binding? scope name = value at found
  generalize s'.binding? scope name = value' at found
  cases found <;> rfl

theorem get? (h : s.Like M s') (env : Env) (name : String) :
    Option.Rel (Value.Like M) (s.get? env name) (s'.get? env name) := by
  simp only [Store.get?, h.bindingScope?]
  cases s.bindingScope? env name with
  | none => exact .none
  | some scope => exact h.bindings scope name

theorem getAt? (h : s.Like M s') (env : Env) (distance : Nat) (name : String) :
    Option.Rel (Value.Like M) (s.getAt? env distance name) (s'.getAt? env distance name) := by
  simp only [Store.getAt?]
  cases env[distance]? with
  | none => exact .none
  | some scope => exact h.bindings scope name

end Store.Like

namespace Run

variable {L L' : Locals} {α α' β β' : Type} {V : α → α' → Prop} {W : β → β' → Prop}

abbrev Alike (M : Matching) (L L' : Locals) (V : α → α' → Prop) (x : Run α) (x' : Run α') : Prop :=
  Parallel (Machine.Like M L L') (Stop.Like M) V x x'

namespace Alike

theorem fail (cause : RuntimeError.Cause) {t t' : Token} (token : t.Like M t') :
    Alike M L L' V (Run.fail cause t) (Run.fail cause t') :=
  fun _ _ state => .error (.error cause token) state

theorem outOfFuel : Alike M L L' V (Run.stop .outOfFuel) (Run.stop .outOfFuel) :=
  fun _ _ state => .error .outOfFuel state

theorem onStore {f : Store → α × Store} {f' : Store → α' × Store}
    (h : ∀ s s', s.Like M s' → V (f s).1 (f' s').1 ∧ (f s).2.Like M (f' s').2) :
    Alike M L L' V (Run.onStore f) (Run.onStore f') := by
  intro m m' state
  obtain ⟨result, store⟩ := h m.store m'.store state.store
  exact .ok result { state with store := store }

theorem read {f : Machine → α} {f' : Machine → α'}
    (h : ∀ m m', m.Like M L L' m' → V (f m) (f' m')) :
    Alike M L L' V (Run.read f) (Run.read f') :=
  fun m m' state => .ok (h m m' state) state

theorem readClock {paren paren' : Token} (token : paren.Like M paren') :
    Alike M L L' (Value.Like M) (Run.readClock paren) (Run.readClock paren') := by
  have tick : Alike M L L' Eq Run.tick Run.tick := fun m m' state =>
    .ok (congrArg Clock.reading state.clock.symm)
      { state with clock := congrArg Clock.next state.clock }
  refine tick.bind fun reading _ same => ?_
  subst same
  cases reading with
  | ok seconds => exact .pure (.number seconds)
  | error reason => exact fail _ token

theorem openScope (env : Env) : Alike M L L' Eq (Run.openScope env) (Run.openScope env) := by
  have new : Alike M L L' Eq (Run.onStore Store.newScope) (Run.onStore Store.newScope) :=
    onStore fun _ _ h => ⟨h.newScope.1.symm, h.newScope.2⟩
  exact new.bind fun scope scope' same => .pure (congrArg (· :: env) same)

theorem newObject : Alike M L L' Eq (Run.onStore Store.newObject) (Run.onStore Store.newObject) :=
  onStore fun _ _ h => ⟨h.newObject.1.symm, h.newObject.2⟩

theorem newIdentity :
    Alike M L L' Eq (Run.onStore Store.newIdentity) (Run.onStore Store.newIdentity) :=
  onStore fun _ _ h => ⟨h.newIdentity.1.symm, h.newIdentity.2⟩

theorem defineIn (scope : Nat) (name : String) {v v' : Value} (value : v.Like M v') :
    Alike M L L' Eq (Run.onStore fun store => ((), store.define scope name v))
      (Run.onStore fun store => ((), store.define scope name v')) :=
  onStore fun _ _ h => ⟨rfl, h.define scope name value⟩

theorem define (env : Env) (name : String) {v v' : Value} (value : v.Like M v') :
    Alike M L L' Eq (Run.define env name v) (Run.define env name v') := by
  cases env with
  | nil => exact .pure rfl
  | cons scope _ => exact defineIn scope name value

theorem setField (object : Nat) (name : String) {v v' : Value} (value : v.Like M v') :
    Alike M L L' Eq (Run.onStore fun store => ((), store.setField object name v))
      (Run.onStore fun store => ((), store.setField object name v')) :=
  onStore fun _ _ h => ⟨rfl, h.setField object name value⟩

theorem write (text : String) : Alike M L L' Eq (Run.write text) (Run.write text) := by
  intro m m' state
  simp only [Run.write, state.sink]
  split
  · exact .ok rfl { state with sink := rfl }
  · exact .error .sinkClosed state

theorem printLine (text : String) : Alike M L L' Eq (Run.printLine text) (Run.printLine text) :=
  (write text).bind fun _ _ _ => write _

theorem readVariable {id id' : Nat} (same : M.ids id id') {name name' : Token}
    (token : name.Like M name') (env : Env) :
    Alike M L L' (Value.Like M) (Run.readVariable id name env)
      (Run.readVariable id' name' env) := by
  intro m m' state
  simp only [Run.readVariable, state.locals id id' same, token.lexeme]
  cases m.locals[id]? with
  | some distance =>
    have found := state.store.getAt? env distance name.lexeme
    dsimp only
    generalize m.store.getAt? env distance name.lexeme = value at found ⊢
    generalize m'.store.getAt? env distance name.lexeme = value' at found ⊢
    cases found with
    | some like => exact .ok like state
    | none => exact .error (.error _ token) state
  | none =>
    have found := state.store.get? globals name.lexeme
    dsimp only
    generalize m.store.get? globals name.lexeme = value at found ⊢
    generalize m'.store.get? globals name.lexeme = value' at found ⊢
    cases found with
    | some like => exact .ok like state
    | none => exact .error (.error _ token) state

theorem writeVariable {id id' : Nat} (same : M.ids id id') {name name' : Token}
    (token : name.Like M name') (env : Env) {v v' : Value} (like : v.Like M v') :
    Alike M L L' Eq (Run.writeVariable id name env v) (Run.writeVariable id' name' env v') := by
  simp only [Run.writeVariable, token.lexeme]
  refine (read fun _ _ h => (h.locals id id' same).symm).bind fun found found' same => ?_
  subst same
  cases found with
  | some distance =>
    dsimp only
    cases env[distance]? with
    | some scope => exact defineIn scope name.lexeme like
    | none => exact fail _ token
  | none =>
    refine (read fun _ _ h => (h.store.bindingScope? globals name.lexeme).symm).bind
      fun scope scope' same => ?_
    subst same
    cases scope with
    | some scope => exact defineIn scope name.lexeme like
    | none => exact fail _ token

theorem newFunction {c c' : Closure} (h : c.Like M c') :
    Alike M L L' (Value.Like M) (Run.newFunction c) (Run.newFunction c') :=
  newIdentity.bind fun id _ same => .pure (same ▸ .function id h)

theorem bindReceiver {c c' : Closure} (h : c.Like M c') {v v' : Value} (like : v.Like M v') :
    Alike M L L' (Closure.Like M) (Run.bindReceiver c v) (Run.bindReceiver c' v') := by
  simp only [Run.bindReceiver, h.env]
  refine (openScope c.env).bind fun env env' same => ?_
  subst same
  exact (define env "this" like).bind fun _ _ _ => .pure ⟨h.declaration, rfl, h.isInitializer⟩

theorem boundMethod {v v' : Value} (like : v.Like M v') (cause : RuntimeError.Cause)
    {name name' : Token} (token : name.Like M name') : ∀ found found' : Option Closure,
    Option.Rel (Closure.Like M) found found' →
    Alike M L L' (Value.Like M)
      (match found with
        | some method => do Run.newFunction (← Run.bindReceiver method v)
        | none => Run.fail cause name)
      (match found' with
        | some method => do Run.newFunction (← Run.bindReceiver method v')
        | none => Run.fail cause name')
  | _, _, .none => fail cause token
  | _, _, .some h => (bindReceiver h like).bind fun _ _ bound => newFunction bound

theorem property (object : Nat) {c c' : Class} (h : c.Like M c') {name name' : Token}
    (token : name.Like M name') :
    Alike M L L' (Value.Like M) (Run.property object c name) (Run.property object c' name') := by
  simp only [Run.property_eq, token.lexeme]
  refine (read fun _ _ k => k.store.fields object name.lexeme).bind fun field field' found => ?_
  cases found with
  | some like => exact .pure like
  | none => exact boundMethod (.object object h) _ token _ _ (h.methods name.lexeme)

theorem superMethod {id id' : Nat} (same : M.ids id id') {keyword keyword' method method' : Token}
    (token : keyword.Like M keyword') (name : method.Like M method') (env : Env) :
    Alike M L L' (Value.Like M) (Run.superMethod id keyword method env)
      (Run.superMethod id' keyword' method' env) := by
  simp only [Run.superMethod_eq, token.lexeme, name.lexeme]
  refine (read fun _ _ h => (h.locals id id' same).symm).bind fun found found' same => ?_
  subst same
  cases found with
  | none => exact fail _ token
  | some distance =>
    refine (read fun _ _ h => h.store.getAt? env distance "super").bind fun v v' found => ?_
    cases found with
    | none => exact fail _ token
    | some like =>
      cases like with
      | classValue h =>
        refine (read fun _ _ k => k.store.getAt? env (distance - 1) "this").bind
          fun v v' found => ?_
        cases found with
        | none => exact fail _ token
        | some like =>
          cases like with
          | object object k =>
            exact boundMethod (.object object k) _ name _ _ (h.methods method.lexeme)
          | _ => exact fail _ token
      | _ => exact fail _ token

theorem bindParams (env : Env) {params params' : List Token}
    (tokens : List.Forall₂ (Token.Like M) params params') {arguments arguments' : List Value}
    (values : List.Forall₂ (Value.Like M) arguments arguments') :
    Alike M L L' Eq (Run.bindParams env params arguments)
      (Run.bindParams env params' arguments') := by
  induction tokens generalizing arguments arguments' with
  | nil => exact .pure rfl
  | cons token _ ih =>
    cases values with
    | nil => exact .pure rfl
    | cons value others =>
      simp only [Run.bindParams, token.lexeme]
      exact (define env _ value).bind fun _ _ _ => ih others

theorem boundReceiver {c c' : Closure} (h : c.Like M c') {paren paren' : Token}
    (token : paren.Like M paren') :
    Alike M L L' (Value.Like M) (Run.boundReceiver c paren) (Run.boundReceiver c' paren') := by
  simp only [Run.boundReceiver, h.env]
  refine (read fun _ _ k => k.store.getAt? c.env 0 "this").bind fun v v' found => ?_
  cases found with
  | none => exact fail _ token
  | some like => exact .pure like

theorem checkCall {v v' : Value} (like : v.Like M v') {paren paren' : Token}
    (token : paren.Like M paren') (given : Nat) :
    Alike M L L' Eq (Run.checkCall v paren given) (Run.checkCall v' paren' given) := by
  simp only [Run.checkCall, like.arity?]
  cases v.arity? with
  | none => exact fail _ token
  | some expected =>
    dsimp only
    split
    · exact .pure rfl
    · exact fail _ token

theorem ofExcept {result result' : Except RuntimeError Value}
    (h : Operator.ResultLike M result result') :
    Alike M L L' (Value.Like M) (Run.ofExcept result) (Run.ofExcept result') := by
  intro m m' state
  cases h with
  | ok like => exact .ok like state
  | error cause token => exact .error (.error cause token) state

end Alike

end Run

end Lox
