import Lox.Proofs.Alike.Steps
import Lox.Proofs.Evaluation.Values
import Lox.Proofs.Loops.Copies
import Mathlib.Data.List.Forall2

namespace Lox

open Shift

/-- Which scope of one machine stands for which of the other. -/
abbrev Pairing := Nat → Nat → Prop

def Pairing.Grows (W W' : Pairing) : Prop := ∀ scope scope', W scope scope' → W' scope scope'

namespace Pairing.Grows

variable {W W' W'' : Pairing}

theorem refl (W : Pairing) : Grows W W := fun _ _ h => h

theorem trans (first : Grows W W') (second : Grows W' W'') : Grows W W'' :=
  fun _ _ h => second _ _ (first _ _ h)

end Pairing.Grows

/-- Distances that correspond lead to scopes that do, or out of either environment. The second
environment has no scopes of its own. -/
structure EnvMoved (W : Pairing) (R : Shift) (env env' : Env) : Prop where
  same : ∀ d d', R d d' → Option.Rel W env[d]? env'[d']?
  back : ∀ scope' ∈ env', ∃ scope, W scope scope'

namespace EnvMoved

variable {W W' : Pairing} {R : Shift} {env env' : Env}

theorem mono (h : EnvMoved W R env env') (grows : Pairing.Grows W W') : EnvMoved W' R env env' where
  same d d' related := by
    have found := h.same d d' related
    generalize env[d]? = scope at found ⊢
    generalize env'[d']? = scope' at found ⊢
    cases found with
    | none => exact .none
    | some same => exact .some (grows _ _ same)
  back scope' member := by
    obtain ⟨scope, same⟩ := h.back scope' member
    exact ⟨scope, grows _ _ same⟩

theorem enter (h : EnvMoved W R env env') {scope scope' : Nat} (same : W scope scope') :
    EnvMoved W (Enter R) (scope :: env) (scope' :: env') where
  same d d' related := by
    cases related with
    | here => exact .some same
    | out further => exact h.same _ _ further
  back := List.forall_mem_cons.mpr ⟨⟨scope, same⟩, h.back⟩

theorem detour (h : EnvMoved W R env env') (scope : Nat) :
    EnvMoved W (Detour R) (scope :: env) env' where
  same d d' related := by
    cases related with
    | out further => exact h.same _ _ further
  back := h.back

theorem self (each : ∀ scope ∈ env, W scope scope) : EnvMoved W Eq env env where
  same := by
    rintro d _ rfl
    cases found : env[d]? with
    | none => exact .none
    | some scope => exact .some (each scope (List.mem_of_getElem? found))
  back scope member := ⟨scope, each scope member⟩

end EnvMoved

/-- The environment is that of the first distances, the body is written for the second ones. -/
structure Closure.Moved (L : Distances) (W : Pairing) (around inside : Shift) (c c' : Closure) :
    Prop where
  env : EnvMoved W around c.env c'.env
  declaration : Stmt.FunctionCopies L inside c.declaration c'.declaration
  isInitializer : c'.isInitializer = c.isInitializer

def Closure.FunctionMoved (L : Distances) (W : Pairing) (c c' : Closure) : Prop :=
  ∃ R : Shift, R 0 0 ∧ c.Moved L W R R c'

def Closure.MethodMoved (L : Distances) (W : Pairing) (c c' : Closure) : Prop :=
  ∃ R : Shift, c.Moved L W R (Enter R) c'

structure Class.Moved (L : Distances) (W : Pairing) (c c' : Class) : Prop where
  id : c'.id = c.id
  name : c'.name = c.name
  methods : ∀ name,
    Option.Rel (Closure.MethodMoved L W) (c.findMethod name) (c'.findMethod name)

inductive Value.Moved (L : Distances) (W : Pairing) : Value → Value → Prop where
  | nil : Moved L W .nil .nil
  | bool (b : Bool) : Moved L W (.bool b) (.bool b)
  | number (x : Float) : Moved L W (.number x) (.number x)
  | string (s : String) : Moved L W (.string s) (.string s)
  | native (f : Native) : Moved L W (.native f) (.native f)
  | function (id : Nat) {c c' : Closure} (h : c.FunctionMoved L W c') :
    Moved L W (.function id c) (.function id c')
  | classValue {c c' : Class} (h : c.Moved L W c') : Moved L W (.classValue c) (.classValue c')
  | object (id : Nat) {c c' : Class} (h : c.Moved L W c') : Moved L W (.object id c) (.object id c')

inductive Flow.Moved (L : Distances) (W : Pairing) : Flow → Flow → Prop where
  | normal : Moved L W .normal .normal
  | returning {v v' : Value} (value : v.Moved L W v') : Moved L W (.returning v) (.returning v')

/-- Scopes that correspond bind the same names to the same values, and so do the objects. Every
scope of the second store stands for one of the first. -/
structure Store.Moved (L : Distances) (W : Pairing) (s s' : Store) : Prop where
  objects : s'.objects.size = s.objects.size
  identity : s'.nextIdentity = s.nextIdentity
  inside : ∀ scope scope', W scope scope' → scope < s.scopes.size ∧ scope' < s'.scopes.size
  distinct : ∀ scope scope' other other', W scope scope' → W other other' →
    (other = scope ↔ other' = scope')
  globals : W 0 0
  back : ∀ scope' < s'.scopes.size, ∃ scope, W scope scope'
  bindings : ∀ scope scope' name, W scope scope' →
    Option.Rel (Value.Moved L W) (s.binding? scope name) (s'.binding? scope' name)
  fields : ∀ object name,
    Option.Rel (Value.Moved L W) (s.field? object name) (s'.field? object name)

structure Machine.Moved (L : Distances) (W : Pairing) (m m' : Machine) : Prop where
  locals : m.locals = L.first ∧ m'.locals = L.second
  store : m.store.Moved L W m'.store
  sink : m'.sink = m.sink
  clock : m'.clock = m.clock

variable {L : Distances} {W : Pairing}

section Mono

variable {W' : Pairing} (grows : W.Grows W')
include grows

theorem Closure.Moved.mono {around inside : Shift} {c c' : Closure}
    (h : c.Moved L W around inside c') : c.Moved L W' around inside c' :=
  { h with env := h.env.mono grows }

theorem Class.Moved.mono {c c' : Class} (h : c.Moved L W c') : c.Moved L W' c' := by
  refine ⟨h.id, h.name, fun name => optionRel_imp (h.methods name) ?_⟩
  rintro method method' ⟨R, moved⟩
  exact ⟨R, moved.mono grows⟩

theorem Value.Moved.mono {v v' : Value} (h : v.Moved L W v') : v.Moved L W' v' := by
  cases h with
  | nil => exact .nil
  | bool b => exact .bool b
  | number x => exact .number x
  | string s => exact .string s
  | native f => exact .native f
  | function id h =>
    obtain ⟨R, level, moved⟩ := h
    exact .function id ⟨R, level, moved.mono grows⟩
  | classValue h => exact .classValue (h.mono grows)
  | object id h => exact .object id (h.mono grows)

end Mono

theorem Flow.Moved.result {flow flow' : Flow} (h : flow.Moved L W flow') :
    flow.result.Moved L W flow'.result := by
  cases h with
  | normal => exact .nil
  | returning value => exact value

theorem Closure.Moved.arity {around inside : Shift} {c c' : Closure}
    (h : c.Moved L W around inside c') : c'.arity = c.arity := by
  simp only [Closure.arity, h.declaration.params]

theorem Class.Moved.arity {c c' : Class} (h : c.Moved L W c') : c'.arity = c.arity := by
  have found := h.methods initializerName
  simp only [Class.arity]
  generalize c.findMethod initializerName = method at found
  generalize c'.findMethod initializerName = method' at found
  cases found with
  | none => rfl
  | some related =>
    obtain ⟨R, moved⟩ := related
    exact moved.arity

namespace Value.Moved

variable {v v' w w' : Value}

theorem of_isAtom (h : v.IsAtom) : v.Moved L W v := by
  cases v with
  | nil => exact .nil
  | bool b => exact .bool b
  | number x => exact .number x
  | string s => exact .string s
  | _ => exact h.elim

theorem isTruthy (h : v.Moved L W v') : v'.isTruthy = v.isTruthy := by
  cases h <;> rfl

theorem display (h : v.Moved L W v') : v'.display = v.display := by
  cases h with
  | function id h =>
    obtain ⟨R, -, moved⟩ := h
    simp only [Value.display, Closure.name, moved.declaration.name]
  | classValue h => exact h.name
  | object id h => simp only [Value.display, h.name]
  | _ => rfl

theorem equals (h : v.Moved L W v') (k : w.Moved L W w') : v'.equals w' = v.equals w := by
  cases h with
  | classValue h =>
    cases k with
    | classValue k => simp only [Value.equals, h.id, k.id]
    | _ => rfl
  | _ => cases k <;> rfl

theorem arity? (h : v.Moved L W v') : v'.arity? = v.arity? := by
  cases h with
  | function id h =>
    obtain ⟨R, -, moved⟩ := h
    exact congrArg some moved.arity
  | classValue h => exact congrArg some h.arity
  | _ => rfl

theorem unary (operator : Token) (h : v.Moved L W v') :
    Operator.unary operator v' = Operator.unary operator v := by
  simp only [Operator.unary, h.isTruthy]
  cases h <;> rfl

theorem binary (operator : Token) (h : v.Moved L W v') (k : w.Moved L W w') :
    Operator.binary operator v' w' = Operator.binary operator v w := by
  have numbers (f : Float → Float → Value) :
      Operator.onNumbers operator v' w' f = Operator.onNumbers operator v w f := by
    cases h <;> cases k <;> rfl
  have sum : Operator.sum operator v' w' = Operator.sum operator v w := by
    cases h <;> cases k <;> rfl
  simp only [Operator.binary, numbers, sum, h.equals k]

theorem decides (operator : Token) (h : v.Moved L W v') :
    Operator.decides operator v' = Operator.decides operator v := by
  simp only [Operator.decides, h.isTruthy]

end Value.Moved

def Pairing.push (W : Pairing) (scope scope' : Nat) : Pairing := fun other other' =>
  W other other' ∨ other = scope ∧ other' = scope'

theorem Pairing.grows_push (W : Pairing) (scope scope' : Nat) : W.Grows (W.push scope scope') :=
  fun _ _ h => .inl h

namespace Store.Moved

variable {s s' : Store}

theorem newScope (h : s.Moved L W s') :
    s.newScope.2.Moved L (W.push s.scopes.size s'.scopes.size) s'.newScope.2 := by
  have grows := Pairing.grows_push W s.scopes.size s'.scopes.size
  refine ⟨h.objects, h.identity, ?_, ?_, .inl h.globals, fun scope' old => ?_, ?_,
    fun object name => ?_⟩
  · rintro scope scope' (same | ⟨rfl, rfl⟩)
    · obtain ⟨old, old'⟩ := h.inside _ _ same
      exact ⟨by rw [size_newScope]; omega, by rw [size_newScope]; omega⟩
    · exact ⟨by simp, by simp⟩
  · rintro scope scope' other other' (same | ⟨rfl, rfl⟩) (known | ⟨rfl, rfl⟩)
    · exact h.distinct _ _ _ _ same known
    · have old := h.inside _ _ same
      omega
    · have old := h.inside _ _ known
      omega
    · simp
  · rw [size_newScope] at old
    rcases Nat.lt_or_eq_of_le (Nat.le_of_lt_succ old) with earlier | rfl
    · obtain ⟨scope, same⟩ := h.back scope' earlier
      exact ⟨scope, .inl same⟩
    · exact ⟨s.scopes.size, .inr ⟨rfl, rfl⟩⟩
  · rintro scope scope' name (same | ⟨rfl, rfl⟩)
    · rw [binding?_newScope, binding?_newScope]
      exact optionRel_imp (h.bindings _ _ _ same) fun _ _ value => value.mono grows
    · rw [binding?_newScope, binding?_newScope, binding?_of_size_le _ _ (Nat.le_refl _),
        binding?_of_size_le _ _ (Nat.le_refl _)]
      exact .none
  · exact optionRel_imp (h.fields object name) fun _ _ value => value.mono grows

theorem spareScope (h : s.Moved L W s') : s.newScope.2.Moved L W s' := by
  refine ⟨h.objects, h.identity, fun scope scope' same => ?_, h.distinct, h.globals, h.back,
    fun scope scope' name same => ?_, h.fields⟩
  · obtain ⟨old, old'⟩ := h.inside _ _ same
    exact ⟨by rw [size_newScope]; omega, old'⟩
  · rw [binding?_newScope]
    exact h.bindings _ _ _ same

theorem newObject (h : s.Moved L W s') : s.newObject.2.Moved L W s'.newObject.2 := by
  refine ⟨by simp [Store.newObject, h.objects], h.identity, h.inside, h.distinct, h.globals,
    h.back, h.bindings, fun object name => ?_⟩
  rw [field?_newObject, field?_newObject]
  exact h.fields object name

theorem newIdentity (h : s.Moved L W s') : s.newIdentity.2.Moved L W s'.newIdentity.2 :=
  ⟨h.objects, congrArg (· + 1) h.identity, h.inside, h.distinct, h.globals, h.back, h.bindings,
    h.fields⟩

theorem define (h : s.Moved L W s') {scope scope' : Nat} (same : W scope scope') (name : String)
    {v v' : Value} (value : v.Moved L W v') :
    (s.define scope name v).Moved L W (s'.define scope' name v') := by
  obtain ⟨old, old'⟩ := h.inside _ _ same
  refine ⟨h.objects, h.identity, fun other other' known => ?_, h.distinct, h.globals,
    fun other' old => ?_, fun other other' name' known => ?_, h.fields⟩
  · rw [size_define, size_define]
    exact h.inside _ _ known
  · rw [size_define] at old
    exact h.back other' old
  · rw [binding?_define, binding?_define]
    have both : (other = scope ∧ name' = name ∧ scope < s.scopes.size) ↔
        (other' = scope' ∧ name' = name ∧ scope' < s'.scopes.size) := by
      simp only [old, old', h.distinct _ _ _ _ same known]
    by_cases here : other' = scope' ∧ name' = name ∧ scope' < s'.scopes.size
    · rw [if_pos (both.mpr here), if_pos here]
      exact .some value
    · rw [if_neg (both.not.mpr here), if_neg here]
      exact h.bindings _ _ _ known

theorem setField (h : s.Moved L W s') (object : Nat) (name : String) {v v' : Value}
    (value : v.Moved L W v') :
    (s.setField object name v).Moved L W (s'.setField object name v') := by
  refine ⟨by simp [Store.setField, h.objects], h.identity, h.inside, h.distinct, h.globals,
    h.back, h.bindings, fun object' name' => ?_⟩
  rw [field?_setField, field?_setField, h.objects]
  split
  · exact .some value
  · exact h.fields object' name'

theorem getAt? (h : s.Moved L W s') {R : Shift} {env env' : Env} (moved : EnvMoved W R env env')
    {d d' : Nat} (related : R d d') (name : String) :
    Option.Rel (Value.Moved L W) (s.getAt? env d name) (s'.getAt? env' d' name) := by
  have found := moved.same d d' related
  simp only [Store.getAt?]
  generalize env[d]? = scope at found ⊢
  generalize env'[d']? = scope' at found ⊢
  cases found with
  | none => exact .none
  | some same => exact h.bindings _ _ _ same

theorem bindingScope?_globals (h : s.Moved L W s') (name : String) :
    Option.Rel W (s.bindingScope? Lox.globals name) (s'.bindingScope? Lox.globals name) := by
  have found := h.bindings 0 0 name h.globals
  simp only [Store.bindingScope?, Lox.globals, List.find?_cons, List.find?_nil, binds]
  generalize s.binding? 0 name = value at found ⊢
  generalize s'.binding? 0 name = value' at found ⊢
  cases found with
  | none => exact .none
  | some _ => exact .some h.globals

theorem get?_globals (h : s.Moved L W s') (name : String) :
    Option.Rel (Value.Moved L W) (s.get? Lox.globals name) (s'.get? Lox.globals name) := by
  have found := h.bindingScope?_globals name
  simp only [Store.get?]
  generalize s.bindingScope? Lox.globals name = scope at found ⊢
  generalize s'.bindingScope? Lox.globals name = scope' at found ⊢
  cases found with
  | none => exact .none
  | some same => exact h.bindings _ _ _ same

end Store.Moved

end Lox
