import Lox.Proofs.Evaluation.Store
import Lox.Proofs.Evaluation.Values

namespace Lox.Locality

inductive Thing where
  | scope (number : Nat)
  | object (number : Nat)
  | closure (closure : Closure)
  | classThing (c : Class)

/-- What a value leads to in one step. -/
inductive Holds : Value → Thing → Prop where
  | function (id : Nat) (closure : Closure) : Holds (.function id closure) (.closure closure)
  | classValue (c : Class) : Holds (.classValue c) (.classThing c)
  | object (id : Nat) (c : Class) : Holds (.object id c) (.object id)
  | objectClass (id : Nat) (c : Class) : Holds (.object id c) (.classThing c)

/-- What can be reached from the scopes of an environment and from the global names: through
variables, fields, the scopes around functions, the methods of classes and their superclasses. -/
inductive Reaches (store : Store) (roots : Env) : Thing → Prop where
  | root {scope : Nat} (member : scope ∈ roots) : Reaches store roots (.scope scope)
  | globals : Reaches store roots (.scope 0)
  | binding {scope : Nat} {name : String} {v : Value} {thing : Thing}
    (h : Reaches store roots (.scope scope)) (bound : store.binding? scope name = some v)
    (holds : Holds v thing) : Reaches store roots thing
  | field {object : Nat} {name : String} {v : Value} {thing : Thing}
    (h : Reaches store roots (.object object)) (found : store.field? object name = some v)
    (holds : Holds v thing) : Reaches store roots thing
  | enclosing {closure : Closure} {scope : Nat} (h : Reaches store roots (.closure closure))
    (member : scope ∈ closure.env) : Reaches store roots (.scope scope)
  | method {c : Class} {name : String} {method : Closure} (h : Reaches store roots (.classThing c))
    (found : c.methods.get? name = some method) : Reaches store roots (.closure method)
  | superclass {c above : Class} (h : Reaches store roots (.classThing c))
    (inherits : c.superclass = some above) : Reaches store roots (.classThing above)

theorem Reaches.scope_cases {store : Store} {roots : Env} {scope : Nat}
    (h : Reaches store roots (.scope scope)) :
    scope ∈ roots ∨ scope = 0 ∨
      ∃ closure, Reaches store roots (.closure closure) ∧ scope ∈ closure.env := by
  cases h with
  | root member => exact .inl member
  | globals => exact .inr (.inl rfl)
  | binding _ _ holds => cases holds
  | field _ _ holds => cases holds
  | enclosing h member => exact .inr (.inr ⟨_, h, member⟩)

/-- What cannot be reached in the store before is the same in the store after. -/
structure Untouched (roots : Env) (before after : Store) : Prop where
  scopes : ∀ scope < before.scopes.size, ¬Reaches before roots (.scope scope) →
    after.scopes[scope]? = before.scopes[scope]?
  objects : ∀ object < before.objects.size, ¬Reaches before roots (.object object) →
    after.objects[object]? = before.objects[object]?

variable {start store : Store} {roots : Env}

def ScopeNear (start : Store) (roots : Env) (scope : Nat) : Prop :=
  Reaches start roots (.scope scope) ∨ start.scopes.size ≤ scope

def ObjectNear (start : Store) (roots : Env) (object : Nat) : Prop :=
  Reaches start roots (.object object) ∨ start.objects.size ≤ object

def EnvNear (start : Store) (roots env : Env) : Prop := ∀ scope ∈ env, ScopeNear start roots scope

def ClassNear (start : Store) (roots : Env) (c : Class) : Prop :=
  ∀ name method, c.findMethod name = some method → EnvNear start roots method.env

def Near (start : Store) (roots : Env) : Value → Prop
  | .function _ closure => EnvNear start roots closure.env
  | .classValue c => ClassNear start roots c
  | .object id c => ObjectNear start roots id ∧ ClassNear start roots c
  | _ => True

theorem near_of_isAtom {v : Value} (h : v.IsAtom) : Near start roots v := by
  cases v <;> trivial

theorem envNear_globals : EnvNear start roots globals := by
  intro scope member
  rw [List.mem_singleton.mp member]
  exact .inl .globals

theorem envNear_roots : EnvNear start roots roots := fun _ member => .inl (.root member)

theorem EnvNear.cons {env : Env} {scope : Nat} (h : EnvNear start roots env)
    (near : ScopeNear start roots scope) : EnvNear start roots (scope :: env) :=
  List.forall_mem_cons.mpr ⟨near, h⟩

theorem envNear_of_reaches {closure : Closure} (h : Reaches start roots (.closure closure)) :
    EnvNear start roots closure.env :=
  fun _ member => .inl (h.enclosing member)

theorem classNear_of_reaches :
    (c : Class) → Reaches start roots (.classThing c) → ClassNear start roots c
  | ⟨id, className, none, _⟩, h =>
    Class.forall_findMethod id className
      (fun _ _ found => envNear_of_reaches (h.method found)) nofun
  | ⟨id, className, some above, _⟩, h =>
    Class.forall_findMethod id className
      (fun _ _ found => envNear_of_reaches (h.method found)) <| by
        rintro _ ⟨⟩
        exact classNear_of_reaches above (h.superclass rfl)

theorem near_of_holds {v : Value} (h : ∀ thing, Holds v thing → Reaches start roots thing) :
    Near start roots v := by
  cases v with
  | function id closure => exact envNear_of_reaches (h _ (.function id closure))
  | classValue c => exact classNear_of_reaches c (h _ (.classValue c))
  | object id c =>
    exact ⟨.inl (h _ (.object id c)), classNear_of_reaches c (h _ (.objectClass id c))⟩
  | _ => trivial

/-- A state that a run gets into which started with this store. -/
structure Confined (start : Store) (roots : Env) (store : Store) : Prop where
  moreScopes : start.scopes.size ≤ store.scopes.size
  moreObjects : start.objects.size ≤ store.objects.size
  bindings : ∀ scope name v, ScopeNear start roots scope → store.binding? scope name = some v →
    Near start roots v
  fields : ∀ object name v, ObjectNear start roots object → store.field? object name = some v →
    Near start roots v
  scopes : ∀ scope, ¬ScopeNear start roots scope → store.scopes[scope]? = start.scopes[scope]?
  objects : ∀ object, ¬ObjectNear start roots object →
    store.objects[object]? = start.objects[object]?

namespace Confined

theorem untouched (h : Confined start roots store) : Untouched roots start store where
  scopes scope old apart := h.scopes scope fun near => near.elim apart (Nat.not_le_of_lt old)
  objects object old apart := h.objects object fun near => near.elim apart (Nat.not_le_of_lt old)

theorem refl : Confined start roots start where
  moreScopes := Nat.le_refl _
  moreObjects := Nat.le_refl _
  bindings scope name v near bound := by
    refine near_of_holds fun thing holds => ?_
    rcases near with reached | new
    · exact reached.binding bound holds
    · rw [Store.binding?_of_size_le start name new] at bound
      cases bound
  fields object name v near found := by
    refine near_of_holds fun thing holds => ?_
    rcases near with reached | new
    · exact reached.field found holds
    · have none : start.field? object name = none := by simp [Store.field?, new]
      rw [none] at found
      cases found
  scopes _ _ := rfl
  objects _ _ := rfl

variable (h : Confined start roots store)
include h

theorem define {scope : Nat} {v : Value} (near : ScopeNear start roots scope) (name : String)
    (known : Near start roots v) : Confined start roots (store.define scope name v) where
  moreScopes := by
    rw [Store.size_define]
    exact h.moreScopes
  moreObjects := h.moreObjects
  bindings scope' name' v' near' bound := by
    rw [Store.binding?_define] at bound
    split at bound
    · cases bound
      exact known
    · exact h.bindings scope' name' v' near' bound
  fields := h.fields
  scopes other apart := by
    have different : scope ≠ other := fun same => apart (same ▸ near)
    rw [← h.scopes other apart]
    simp [Store.define, Array.getElem?_modify, different]
  objects := h.objects

theorem newScope : Confined start roots store.newScope.2 where
  moreScopes := by
    rw [Store.size_newScope]
    exact Nat.le_succ_of_le h.moreScopes
  moreObjects := h.moreObjects
  bindings scope name v near bound := by
    rw [Store.binding?_newScope] at bound
    exact h.bindings scope name v near bound
  fields := h.fields
  scopes other apart := by
    have different : other ≠ store.scopes.size := fun same => apart (.inr (same ▸ h.moreScopes))
    rw [← h.scopes other apart]
    simp [Store.newScope, Array.getElem?_push, different]
  objects := h.objects

theorem newObject : Confined start roots store.newObject.2 where
  moreScopes := h.moreScopes
  moreObjects := by
    simp only [Store.newObject, Array.size_push]
    exact Nat.le_succ_of_le h.moreObjects
  bindings := h.bindings
  fields object name v near found := by
    rw [Store.field?_newObject] at found
    exact h.fields object name v near found
  scopes := h.scopes
  objects other apart := by
    have different : other ≠ store.objects.size := fun same => apart (.inr (same ▸ h.moreObjects))
    rw [← h.objects other apart]
    simp [Store.newObject, Array.getElem?_push, different]

theorem newIdentity : Confined start roots store.newIdentity.2 :=
  ⟨h.moreScopes, h.moreObjects, h.bindings, h.fields, h.scopes, h.objects⟩

theorem setField {object : Nat} {v : Value} (near : ObjectNear start roots object) (name : String)
    (known : Near start roots v) : Confined start roots (store.setField object name v) where
  moreScopes := h.moreScopes
  moreObjects := by
    simp only [Store.setField, Array.size_modify]
    exact h.moreObjects
  bindings := h.bindings
  fields object' name' v' near' found := by
    rw [Store.field?_setField] at found
    split at found
    · cases found
      exact known
    · exact h.fields object' name' v' near' found
  scopes := h.scopes
  objects other apart := by
    have different : object ≠ other := fun same => apart (same ▸ near)
    rw [← h.objects other apart]
    simp [Store.setField, Array.getElem?_modify, different]

end Confined

end Lox.Locality
