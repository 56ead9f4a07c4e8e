import Lox.Store

namespace Lox.Store

variable (store : Store)

@[simp] theorem size_define (scope : Nat) (name : String) (value : Value) :
    (store.define scope name value).scopes.size = store.scopes.size := by
  simp [define]

theorem binding?_define (scope other : Nat) (name name' : String) (value : Value) :
    (store.define scope name value).binding? other name' =
      if other = scope ∧ name' = name ∧ scope < store.scopes.size then some value
      else store.binding? other name' := by
  simp only [define, binding?, Array.getElem?_modify]
  by_cases same : scope = other
  · subst same
    by_cases inside : scope < store.scopes.size
    · by_cases sameName : name' = name <;> simp [inside, sameName]
    · simp [inside]
  · have other' : other ≠ scope := Ne.symm same
    simp [same, other']

theorem binding?_define_of_ne {scope other : Nat} {name name' : String} (value : Value)
    (h : ¬ (other = scope ∧ name' = name)) :
    (store.define scope name value).binding? other name' = store.binding? other name' := by
  rw [binding?_define, if_neg]
  intro same
  exact h ⟨same.1, same.2.1⟩

@[simp] theorem size_newScope : store.newScope.2.scopes.size = store.scopes.size + 1 := by
  simp [newScope]

@[simp] theorem binding?_newScope (scope : Nat) (name : String) :
    store.newScope.2.binding? scope name = store.binding? scope name := by
  simp only [newScope, binding?, Array.getElem?_push]
  by_cases new : scope = store.scopes.size
  · subst new
    simp
  · simp [new]

theorem binding?_of_size_le {scope : Nat} (name : String) (h : store.scopes.size ≤ scope) :
    store.binding? scope name = none := by
  simp [binding?, h]

theorem binding?_define_initial (scope : Nat) (name name' : String) (value : Value) :
    (initial.define 0 name value).binding? scope name' =
      if scope = 0 ∧ name' = name then some value else none := by
  have empty : initial.binding? scope name' = none := by
    cases scope with
    | zero => rfl
    | succ scope => simp [initial, binding?]
  have size : initial.scopes.size = 1 := rfl
  simp [binding?_define, empty, size]

theorem get?_congr {store store' : Store} {env : Env} {name : String}
    (same : ∀ scope ∈ env, store'.binding? scope name = store.binding? scope name) :
    store'.get? env name = store.get? env name := by
  induction env with
  | nil => rfl
  | cons scope rest ih =>
    have first := same scope List.mem_cons_self
    have later := ih fun other member => same other (List.mem_cons_of_mem scope member)
    simp only [get?, bindingScope?, List.find?_cons, binds, first] at later ⊢
    cases store.binding? scope name with
    | none => exact later
    | some value => simp [first]

theorem field?_setField (object other : Nat) (name name' : String) (value : Value) :
    (store.setField object name value).field? other name' =
      if other = object ∧ name' = name ∧ object < store.objects.size then some value
      else store.field? other name' := by
  simp only [setField, field?, Array.getElem?_modify]
  by_cases same : object = other
  · subst same
    by_cases inside : object < store.objects.size
    · by_cases sameName : name' = name <;> simp [inside, sameName]
    · simp [inside]
  · have other' : other ≠ object := Ne.symm same
    simp [same, other']

@[simp] theorem field?_newObject (object : Nat) (name : String) :
    store.newObject.2.field? object name = store.field? object name := by
  simp only [newObject, field?, Array.getElem?_push]
  by_cases new : object = store.objects.size
  · subst new
    simp
  · simp [new]

end Lox.Store
