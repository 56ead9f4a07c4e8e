import Lox.Evaluation
import Lox.Proofs.Evaluation.Store
import Lox.Proofs.Resolution.Sound

namespace Lox.Frame

/-- Names that may be added, each to a scope that was there before. -/
abbrev Additions := Nat → String → Prop

def nothing : Additions := fun _ _ => False

def inScope (scope : Nat) : Additions := fun other _ => other = scope

def own (env : Env) (name : String) : Additions := fun scope other =>
  env.head? = some scope ∧ other = name

/-- No name is lost, and none is new in an old scope unless it may be added. -/
structure Grows (added : Additions) (before after : Store) : Prop where
  size : before.scopes.size ≤ after.scopes.size
  kept : ∀ scope name, before.binds scope name = true → after.binds scope name = true
  new : ∀ scope name, scope < before.scopes.size → after.binds scope name = true →
    before.binds scope name = true ∨ added scope name

def SameNames (before after : Store) : Prop :=
  ∀ scope name, scope < before.scopes.size → after.binds scope name = before.binds scope name

namespace Grows

variable {added added' : Additions} {before middle after : Store}

theorem of_names (size : before.scopes.size ≤ after.scopes.size)
    (names : ∀ scope name, after.binds scope name = before.binds scope name) :
    Grows added before after where
  size := size
  kept scope name bound := (names scope name).trans bound
  new scope name _ bound := .inl ((names scope name).symm.trans bound)

theorem refl (added : Additions) (store : Store) : Grows added store store :=
  of_names (Nat.le_refl _) fun _ _ => rfl

theorem trans (first : Grows added before middle) (second : Grows added middle after) :
    Grows added before after where
  size := Nat.le_trans first.size second.size
  kept scope name bound := second.kept scope name (first.kept scope name bound)
  new scope name old bound := by
    rcases second.new scope name (Nat.lt_of_lt_of_le old first.size) bound with earlier | may
    · exact first.new scope name old earlier
    · exact .inr may

theorem weaken (h : Grows added before after) (more : ∀ scope name, added scope name →
    added' scope name) : Grows added' before after where
  size := h.size
  kept := h.kept
  new scope name old bound := (h.new scope name old bound).imp_right (more scope name)

theorem of_newScope {scope : Nat} (new : before.scopes.size ≤ scope)
    (h : Grows (inScope scope) before after) : Grows added before after where
  size := h.size
  kept := h.kept
  new other name old bound := by
    rcases h.new other name old bound with earlier | same
    · exact .inl earlier
    · exact absurd (same ▸ old) (Nat.not_lt.mpr new)

theorem newScope (store : Store) : Grows added store store.newScope.2 :=
  of_names (by simp) fun scope name => by simp [Store.binds]

theorem define {store : Store} {scope : Nat} {name : String} (value : Value)
    (may : store.binds scope name = true ∨ added scope name) :
    Grows added store (store.define scope name value) where
  size := by simp
  kept other name' bound := by
    rw [Store.binds, Store.binding?_define]
    split
    · rfl
    · exact bound
  new other name' _ bound := by
    rw [Store.binds, Store.binding?_define] at bound
    split at bound
    · rename_i same
      rwa [same.1, same.2.1]
    · exact .inl bound

theorem sameNames (h : Grows nothing before after) : SameNames before after := by
  intro scope name old
  apply Bool.eq_iff_iff.mpr
  constructor
  · intro bound
    exact (h.new scope name old bound).elim (fun earlier => earlier) False.elim
  · exact h.kept scope name

end Grows

/-- Every name in scope at a place is bound at its lexical distance, or still to be bound. -/
structure Holds (store : Store) (unbound : Additions) (Γ : Scopes) (env : Env) : Prop where
  place : Γ ≠ [] → ∃ scope, env.head? = some scope ∧ scope < store.scopes.size
  bound : ∀ name d, Γ.distance? name = some d →
    ∃ scope, env[d]? = some scope ∧ (store.binds scope name = true ∨ unbound scope name)

namespace Holds

variable {added unbound : Additions} {store store' : Store} {Γ : Scopes} {env : Env}

theorem mono (h : Holds store unbound Γ env) (grows : Grows added store store') :
    Holds store' unbound Γ env where
  place inner := by
    obtain ⟨scope, first, inside⟩ := h.place inner
    exact ⟨scope, first, Nat.lt_of_lt_of_le inside grows.size⟩
  bound name d found := by
    obtain ⟨scope, here, bound⟩ := h.bound name d found
    exact ⟨scope, here, bound.imp_left (grows.kept scope name)⟩

theorem top (store : Store) (env : Env) : Holds store nothing [] env where
  place inner := absurd rfl inner
  bound name d found := by cases found

theorem push (h : Holds store nothing Γ env) {scope : Nat} (inside : scope < store.scopes.size)
    {names : List String} (bound : ∀ name ∈ names, store.binds scope name = true) :
    Holds store nothing (names :: Γ) (scope :: env) where
  place _ := ⟨scope, rfl, inside⟩
  bound name d found := by
    rw [Scopes.distance?_cons] at found
    split at found
    · rename_i member
      cases found
      exact ⟨scope, rfl, .inl (bound name member)⟩
    · obtain ⟨d', outer, rfl⟩ := Option.map_eq_some_iff.mp found
      exact h.bound name d' outer

/-- While the declaration of a local name is going on, it is the only one to be bound. -/
def pending (Γ : Scopes) (env : Env) (name : String) : Additions := fun scope other =>
  Γ ≠ [] ∧ own env name scope other

theorem declare (h : Holds store nothing Γ env) (name : String) :
    Holds store (pending Γ env name) (Γ.declare name) env := by
  cases Γ with
  | nil =>
    exact ⟨fun inner => absurd rfl inner, fun name d found => by cases found⟩
  | cons names outer =>
    have inner : names :: outer ≠ [] := List.cons_ne_nil _ _
    obtain ⟨scope, first, inside⟩ := h.place inner
    refine ⟨fun _ => ⟨scope, first, inside⟩, fun other d found => ?_⟩
    by_cases same : other = name
    · subst same
      have here : 0 = d := by simpa [Scopes.declare, Scopes.distance?_cons] using found
      subst here
      refine ⟨scope, ?_, .inr ⟨inner, first, rfl⟩⟩
      rw [← List.head?_eq_getElem?, first]
    · rw [Encloses.distance?_declare same] at found
      obtain ⟨other', here, known⟩ := h.bound other d found
      exact ⟨other', here, known.imp_right False.elim⟩

theorem bind {name : String} (h : Holds store nothing Γ env) (grows : Grows added store store')
    (bound : ∀ scope, env.head? = some scope → scope < store.scopes.size →
      store'.binds scope name = true) : Holds store' nothing (Γ.declare name) env where
  place := ((h.mono grows).declare name).place
  bound other d found := by
    obtain ⟨scope, here, known⟩ := ((h.mono grows).declare name).bound other d found
    refine ⟨scope, here, .inl ?_⟩
    rcases known with known | ⟨inner, first, rfl⟩
    · exact known
    · obtain ⟨head, first', inside⟩ := h.place inner
      cases first.symm.trans first'
      exact bound _ first inside

end Holds

def FunctionFits (records : Records) (store : Store) (closure : Closure) : Prop :=
  ∃ Γ, Holds store nothing Γ closure.env ∧
    Stmt.FunctionResolved records Γ closure.declaration

/-- A method gets its receiver only when it is found. -/
def MethodFits (records : Records) (store : Store) (method : Closure) : Prop :=
  ∃ Γ, Holds store nothing Γ method.env ∧
    Stmt.FunctionResolved records (["this"] :: Γ) method.declaration

def ClassFits (records : Records) (store : Store) (c : Class) : Prop :=
  ∀ name method, c.findMethod name = some method → MethodFits records store method

def Fits (records : Records) (store : Store) : Value → Prop
  | .function _ closure => FunctionFits records store closure
  | .classValue c | .object _ c => ClassFits records store c
  | _ => True

/-- Every name in scope where a function was made is bound at its lexical distance, so that an
assignment at a distance finds the name and makes no new one. -/
structure Sound (records : Records) (m : Machine) : Prop where
  locals : ∀ id token d, records id token d → m.locals[id]? = d
  bindings : ∀ scope name v, m.store.binding? scope name = some v → Fits records m.store v
  fields : ∀ object name v, m.store.field? object name = some v → Fits records m.store v

section Mono

variable {records records' : Records} {added : Additions} {store store' : Store}

theorem FunctionFits.mono {closure : Closure} (h : FunctionFits records store closure)
    (grows : Grows added store store') : FunctionFits records store' closure := by
  obtain ⟨Γ, holds, resolved⟩ := h
  exact ⟨Γ, holds.mono grows, resolved⟩

theorem ClassFits.mono {c : Class} (h : ClassFits records store c)
    (grows : Grows added store store') : ClassFits records store' c := by
  intro name method found
  obtain ⟨Γ, holds, resolved⟩ := h name method found
  exact ⟨Γ, holds.mono grows, resolved⟩

theorem Fits.mono {v : Value} (h : Fits records store v) (grows : Grows added store store') :
    Fits records store' v := by
  cases v with
  | function id closure => exact FunctionFits.mono h grows
  | classValue c => exact ClassFits.mono h grows
  | object id c => exact ClassFits.mono h grows
  | _ => trivial

theorem Fits.grow (more : records.Grow records') {v : Value} (h : Fits records store v) :
    Fits records' store v := by
  have classes (c : Class) (fits : ClassFits records store c) : ClassFits records' store c := by
    intro name method found
    obtain ⟨Γ, holds, resolved⟩ := fits name method found
    exact ⟨Γ, holds, Stmt.FunctionResolved.mono more _ resolved⟩
  cases v with
  | function id closure =>
    obtain ⟨Γ, holds, resolved⟩ := h
    exact ⟨Γ, holds, Stmt.FunctionResolved.mono more _ resolved⟩
  | classValue c => exact classes c h
  | object id c => exact classes c h
  | _ => trivial

theorem Sound.step {m m' : Machine} (sound : Sound records m)
    (locals : m'.locals = m.locals) (grows : Grows added m.store m'.store)
    (bindings : ∀ scope name v, m'.store.binding? scope name = some v →
      m.store.binding? scope name = some v ∨ Fits records m'.store v)
    (fields : ∀ object name v, m'.store.field? object name = some v →
      m.store.field? object name = some v ∨ Fits records m'.store v) : Sound records m' where
  locals id token d recorded := by
    rw [locals]
    exact sound.locals id token d recorded
  bindings scope name v found :=
    (bindings scope name v found).elim (fun old => (sound.bindings scope name v old).mono grows)
      fun fits => fits
  fields object name v found :=
    (fields object name v found).elim (fun old => (sound.fields object name v old).mono grows)
      fun fits => fits

end Mono

end Lox.Frame
