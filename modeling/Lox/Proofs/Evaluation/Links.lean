import Lox.Proofs.Evaluation.Store
import Mathlib.Logic.Relation
import Mathlib.Order.WellFounded

namespace Lox

/-- For every scope the one around it, if there is one. No chain of links goes on for ever. -/
structure Links where
  outer : Nat → Option Nat
  finite : WellFounded fun around scope => outer scope = some around

namespace Links

variable (links : Links)

/-- A scope and those around it, innermost first. -/
def chain (scope : Nat) : Env :=
  scope ::
    match _h : links.outer scope with
    | some around => chain around
    | none => []
termination_by links.finite.wrap scope

theorem chain_of_some {scope around : Nat} (link : links.outer scope = some around) :
    links.chain scope = scope :: links.chain around := by
  rw [chain]
  split
  · rename_i around' link'
    rw [link, Option.some.injEq] at link'
    rw [link']
  · rename_i none'
    rw [link] at none'
    cases none'

theorem chain_of_none {scope : Nat} (last : links.outer scope = none) :
    links.chain scope = [scope] := by
  rw [chain]
  split
  · rename_i around link
    rw [last] at link
    cases link
  · rfl

theorem reaches_of_mem_chain {scope other : Nat} (h : other ∈ links.chain scope) :
    Relation.ReflTransGen (fun around scope => links.outer scope = some around) other scope := by
  induction scope using links.finite.induction with
  | _ scope ih =>
    cases link : links.outer scope with
    | none =>
      rw [chain_of_none links link, List.mem_singleton] at h
      exact h ▸ .refl
    | some around =>
      rw [chain_of_some links link, List.mem_cons] at h
      rcases h with rfl | further
      · exact .refl
      · exact (ih around link further).tail link

theorem nodup_chain (scope : Nat) : (links.chain scope).Nodup := by
  induction scope using links.finite.induction with
  | _ scope ih =>
    cases link : links.outer scope with
    | none => simp [chain_of_none links link]
    | some around =>
      rw [chain_of_some links link, List.nodup_cons]
      refine ⟨fun again => ?_, ih around link⟩
      have loop := Relation.TransGen.tail' (links.reaches_of_mem_chain again) link
      exact links.finite.transGen.irrefl.irrefl scope loop

end Links

namespace Store

variable (store : Store) (links : Links)

theorem bindingScope?_chain (scope : Nat) (name : String) :
    store.bindingScope? (links.chain scope) name =
      if store.binds scope name then some scope
      else (links.outer scope).bind fun around => store.bindingScope? (links.chain around) name := by
  cases link : links.outer scope with
  | none =>
    rw [links.chain_of_none link]
    cases bound : store.binds scope name <;> simp [bindingScope?, bound]
  | some around =>
    rw [links.chain_of_some link]
    cases bound : store.binds scope name <;> simp [bindingScope?, bound]

theorem get?_chain (scope : Nat) (name : String) :
    store.get? (links.chain scope) name =
      (store.binding? scope name).or
        ((links.outer scope).bind fun around => store.get? (links.chain around) name) := by
  rw [get?, bindingScope?_chain, binds]
  cases found : store.binding? scope name with
  | some value => simp [found]
  | none => cases links.outer scope <;> simp [get?]

theorem assign?_chain (scope : Nat) (name : String) (value : Value) :
    store.assign? (links.chain scope) name value =
      if store.binds scope name then some (store.define scope name value)
      else (links.outer scope).bind fun around =>
        store.assign? (links.chain around) name value := by
  rw [assign?, bindingScope?_chain]
  cases store.binds scope name with
  | true => rfl
  | false => cases links.outer scope <;> simp [assign?]

theorem getAt?_chain (scope distance : Nat) (name : String) :
    store.getAt? (links.chain scope) (distance + 1) name =
      (links.outer scope).bind fun around => store.getAt? (links.chain around) distance name := by
  cases link : links.outer scope with
  | none => simp [getAt?, links.chain_of_none link]
  | some around => simp [getAt?, links.chain_of_some link]

/-- A store with another value for one name in one scope, and nothing else changed. -/
structure Replaces (store store' : Store) (scope : Nat) (name : String) (value : Value) : Prop where
  bindings : ∀ other name', store'.binding? other name' =
    if other = scope ∧ name' = name then some value else store.binding? other name'
  scopes : store'.scopes.size = store.scopes.size
  objects : store'.objects = store.objects
  identity : store'.nextIdentity = store.nextIdentity

variable {store links}

theorem replaces_define {scope : Nat} (inside : scope < store.scopes.size) (name : String)
    (value : Value) : store.Replaces (store.define scope name value) scope name value where
  bindings other name' := by rw [binding?_define]; simp only [inside, and_true]
  scopes := size_define store scope name value
  objects := rfl
  identity := rfl

structure IsNearest (store : Store) (env : Env) (name : String) (distance : Nat) : Prop where
  bound : (store.getAt? env distance name).isSome = true
  least : ∀ shorter < distance, store.getAt? env shorter name = none

theorem bindingScope?_isSome {env : Env} {name : String} :
    (store.bindingScope? env name).isSome = true ↔ ∃ scope ∈ env, store.binds scope name = true :=
  List.find?_isSome

theorem isNearest_of_bindingScope? {env : Env} {name : String} {scope : Nat}
    (found : store.bindingScope? env name = some scope) :
    ∃ distance, env[distance]? = some scope ∧ store.IsNearest env name distance := by
  obtain ⟨binds, distance, inside, place, passed⟩ := List.find?_eq_some_iff_getElem.mp found
  have at' : env[distance]? = some scope := by rw [List.getElem?_eq_getElem inside, place]
  refine ⟨distance, at', ?_, fun shorter less => ?_⟩
  · rw [getAt?, at']
    exact binds
  · have unbound := passed shorter less
    rw [getAt?, List.getElem?_eq_getElem (Nat.lt_trans less inside)]
    simpa [Store.binds] using unbound

theorem getAt?_eq_of_nearest {env : Env} {name : String} {scope distance : Nat}
    (found : store.bindingScope? env name = some scope) (place : env[distance]? = some scope) :
    store.get? env name = store.getAt? env distance name := by
  rw [get?, getAt?, found, place]

theorem assignAt?_eq_of_nearest {env : Env} {name : String} {scope distance : Nat} (value : Value)
    (found : store.bindingScope? env name = some scope) (place : env[distance]? = some scope) :
    store.assign? env name value = store.assignAt? env distance name value := by
  rw [assign?, assignAt?, found, place]

theorem nothing_beyond {env : Env} {distance : Nat} (beyond : env.length ≤ distance) (name : String)
    (value : Value) :
    store.getAt? env distance name = none ∧ store.assignAt? env distance name value = none := by
  rw [getAt?, assignAt?, List.getElem?_eq_none beyond]
  exact ⟨rfl, rfl⟩

theorem getAt?_of_assigned {store' : Store} {env : Env} {distance scope : Nat} {name : String}
    {value : Value} (distinct : env.Nodup) (place : env[distance]? = some scope)
    (replaces : store.Replaces store' scope name value) :
    store'.getAt? env distance name = some value ∧
      ∀ other ≠ distance, ∀ name', store'.getAt? env other name' = store.getAt? env other name' := by
  refine ⟨?_, fun other elsewhere name' => ?_⟩
  · rw [getAt?, place]
    exact (replaces.bindings scope name).trans (if_pos ⟨rfl, rfl⟩)
  · rw [getAt?, getAt?]
    cases place' : env[other]? with
    | none => rfl
    | some scope' =>
      have apart : scope' ≠ scope := by
        rintro rfl
        obtain ⟨inside, -⟩ := List.getElem?_eq_some_iff.mp place
        exact elsewhere ((List.getElem?_inj inside distinct).mp (place.trans place'.symm)).symm
      exact (replaces.bindings scope' name').trans (if_neg fun same => apart same.1)

end Store

/-- Search by name and walk by distance agree along the links from any scope. The search ends well
exactly if a scope on the chain binds the name, and then reads and changes what the walk to the
nearest of these scopes does: one value of one scope. Beyond the chain a walk finds and changes
nothing; within it, an assignment is read back at the same distance, and nowhere else. -/
theorem search_ends_at_nearest (links : Links) (store : Store) (scope : Nat)
    (inside : ∀ other ∈ links.chain scope, other < store.scopes.size) (name : String)
    (value : Value) :
    let env := links.chain scope
    ((store.get? env name).isSome = true ↔ ∃ other ∈ env, store.binds other name = true) ∧
      ((store.assign? env name value).isSome = true ↔
        ∃ other ∈ env, store.binds other name = true) ∧
      ((∃ other ∈ env, store.binds other name = true) →
        ∃ distance nearest store', store.IsNearest env name distance ∧
          env[distance]? = some nearest ∧
          store.get? env name = store.getAt? env distance name ∧
          store.assign? env name value = some store' ∧
          store.assignAt? env distance name value = some store' ∧
          store.Replaces store' nearest name value) ∧
      (∀ distance, env.length ≤ distance →
        store.getAt? env distance name = none ∧ store.assignAt? env distance name value = none) ∧
      ∀ distance there, env[distance]? = some there →
        ∃ store', store.assignAt? env distance name value = some store' ∧
          store.Replaces store' there name value ∧
          store'.getAt? env distance name = some value ∧
          ∀ other ≠ distance, ∀ name',
            store'.getAt? env other name' = store.getAt? env other name' := by
  intro env
  refine ⟨?_, ?_, fun bound => ?_, fun distance beyond => Store.nothing_beyond beyond name value,
    fun distance there place => ?_⟩
  · rw [← Store.bindingScope?_isSome, Store.get?]
    cases found : store.bindingScope? env name with
    | none => simp
    | some nearest =>
      have binds := List.find?_some (p := fun scope => store.binds scope name) found
      simpa [Store.binds] using binds
  · rw [← Store.bindingScope?_isSome, Store.assign?, Option.isSome_map]
  · obtain ⟨nearest, found⟩ := Option.isSome_iff_exists.mp (Store.bindingScope?_isSome.mpr bound)
    obtain ⟨distance, place, isNearest⟩ := Store.isNearest_of_bindingScope? found
    have assigned : store.assign? env name value = some (store.define nearest name value) := by
      rw [Store.assign?, found]
      rfl
    refine ⟨distance, nearest, store.define nearest name value, isNearest, place,
      Store.getAt?_eq_of_nearest found place, assigned, ?_,
      Store.replaces_define (inside nearest (List.mem_of_getElem? place)) name value⟩
    rw [← Store.assignAt?_eq_of_nearest value found place, assigned]
  · have replaces := Store.replaces_define (inside there (List.mem_of_getElem? place)) name value
    have assigned : store.assignAt? env distance name value =
        some (store.define there name value) := by
      rw [Store.assignAt?, place]
      rfl
    exact ⟨_, assigned, replaces, Store.getAt?_of_assigned (links.nodup_chain scope) place replaces⟩

def nested : Links where
  outer
    | 0 => none
    | scope + 1 => some scope
  finite := by
    refine Subrelation.wf (fun {around scope} link => ?_) Nat.lt_wfRel.wf
    cases scope with
    | zero => cases link
    | succ scope => exact Nat.lt_succ_iff.mpr (Nat.le_of_eq (Option.some.inj link).symm)

def shadowed : Store :=
  ⟨#[.ofList [("x", .nil)], .ofList [("x", .bool true)], .empty], #[], 0⟩

theorem chain_nested_two : nested.chain 2 = [2, 1, 0] := by
  have first : nested.chain 2 = 2 :: nested.chain 1 := nested.chain_of_some rfl
  have second : nested.chain 1 = 1 :: nested.chain 0 := nested.chain_of_some rfl
  have last : nested.chain 0 = [0] := nested.chain_of_none rfl
  rw [first, second, last]

/-- From the third scope the name is that of the second. -/
theorem shadowing_scope_is_nearest :
    (∀ other ∈ nested.chain 2, other < shadowed.scopes.size) ∧
      ∃ distance nearest store', shadowed.IsNearest (nested.chain 2) "x" distance ∧
        (nested.chain 2)[distance]? = some nearest ∧
        shadowed.get? (nested.chain 2) "x" = shadowed.getAt? (nested.chain 2) distance "x" ∧
        shadowed.assign? (nested.chain 2) "x" .nil = some store' ∧
        shadowed.assignAt? (nested.chain 2) distance "x" .nil = some store' ∧
        shadowed.Replaces store' nearest "x" .nil := by
  have inside : ∀ other ∈ nested.chain 2, other < shadowed.scopes.size := by
    rw [chain_nested_two]
    decide
  have bound : ∃ other ∈ nested.chain 2, shadowed.binds other "x" = true := by
    rw [chain_nested_two]
    exact ⟨1, by decide, rfl⟩
  exact ⟨inside, (search_ends_at_nearest nested shadowed 2 inside "x" .nil).2.2.1 bound⟩

end Lox
