import Lox.Proofs.Evaluation.Simulation

namespace Lox.Reference

open World

variable {W : World} {m r : Machine}

namespace StateRel

theorem global_not_declared (h : StateRel W m r) {scope : Nat} {name : String} {cell : Nat}
    (mapped : W.cell scope name = some cell) : scope ≠ 0 := by
  intro same
  rw [same, h.noGlobalCell] at mapped
  cases mapped

theorem enter (h : StateRel W m r) :
    StateRel W.enter { m with store := m.store.newScope.2 } r := by
  have grows : Grows none W W.enter := Grows.enter W
  exact {
    locals := h.locals
    records := h.records
    sink := h.sink
    clock := h.clock
    identity := h.identity
    objects := h.objects
    fields := fun object name => optionRel_mono grows (h.fields object name)
    global := fun name => by
      rw [Store.binding?_newScope]
      exact optionRel_mono grows (h.global name)
    scopes := by simp [World.enter, h.scopes]
    somePlace := ⟨Nat.succ_pos _, h.somePlace.2⟩
    noGlobalCell := h.noGlobalCell
    inRange := fun s n c mapped => by
      obtain ⟨old, range⟩ := h.inRange s n c mapped
      exact ⟨Nat.lt_succ_of_lt old, range⟩
    distinct := h.distinct
    named := h.named
    content := fun s n c mapped v found => by
      rw [Store.binding?_newScope] at found
      obtain ⟨v', found', related, suits⟩ := h.content s n c mapped v found
      exact ⟨v', found', related.mono grows, suits⟩
    undeclared := fun s n place free => by
      rw [Store.binding?_newScope]
      exact h.undeclared s n place free
    isBound := fun s n bound => by
      rw [Store.binding?_newScope]
      exact h.isBound s n bound }

theorem declare (h : StateRel W m r) {scope : Nat} {name : String} (value : Value)
    (place : scope ≠ 0) (inside : scope < W.scopes) (free : W.cell scope name = none) :
    StateRel (W.declare scope name r.store.scopes.size) m
      { r with store := r.store.newScope.2.define r.store.scopes.size name value } := by
  have grows : Grows (some scope) W (W.declare scope name r.store.scopes.size) := Grows.declare free
  have unbound : m.store.binding? scope name = none := h.undeclared scope name place free
  have known (s : Nat) (n : String) (c : Nat)
      (mapped : (W.declare scope name r.store.scopes.size).cell s n = some c) :
      s = scope ∧ n = name ∧ c = r.store.scopes.size ∨ W.cell s n = some c ∧
        c < r.store.scopes.size := by
    by_cases same : s = scope ∧ n = name
    · simp only [World.declare, same, and_self, if_true, Option.some.injEq] at mapped
      exact .inl ⟨same.1, same.2, mapped.symm⟩
    · simp only [World.declare, same, if_false] at mapped
      exact .inr ⟨mapped, (h.inRange s n c mapped).2.2⟩
  have elsewhere (c : Nat) (n : String) (old : c < r.store.scopes.size) :
      (r.store.newScope.2.define r.store.scopes.size name value).binding? c n =
        r.store.binding? c n := by
    rw [Store.binding?_define_of_ne, Store.binding?_newScope]
    omega
  have here (n : String) : (r.store.newScope.2.define r.store.scopes.size name value).binding?
      r.store.scopes.size n = if n = name then some value else none := by
    rw [Store.binding?_define, Store.binding?_newScope, Store.binding?_of_size_le _ _ (Nat.le_refl _)]
    simp
  exact {
    locals := h.locals
    records := h.records
    sink := h.sink
    clock := h.clock
    identity := h.identity
    objects := h.objects
    fields := fun object n => optionRel_mono grows (h.fields object n)
    global := fun n => by
      rw [elsewhere 0 n h.somePlace.2]
      exact optionRel_mono grows (h.global n)
    scopes := h.scopes
    somePlace := ⟨h.somePlace.1, by simp⟩
    noGlobalCell := fun n => by
      have outside : ¬ (0 = scope ∧ n = name) := fun same => place same.1.symm
      simp only [World.declare, outside, if_false, h.noGlobalCell]
    inRange := fun s n c mapped => by
      rw [Store.size_define, Store.size_newScope]
      rcases known s n c mapped with ⟨rfl, -, rfl⟩ | ⟨old, -⟩
      · exact ⟨inside, h.somePlace.2, Nat.lt_succ_self _⟩
      · obtain ⟨place', positive, size⟩ := h.inRange s n c old
        exact ⟨place', positive, Nat.lt_succ_of_lt size⟩
    distinct := fun s n s' n' c mapped mapped' => by
      rcases known s n c mapped with ⟨rfl, rfl, rfl⟩ | ⟨old, size⟩
      · rcases known s' n' _ mapped' with ⟨rfl, rfl, -⟩ | ⟨-, size'⟩
        · exact ⟨rfl, rfl⟩
        · exact absurd size' (Nat.lt_irrefl _)
      · rcases known s' n' c mapped' with ⟨-, -, rfl⟩ | ⟨old', -⟩
        · exact absurd size (Nat.lt_irrefl _)
        · exact h.distinct s n s' n' c old old'
    named := fun s n c mapped n' => by
      rcases known s n c mapped with ⟨rfl, rfl, rfl⟩ | ⟨old, size⟩
      · rw [Store.binds, here]
        by_cases same : n' = n <;> simp [same]
      · rw [Store.binds, elsewhere c n' size]
        exact h.named s n c old n'
    content := fun s n c mapped v found => by
      rcases known s n c mapped with ⟨rfl, rfl, -⟩ | ⟨old, size⟩
      · rw [unbound] at found
        cases found
      · obtain ⟨v', found', related, suits⟩ := h.content s n c old v found
        exact ⟨v', by rw [elsewhere c n size, found'], related.mono grows, suits⟩
    undeclared := fun s n place' free' => by
      refine h.undeclared s n place' ?_
      by_cases same : s = scope ∧ n = name
      · simp [World.declare, same] at free'
      · simpa only [World.declare, same, if_false] using free'
    isBound := h.isBound }

theorem bindTo (h : StateRel W m r) {scope : Nat} {name : String} {cell : Nat} {v v' : Value}
    {store : Store} (mapped : W.cell scope name = some cell)
    (related : ValueRel (W.bind scope name) v v') (suits : Suits name v)
    (size : store.scopes.size = r.store.scopes.size)
    (identity : store.nextIdentity = r.store.nextIdentity)
    (objects : store.objects = r.store.objects)
    (here : store.binding? cell name = some v')
    (elsewhere : ∀ c n, ¬ (c = cell ∧ n = name) → store.binding? c n = r.store.binding? c n) :
    StateRel (W.bind scope name) { m with store := m.store.define scope name v }
      { r with store := store } := by
  have grows : Grows none W (W.bind scope name) := Grows.bind
  obtain ⟨inside, positive, -⟩ := h.inRange scope name cell mapped
  have place : scope ≠ 0 := h.global_not_declared mapped
  have exists' : scope < m.store.scopes.size := by rw [h.scopes]; exact inside
  exact {
    locals := h.locals
    records := h.records
    sink := h.sink
    clock := h.clock
    identity := by rw [identity]; exact h.identity
    objects := by rw [objects]; exact h.objects
    fields := fun object n => by
      have same : store.field? object n = r.store.field? object n := by
        rw [Store.field?, Store.field?, objects]
      rw [same]
      exact optionRel_mono grows (h.fields object n)
    global := fun n => by
      rw [Store.binding?_define_of_ne _ _ (by omega), elsewhere 0 n (by omega)]
      exact optionRel_mono grows (h.global n)
    scopes := by rw [Store.size_define]; exact h.scopes
    somePlace := ⟨h.somePlace.1, by rw [size]; exact h.somePlace.2⟩
    noGlobalCell := h.noGlobalCell
    inRange := fun s n c other => by rw [size]; exact h.inRange s n c other
    distinct := h.distinct
    named := fun s n c other n' => by
      by_cases same : c = cell ∧ n' = name
      · obtain ⟨rfl, rfl⟩ := same
        have names : n = n' := (h.distinct s n scope n' c other mapped).2
        simp [Store.binds, here, names]
      · rw [Store.binds, elsewhere c n' same]
        exact h.named s n c other n'
    content := fun s n c other w found => by
      by_cases same : s = scope ∧ n = name
      · obtain ⟨rfl, rfl⟩ := same
        rw [Store.binding?_define, if_pos ⟨rfl, rfl, exists'⟩] at found
        cases mapped.symm.trans other
        cases found
        exact ⟨v', here, related, suits⟩
      · rw [Store.binding?_define_of_ne _ _ same] at found
        obtain ⟨w', found', related', suits'⟩ := h.content s n c other w found
        have apart : ¬ (c = cell ∧ n = name) := by
          intro both
          rw [both.1, both.2] at other
          obtain ⟨sameScope, -⟩ := h.distinct s name scope name cell other mapped
          exact same ⟨sameScope, both.2⟩
        exact ⟨w', by rw [elsewhere c n apart, found'], related'.mono grows, suits'⟩
    undeclared := fun s n place' free => by
      have apart : ¬ (s = scope ∧ n = name) := by
        intro both
        rw [both.1, both.2] at free
        cases free.symm.trans mapped
      rw [Store.binding?_define_of_ne _ _ apart]
      exact h.undeclared s n place' free
    isBound := fun s n bound => by
      by_cases same : s = scope ∧ n = name
      · obtain ⟨rfl, rfl⟩ := same
        exact ⟨v, by rw [Store.binding?_define, if_pos ⟨rfl, rfl, exists'⟩]⟩
      · rw [Store.binding?_define_of_ne _ _ same]
        exact h.isBound s n (bound.resolve_right same) }

theorem bind (h : StateRel W m r) {scope : Nat} {name : String} {cell : Nat} {v v' : Value}
    (mapped : W.cell scope name = some cell) (related : ValueRel (W.bind scope name) v v')
    (suits : Suits name v) :
    StateRel (W.bind scope name) { m with store := m.store.define scope name v }
      { r with store := r.store.define cell name v' } := by
  have exists' : cell < r.store.scopes.size := (h.inRange scope name cell mapped).2.2
  have here : (r.store.define cell name v').binding? cell name = some v' := by
    rw [Store.binding?_define, if_pos ⟨rfl, rfl, exists'⟩]
  exact h.bindTo mapped related suits (Store.size_define ..) rfl rfl here fun c n apart =>
    Store.binding?_define_of_ne _ _ apart

theorem defineGlobal (h : StateRel W m r) {v v' : Value} (name : String)
    (related : ValueRel W v v') :
    StateRel W { m with store := m.store.define 0 name v }
      { r with store := r.store.define 0 name v' } := by
  have outside (s : Nat) (n : String) (c : Nat) (mapped : W.cell s n = some c) : s ≠ 0 ∧ c ≠ 0 :=
    ⟨h.global_not_declared mapped, Nat.ne_of_gt (h.inRange s n c mapped).2.1⟩
  exact {
    locals := h.locals
    records := h.records
    sink := h.sink
    clock := h.clock
    identity := h.identity
    objects := h.objects
    fields := h.fields
    global := fun n => by
      have some' : 0 < m.store.scopes.size := by rw [h.scopes]; exact h.somePlace.1
      rw [Store.binding?_define, Store.binding?_define]
      by_cases same : n = name
      · simpa [same, some', h.somePlace.2] using related
      · simpa [same] using h.global n
    scopes := by rw [Store.size_define]; exact h.scopes
    somePlace := ⟨h.somePlace.1, by rw [Store.size_define]; exact h.somePlace.2⟩
    noGlobalCell := h.noGlobalCell
    inRange := fun s n c mapped => by
      rw [Store.size_define]
      exact h.inRange s n c mapped
    distinct := h.distinct
    named := fun s n c mapped n' => by
      have apart : ¬ (c = 0 ∧ n' = name) := fun both => (outside s n c mapped).2 both.1
      rw [Store.binds, Store.binding?_define_of_ne _ _ apart]
      exact h.named s n c mapped n'
    content := fun s n c mapped w found => by
      obtain ⟨place, place'⟩ := outside s n c mapped
      rw [Store.binding?_define_of_ne _ _ fun both => place both.1] at found
      rw [Store.binding?_define_of_ne _ _ fun both => place' both.1]
      exact h.content s n c mapped w found
    undeclared := fun s n place free => by
      rw [Store.binding?_define_of_ne _ _ fun both => place both.1]
      exact h.undeclared s n place free
    isBound := fun s n bound => by
      by_cases same : s = 0 ∧ n = name
      · have some' : 0 < m.store.scopes.size := by rw [h.scopes]; exact h.somePlace.1
        exact ⟨v, by rw [Store.binding?_define, if_pos ⟨same.1, same.2, some'⟩]⟩
      · rw [Store.binding?_define_of_ne _ _ same]
        exact h.isBound s n bound }

theorem newIdentity (h : StateRel W m r) :
    StateRel W { m with store := m.store.newIdentity.2 }
      { r with store := r.store.newIdentity.2 } :=
  { h with identity := congrArg (· + 1) h.identity }

theorem newObject (h : StateRel W m r) :
    StateRel W { m with store := m.store.newObject.2 } { r with store := r.store.newObject.2 } :=
  { h with
    objects := by simpa [Store.newObject] using h.objects
    fields := fun object name => by
      rw [Store.field?_newObject, Store.field?_newObject]
      exact h.fields object name }

theorem setField (h : StateRel W m r) {v v' : Value} (object : Nat) (name : String)
    (related : ValueRel W v v') :
    StateRel W { m with store := m.store.setField object name v }
      { r with store := r.store.setField object name v' } :=
  { h with
    objects := by simpa [Store.setField] using h.objects
    fields := fun object' name' => by
      rw [Store.field?_setField, Store.field?_setField, h.objects]
      by_cases here : object' = object ∧ name' = name ∧ object < m.store.objects.size
      · rw [if_pos here, if_pos here]
        exact .some related
      · rw [if_neg here, if_neg here]
        exact h.fields object' name' }

theorem setSink (h : StateRel W m r) (sink : Sink) :
    StateRel W { m with sink := sink } { r with sink := sink } :=
  { h with sink := rfl }

end StateRel

end Lox.Reference
