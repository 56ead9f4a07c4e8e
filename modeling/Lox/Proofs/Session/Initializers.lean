import Mathlib
import Lox.Proofs.Session.Chronicle

namespace Lox.Chronicle

/-- The closure is an initializer that was given its receiver. -/
def BindsInitializer (log : List Entry) (closure : Closure) (receiver : Value) : Prop :=
  ∃ method, .bound method receiver closure ∈ log ∧
    method.declaration.name.lexeme = initializerName

/-- The value equals nothing that was computed or stored. -/
structure IsNew (earlier : List Entry) (before : Store) (result : Value) : Prop where
  computed : ∀ v, .computed v ∈ earlier → Apart v result
  bindings : ∀ scope name v, before.binding? scope name = some v → Apart v result
  fields : ∀ object name v, before.field? object name = some v → Apart v result

namespace Sound

variable {s : Logged Entry} {place : Nat} {closure : Closure}

theorem constructed (sound : Sound s) {c : Class} {since : Nat} {before : Store} {result : Value}
    (found : s.log[place]? = some (.constructed c since before result)) :
    ∃ object, result = .object object c ∧ before.objects.size ≤ object ∧
      IsNew (s.log.take since) before result := by
  obtain ⟨object, rfl, made⟩ := sound.facts place _ found
  have behind : (s.log.take place).take since = s.log.take since := by
    have length := made.behind
    rw [List.length_take] at length
    rw [List.take_take, Nat.min_eq_left (by omega)]
  have younger {v : Value} (older : Older before v) : Apart v (.object object c) :=
    older.apart made.new c
  refine ⟨object, rfl, made.new, fun v member => younger (made.computed v ?_),
    fun scope name v bound => younger (made.bindings scope name v bound),
    fun other name v bound => younger (made.fields other name v bound)⟩
  rwa [behind]

theorem bound (sound : Sound s) {method : Closure} {receiver : Value}
    (member : .bound method receiver closure ∈ s.log) :
    closure.isInitializer = (method.declaration.name.lexeme == initializerName) ∧
      s.machine.store.getAt? closure.env 0 "this" = some receiver := by
  obtain ⟨-, known, scope, rfl, bound⟩ := sound.fact_of_mem member
  exact ⟨known.isInitializer, bound⟩

theorem completed (sound : Sound s) {flow : Flow} {result : Value}
    (found : s.log[place]? = some (.completed closure flow result)) :
    (∀ receiver, BindsInitializer s.log closure receiver → result = receiver) ∧
      ((∀ receiver, ¬BindsInitializer (s.log.take place) closure receiver) →
        result = flow.result) := by
  obtain ⟨plain, initializer⟩ := sound.facts place _ found
  refine ⟨fun receiver ⟨method, member, name⟩ => ?_, fun none => plain ?_⟩
  · obtain ⟨isInitializer, bound⟩ := sound.bound member
    have result := (initializer (by simp [isInitializer, name])).1
    exact Option.some.inj (result.symm.trans bound)
  · refine Bool.eq_false_iff.mpr fun isInitializer => ?_
    obtain ⟨-, method, receiver, member⟩ := initializer isInitializer
    have known := (sound.bound (List.mem_of_mem_take member)).1
    exact none receiver ⟨method, member, beq_iff_eq.mp (known.symm.trans isInitializer)⟩

end Sound

end Lox.Chronicle

namespace Lox

open Chronicle

/-- Constructors and initializers always yield the instance. Whatever steps a session takes, and
whatever is run by them, a call of a class that ends well gives an object of this very class, which
equals nothing that was computed or stored before; a call of a method with the name of an
initializer gives the receiver of the method, however its body ends; and any other call gives what
its body returns. -/
theorem initializers_yield_the_instance (clock : Clock) (limit : Option Nat)
    (steps : List Session.Step) :
    (Recorded.ofSteps clock limit steps).session = (Session.initial clock limit).after steps ∧
      (∀ (place : Nat) c since before result,
        (chronicle clock limit steps)[place]? = some (Entry.constructed c since before result) →
          ∃ object, result = .object object c ∧ before.objects.size ≤ object ∧
            IsNew ((chronicle clock limit steps).take since) before result) ∧
        ∀ (place : Nat) closure flow result,
          (chronicle clock limit steps)[place]? = some (Entry.completed closure flow result) →
            (∀ receiver, BindsInitializer (chronicle clock limit steps) closure receiver →
              result = receiver) ∧
            ((∀ receiver, ¬BindsInitializer ((chronicle clock limit steps).take place) closure
              receiver) → result = flow.result) := by
  have sound := Sound.ofSteps clock limit steps
  exact ⟨Recorded.session_ofSteps clock limit steps,
    fun _ _ _ _ _ found => sound.constructed found, fun _ _ _ _ found => sound.completed found⟩

def inheritedInitializer : List Session.Step :=
  [.run 6 "class A \x7b init() \x7b return; \x7d \x7d class B < A \x7b\x7d var f = B().init; f();",
    .run 6 "fun init() \x7b return true; \x7d init();"]

theorem entries_inheritedInitializer :
    ∃ c since before object method closure plain, c.name = "B" ∧ plain.isInitializer = false ∧
      method.declaration.name.lexeme = initializerName ∧
      (chronicle (.fixed 0) none inheritedInitializer)[5]? =
        some (Entry.constructed c since before (.object object c)) ∧
      (chronicle (.fixed 0) none inheritedInitializer)[7]? =
        some (Entry.bound method (.object object c) closure) ∧
      (chronicle (.fixed 0) none inheritedInitializer)[11]? =
        some (Entry.completed closure (.returning .nil) (.object object c)) ∧
      (chronicle (.fixed 0) none inheritedInitializer)[16]? =
        some (Entry.completed plain (.returning (.bool true)) (.bool true)) := by
  obtain ⟨log, same⟩ : ∃ log, chronicle (.fixed 0) none inheritedInitializer = log := ⟨_, rfl⟩
  rw [same]
  cbv at same
  subst same
  exact ⟨_, _, _, _, _, _, _, rfl, rfl, rfl, rfl, rfl, rfl, rfl⟩

theorem early_return_yields_receiver :
    ∃ c since before object closure result plain result', c.name = "B" ∧
      (chronicle (.fixed 0) none inheritedInitializer)[5]? =
        some (Entry.constructed c since before (.object object c)) ∧
      IsNew ((chronicle (.fixed 0) none inheritedInitializer).take since) before (.object object c) ∧
      (chronicle (.fixed 0) none inheritedInitializer)[11]? =
        some (Entry.completed closure (.returning .nil) result) ∧
      BindsInitializer (chronicle (.fixed 0) none inheritedInitializer) closure (.object object c) ∧
      result = .object object c ∧
      (chronicle (.fixed 0) none inheritedInitializer)[16]? =
        some (Entry.completed plain (.returning (.bool true)) result') ∧ result' = .bool true := by
  obtain ⟨c, since, before, object, method, closure, plain, name, isPlain, named, made, bound, ended,
    ended'⟩ := entries_inheritedInitializer
  obtain ⟨-, makes, ends⟩ := initializers_yield_the_instance (.fixed 0) none inheritedInitializer
  obtain ⟨_, -, -, new⟩ := makes 5 c since before _ made
  have binds : BindsInitializer (chronicle (.fixed 0) none inheritedInitializer) closure (.object object c) :=
    ⟨method, List.mem_of_getElem? bound, named⟩
  have unbound (receiver : Value) :
      ¬BindsInitializer ((chronicle (.fixed 0) none inheritedInitializer).take 16) plain receiver := by
    rintro ⟨method', member, named'⟩
    have known := ((Sound.ofSteps (.fixed 0) none inheritedInitializer).bound (List.mem_of_mem_take member)).1
    simp [isPlain, named'] at known
  exact ⟨c, since, before, object, closure, _, plain, _, name, made, new, ended, binds,
    (ends 11 closure _ _ ended).1 _ binds, ended', (ends 16 plain _ _ ended').2 unbound⟩

end Lox
