import Mathlib
import Lox.Proofs.Locality.Evaluation
import Lox.Proofs.Session.Chronicle

namespace Lox.Chronicle

variable {s : Logged Entry}

/-- No two entries are about the same scope. -/
theorem Sound.opened_once (sound : Sound s) {place place' scope : Nat} {e e' : Entry}
    (found : s.log[place]? = some e) (found' : s.log[place']? = some e')
    (opens : e.opened? = some scope) (opens' : e'.opened? = some scope) : place = place' := by
  have distinct := List.pairwise_iff_getElem.mp (List.pairwise_filterMap.mp sound.distinct)
  obtain ⟨inside, rfl⟩ := List.getElem?_eq_some_iff.mp found
  obtain ⟨inside', rfl⟩ := List.getElem?_eq_some_iff.mp found'
  rcases Nat.lt_trichotomy place place' with before | same | behind
  · exact absurd (distinct place place' inside inside' before scope opens scope opens')
      (Nat.lt_irrefl scope)
  · exact same
  · exact absurd (distinct place' place inside' inside behind scope opens' scope opens)
      (Nat.lt_irrefl scope)

theorem Sound.entered (sound : Sound s) {closure : Closure} {env : Env}
    (member : .entered closure env ∈ s.log) : ∃ scope, env = scope :: closure.env := by
  obtain ⟨_, made⟩ := sound.fact_of_mem member
  exact made

theorem Sound.boundIn (sound : Sound s) {method closure : Closure} {receiver : Value}
    (member : .bound method receiver closure ∈ s.log) :
    ∃ scope, closure = { method with env := scope :: method.env } := by
  obtain ⟨-, -, scope, same, -⟩ := sound.fact_of_mem member
  exact ⟨scope, same⟩

end Lox.Chronicle

namespace Lox

open Chronicle Locality

/-- Execution touches only what it can reach. However an expression or a statement ends, the scopes
and the objects that cannot be reached from where it runs or from the global names are as they were;
so a scope changes only around the place, or where a function that is closed over it was reached.
And in any session each call and each bound method has a scope of its own in front of those it is
closed over: there is one entry at most for each of these scopes. -/
theorem execution_touches_what_it_reaches :
    (∀ fuel env m after,
      (∃ e, after = lastState (Run.evaluate fuel e env m)) ∨
          (∃ s, after = lastState (Run.execute fuel s env m)) →
        Untouched env m.store after.store ∧
          ∀ scope < m.store.scopes.size, after.store.scopes[scope]? ≠ m.store.scopes[scope]? →
            scope ∈ env ∨ scope = 0 ∨
              ∃ closure, Reaches m.store env (.closure closure) ∧ scope ∈ closure.env) ∧
    ∀ clock limit steps,
      (Recorded.ofSteps clock limit steps).session = (Session.initial clock limit).after steps ∧
        (∀ closure env, .entered closure env ∈ chronicle clock limit steps →
          ∃ scope, env = scope :: closure.env) ∧
        (∀ method receiver closure, .bound method receiver closure ∈ chronicle clock limit steps →
          ∃ scope, closure = { method with env := scope :: method.env }) ∧
        ∀ (place place' : Nat) e e' scope, (chronicle clock limit steps)[place]? = some e →
          (chronicle clock limit steps)[place']? = some e' → e.opened? = some scope →
            e'.opened? = some scope → place = place' := by
  refine ⟨fun fuel env m after ends => ?_, fun clock limit steps => ?_⟩
  · have untouched : Untouched env m.store after.store := by
      rcases ends with ⟨e, rfl⟩ | ⟨s, rfl⟩
      · exact untouched_evaluate fuel e env m
      · exact untouched_execute fuel s env m
    exact ⟨untouched, fun scope old changed => untouched.of_changed old changed⟩
  · have sound := Sound.ofSteps clock limit steps
    exact ⟨Recorded.session_ofSteps clock limit steps, fun _ _ member => sound.entered member,
      fun _ _ _ member => sound.boundIn member,
      fun _ _ _ _ _ found found' opens opens' => sound.opened_once found found' opens opens'⟩

def leftBehind : Store :=
  (Store.initial.define 0 "f" .nil).newScope.2.define 1 "x" (.bool true)

theorem reaches_leftBehind {thing : Thing} (h : Reaches leftBehind globals thing) :
    thing = .scope 0 := by
  induction h with
  | root member => rw [List.mem_singleton.mp member]
  | globals => rfl
  | binding _ bound holds ih =>
    cases ih
    have other (name : String) : ¬(0 = 1 ∧ name = "x") := fun both => Nat.zero_ne_one both.1
    rw [leftBehind, Store.binding?_define_of_ne _ _ (other _), Store.binding?_newScope,
      Store.binding?_define_initial] at bound
    split at bound
    · cases bound
      cases holds
    · cases bound
  | field _ _ _ ih => cases ih
  | enclosing _ _ ih => cases ih
  | method _ _ ih => cases ih
  | superclass _ _ ih => cases ih

def twoCalls : List Session.Step := [.run 5 "fun f() \x7b\x7d f(); f();"]

theorem entries_twoCalls :
    ∃ closure env env', (chronicle (.fixed 0) none twoCalls)[1]? = some (Entry.entered closure env) ∧
      (chronicle (.fixed 0) none twoCalls)[5]? = some (Entry.entered closure env') := by
  obtain ⟨log, same⟩ : ∃ log, chronicle (.fixed 0) none twoCalls = log := ⟨_, rfl⟩
  rw [same]
  cbv at same
  subst same
  exact ⟨_, _, _, rfl, rfl⟩

theorem finished_scope_untouched :
    ¬Reaches leftBehind globals (.scope 1) ∧
      (lastState (Run.execute 1 (.var ⟨.identifier, "y", 1⟩ none) globals
        { Machine.initial (.fixed 0) none with store := leftBehind })).store.scopes[1]? =
          leftBehind.scopes[1]? ∧
      ∃ closure env env', (chronicle (.fixed 0) none twoCalls)[1]? = some (Entry.entered closure env) ∧
        (chronicle (.fixed 0) none twoCalls)[5]? = some (Entry.entered closure env') ∧
        env.head? ≠ env'.head? := by
  obtain ⟨runs, sessions⟩ := execution_touches_what_it_reaches
  have apart : ¬Reaches leftBehind globals (.scope 1) := fun h => by
    cases reaches_leftBehind h
  obtain ⟨untouched, -⟩ := runs 1 globals { Machine.initial (.fixed 0) none with store := leftBehind } _
    (.inr ⟨.var ⟨.identifier, "y", 1⟩ none, rfl⟩)
  obtain ⟨-, entered, -, once⟩ := sessions (.fixed 0) none twoCalls
  obtain ⟨closure, env, env', first, second⟩ := entries_twoCalls
  refine ⟨apart, untouched.scopes 1 (by decide) apart, closure, env, env', first, second,
    fun same => ?_⟩
  obtain ⟨scope, rfl⟩ := entered closure env (List.mem_of_getElem? first)
  exact absurd (once 1 5 _ _ scope first second rfl same.symm) (by decide)

end Lox
