import Lox.Proofs.Chronicle.Evaluation
import Lox.Proofs.Evaluation.Values
import Lox.Proofs.Receiver.Invariant
import Lox.Proofs.Syntax.Plain

namespace Lox.Chronicle

open Lexical (Later)

def Entry.opened? : Entry → Option Nat
  | .bound _ _ closure => closure.env.head?
  | .entered _ env => env.head?
  | _ => none

def opened (log : List Entry) : List Nat := log.filterMap Entry.opened?

variable {s s' s'' : Logged Entry} {store store' : Store} {log earlier : List Entry}

structure Leads (s s' : Logged Entry) : Prop where
  later : Later s.machine.store s'.machine.store
  scopes : s.machine.store.scopes.size ≤ s'.machine.store.scopes.size
  objects : s.machine.store.objects.size ≤ s'.machine.store.objects.size
  log : s.log <+: s'.log

namespace Leads

theorem refl (s : Logged Entry) : Leads s s :=
  ⟨.refl _, Nat.le_refl _, Nat.le_refl _, List.prefix_refl _⟩

theorem trans (first : Leads s s') (second : Leads s' s'') : Leads s s'' where
  later := first.later.trans second.later
  scopes := Nat.le_trans first.scopes second.scopes
  objects := Nat.le_trans first.objects second.objects
  log := first.log.trans second.log

theorem note (h : Leads s s') (e : Entry) : Leads s { s' with log := s'.log ++ [e] } :=
  ⟨h.later, h.scopes, h.objects, h.log.trans (List.prefix_append _ _)⟩

end Leads

/-- A method that a program declares, which is an initializer by its name. -/
structure MethodSound (method : Closure) : Prop where
  isInitializer : method.isInitializer = (method.declaration.name.lexeme == initializerName)
  plain : Stmt.FunctionNamesPlain method.declaration

def ClassSound (c : Class) : Prop :=
  ∀ name method, c.findMethod name = some method → MethodSound method

/-- A function of a program, which is an initializer only if it is a bound method. -/
structure FunctionKnown (log : List Entry) (closure : Closure) : Prop where
  plain : Stmt.FunctionNamesPlain closure.declaration
  wasBound : closure.isInitializer = true → ∃ method receiver, .bound method receiver closure ∈ log

def Known (s : Logged Entry) : Value → Prop
  | .function _ closure => FunctionKnown s.log closure
  | .classValue c => ClassSound c
  | .object id c => id < s.machine.store.objects.size ∧ ClassSound c
  | _ => True

theorem known_of_isAtom {v : Value} (h : v.IsAtom) : Known s v := by
  cases v <;> trivial

theorem FunctionKnown.mono {closure : Closure} (h : FunctionKnown s.log closure)
    (leads : Leads s s') : FunctionKnown s'.log closure where
  plain := h.plain
  wasBound isInitializer := by
    obtain ⟨method, receiver, member⟩ := h.wasBound isInitializer
    exact ⟨method, receiver, leads.log.subset member⟩

theorem Known.mono {v : Value} (h : Known s v) (leads : Leads s s') : Known s' v := by
  cases v with
  | function id closure => exact FunctionKnown.mono h leads
  | object id c => exact ⟨Nat.lt_of_lt_of_le h.1 leads.objects, h.2⟩
  | classValue c => exact h
  | _ => trivial

/-- No object that is still to be made. -/
def Older (store : Store) (v : Value) : Prop :=
  ∀ id c, v = .object id c → id < store.objects.size

theorem Known.older {v : Value} (h : Known s v) : Older s.machine.store v := by
  rintro id c rfl
  exact h.1

def Apart (v w : Value) : Prop := v.equals w = false ∧ w.equals v = false

theorem Older.apart {v : Value} (h : Older store v) {object : Nat}
    (new : store.objects.size ≤ object) (c : Class) : Apart v (.object object c) := by
  cases v with
  | object id c' =>
    have old := h id c' rfl
    exact ⟨beq_false_of_ne (by omega), beq_false_of_ne (by omega)⟩
  | _ => exact ⟨rfl, rfl⟩

/-- What was there when the class was called is older than the object that it made. -/
structure Made (c : Class) (since : Nat) (before : Store) (earlier : List Entry) (object : Nat) :
    Prop where
  new : before.objects.size ≤ object
  behind : since ≤ earlier.length
  computed : ∀ v, .computed v ∈ earlier.take since → Older before v
  bindings : ∀ scope name v, before.binding? scope name = some v → Older before v
  fields : ∀ other name v, before.field? other name = some v → Older before v

/-- What an entry tells, given those before it and the store as it is now. -/
def Fact (store : Store) (earlier : List Entry) : Entry → Prop
  | .bound method receiver closure =>
    MethodSound method ∧ ∃ scope, closure = { method with env := scope :: method.env } ∧
      store.binding? scope "this" = some receiver
  | .entered closure env => ∃ scope, env = scope :: closure.env
  | .completed closure flow result =>
    (closure.isInitializer = false → result = flow.result) ∧
      (closure.isInitializer = true → store.getAt? closure.env 0 "this" = some result ∧
        ∃ method receiver, .bound method receiver closure ∈ earlier)
  | .constructed c since before result =>
    ∃ object, result = .object object c ∧ Made c since before earlier object
  | .computed _ => True

theorem Fact.mono {e : Entry} (h : Fact store earlier e) (later : Later store store') :
    Fact store' earlier e := by
  cases e with
  | bound method receiver closure =>
    obtain ⟨sound, scope, same, binding⟩ := h
    exact ⟨sound, scope, same, later _ _ _ Lexical.not_isPlain_this binding⟩
  | completed closure flow result =>
    refine ⟨h.1, fun isInitializer => ?_⟩
    obtain ⟨receiver, wasBound⟩ := h.2 isInitializer
    exact ⟨later.getAt? Lexical.not_isPlain_this receiver, wasBound⟩
  | _ => exact h

/-- An initializer that is called was bound before, and its receiver stays where it was put, because
programs define no such name; an object is younger than all values that were there before it was
made; and no scope is opened twice. -/
structure Sound (s : Logged Entry) : Prop where
  bindings : ∀ scope name v, s.machine.store.binding? scope name = some v → Known s v
  fields : ∀ object name v, s.machine.store.field? object name = some v → Known s v
  computed : ∀ v, .computed v ∈ s.log → Older s.machine.store v
  facts : ∀ place e, s.log[place]? = some e → Fact s.machine.store (s.log.take place) e
  distinct : (opened s.log).Pairwise (· < ·)
  inside : ∀ scope ∈ opened s.log, scope < s.machine.store.scopes.size

namespace Sound

theorem fact_of_mem (sound : Sound s) {e : Entry} (member : e ∈ s.log) :
    ∃ earlier, Fact s.machine.store earlier e := by
  obtain ⟨place, found⟩ := List.mem_iff_getElem?.mp member
  exact ⟨_, sound.facts place e found⟩

theorem step (sound : Sound s) (leads : Leads s s') (sameLog : s'.log = s.log)
    (bindings : ∀ scope name v, s'.machine.store.binding? scope name = some v →
      s.machine.store.binding? scope name = some v ∨ Known s v)
    (fields : ∀ object name v, s'.machine.store.field? object name = some v →
      s.machine.store.field? object name = some v ∨ Known s v) : Sound s' where
  bindings scope name v found :=
    ((bindings scope name v found).elim (sound.bindings scope name v) fun known => known).mono leads
  fields object name v found :=
    ((fields object name v found).elim (sound.fields object name v) fun known => known).mono leads
  computed v member id c same := by
    rw [sameLog] at member
    exact Nat.lt_of_lt_of_le (sound.computed v member id c same) leads.objects
  facts place e found := by
    rw [sameLog] at found ⊢
    exact (sound.facts place e found).mono leads.later
  distinct := by
    rw [sameLog]
    exact sound.distinct
  inside scope member := by
    rw [sameLog] at member
    exact Nat.lt_of_lt_of_le (sound.inside scope member) leads.scopes

theorem note (sound : Sound s) {e : Entry} (fact : Fact s.machine.store s.log e)
    (older : ∀ v, e = .computed v → Older s.machine.store v)
    (next : ∀ scope, e.opened? = some scope →
      (∀ other ∈ opened s.log, other < scope) ∧ scope < s.machine.store.scopes.size) :
    Sound { s with log := s.log ++ [e] } := by
  have leads : Leads s { s with log := s.log ++ [e] } := (Leads.refl s).note e
  have opens : opened (s.log ++ [e]) = opened s.log ++ e.opened?.toList := by
    simp only [opened, List.filterMap_append]
    cases h : e.opened? <;> simp [h]
  refine ⟨fun scope name v found => (sound.bindings scope name v found).mono leads,
    fun object name v found => (sound.fields object name v found).mono leads,
    fun v member => ?_, fun place e' found => ?_, ?_, fun scope member => ?_⟩
  · rcases List.mem_append.mp member with old | new
    · exact sound.computed v old
    · exact older v (List.mem_singleton.mp new).symm
  · change (s.log ++ [e])[place]? = some e' at found
    change Fact s.machine.store ((s.log ++ [e]).take place) e'
    rcases Nat.lt_trichotomy place s.log.length with before | rfl | behind
    · rw [List.getElem?_append_left before] at found
      rw [List.take_append_of_le_length (Nat.le_of_lt before)]
      exact sound.facts place e' found
    · obtain rfl : e = e' := by simpa using found
      simpa using fact
    · have outside : (s.log ++ [e])[place]? = none := List.getElem?_eq_none (by simp; omega)
      rw [outside] at found
      cases found
  · change (opened (s.log ++ [e])).Pairwise (· < ·)
    rw [opens, List.pairwise_append]
    refine ⟨sound.distinct, ?_, fun other member scope new => ?_⟩
    · cases e.opened? <;> simp
    · exact (next scope (Option.mem_toList.mp new)).1 other member
  · change scope ∈ opened (s.log ++ [e]) at member
    rw [opens] at member
    rcases List.mem_append.mp member with old | new
    · exact sound.inside scope old
    · exact (next scope (Option.mem_toList.mp new)).2

end Sound

end Lox.Chronicle
