import Lox.Proofs.Receiver.Agreement
import Lox.Proofs.Session.Scoping

namespace Lox.Lexical

def learn (records : Records) (sites : List Site) : Records := fun id token d =>
  records id token d ∨ ⟨id, token, d⟩ ∈ sites

section Learn

variable {records : Records} {source : String} {firstId : Nat}
  (recorded : ∀ id token d, records id token d → id < firstId)
include recorded

theorem learn_recorded : ∀ id token d, learn records (textSites source firstId) id token d →
    id < nextIdOf source firstId := by
  have fresh := textSites_fresh source firstId
  rintro id token d (old | new)
  · exact Nat.lt_of_lt_of_le (recorded id token d old) fresh.ordered
  · exact (fresh.range id (List.mem_map_of_mem new)).2

theorem learn_known {locals : Locals} (accepted : IsAccepted source firstId)
    (unused : ∀ id, firstId ≤ id → locals[id]? = none) {id : Nat} {token : Token} {d : Option Nat}
    (known : records id token d → locals[id]? = d)
    (learned : learn records (textSites source firstId) id token d) :
    (locals.merge (localsOf source firstId))[id]? = d := by
  rcases learned with old | new
  · rw [accepted.getElem?_merge_of_earlier (recorded id token d old)]
    exact known old
  · exact accepted.getElem?_merge unused new

end Learn

/-- The two sessions are in the same state, and what is on record belongs to texts that were run. -/
structure GoesAlong (session : Lox.Session) (s : Session) (records : Records) : Prop where
  same : s.session = session
  sound : Sound records ⟨session.machine, s.selves⟩
  recorded : ∀ id token d, records id token d → id < session.nextId
  unused : ∀ id, session.nextId ≤ id → session.machine.locals[id]? = none

theorem Sound.learn {records : Records} {t : Tracked} (h : Sound records t) {source : String}
    {firstId : Nat} (accepted : IsAccepted source firstId)
    (recorded : ∀ id token d, records id token d → id < firstId)
    (unused : ∀ id, firstId ≤ id → t.machine.locals[id]? = none) :
    Sound (learn records (textSites source firstId))
      { t with machine := { t.machine with
          locals := t.machine.locals.merge (localsOf source firstId) } } := by
  have grows : records.Grow (Lexical.learn records (textSites source firstId)) :=
    fun _ _ _ known => .inl known
  exact ⟨fun id token d => learn_known recorded accepted unused (h.locals id token d),
    fun scope name v found => (h.bindings scope name v found).grow grows,
    fun object name v found => (h.fields object name v found).grow grows⟩

namespace GoesAlong

variable {session : Lox.Session} {s : Session} {records : Records} {source : String}

theorem initial (clock : Clock) (limit : Option Nat) :
    GoesAlong (.initial clock limit) (.initial clock limit) fun _ _ _ => False where
  same := rfl
  sound := by
    refine ⟨fun _ _ _ => nofun, fun scope name v found => ?_, fun _ _ _ found => nomatch found⟩
    obtain rfl := Machine.binding?_initial found
    trivial
  recorded _ _ _ := nofun
  unused _ _ := Std.TreeMap.getElem?_emptyc

theorem behind (h : GoesAlong session s records) (accepted : IsAccepted source session.nextId)
    {t t' : Tracked} (leads : Leads t t')
    (locals : t.machine.locals = session.machine.locals.merge (localsOf source session.nextId))
    (sound : Sound (learn records (textSites source session.nextId)) t') :
    GoesAlong ⟨nextIdOf source session.nextId, t'.machine⟩
      ⟨⟨nextIdOf source session.nextId, t'.machine⟩, t'.selves⟩
      (learn records (textSites source session.nextId)) where
  same := rfl
  sound := sound
  recorded := learn_recorded h.recorded
  unused id later := by
    rw [leads.locals, locals]
    exact accepted.getElem?_merge_of_later h.unused later

theorem run (h : GoesAlong session s records) (fuel : Nat) (source : String) :
    (s.run fuel source).1 = (session.run fuel source).1 ∧
      ∃ records', GoesAlong (session.run fuel source).2 (s.run fuel source).2 records' := by
  obtain ⟨session', selves⟩ := s
  have same : session = session' := h.same.symm
  subst same
  by_cases accepted : IsAccepted source session.nextId
  · have both := program_agrees fuel _ (accepted.resolve.2 _ fun _ member => .inr member)
      (h.sound.learn accepted h.recorded h.unused)
    rw [session.run_of_isAccepted fuel accepted, Session.run,
      if_pos (staticErrors_isEmpty.mpr accepted)]
    simp only [Lox.Session.perform, Outcome.ofRun]
    change Ends _ _ _ (Run.interpret fuel _ (localsOf source session.nextId) session.machine)
      (interpret fuel _ (localsOf source session.nextId) ⟨session.machine, selves⟩) at both
    cases hx : Run.interpret fuel (statementsOf source session.nextId)
        (localsOf source session.nextId) session.machine with
    | ok a m =>
      cases hy : interpret fuel (statementsOf source session.nextId)
          (localsOf source session.nextId) ⟨session.machine, selves⟩ with
      | ok b t =>
        rw [hx, hy] at both
        obtain ⟨rfl, rfl, leads, sound, -⟩ := both
        exact ⟨rfl, _, h.behind accepted leads rfl sound⟩
      | error reason t =>
        rw [hx, hy] at both
        exact both.elim
    | error reason m =>
      cases hy : interpret fuel (statementsOf source session.nextId)
          (localsOf source session.nextId) ⟨session.machine, selves⟩ with
      | ok b t =>
        rw [hx, hy] at both
        exact both.elim
      | error reason' t =>
        rw [hx, hy] at both
        obtain ⟨rfl, rfl, leads, sound⟩ := both
        exact ⟨rfl, _, h.behind accepted leads rfl sound⟩
  · rw [session.run_of_not_isAccepted fuel accepted, Session.run,
      if_neg (mt staticErrors_isEmpty.mp accepted)]
    have ordered := (textSites_fresh source session.nextId).ordered
    refine ⟨rfl, records, rfl, h.sound, fun id token d known => ?_, fun id later => ?_⟩
    · exact Nat.lt_of_lt_of_le (h.recorded id token d known) ordered
    · exact h.unused id (Nat.le_trans ordered later)

theorem runAll (h : GoesAlong session s records) (texts : List (Nat × String)) :
    ∃ records', GoesAlong (session.runAll texts) (s.runAll texts) records' := by
  induction texts generalizing session s records with
  | nil => exact ⟨records, h⟩
  | cons text rest ih =>
    obtain ⟨fuel, source⟩ := text
    obtain ⟨-, records', behind⟩ := h.run fuel source
    exact ih behind

end GoesAlong

end Lox.Lexical

namespace Lox

/-- The receiver and the superclass of a method are fixed where it is found and declared. Whatever
texts a session was given, the next one ends in the same way and in the same state, with the same
output, as with an evaluator in which `this` and `super` denote what the method was given. -/
theorem receiver_and_superclass_are_lexical (clock : Clock) (limit : Option Nat)
    (earlier : List (Nat × String)) (fuel : Nat) (source : String) :
    (((Session.initial clock limit).runAll earlier).run fuel source).1 =
        (((Lexical.Session.initial clock limit).runAll earlier).run fuel source).1 ∧
      (((Session.initial clock limit).runAll earlier).run fuel source).2 =
        (((Lexical.Session.initial clock limit).runAll earlier).run fuel source).2.session := by
  obtain ⟨records, before⟩ := (Lexical.GoesAlong.initial clock limit).runAll earlier
  obtain ⟨outcome, records', behind⟩ := before.run fuel source
  exact ⟨outcome.symm, behind.same.symm⟩

end Lox
