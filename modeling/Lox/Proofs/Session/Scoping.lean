import Lox.Proofs.Evaluation.Agreement
import Lox.Proofs.Session.Accepted

namespace Lox

namespace Reference

open World

def World.learn (W : World) (additions : Locals) (sites : List Site) : World :=
  { W with
    locals := W.locals.merge additions
    records := fun id token distance =>
      W.records id token distance ∨ ⟨id, token, distance⟩ ∈ sites }

theorem World.Extends.learn (W : World) (additions : Locals) (sites : List Site) :
    Extends W (W.learn additions sites) :=
  ⟨fun _ _ _ h => h, fun _ _ h => h, Nat.le_refl _, fun _ _ _ h => .inl h⟩

theorem StateRel.learn {W : World} {m r : Machine} (h : StateRel W m r) {source : String}
    {firstId : Nat} (accepted : IsAccepted source firstId)
    (known : ∀ id token distance, W.records id token distance → id < firstId)
    (unused : ∀ id, firstId ≤ id → m.locals[id]? = none) :
    StateRel (W.learn (localsOf source firstId) (textSites source firstId))
      { m with locals := m.locals.merge (localsOf source firstId) } r := by
  have extends' := World.Extends.learn W (localsOf source firstId) (textSites source firstId)
  exact { h with
    locals := by rw [h.locals]; rfl
    records := fun id token distance recorded => by
      rw [Locals.getElem?_merge]
      rcases recorded with old | new
      · have earlier := known id token distance old
        rw [accepted.getElem?_locals_of_not_mem (.inl earlier), Option.none_or]
        exact h.records id token distance old
      · have entry := accepted.getElem?_locals new
        have later : firstId ≤ id :=
          ((textSites_fresh source firstId).range id (List.mem_map_of_mem new)).1
        rw [unused id later, Option.or_none]
        exact entry
    fields := fun object name => optionRel_mono extends' (h.fields object name)
    global := fun name => optionRel_mono extends' (h.global name)
    content := fun s n c mapped v found => by
      obtain ⟨v', found', related, suits⟩ := h.content s n c mapped v found
      exact ⟨v', found', related.mono extends', suits⟩ }

def World.initial : World :=
  { cell := fun _ _ => none
    bound := fun _ _ => False
    scopes := 1
    locals := ∅
    records := fun _ _ _ => False }

theorem StateRel.initial (clock : Clock) (limit : Option Nat) :
    StateRel World.initial (Machine.initial clock limit) (Machine.initial clock limit) where
  locals := rfl
  records _ _ _ := nofun
  sink := rfl
  clock := rfl
  identity := rfl
  objects := rfl
  fields _ _ := .none
  global name := by
    have none' : Store.initial.binding? 0 name = none := rfl
    simp only [Machine.initial, Store.binding?_define, none']
    by_cases same : name = "clock"
    · simpa [same, Store.initial] using ValueRel.native .clock
    · simp [same]
  scopes := rfl
  somePlace := ⟨Nat.one_pos, Nat.one_pos⟩
  noGlobalCell _ := rfl
  inRange _ _ _ := nofun
  distinct _ _ _ _ _ := nofun
  named _ _ _ := nofun
  content _ _ _ := nofun
  undeclared s n place _ := by
    refine Store.binding?_of_size_le _ n ?_
    rw [Machine.initial, Store.size_define]
    exact Nat.one_le_iff_ne_zero.mpr place
  isBound _ _ := nofun

theorem Ends.outcome {current : Option Nat} {W : World} {α : Type} {Q : World → α → α → Prop}
    {x y : Run α} {m r : Machine} (same : ∀ W a b, Q W a b → a = b)
    (h : Ends current W Q (x m) (y r)) :
    (Outcome.ofRun x m).1 = (Outcome.ofRun y r).1 ∧
      (Outcome.ofRun x m).2.sink = (Outcome.ofRun y r).2.sink := by
  unfold Outcome.ofRun
  cases hx : x m with
  | ok a m' =>
    cases hy : y r with
    | ok b r' =>
      rw [hx, hy] at h
      obtain ⟨W', -, related, holds⟩ := h
      exact ⟨by rw [same W' a b holds], related.sink.symm⟩
    | error stop r' =>
      rw [hx, hy] at h
      exact h.elim
  | error stop m' =>
    cases hy : y r with
    | ok b r' =>
      rw [hx, hy] at h
      exact h.elim
    | error stop' r' =>
      rw [hx, hy] at h
      obtain ⟨rfl, W', -, related, -⟩ := h
      exact ⟨rfl, related.sink.symm⟩

theorem run_eq (fuel : Nat) (source : String) (clock : Clock) (limit : Option Nat) :
    Reference.run fuel source clock limit =
      if (staticErrors source 0).isEmpty then
        Outcome.ofRun (program fuel (statementsOf source 0)) (Machine.initial clock limit)
      else (.rejected (staticErrors source 0), Machine.initial clock limit) := by
  rw [Reference.run, checkProgram_eq]
  cases (staticErrors source 0).isEmpty <;> rfl

end Reference

open Reference

def acceptedOccurrences (source : String) (firstId : Nat) : List (Nat × Token) :=
  if (staticErrors source firstId).isEmpty then Stmt.allOccurrences (statementsOf source firstId)
  else []

theorem acceptedOccurrences_of_isAccepted {source : String} {firstId : Nat}
    (h : IsAccepted source firstId) :
    acceptedOccurrences source firstId = Stmt.allOccurrences (statementsOf source firstId) := by
  rw [acceptedOccurrences, isAccepted_iff.mp h, List.isEmpty_nil, if_pos rfl]

/-- An error that static resolution does not rule out. A name is undefined only if its occurrence
has no distance and the global table does not have the name at that moment. -/
def RuntimeError.IsPossible (error : RuntimeError) (occurrences : List (Nat × Token))
    (machine : Machine) : Prop :=
  match error.cause with
  | .undefinedLocal _ | .superUnresolved | .superUnbound _ | .superWithoutReceiver
  | .initializerUnbound => False
  | .undefinedGlobal name =>
    name = error.token.lexeme ∧
      (∃ id, (id, error.token) ∈ occurrences ∧ machine.locals[id]? = none) ∧
        machine.store.get? globals name = none
  | _ => True

def Outcome.IsPossible {α : Type} (outcome : Outcome α) (occurrences : List (Nat × Token))
    (machine : Machine) : Prop :=
  match outcome with
  | .halted (.runtime error) => error.IsPossible occurrences machine
  | _ => True

namespace Session

def runAll (session : Session) : List (Nat × String) → Session
  | [] => session
  | (fuel, source) :: rest => runAll (session.run fuel source).2 rest

def occurrences (session : Session) : List (Nat × String) → List (Nat × Token)
  | [] => []
  | (fuel, source) :: rest =>
    acceptedOccurrences source session.nextId ++ occurrences (session.run fuel source).2 rest

theorem occurrences_append (session : Session) (earlier later : List (Nat × String)) :
    session.occurrences (earlier ++ later) =
      session.occurrences earlier ++ (session.runAll earlier).occurrences later := by
  induction earlier generalizing session with
  | nil => rfl
  | cons text rest ih =>
    rw [List.cons_append, occurrences, occurrences, ih, List.append_assoc, runAll]

/-- A machine without distances goes along with that of the session, and every occurrence that may
be evaluated belongs to a text that was run. -/
structure GoesAlong (session : Session) (known : List (Nat × Token)) (W : World) (r : Machine) :
    Prop where
  related : StateRel W session.machine r
  recorded : ∀ id token distance, W.records id token distance →
    id < session.nextId ∧ (id, token) ∈ known
  unused : ∀ id, session.nextId ≤ id → session.machine.locals[id]? = none

namespace GoesAlong

variable {session : Session} {known : List (Nat × Token)} {W : World} {r : Machine}
  {source : String}

theorem interpret (h : session.GoesAlong known W r) (fuel : Nat)
    (accepted : IsAccepted source session.nextId) :
    Reference.Ends globals.head?
      (W.learn (localsOf source session.nextId) (textSites source session.nextId))
      (fun _ _ _ => True)
      (Run.interpret fuel (statementsOf source session.nextId) (localsOf source session.nextId)
        session.machine)
      (Reference.program fuel (statementsOf source session.nextId) r) := by
  have start := h.related.learn accepted
    (fun id token distance recorded => (h.recorded id token distance recorded).1) h.unused
  have resolved := accepted.resolve.2
    (W.learn (localsOf source session.nextId) (textSites source session.nextId)).records
    fun site member => .inr member
  exact program_agrees fuel _ resolved _ r start

theorem behind (h : session.GoesAlong known W r) (accepted : IsAccepted source session.nextId)
    {current : Option Nat} {W' : World} {m' r' : Machine}
    (grows : World.Grows current
      (W.learn (localsOf source session.nextId) (textSites source session.nextId)) W')
    (related : StateRel W' m' r') :
    GoesAlong ⟨nextIdOf source session.nextId, m'⟩
      (known ++ acceptedOccurrences source session.nextId) W' r' := by
  obtain ⟨records, locals⟩ := grows.fixed
  have fresh := textSites_fresh source session.nextId
  refine ⟨related, fun id token distance recorded => ?_, fun id later => ?_⟩
  · rw [records] at recorded
    rcases recorded with old | new
    · obtain ⟨earlier, member⟩ := h.recorded id token distance old
      exact ⟨Nat.lt_of_lt_of_le earlier fresh.ordered, List.mem_append_left _ member⟩
    · refine ⟨(fresh.range id (List.mem_map_of_mem new)).2, List.mem_append_right _ ?_⟩
      rw [acceptedOccurrences_of_isAccepted accepted,
        ← Stmt.allSites_occurrences (statementsOf source session.nextId) []]
      exact List.mem_map_of_mem new
  · have unused : W.locals[id]? = none := by
      rw [← h.related.locals]
      exact h.unused id (Nat.le_trans fresh.ordered later)
    have absent := accepted.getElem?_locals_of_not_mem (.inr later)
    rw [related.locals, locals]
    simp only [World.learn, Locals.getElem?_merge, absent, unused, Option.or_none]

theorem rejected (h : session.GoesAlong known W r) :
    GoesAlong { session with nextId := nextIdOf source session.nextId }
      (known ++ acceptedOccurrences source session.nextId) W r := by
  have ordered := (textSites_fresh source session.nextId).ordered
  refine ⟨h.related, fun id token distance recorded => ?_, fun id later => ?_⟩
  · obtain ⟨earlier, member⟩ := h.recorded id token distance recorded
    exact ⟨Nat.lt_of_lt_of_le earlier ordered, List.mem_append_left _ member⟩
  · exact h.unused id (Nat.le_trans ordered later)

theorem isPossible (h : session.GoesAlong known W r) {stop : Stop}
    (explained : Explained W session.machine stop) :
    (Outcome.ofStop stop : Outcome Unit).IsPossible known session.machine := by
  cases stop with
  | error error =>
    obtain ⟨cause, token⟩ := error
    cases cause with
    | undefinedGlobal name =>
      obtain ⟨same, ⟨id, recorded⟩, absent⟩ := explained
      have member := (h.recorded id token none recorded).2
      exact ⟨same, ⟨id, member, h.related.records id token none recorded⟩, absent⟩
    | _ => exact explained
  | _ => trivial

theorem run (h : session.GoesAlong known W r) (fuel : Nat) (source : String) :
    (∃ W' r', GoesAlong (session.run fuel source).2
      (known ++ acceptedOccurrences source session.nextId) W' r') ∧
      (session.run fuel source).1.IsPossible (known ++ acceptedOccurrences source session.nextId)
        (session.run fuel source).2.machine := by
  by_cases accepted : IsAccepted source session.nextId
  · rw [run_of_isAccepted fuel accepted]
    have both := h.interpret fuel accepted
    simp only [perform, Outcome.ofRun]
    cases hx : Run.interpret fuel (statementsOf source session.nextId)
        (localsOf source session.nextId) session.machine with
    | ok a m' =>
      cases hy : Reference.program fuel (statementsOf source session.nextId) r with
      | ok b r' =>
        rw [hx, hy] at both
        obtain ⟨W', grows, related, -⟩ := both
        exact ⟨⟨W', r', h.behind accepted grows related⟩, trivial⟩
      | error stop r' =>
        rw [hx, hy] at both
        exact both.elim
    | error stop m' =>
      cases hy : Reference.program fuel (statementsOf source session.nextId) r with
      | ok b r' =>
        rw [hx, hy] at both
        exact both.elim
      | error stop' r' =>
        rw [hx, hy] at both
        obtain ⟨-, W', grows, related, explained⟩ := both
        have behind := h.behind accepted grows related
        exact ⟨⟨W', r', behind⟩, behind.isPossible explained⟩
  · rw [run_of_not_isAccepted fuel accepted]
    exact ⟨⟨W, r, h.rejected⟩, trivial⟩

theorem runAll (h : session.GoesAlong known W r) (texts : List (Nat × String)) :
    ∃ W' r', GoesAlong (session.runAll texts) (known ++ session.occurrences texts) W' r' := by
  induction texts generalizing session known W r with
  | nil => exact ⟨W, r, by simpa [Session.runAll, occurrences] using h⟩
  | cons text rest ih =>
    obtain ⟨fuel, source⟩ := text
    obtain ⟨⟨W', r', behind⟩, -⟩ := h.run fuel source
    obtain ⟨W'', r'', all⟩ := ih behind
    exact ⟨W'', r'', by simpa [Session.runAll, occurrences] using all⟩

theorem initial (clock : Clock) (limit : Option Nat) :
    (Session.initial clock limit).GoesAlong [] World.initial (Machine.initial clock limit) :=
  ⟨.initial clock limit, fun _ _ _ => nofun, fun _ _ => Std.TreeMap.getElem?_emptyc⟩

end GoesAlong

end Session

/-- Static resolution is sound for execution. Whatever texts a session was given, and however they
ended, no step of the next one fails to find a scope or a binding at a recorded distance, finds no
superclass or receiver for `super`, or misses the receiver of an initializer. -/
theorem static_resolution_sound (clock : Clock) (limit : Option Nat) (earlier : List (Nat × String))
    (fuel : Nat) (source : String) :
    (((Session.initial clock limit).runAll earlier).run fuel source).1.IsPossible
      ((Session.initial clock limit).occurrences (earlier ++ [(fuel, source)]))
      (((Session.initial clock limit).runAll earlier).run fuel source).2.machine := by
  obtain ⟨W, r, before⟩ := (Session.GoesAlong.initial clock limit).runAll earlier
  rw [Session.occurrences_append]
  simpa only [List.nil_append, Session.occurrences, List.append_nil] using
    (before.run fuel source).2

/-- The distances implement lexical scoping. A text on a fresh session ends in the same way, with
the same error if it ends with one, and prints the same as with a reference that makes a cell for
every local declaration and looks a name up among the cells visible at its place. -/
theorem distances_scope_lexically (fuel : Nat) (source : String) (clock : Clock)
    (limit : Option Nat) :
    ((Session.initial clock limit).run fuel source).1 =
        (Reference.run fuel source clock limit).1 ∧
      ((Session.initial clock limit).run fuel source).2.machine.sink =
        (Reference.run fuel source clock limit).2.sink := by
  rw [Reference.run_eq]
  by_cases accepted : IsAccepted source 0
  · have run : (Session.initial clock limit).run fuel source = _ :=
      Session.run_of_isAccepted fuel accepted
    have both := (Session.GoesAlong.initial clock limit).interpret fuel accepted
    rw [run, if_pos (staticErrors_isEmpty.mpr accepted)]
    exact both.outcome fun _ _ _ _ => rfl
  · have run : (Session.initial clock limit).run fuel source = _ :=
      Session.run_of_not_isAccepted fuel accepted
    rw [run, if_neg (mt staticErrors_isEmpty.mp accepted)]
    exact ⟨rfl, rfl⟩

end Lox
