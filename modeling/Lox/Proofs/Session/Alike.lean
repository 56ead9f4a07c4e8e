import Lox.Proofs.Alike.Evaluation
import Lox.Proofs.Alike.Reading
import Lox.Proofs.Scanning.Joint
import Lox.Proofs.Session.Scoping

namespace Lox

variable {lines : Lines}

section Accepted

variable {source source' : String} {firstId firstId' : Nat}

theorem statementsOf_like
    (tokens : List.Forall₂ (Token.Like lines) (tokensOf (scan source)) (tokensOf (scan source')))
    (firstId firstId' : Nat) :
    Stmt.AllLike (.unnumbered lines) (statementsOf source firstId)
      (statementsOf source' firstId') :=
  (parse_like tokens (tokensOf_scan_ne_nil source) firstId firstId').1

theorem IsAccepted.ofLike (h : IsAccepted source firstId)
    (tokens : List.Forall₂ (Token.Like lines) (tokensOf (scan source)) (tokensOf (scan source')))
    (scanned : lexErrorsOf (scan source') = []) (firstId' : Nat) : IsAccepted source' firstId' := by
  have parsed := (parse_like tokens (tokensOf_scan_ne_nil source) firstId firstId').2
  have resolved := (statementsOf_like tokens firstId firstId').resolveErrors
  rw [h.parsed] at parsed
  rw [h.resolved] at resolved
  exact ⟨scanned, List.forall₂_nil_left_iff.mp parsed, List.forall₂_nil_left_iff.mp resolved⟩

theorem IsAccepted.again (h : IsAccepted source firstId) (firstId' : Nat) :
    IsAccepted source firstId' :=
  h.ofLike (forall₂_token_refl _) h.scanned firstId'

theorem ResolveError.Like.eq {e e' : ResolveError} (h : e.Like .still e') : e = e' := by
  obtain ⟨cause, token⟩ := h
  cases e
  cases e'
  exact (ResolveError.mk.injEq ..).mpr ⟨cause.symm, token.eq.symm⟩

theorem staticErrors_again (source : String) (firstId firstId' : Nat) :
    staticErrors source firstId = staticErrors source firstId' := by
  have tokens := forall₂_token_refl (tokensOf (scan source))
  have filled := tokensOf_scan_ne_nil source
  have parsed := eq_of_forall₂ (parse_like tokens filled firstId firstId').2
    fun _ _ like => ParseError.Like.eq like
  have resolved := eq_of_forall₂ (statementsOf_like tokens firstId firstId').resolveErrors
    fun _ _ like => ResolveError.Like.eq like
  simp only [staticErrors, parsed, resolved]

end Accepted

/-- The same outcome, but for the line of a runtime error. -/
inductive Outcome.Like (lines : Lines) : Outcome Unit → Outcome Unit → Prop where
  | finished : Like lines (.finished ()) (.finished ())
  | rejected (errors : List Diagnostic) : Like lines (.rejected errors) (.rejected errors)
  | runtime (cause : RuntimeError.Cause) {t t' : Token} (token : t.Like lines t') :
    Like lines (.halted (.runtime ⟨cause, t⟩)) (.halted (.runtime ⟨cause, t'⟩))
  | sinkClosed : Like lines (.halted .sinkClosed) (.halted .sinkClosed)
  | unfinished : Like lines .unfinished .unfinished

theorem Outcome.Like.finishes {o o' : Outcome Unit} (h : o.Like lines o')
    (finishes : o = .finished ()) : o' = .finished () := by
  subst finishes
  cases h
  rfl

theorem Stop.Like.outcome {stop stop' : Stop} (h : stop.Like lines stop') :
    Outcome.Like lines (.ofStop stop) (.ofStop stop') := by
  cases h with
  | error cause token => exact .runtime cause token
  | sinkClosed => exact .sinkClosed
  | outOfFuel => exact .unfinished

namespace Session

/-- The ids of two sessions that have the same distance on record, or none. An id is only matched
once it has been given out, because what is on record for it will not change any more. -/
def between (lines : Lines) (s s' : Session) : Matching :=
  { lines with ids := fun id id' => id < s.nextId ∧ id' < s'.nextId ∧
      s'.machine.locals[id']? = s.machine.locals[id]? }

def onRecord (s : Session) : Records := fun id _ d => id < s.nextId ∧ s.machine.locals[id]? = d

theorem covers_between (lines : Lines) (s s' : Session) :
    (between lines s s').Covers s.onRecord s'.onRecord :=
  fun _ _ _ _ _ known known' => ⟨known.1, known'.1, known'.2.trans known.2.symm⟩

def Keeps (s t : Session) : Prop :=
  ∀ id, id < s.nextId → id < t.nextId ∧ t.machine.locals[id]? = s.machine.locals[id]?

theorem Keeps.refl (s : Session) : s.Keeps s := fun _ old => ⟨old, rfl⟩

theorem within_between {s s' t t' : Session} (left : s.Keeps t) (right : s'.Keeps t') :
    (between lines s s').Within (between lines t t') where
  lines := fun _ _ line => line
  ids := by
    rintro id id' ⟨old, old', same⟩
    obtain ⟨new, found⟩ := left id old
    obtain ⟨new', found'⟩ := right id' old'
    exact ⟨new, new', by rw [found', same, found]⟩

/-- Machines with nothing on record for ids that are not yet given out. -/
def IsFresh (s : Session) : Prop := ∀ id, s.nextId ≤ id → s.machine.locals[id]? = none

structure Like (lines : Lines) (s s' : Session) : Prop where
  store : s.machine.store.Like (between lines s s') s'.machine.store
  sink : s'.machine.sink = s.machine.sink
  clock : s'.machine.clock = s.machine.clock
  fresh : s.IsFresh
  fresh' : s'.IsFresh

namespace Like

variable {s s' t t' : Session}

theorem machine (h : s.Like lines s') :
    s.machine.Like (between lines s s') s.machine.locals s'.machine.locals s'.machine :=
  ⟨⟨rfl, rfl⟩, fun _ _ same => same.2.2, h.store, h.sink, h.clock⟩

end Like

def learn (s : Session) (source : String) : Session :=
  ⟨nextIdOf source s.nextId,
    { s.machine with locals := s.machine.locals.merge (localsOf source s.nextId) }⟩

def skip (s : Session) (source : String) : Session :=
  { s with nextId := nextIdOf source s.nextId }

variable {s s' : Session} {source : String}

theorem ordered (source : String) (s : Session) : s.nextId ≤ nextIdOf source s.nextId :=
  (textSites_fresh source s.nextId).ordered

theorem keeps_renumber {nextId : Nat} (later : s.nextId ≤ nextId) :
    s.Keeps { s with nextId := nextId } :=
  fun _ old => ⟨Nat.lt_of_lt_of_le old later, rfl⟩

theorem IsFresh.renumber (h : s.IsFresh) {nextId : Nat} (later : s.nextId ≤ nextId) :
    IsFresh { s with nextId := nextId } :=
  fun id new => h id (Nat.le_trans later new)

section Learn

variable (accepted : IsAccepted source s.nextId)
include accepted

theorem keeps_learn : s.Keeps (s.learn source) := by
  intro id old
  exact ⟨Nat.lt_of_lt_of_le old (ordered source s), accepted.getElem?_merge_of_earlier old⟩

theorem IsFresh.learn (h : s.IsFresh) : (s.learn source).IsFresh :=
  fun _ later => accepted.getElem?_merge_of_later h later

theorem agrees_learn (h : s.IsFresh) :
    Agrees (s.learn source).onRecord (textSites source s.nextId) := by
  intro site member
  have range := (textSites_fresh source s.nextId).range _ (List.mem_map_of_mem member)
  exact ⟨range.2, accepted.getElem?_merge h member⟩

end Learn

namespace Like

theorem learnLeft (h : s.Like lines s') (accepted : IsAccepted source s.nextId) :
    (s.learn source).Like lines s' :=
  ⟨h.store.mono (within_between (keeps_learn accepted) (.refl s')), h.sink, h.clock,
    h.fresh.learn accepted, h.fresh'⟩

theorem learnRight (h : s.Like lines s') (accepted : IsAccepted source s'.nextId) :
    s.Like lines (s'.learn source) :=
  ⟨h.store.mono (within_between (.refl s) (keeps_learn accepted)), h.sink, h.clock, h.fresh,
    h.fresh'.learn accepted⟩

theorem renumber (h : s.Like lines s') {nextId nextId' : Nat} (later : s.nextId ≤ nextId)
    (later' : s'.nextId ≤ nextId') :
    Like lines { s with nextId := nextId } { s' with nextId := nextId' } :=
  ⟨h.store.mono (within_between (keeps_renumber later) (keeps_renumber later')), h.sink, h.clock,
    h.fresh.renumber later, h.fresh'.renumber later'⟩

theorem skip (h : s.Like lines s') (source source' : String) :
    (s.skip source).Like lines (s'.skip source') :=
  h.renumber (ordered source s) (ordered source' s')

theorem lead (h : s.Like lines s') {m m' : Machine}
    (machine : m.Like (between lines s s') s.machine.locals s'.machine.locals m') :
    Like lines ⟨s.nextId, m⟩ ⟨s'.nextId, m'⟩ := by
  obtain ⟨⟨locals, locals'⟩, -, store, sink, clock⟩ := machine
  have same : between lines ⟨s.nextId, m⟩ ⟨s'.nextId, m'⟩ = between lines s s' := by
    simp only [between, locals, locals']
  refine ⟨same ▸ store, sink, clock, fun id later => ?_, fun id later => ?_⟩
  · exact (congrArg (·[id]?) locals).trans (h.fresh id later)
  · exact (congrArg (·[id]?) locals').trans (h.fresh' id later)

end Like

def proceed (s : Session) (fuel : Nat) (ss : List Stmt) : Outcome Unit × Session :=
  s.perform s.nextId (Run.program fuel ss)

theorem run_eq_proceed (fuel : Nat) (accepted : IsAccepted source s.nextId) :
    s.run fuel source = (s.learn source).proceed fuel (statementsOf source s.nextId) :=
  run_of_isAccepted fuel accepted

theorem run_eq_skip (fuel : Nat) (refused : ¬ IsAccepted source s.nextId) :
    s.run fuel source = (.rejected (staticErrors source s.nextId), s.skip source) :=
  run_of_not_isAccepted fuel refused

structure Ended (lines : Lines) (s s' : Session) (end' end'' : Outcome Unit × Session) : Prop where
  outcome : end'.1.Like lines end''.1
  session : end'.2.Like lines end''.2
  keeps : end'.2.nextId = s.nextId ∧ end'.2.machine.locals = s.machine.locals
  keeps' : end''.2.nextId = s'.nextId ∧ end''.2.machine.locals = s'.machine.locals

theorem Ended.agrees {end' end'' : Outcome Unit × Session} (h : Ended lines s s' end' end'')
    {sites : List Site} (known : Agrees s'.onRecord sites) : Agrees end''.2.onRecord sites := by
  intro site member
  obtain ⟨old, found⟩ := known site member
  exact ⟨h.keeps'.1 ▸ old, h.keeps'.2 ▸ found⟩

theorem Like.proceed (h : s.Like lines s') (fuel : Nat) {ss ss' : List Stmt}
    (like : Stmt.AllLike (between lines s s') ss ss') :
    Ended lines s s' (s.proceed fuel ss) (s'.proceed fuel ss') := by
  have ends := Run.alike_program fuel like _ _ h.machine
  simp only [Session.proceed, perform, Outcome.ofRun]
  generalize Run.program fuel ss s.machine = result at ends
  generalize Run.program fuel ss' s'.machine = result' at ends
  cases ends with
  | ok _ machine =>
    exact ⟨.finished, h.lead machine, ⟨rfl, machine.fixed.1⟩, ⟨rfl, machine.fixed.2⟩⟩
  | error reason machine =>
    exact ⟨reason.outcome, h.lead machine, ⟨rfl, machine.fixed.1⟩, ⟨rfl, machine.fixed.2⟩⟩

theorem Like.runAccepted (h : s.Like lines s') (fuel : Nat)
    (tokens : List.Forall₂ (Token.Like lines) (tokensOf (scan source)) (tokensOf (scan source')))
    (accepted : IsAccepted source s.nextId) (accepted' : IsAccepted source' s'.nextId) :
    (s.run fuel source).1.Like lines (s'.run fuel source').1 ∧
      (s.run fuel source).2.Like lines (s'.run fuel source').2 := by
  rw [run_eq_proceed fuel accepted, run_eq_proceed fuel accepted']
  have known := (h.learnLeft accepted).learnRight accepted'
  have statements : Stmt.AllLike (between lines (s.learn source) (s'.learn source'))
      (statementsOf source s.nextId) (statementsOf source' s'.nextId) :=
    (statementsOf_like tokens s.nextId s'.nextId).number
      (covers_between lines (s.learn source) (s'.learn source')) (agrees_learn accepted h.fresh)
      (agrees_learn accepted' h.fresh')
  have ends := known.proceed fuel statements
  exact ⟨ends.outcome, ends.session⟩

/-- The same text on alike sessions. -/
theorem Like.run (h : s.Like lines s') (fuel : Nat) (kept : lines.Keeps (tokensOf (scan source))) :
    (s.run fuel source).1.Like lines (s'.run fuel source).1 ∧
      (s.run fuel source).2.Like lines (s'.run fuel source).2 := by
  by_cases accepted : IsAccepted source s.nextId
  · exact h.runAccepted fuel kept.like accepted (accepted.again s'.nextId)
  · have refused : ¬ IsAccepted source s'.nextId := fun again => accepted (again.again s.nextId)
    rw [run_eq_skip fuel accepted, run_eq_skip fuel refused,
      staticErrors_again source s.nextId s'.nextId]
    exact ⟨.rejected _, h.skip source source⟩

def outcomes (session : Session) : List (Nat × String) → List (Outcome Unit)
  | [] => []
  | (fuel, source) :: rest =>
    (session.run fuel source).1 :: outcomes (session.run fuel source).2 rest

end Session

def tokensOfAll (texts : List (Nat × String)) : List Token :=
  texts.flatMap fun text => tokensOf (scan text.2)

theorem Lines.keeps_append {ts us : List Token} :
    lines.Keeps (ts ++ us) ↔ lines.Keeps ts ∧ lines.Keeps us :=
  List.forall_mem_append

namespace Session

variable {s s' : Session}

theorem Like.runAll (h : s.Like lines s') (texts : List (Nat × String))
    (kept : lines.Keeps (tokensOfAll texts)) :
    List.Forall₂ (Outcome.Like lines) (s.outcomes texts) (s'.outcomes texts) ∧
      (s.runAll texts).Like lines (s'.runAll texts) := by
  induction texts generalizing s s' with
  | nil => exact ⟨.nil, h⟩
  | cons text rest ih =>
    obtain ⟨fuel, source⟩ := text
    obtain ⟨first, others⟩ := Lines.keeps_append.mp kept
    obtain ⟨outcome, behind⟩ := h.run fuel first
    obtain ⟨outcomes, last⟩ := ih behind others
    exact ⟨.cons outcome outcomes, last⟩

theorem Like.initial (clock : Clock) (limit : Option Nat) :
    (initial clock limit).Like lines (initial clock limit) :=
  ⟨Store.Like.initial.define 0 "clock" (.native .clock), rfl, rfl,
    fun _ _ => Std.TreeMap.getElem?_emptyc, fun _ _ => Std.TreeMap.getElem?_emptyc⟩

end Session

end Lox
