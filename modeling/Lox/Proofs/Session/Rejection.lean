import Lox.Proofs.Session.Concatenation
import Lox.Proofs.Session.Steps

namespace Lox

variable {α β : Type}

/-- The elements of a list but those at the omitted places. -/
def keeping (omitted : Nat → Bool) : List α → List α
  | [] => []
  | a :: rest =>
    let others := keeping (fun place => omitted (place + 1)) rest
    if omitted 0 then others else a :: others

def Outcome.map (f : α → β) : Outcome α → Outcome β
  | finished result => finished (f result)
  | rejected errors => rejected errors
  | halted error => halted error
  | unfinished => unfinished

namespace Session

/-- What is seen of a step: the text it prints, and how it ends, with a value as it is displayed. -/
structure Report where
  printed : List Char
  outcome : Outcome (Option String)

def Report.IsRejected (report : Report) : Prop := ∃ errors, report.outcome = .rejected errors

def outcomeOf (session : Session) : Step → Outcome (Option String)
  | .run fuel source => (session.run fuel source).1.map fun _ => none
  | .evaluate fuel source => (session.evaluate fuel source).1.map fun value => some value.display

def report (session : Session) (step : Step) : Report where
  printed := (session.take step).machine.sink.written.toList.drop
    session.machine.sink.written.toList.length
  outcome := session.outcomeOf step

def reports (session : Session) : List Step → List Report
  | [] => []
  | step :: rest => session.report step :: reports (session.take step) rest

variable {s s' : Session}

theorem run_of_rejected {fuel : Nat} {source : String} {errors : List Diagnostic}
    (rejected : (s.run fuel source).1 = .rejected errors) :
    (s.run fuel source).2 = s.skip source := by
  by_cases accepted : IsAccepted source s.nextId
  · rw [run_eq_proceed fuel accepted, proceed, perform_eq] at rejected
    generalize Run.program fuel _ _ = result at rejected
    cases result with
    | ok _ _ => cases rejected
    | error reason _ => cases reason <;> cases rejected
  · rw [run_eq_skip fuel accepted]

theorem evaluate_of_rejected {fuel : Nat} {source : String} {errors : List Diagnostic}
    (rejected : (s.evaluate fuel source).1 = .rejected errors) :
    ∃ nextId, s.nextId ≤ nextId ∧ (s.evaluate fuel source).2 = { s with nextId := nextId } := by
  have later := (parseExpression_fresh (tokensOf (scan source)) s.nextId).1
  simp only [Session.evaluate_eq] at rejected ⊢
  split at rejected
  · split at rejected
    · rw [perform_eq] at rejected
      generalize Run.evaluate fuel _ _ _ = result at rejected
      cases result with
      | ok _ _ => cases rejected
      | error reason _ => cases reason <;> cases rejected
    · exact ⟨_, later, rfl⟩
  · exact ⟨s.nextId, Nat.le_refl _, rfl⟩

theorem take_of_rejected {step : Step} (rejected : (s.report step).IsRejected) :
    ∃ nextId, s.nextId ≤ nextId ∧ s.take step = { s with nextId := nextId } := by
  obtain ⟨errors, rejected⟩ := rejected
  cases step with
  | run fuel source =>
    have rejected : (s.run fuel source).1.map (fun _ => none) = .rejected errors := rejected
    cases ends : (s.run fuel source).1 with
    | rejected _ => exact ⟨_, ordered source s, run_of_rejected ends⟩
    | _ =>
      rw [ends] at rejected
      cases rejected
  | evaluate fuel source =>
    have rejected : (s.evaluate fuel source).1.map (fun v => some v.display) =
      .rejected errors := rejected
    cases ends : (s.evaluate fuel source).1 with
    | rejected _ => exact evaluate_of_rejected ends
    | _ =>
      rw [ends] at rejected
      cases rejected

theorem agrees_global {e : Expr} (known : ∀ id ∈ e.ids, id < s.nextId ∧ s.machine.locals[id]? = none) :
    Agrees s.onRecord (sitesOf [] e.occurrences) := by
  intro site member
  obtain ⟨occurrence, member', rfl⟩ := List.mem_map.mp member
  exact known _ (List.mem_map_of_mem member')

theorem Like.evaluate (h : s.Like .still s') (fuel : Nat) (source : String) :
    (s'.evaluate fuel source).1.map (fun v => some v.display) =
        (s.evaluate fuel source).1.map (fun v => some v.display) ∧
      (s.evaluate fuel source).2.Like .still (s'.evaluate fuel source).2 := by
  obtain ⟨later, ids⟩ := parseExpression_fresh (tokensOf (scan source)) s.nextId
  obtain ⟨later', ids'⟩ := parseExpression_fresh (tokensOf (scan source)) s'.nextId
  have known := h.renumber later later'
  have read := parseExpression_like (forall₂_token_refl (tokensOf (scan source)))
    (tokensOf_scan_ne_nil source) s.nextId s'.nextId
  simp only [Session.evaluate_eq]
  cases lexErrorsOf (scan source) with
  | cons error errors => exact ⟨rfl, h⟩
  | nil =>
    dsimp only
    generalize parseExpression (tokensOf (scan source)) s.nextId = parsed at *
    generalize parseExpression (tokensOf (scan source)) s'.nextId = parsed' at *
    obtain ⟨result, nextId⟩ := parsed
    obtain ⟨result', nextId'⟩ := parsed'
    dsimp only at *
    cases read with
    | error errors =>
      rw [eq_of_forall₂ errors fun _ _ like => ParseError.Like.eq like]
      exact ⟨rfl, known⟩
    | @ok e e' like =>
      -- The new ids have nothing on record, on either side.
      have like' := like.number (covers_between .still { s with nextId := nextId }
          { s' with nextId := nextId' })
        (agrees_global fun id member =>
          ⟨((ids e rfl).range id member).2, h.fresh id ((ids e rfl).range id member).1⟩)
        (agrees_global fun id member =>
          ⟨((ids' e' rfl).range id member).2, h.fresh' id ((ids' e' rfl).range id member).1⟩)
      have ends := (Run.alike _ _ _ fuel).1 globals like' _ _ known.machine
      simp only [perform_eq]
      generalize Run.evaluate fuel e globals s.machine = ended at ends
      generalize Run.evaluate fuel e' globals s'.machine = ended' at ends
      cases ends with
      | ok value machine =>
        refine ⟨?_, known.lead machine⟩
        simp only [Outcome.ofResult, Outcome.map, value.display]
      | error reason machine =>
        refine ⟨?_, known.lead machine⟩
        cases reason with
        | error cause token =>
          obtain rfl := token.eq
          rfl
        | _ => rfl

theorem Like.take (h : s.Like .still s') (step : Step) :
    s'.outcomeOf step = s.outcomeOf step ∧ (s.take step).Like .still (s'.take step) := by
  cases step with
  | run fuel source =>
    obtain ⟨outcome, behind⟩ := h.run fuel (Lines.keeps_still (tokensOf (scan source)))
    exact ⟨congrArg (Outcome.map fun _ => none) outcome.eq.symm, behind⟩
  | evaluate fuel source => exact h.evaluate fuel source

theorem Like.report (h : s.Like .still s') (step : Step) :
    s'.report step = s.report step := by
  obtain ⟨outcome, behind⟩ := h.take step
  simp only [Session.report, outcome, h.sink, behind.sink]

/-- Alike sessions go on to be alike, also if one leaves out what the other one rejects. -/
theorem Like.omit (h : s.Like .still s') (steps : List Step) (omitted : Nat → Bool)
    (rejected : ∀ place report, omitted place = true → (s.reports steps)[place]? = some report →
      report.IsRejected) :
    s'.reports (keeping omitted steps) = keeping omitted (s.reports steps) ∧
      (s.after steps).Like .still (s'.after (keeping omitted steps)) := by
  induction steps generalizing s s' omitted with
  | nil => exact ⟨rfl, h⟩
  | cons step rest ih =>
    have rejected' : ∀ place report, omitted (place + 1) = true →
        ((s.take step).reports rest)[place]? = some report → report.IsRejected :=
      fun place report left found => rejected (place + 1) report left found
    simp only [keeping, reports]
    by_cases left : omitted 0 = true
    · obtain ⟨nextId, later, same⟩ := take_of_rejected (rejected 0 _ left rfl)
      have behind : (s.take step).Like .still s' := by
        rw [same]
        exact h.renumber later (Nat.le_refl _)
      rw [if_pos left, if_pos left]
      exact ih behind _ rejected'
    · obtain ⟨reports, last⟩ := ih (h.take step).2 _ rejected'
      rw [if_neg left, if_neg left, Session.reports, h.report, reports]
      exact ⟨rfl, last⟩

/-- A rejected step never happened. Whatever programs and expressions a session is given, if some of
those with a static error are left out, all others print the same and end in the same way, with the
same errors on the same lines and with values that are displayed alike. -/
theorem rejected_steps_leave_no_trace (clock : Clock) (limit : Option Nat) (steps : List Step)
    (omitted : Nat → Bool)
    (rejected : ∀ place report, omitted place = true →
      ((Session.initial clock limit).reports steps)[place]? = some report → report.IsRejected) :
    (Session.initial clock limit).reports (keeping omitted steps) =
        keeping omitted ((Session.initial clock limit).reports steps) ∧
      ((Session.initial clock limit).after (keeping omitted steps)).machine.sink =
        ((Session.initial clock limit).after steps).machine.sink := by
  obtain ⟨reports, last⟩ := (Like.initial clock limit).omit steps omitted rejected
  exact ⟨reports, last.sink⟩

def partlyRejected : List Step :=
  [.run 6 "fun f() \x7b var a = \"x\"; return a; \x7d", .run 6 "\x7b var a = a; f = b; \x7d",
    .run 6 "print f(", .run 6 "\x7b var b = f(); print b; \x7d", .evaluate 6 "f() + c",
    .evaluate 6 "f"]

theorem outcomes_partlyRejected :
    ((Session.initial (.fixed 0) none).reports partlyRejected).map Report.outcome =
      [.finished none, .rejected [.resolve ⟨.ownInitializer, ⟨.identifier, "a", 1⟩⟩],
        .rejected [.parse ⟨.expression, ⟨.endOfInput, "", 1⟩⟩], .finished none,
        .halted (.runtime ⟨.undefinedGlobal "c", ⟨.identifier, "c", 1⟩⟩),
        .finished (some "<fn f>")] := by
  cbv

theorem rejected_texts_left_out :
    (∀ place report, (place == 1 || place == 2) = true →
      ((Session.initial (.fixed 0) none).reports partlyRejected)[place]? = some report →
        report.IsRejected) ∧
      (Session.initial (.fixed 0) none).reports
          (keeping (fun place => place == 1 || place == 2) partlyRejected) =
        keeping (fun place => place == 1 || place == 2)
          ((Session.initial (.fixed 0) none).reports partlyRejected) ∧
      ((Session.initial (.fixed 0) none).after
        (keeping (fun place => place == 1 || place == 2) partlyRejected)).machine.sink.written =
          "x\n" := by
  have rejected : ∀ place report, (place == 1 || place == 2) = true →
      ((Session.initial (.fixed 0) none).reports partlyRejected)[place]? = some report →
        report.IsRejected := by
    intro place report left found
    have ended := congrArg (·[place]?) outcomes_partlyRejected
    simp only [List.getElem?_map, found] at ended
    simp only [Bool.or_eq_true, beq_iff_eq] at left
    rcases left with rfl | rfl <;> exact ⟨_, Option.some.inj ended⟩
  exact ⟨rejected, (rejected_steps_leave_no_trace (.fixed 0) none partlyRejected _ rejected).1, by cbv⟩

end Session

end Lox
