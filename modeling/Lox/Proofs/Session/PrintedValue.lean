import Lox.Proofs.Resolution.TopLevel
import Lox.Proofs.Session.Concatenation
import Lox.Proofs.Session.Steps
import Lox.Proofs.Trace.Printing

namespace Lox

/-- The program that prints an expression. The newline ends a comment behind the expression. -/
def printing (expression : String) : String := "print " ++ expression ++ "\n;"

def printWord : Token := ⟨.symbol .printWord, "print", 1⟩

def semicolonOn (line : Nat) : Token := ⟨.symbol .semicolon, ";", line⟩

section Tokens

open Lox.Scan

theorem scan_print (source : String) :
    scan ("print " ++ source) = .ok printWord :: scan source := by
  have word (rest : List Char) : step 1 'p' ('r' :: 'i' :: 'n' :: 't' :: ' ' :: rest) =
      ⟨some (.ok printWord), 1, ' ' :: rest⟩ := rfl
  have units : ("print " ++ source).toList =
      'p' :: 'r' :: 'i' :: 'n' :: 't' :: ' ' :: source.toList := by
    simp
  rw [scan, units, items, word]
  dsimp only
  rw [items]
  rfl

theorem scan_semicolon :
    scan ";" = [.ok (semicolonOn 1), .ok ⟨.endOfInput, "", 1⟩] := by
  have mark : step 1 ';' ([] : List Char) = ⟨some (.ok (semicolonOn 1)), 1, []⟩ := rfl
  have units : ";".toList = [';'] := rfl
  rw [scan, units, items, mark]
  dsimp only
  rw [items]
  rfl

theorem scan_printing {expression : String} (clean : lexErrorsOf (scan expression) = []) :
    lexErrorsOf (scan (printing expression)) = [] ∧
      ∃ line, beforeEnd (tokensOf (scan (printing expression))) =
        printWord :: beforeEnd (tokensOf (scan expression)) ++ [semicolonOn line] := by
  have text : printing expression = "print " ++ expression ++ "\n" ++ ";" := by
    simp [printing, String.append_assoc]
  have front : lexErrorsOf (scan ("print " ++ expression)) = [] := by
    rwa [scan_print]
  obtain ⟨errors, tokens⟩ := scan_joint ";" front
  rw [scan_movedDown, scan_semicolon] at errors tokens
  rw [text]
  refine ⟨errors, 1 + (newlinesOf ("print " ++ expression) + 1), ?_⟩
  rw [tokens, scan_print]
  rfl

end Tokens

section Statement

variable {expression : String} {e : Expr} (clean : lexErrorsOf (scan expression) = [])
  (spells : SpellsExpr .assignment e (beforeEnd (tokensOf (scan expression))))
include clean spells

theorem spells_printing :
    Spells (.declarations [.print e]) (beforeEnd (tokensOf (scan (printing expression)))) := by
  obtain ⟨-, line, tokens⟩ := scan_printing clean
  have written : Spelled (Stmt.print e).marks
      (printWord :: beforeEnd (tokensOf (scan expression)) ++ [semicolonOn line]) :=
    .cons rfl (spells.spelled.append (.symbol rfl))
  have whole := Spells.more (.statement (.print spells.wellFormed written)) .none
  rwa [List.append_nil, ← tokens] at whole

theorem statementsOf_printing (firstId : Nat) :
    ∃ e', statementsOf (printing expression) firstId = [.print e'] ∧ e.Like .anyIds e' := by
  have same : Stmt.AllLike .anyIds [.print e] (statementsOf (printing expression) firstId) :=
    (parse_of_spells (spells_printing clean spells)).2.allLike
  generalize statementsOf (printing expression) firstId = statements at same
  cases same with
  | cons first others =>
    cases first with
    | print inside =>
      cases others
      exact ⟨_, rfl, inside⟩

variable (free : ∀ t ∈ tokensOf (scan expression), ¬ t.IsReceiver)
include free

omit clean in
theorem resolve_printing : resolve [.print e] = .empty := by
  have free' : AreReceiverFree e.marks := .of_spelled spells.spelled fun t member =>
    free t ((List.takeWhile_sublist _).subset member)
  exact Expr.resolve_of_no_scopes rfl e spells.wellFormed free'

theorem isAccepted_printing (firstId : Nat) : IsAccepted (printing expression) firstId := by
  obtain ⟨parsed, same⟩ := parse_of_spells (spells_printing clean spells)
  have errors := same.allLike.resolveErrors
  rw [resolve_printing spells free] at errors
  exact ⟨(scan_printing clean).1, parsed, List.forall₂_nil_left_iff.mp errors⟩

end Statement

theorem localsOf_print {source : String} {firstId : Nat} {e : Expr}
    (accepted : IsAccepted source firstId) (shape : statementsOf source firstId = [.print e]) :
    localsOf source firstId = ∅ := by
  have sites : textSites source firstId = sitesOf [] e.occurrences := by
    rw [textSites, shape]
    exact List.append_nil _
  have none : Locals.entriesOf (sitesOf [] e.occurrences) = [] := by
    simp [Locals.entriesOf, sitesOf, List.filterMap_map, Scopes.distance?]
  rw [accepted.resolve.1, sites, Locals.record, none]
  rfl

theorem ids_print {source : String} {firstId : Nat} {e : Expr}
    (shape : statementsOf source firstId = [.print e]) : ∀ id ∈ e.ids, firstId ≤ id := by
  have ids : (textSites source firstId).map Site.id = e.ids := by
    rw [textSites_ids, shape]
    exact congrArg idsOf (List.append_nil _)
  intro id member
  rw [← ids] at member
  exact ((textSites_fresh source firstId).range id member).1

namespace Run

theorem interpret_print (fuel : Nat) (e : Expr) :
    interpret (fuel + 1) [.print e] ∅ =
      (do let v ← evaluate fuel e globals; printLine v.display) := by
  have unchanged : learn ∅ = pure () := rfl
  rw [interpret_eq, unchanged, pure_bind, program_cons, execute_succ]
  simp only [Dialect.executeStep, plain_step, plain_around, bind_assoc, pure_bind]
  exact congrArg _ (funext fun v => bind_pure_unit)

theorem printLine_of_unlimited {m : Machine} (unlimited : m.sink.limit = none) (text : String) :
    printLine text m = .ok () (m.printingTo (m.sink.append (text ++ "\n"))) := by
  have both : (m.sink.append text).append "\n" = m.sink.append (text ++ "\n") := by
    simp [Sink.append, String.append_assoc, Nat.add_assoc]
  have unlimited' : (m.sink.append text).limit = none := unlimited
  rw [← both]
  exact printLine_of_accepts (Sink.accepts_of_unlimited unlimited text)
    (Sink.accepts_of_unlimited unlimited' "\n")

end Run

/-- What printing an expression comes to, next to what evaluating it comes to: the same error, or
the line of the value, and the same machine otherwise. -/
structure PrintsValue (evaluated : Outcome Value × Session) (ran : Outcome Unit × Session) :
    Prop where
  succeeds : ran.1 = .finished () ↔ ∃ v, evaluated.1 = .finished v
  prints : ∀ v, evaluated.1 = .finished v → ran.2.machine = evaluated.2.machine.printingTo
    (evaluated.2.machine.sink.append (v.display ++ "\n"))
  fails : ∀ error, ran.1 = .halted error ↔ evaluated.1 = .halted error
  goesOn : ran.1 = .unfinished ↔ evaluated.1 = .unfinished
  unchanged : (∀ v, evaluated.1 ≠ .finished v) → ran.2.machine = evaluated.2.machine

namespace PrintsValue

variable {nextId nextId' : Nat} {m : Machine}

theorem of_value (v : Value) :
    PrintsValue (.finished v, ⟨nextId, m⟩)
      (.finished (), ⟨nextId', m.printingTo (m.sink.append (v.display ++ "\n"))⟩) where
  succeeds := by simp
  prints := by
    rintro _ ⟨⟩
    rfl
  fails := by simp
  goesOn := by simp
  unchanged none := absurd rfl (none v)

theorem of_stop (reason : Stop) :
    PrintsValue (.ofStop reason, ⟨nextId, m⟩) (.ofStop reason, ⟨nextId', m⟩) where
  succeeds := by cases reason <;> simp [Outcome.ofStop]
  prints v found := by cases reason <;> cases found
  fails := by cases reason <;> simp [Outcome.ofStop]
  goesOn := by cases reason <;> simp [Outcome.ofStop]
  unchanged _ := rfl

theorem of_perform {s : Session} {x : Run Value} (steady : x.IsSteady)
    (unlimited : s.machine.sink.limit = none) :
    PrintsValue (s.perform nextId x)
      (s.perform nextId' (do let v ← x; Run.printLine v.display)) := by
  have limit := (steady.limit s.machine).trans unlimited
  rw [Session.perform_eq, Session.perform_eq]
  simp only [bind, EStateM.bind]
  cases ends : x s.machine with
  | ok v m =>
    rw [ends] at limit
    have limit : m.sink.limit = none := limit
    dsimp only
    rw [Run.printLine_of_unlimited limit v.display]
    exact of_value v
  | error reason m => exact of_stop reason

end PrintsValue

theorem Session.evaluate_of_parsed {session : Session} {expression : String} {e : Expr}
    (clean : lexErrorsOf (scan expression) = [])
    (parsed : (parseExpression (tokensOf (scan expression)) session.nextId).result = .ok e)
    (fuel : Nat) :
    session.evaluate fuel expression =
      session.perform (parseExpression (tokensOf (scan expression)) session.nextId).nextId
        (Run.evaluate fuel e globals) := by
  simp only [Session.evaluate_eq, clean, parsed]

/-- Printing an expression does what evaluating it does, in every session. The program nests one
level deeper than the expression, so it takes one more unit of fuel and does not end without. -/
theorem printing_agrees_with_evaluating {session : Session} (reachable : session.IsReachable)
    {expression : String} {e : Expr} (clean : lexErrorsOf (scan expression) = [])
    (free : ∀ t ∈ tokensOf (scan expression), ¬ t.IsReceiver)
    (parsed : (parseExpression (tokensOf (scan expression)) session.nextId).result = .ok e) :
    (session.run 0 (printing expression)).1 = .unfinished ∧
      ∀ fuel, PrintsValue (session.evaluate fuel expression)
        (session.run (fuel + 1) (printing expression)) := by
  have isOpen := reachable.isOpen
  have spells := spells_of_parseExpression parsed
  have accepted := isAccepted_printing clean spells free session.nextId
  obtain ⟨e', shape, like⟩ := statementsOf_printing clean spells session.nextId
  have ran (fuel : Nat) : session.run fuel (printing expression) =
      session.perform (nextIdOf (printing expression) session.nextId)
        (Run.interpret fuel [.print e'] ∅) := by
    rw [Session.run_of_isAccepted fuel accepted, localsOf_print accepted shape, shape]
  refine ⟨by rw [ran]; rfl, fun fuel => ?_⟩
  -- Neither tree has ids that were given out before.
  have ids := (parseExpression_fresh (tokensOf (scan expression)) session.nextId).2 e parsed
  have same := like.sameEntry (fun id member => isOpen.fresh id (ids.range id member).1)
    fun id member => isOpen.fresh id (ids_print shape id member)
  have equal := (Run.evaluate_equalUnder fuel same globals).bind fun v =>
    .refl (Run.IsSteady.printLine v.display)
  rw [Session.evaluate_of_parsed clean parsed, ran, Run.interpret_print]
  have behaves : session.perform (nextIdOf (printing expression) session.nextId)
        (do let v ← Run.evaluate fuel e' globals; Run.printLine v.display) =
      session.perform (nextIdOf (printing expression) session.nextId)
        (do let v ← Run.evaluate fuel e globals; Run.printLine v.display) := by
    rw [Session.perform_eq, Session.perform_eq, equal.equal session.machine rfl]
  rw [behaves]
  exact .of_perform (Run.isSteady_evaluate fuel e globals) isOpen.limit

def greeting : List Session.Step := [.run 3 "var a = \"x\"; a = a;", .evaluate 2 "a"]

theorem sum_printed_as_evaluated :
    PrintsValue (((Session.initial (.fixed 0) none).after greeting).evaluate 3 "a + a // twice")
        (((Session.initial (.fixed 0) none).after greeting).run 4 (printing "a + a // twice")) ∧
      (((Session.initial (.fixed 0) none).after greeting).run 4
        (printing "a + a // twice")).2.machine.sink.written = "xx\n" := by
  have scanned : tokensOf (scan "a + a // twice") =
      [⟨.identifier, "a", 1⟩, ⟨.symbol .plus, "+", 1⟩, ⟨.identifier, "a", 1⟩,
        ⟨.endOfInput, "", 1⟩] := by
    cbv
  have firstId : ((Session.initial (.fixed 0) none).after greeting).nextId = 4 := by cbv
  have free : ∀ t ∈ tokensOf (scan "a + a // twice"), ¬ t.IsReceiver := by
    rw [scanned]
    simp [Token.IsReceiver]
  have parsed : (parseExpression (tokensOf (scan "a + a // twice"))
      ((Session.initial (.fixed 0) none).after greeting).nextId).result =
        .ok (.binary (.var 4 ⟨.identifier, "a", 1⟩) ⟨.symbol .plus, "+", 1⟩
          (.var 5 ⟨.identifier, "a", 1⟩)) := by
    rw [scanned, firstId]
    rfl
  exact ⟨(printing_agrees_with_evaluating ⟨.fixed 0, greeting, rfl⟩ (by cbv) free parsed).2 3, by cbv⟩

end Lox
