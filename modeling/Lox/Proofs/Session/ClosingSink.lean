import Lox.Proofs.Trace.Printing
import Lox.Proofs.Trace.Session
import Mathlib

namespace Lox

/-- The same machine on a sink that closes after so many lines. -/
def Machine.closingAfter (k : Nat) (m : Machine) : Machine :=
  m.printingTo { m.sink with limit := some k }

namespace Run

theorem IsQuiet.closingAfter {α : Type} {x : Run α} (quiet : x.IsQuiet) (k : Nat) (m : Machine) :
    x (m.closingAfter k) = onState (·.closingAfter k) (x m) := by
  have sink := quiet.sink m
  rw [Machine.closingAfter, quiet.anySink]
  cases ends : x m with
  | ok a m' =>
    rw [ends] at sink
    simp only [onState, Machine.closingAfter, show m'.sink = m.sink from sink]
  | error reason m' =>
    rw [ends] at sink
    simp only [onState, Machine.closingAfter, show m'.sink = m.sink from sink]

theorem printLine_of_closed {m : Machine} (closed : m.sink.isClosed = true) (text : String) :
    Run.printLine text m = .error .sinkClosed m := by
  have rejects : m.sink.accepts "\n" = false := by simp [Sink.accepts, closed]
  by_cases empty : text = ""
  · subst empty
    have same : m.sink.append "" = m.sink := by simp [Sink.append]
    simp [Run.printLine, Bind.bind, EStateM.bind, Run.write, Sink.accepts, same, closed]
  · simp [Run.printLine, Bind.bind, EStateM.bind, Run.write, Sink.accepts, empty, closed]

end Run

namespace Traced

open Logging (silent)

variable {α β : Type} {k : Nat}

/-- No printed text goes over several lines. -/
def IsSingle (trace : List Event) : Prop := ∀ print ∈ prints trace, '\n' ∉ print.1.toList

theorem IsSingle.earlier {trace trace' : List Event} (h : IsSingle trace')
    (starts : trace <+: trace') : IsSingle trace :=
  fun print member => h print ((prints_mono starts).subset member)

/-- With at most `k` prints the run ends in the same way. With more it stops at the first one that
is too many, on the machine in front of that print. -/
structure CutEnds (k : Nat) (full : EStateM.Result Stop Observed α)
    (cut : EStateM.Result Stop Machine α) : Prop where
  within : (prints (lastState full).log).length ≤ k →
    cut = onState (fun o => o.machine.closingAfter k) full
  beyond : ∀ h : k < (prints (lastState full).log).length,
    cut = .error .sinkClosed ((prints (lastState full).log)[k].2.closingAfter k)

/-- The action on a sink that accepts everything, and the plain action on one that closes. -/
structure Cuts (k : Nat) (α : Type) (x : Tracing α) (y : Run α) : Prop where
  grows : ∀ o, o.log <+: (lastState (x o)).log
  written : KeepsWritten α x y
  ends : ∀ o, Written o → (prints o.log).length ≤ k → IsSingle (lastState (x o)).log →
    CutEnds k (x o) (y (o.machine.closingAfter k))

theorem CutEnds.of_within {full : EStateM.Result Stop Observed α}
    {cut : EStateM.Result Stop Machine α} (few : (prints (lastState full).log).length ≤ k)
    (same : cut = onState (fun o => o.machine.closingAfter k) full) : CutEnds k full cut :=
  ⟨fun _ => same, fun many => absurd many (Nat.not_lt.mpr few)⟩

theorem cuts_silent {x : Run α} (quiet : x.IsQuiet) : Cuts k α (silent x) x where
  grows o := (Logging.Forgets.silent x o).2
  written := follows_keepsWritten.quiet quiet
  ends o written few single := by
    rw [quiet.closingAfter]
    simp only [silent]
    cases x o.machine <;> exact .of_within few rfl

theorem cuts_bind {x : Tracing α} {y : Run α} {f : α → Tracing β} {g : α → Run β}
    (first : Cuts k α x y) (second : ∀ a, Cuts k β (f a) (g a)) :
    Cuts k β (x >>= f) (y >>= g) where
  grows := by
    intro o
    have start := first.grows o
    simp only [Bind.bind, EStateM.bind]
    cases ends : x o with
    | ok a o' =>
      rw [ends] at start
      exact start.trans ((second a).grows o')
    | error reason o' =>
      rw [ends] at start
      exact start
  written := follows_keepsWritten.bind first.written fun a => (second a).written
  ends o written few single := by
    have start := first.ends o written few
    have written' := first.written o written
    simp only [Bind.bind, EStateM.bind] at single ⊢
    cases ends : x o with
    | error reason o' =>
      rw [ends] at start single
      obtain ⟨within, beyond⟩ := start single
      refine ⟨fun few' => ?_, fun many => ?_⟩
      · rw [within few']
        rfl
      · rw [beyond many]
        rfl
    | ok a o' =>
      rw [ends] at start single written'
      have later := (second a).grows o'
      obtain ⟨within, beyond⟩ := start (single.earlier later)
      by_cases few' : (prints o'.log).length ≤ k
      · rw [within few']
        exact (second a).ends o' written' few' single
      · have many : k < (prints o'.log).length := Nat.lt_of_not_le few'
        have more := prints_mono later
        have many'' := Nat.lt_of_lt_of_le many more.length_le
        refine ⟨fun few'' => absurd many'' (Nat.not_lt.mpr few''), fun many' => ?_⟩
        rw [beyond many]
        simp only
        rw [← more.getElem many]
        rfl

theorem cuts_printLine (text : String) :
    Cuts k Unit (runner.around (.printing text) (runner.step (Run.printLine text)))
      (Run.printLine text) where
  grows o := (follows_forgets.printLine text o).2
  written := follows_keepsWritten.printLine text
  ends o written few single := by
    rw [written.printLine text] at single ⊢
    let texts := (prints o.log).map Prod.fst
    have before : IsSingle o.log := single.earlier (List.prefix_append _ _)
    have newlines : (o.machine.closingAfter k).sink.newlines = texts.length := by
      have counted : (joinLines texts).toList.count '\n' = texts.length := by
        refine count_joinLines fun t member => ?_
        obtain ⟨print, found, rfl⟩ := List.mem_map.mp member
        exact before print found
      rw [← counted, Machine.closingAfter, written.now]
      rfl
    by_cases room : texts.length < k
    · have onOneLine : '\n' ∉ text.toList := by
        refine single (text, o.machine) ?_
        simp [lastState, prints_printed]
      have isOpen : ∀ sink : Sink, sink.limit = some k → sink.newlines = texts.length →
          ∀ text, sink.accepts text = true := by
        intro sink limit newlines text
        simp [Sink.accepts, Sink.isClosed, limit, newlines, room]
      have counted : ((o.machine.closingAfter k).sink.append text).newlines = texts.length := by
        simp [Sink.append, newlines, List.count_eq_zero.mpr onOneLine]
      have line := Run.printLine_of_accepts (isOpen _ rfl newlines text) (isOpen _ rfl counted "\n")
      rw [line]
      refine .of_within ?_ ?_
      · simpa [lastState, prints_printed, texts, Nat.succ_le_iff] using room
      · have sink := Sink.append_holding texts text
        rw [← written.now] at sink
        change _ = EStateM.Result.ok ()
          ((o.machine.printingTo (.holding (texts ++ [text]))).closingAfter k)
        rw [← sink]
        rfl
    · have closed : (o.machine.closingAfter k).sink.isClosed = true := by
        simp only [Sink.isClosed, Machine.closingAfter, Machine.printingTo] at newlines ⊢
        simpa [newlines] using room
      rw [Run.printLine_of_closed closed]
      have last : k = (prints o.log).length := by
        simp only [texts, List.length_map] at room
        omega
      subst last
      refine ⟨fun few' => ?_, fun many => ?_⟩
      · simp only [lastState, prints_printed, List.length_append, List.length_singleton] at few'
        omega
      · simp [lastState, prints_printed]

theorem follows_cuts (k : Nat) : runner.Follows (Cuts k) where
  pure a := cuts_silent (.pure a)
  bind := cuts_bind
  quiet := cuts_silent
  printLine := cuts_printLine
  around {α activity x y} other h := by
    refine ⟨fun o => ?_, follows_keepsWritten.around other h.written, ?_⟩
    · obtain ⟨more, -, same⟩ := around_eq other x o
      change o.log <+: (lastState (around activity x o)).log
      rw [same, lastState_onState]
      exact (h.grows o).trans (List.prefix_append _ _)
    · intro o written few single
      obtain ⟨more, silent, same⟩ := around_eq other x o
      change IsSingle (lastState (around activity x o)).log at single
      change CutEnds k (around activity x o) (y (o.machine.closingAfter k))
      rw [same] at single ⊢
      rw [lastState_onState] at single
      have ends := h.ends o written few (single.earlier (List.prefix_append _ _))
      have unchanged : prints ((lastState (x o)).log ++ more) = prints (lastState (x o)).log := by
        rw [prints_append, silent, List.append_nil]
      refine ⟨fun few' => ?_, fun many => ?_⟩
      · simp only [lastState_onState, unchanged] at few'
        rw [ends.within few']
        cases x o <;> rfl
      · simp only [lastState_onState, unchanged] at many ⊢
        exact ends.beyond many

theorem interpret_cuts (k fuel : Nat) (statements : List Stmt) (locals : Locals) :
    Cuts k Unit (interpret fuel statements locals) (Run.interpret fuel statements locals) where
  grows o := (interpret_forgets fuel statements locals o).2
  written o h := ((follows_cuts k).program fuel statements).written _ ⟨h.now, h.earlier⟩
  ends o h := by
    have h' : Written { o with machine := { o.machine with
        locals := o.machine.locals.merge locals } } := ⟨h.now, h.earlier⟩
    exact ((follows_cuts k).program fuel statements).ends _ h'

theorem Written.fresh (session : Session) : Written ⟨(session.withSink none).machine, []⟩ where
  now := rfl
  earlier i h := absurd h (Nat.not_lt_zero i)

theorem Written.first_lines {o : Observed} (h : Written o) (single : IsSingle o.log) {k : Nat}
    (many : k < (prints o.log).length) :
    (prints o.log)[k].2.sink.written.toList =
      ((splitLines o.machine.sink.written.toList).take k).flatten := by
  have singles : ∀ text ∈ (prints o.log).map Prod.fst, '\n' ∉ text.toList := by
    intro text member
    obtain ⟨print, found, rfl⟩ := List.mem_map.mp member
    exact single print found
  rw [h.earlier k many, h.now]
  simp only [Sink.holding]
  rw [splitLines_joinLines singles, toList_joinLines, List.map_take]

end Traced

open Traced

/-- A sink that closes after `k` lines cuts a run exactly at the print it rejects. With at most `k`
prints the run is the one on an open sink. With more it halts there, whatever is around the print,
on the machine in front of that print and with the first `k` lines as its output. -/
theorem closing_sink_cuts_run (session : Session) (fuel : Nat) (source : String) (k : Nat)
    (single : IsSingle (record fuel source (session.withSink none)).trace) :
    let full := record fuel source (session.withSink none)
    let cut := (session.withSink (some k)).run fuel source
    (full.outcome, full.session) = (session.withSink none).run fuel source ∧
      ((prints full.trace).length ≤ k → cut = (full.outcome,
          { full.session with machine := full.session.machine.closingAfter k })) ∧
        ∀ h : k < (prints full.trace).length,
          cut = (.halted .sinkClosed,
              ⟨full.session.nextId, (prints full.trace)[k].2.closingAfter k⟩) ∧
            cut.1.exitCode = 70 ∧
              cut.2.machine.sink.written.toList =
                ((splitLines full.session.machine.sink.written.toList).take k).flatten := by
  intro full cut
  refine ⟨record_eq fuel source (session.withSink none), ?_⟩
  by_cases accepted : IsAccepted source session.nextId
  · have accepted' : IsAccepted source (session.withSink none).nextId := accepted
    have fullRun := record_of_isAccepted accepted' fuel
    have cutRun : cut = _ := (session.withSink (some k)).run_of_isAccepted fuel accepted
    have cuts := interpret_cuts k fuel (statementsOf source session.nextId)
      (localsOf source session.nextId)
    rw [fullRun] at single
    have start := Written.fresh session
    have ends := cuts.ends _ start (Nat.zero_le k) single
    have written := cuts.written _ start
    have sameId (limit : Option Nat) : (session.withSink limit).nextId = session.nextId := rfl
    rw [cutRun, Session.perform_eq]
    simp only [full, fullRun, sameId]
    refine ⟨fun few => ?_, fun many => ?_⟩
    · have same := ends.within few
      change Run.interpret _ _ _ (session.withSink (some k)).machine = _ at same
      rw [same, Outcome.ofResult_onState, lastState_onState]
    · have same := ends.beyond many
      change Run.interpret _ _ _ (session.withSink (some k)).machine = _ at same
      rw [same]
      exact ⟨rfl, rfl, written.first_lines single many⟩
  · have accepted' : ¬IsAccepted source (session.withSink none).nextId := accepted
    have cutRun : cut = _ := (session.withSink (some k)).run_of_not_isAccepted fuel accepted
    simp only [full, record_of_not_isAccepted accepted', cutRun]
    exact ⟨fun _ => rfl, fun many => absurd many (Nat.not_lt_zero k)⟩

def twoLines : String := "print \"a\"; print \"b\";"

/-- Of two lines the second is rejected. -/
theorem second_line_rejected :
    IsSingle (record 3 twoLines ((Session.initial (.fixed 0) none).withSink none)).trace ∧
      1 < (prints (record 3 twoLines ((Session.initial (.fixed 0) none).withSink none)).trace).length ∧
      (((Session.initial (.fixed 0) none).withSink (some 1)).run 3 twoLines).1 = .halted .sinkClosed ∧
      (((Session.initial (.fixed 0) none).withSink (some 1)).run 3 twoLines).2.machine.sink.written.toList =
        ['a', '\n'] := by
  have texts : (prints (record 3 twoLines ((Session.initial (.fixed 0) none).withSink none)).trace).map
      Prod.fst = ["a", "b"] := by cbv
  have output : (record 3 twoLines
      ((Session.initial (.fixed 0) none).withSink none)).session.machine.sink.written = "a\nb\n" := by cbv
  have single : IsSingle (record 3 twoLines ((Session.initial (.fixed 0) none).withSink none)).trace := by
    intro print member
    have listed := List.mem_map_of_mem (f := Prod.fst) member
    rw [texts] at listed
    rcases List.mem_pair.mp listed with same | same <;> (rw [same]; decide)
  have many : 1 <
      (prints (record 3 twoLines ((Session.initial (.fixed 0) none).withSink none)).trace).length := by
    rw [← List.length_map Prod.fst, texts]
    decide
  have cut := (closing_sink_cuts_run (Session.initial (.fixed 0) none) 3 twoLines 1 single).2.2 many
  refine ⟨single, many, congrArg Prod.fst cut.1, ?_⟩
  rw [cut.2.2, output]
  decide

end Lox
