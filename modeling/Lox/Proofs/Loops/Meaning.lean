import Mathlib
import Lox.Proofs.Loops.Closed
import Lox.Proofs.Loops.Resolved
import Lox.Proofs.Parser.StatementIds
import Lox.Proofs.Parser.StatementSound

namespace Lox

/-- The tokens are the header and the body of the loop. -/
def ForLoop.WrittenAs (loop : ForLoop) (read : List Token) : Prop :=
  ∃ header inside isOpen, read = header ++ inside ∧
    Spelled (forHeader loop.initializer loop.condition loop.increment) header ∧
      Spells (.statement isOpen loop.body) inside

theorem Spells.forLoop_of_begins {isOpen : Bool} {s : Stmt} {read : List Token}
    (h : Spells (.statement isOpen s) read)
    (begins : read.head?.map Token.kind = some (.symbol .forWord)) :
    ∃ loop : ForLoop, loop.WrittenAs read ∧ s = loop.tree := by
  have word {t : Token} {us : List Token} {symbol : Symbol} (isWord : t.kind = .symbol symbol)
      (same : read = t :: us) : symbol = .forWord := by
    rw [same, List.head?_cons, Option.map_some, isWord] at begins
    exact Kind.symbol.inj (Option.some.inj begins)
  cases h with
  | expression wellFormed spelled =>
    obtain ⟨us, vs, rfl, first, -⟩ := Spelled.append_iff.mp spelled
    obtain ⟨t, ws, rfl, starts, -⟩ := startsAt_level _ wellFormed first
    rw [List.cons_append, List.head?_cons, Option.map_some] at begins
    rw [Option.some.inj begins] at starts
    cases starts
  | print _ spelled =>
    obtain ⟨t, us, isWord, -, same⟩ := Spelled.cons_iff.mp spelled
    cases word isWord same
  | ret wellFormed spelled =>
    obtain ⟨t, us, rfl, -, same⟩ := Spelled.cons_iff.mp spelled
    cases word wellFormed.1 same
  | block opens _ _ => cases word opens rfl
  | branch _ header _ | branchElse _ header _ _ _ | loop _ header _ =>
    obtain ⟨t, us, isWord, -, rfl⟩ := Spelled.cons_iff.mp header
    cases word isWord rfl
  | @forLoop initializer condition increment body _ us ts initializes tests steps header inside =>
    obtain ⟨wellFormed, isStatement, -⟩ := inside.wellFormed
    exact ⟨⟨initializer, condition, increment, body, initializes, tests, steps, isStatement,
      wellFormed⟩, ⟨us, ts, _, rfl, header, inside⟩, rfl⟩

/-- What the parser accepts as a loop with a header is the tree of the loop that was written, with
ids that are all different. -/
theorem ForLoop.of_statementAt {fuel : List Token} {start finish : Parser.State} {tree : Stmt}
    (proper : ∀ t ∈ start.rest, t.IsProper)
    (begins : start.rest.head?.map Token.kind = some (.symbol .forWord))
    (reads : Parser.statementAt fuel start = .ok tree finish)
    (accepted : finish.errors = start.errors) :
    ∃ (loop : ForLoop) (read : List Token), start.rest = read ++ finish.rest ∧
      loop.WrittenAs read ∧ tree = loop.tree ∧ AreProper tree.marks ∧ tree.ids.Nodup := by
  have sound := (Parser.sound_levels fuel).1 start
  have numbered := (Parser.adds_levels fuel).1 [] 0 start ⟨Nat.zero_le _, by simp, nofun⟩
  rw [reads] at sound numbered
  obtain ⟨new, errors, holds⟩ := sound
  have none : new = [] := List.append_right_eq_self.mp (errors.symm.trans accepted)
  obtain ⟨read, rest, isOpen, spells, -⟩ := holds none
  obtain ⟨t, us, rfl, -⟩ := spells.statement_starts
  rw [rest] at begins proper
  obtain ⟨loop, written, same⟩ := spells.forLoop_of_begins begins
  refine ⟨loop, t :: us, rest, written, same, ?_, List.nodup_iff_count_le_one.mpr ?_⟩
  · exact spells.areProper fun t member => proper t (List.mem_append_left _ member)
  · exact numbered.2.distinct

namespace ForLoop

/-- What is on record for a loop and a copy of it: in the machine that runs the tree the distances
that static resolution found, in the other those of the places in the loop as it is written, and
in both the same ones for all functions that there are. The copy may be the loop itself as long as
it is in none of these functions, and has ids of its own if it is. -/
structure OnRecord (loop copy : ForLoop) (Γ : Scopes) (resolution : Resolution) (m : Machine)
    (locals : Locals) : Prop where
  resolved : ∀ id ∈ loop.tree.ids, m.locals[id]? = resolution.locals[id]?
  lexical : Agrees locals.records (copy.sites Γ)
  kept : ∀ closure, m.store.HasClosure closure →
    Distances.Agree ⟨m.locals, locals⟩ (Stmt.functionOccurrences closure.declaration)

/-- The tree and the loop as it is written do the same from two machines that hold the same. The
values are the same, but for scopes that only the tree makes, in all scopes and objects that were
there before, and so are what was printed and how the runs end. -/
structure RunsAsWritten (loop copy : ForLoop) (Γ : Scopes) (env : Env) (m m' : Machine) : Prop where
  condition : ∀ occurrence ∈ Expr.optionOccurrences loop.condition,
    m.locals[occurrence.1]? = (loop.headerScopes Γ).distance? occurrence.2.lexeme
  /-- The increment has the scope of a round around it, in which nothing is ever declared. -/
  increment : ∀ occurrence ∈ Expr.optionOccurrences loop.increment,
    m.locals[occurrence.1]? =
      ((loop.headerScopes Γ).distance? occurrence.2.lexeme).map (· + 1)
  /-- However far the tree is run, the loop as it is written gets as far in the same way. -/
  steps : ∀ fuel, ∃ fuels : Fuels, (Fuels.all fuel).Le fuels ∧ fuels.Le (.all (fuel + 5)) ∧
    Run.EndMoved ⟨m.locals, m'.locals⟩ m.store.existing (Flow.Moved ⟨m.locals, m'.locals⟩)
      (Run.execute (fuel + 5) loop.tree env m) (copy.runWith fuels env m')
  ends : Run.ComeToMoved ⟨m.locals, m'.locals⟩ m.store.existing
    (Flow.Moved ⟨m.locals, m'.locals⟩) (fun fuel => Run.execute fuel loop.tree env)
    (fun fuel => copy.run fuel env) m m'

end ForLoop

/-- What the parser makes of a loop with a header does what the loop says. Whatever the parser
accepts that begins with `for` is the tree of the loop that was written. Wherever static resolution
accepts such a tree, running it with the distances found there does the same as the loop itself,
from any machine whose functions are closed over scopes that exist: a scope for what the header
declares, if it declares something, the test before each round, the body, and behind each body that
ended normally the increment. The names in the test and in the increment are looked up from the
scope of the header, never from inside the body. In a session all machines are of this sort. -/
theorem for_loops_run_as_written :
    (∀ fuel start finish tree, (∀ t ∈ start.rest, t.IsProper) →
      start.rest.head?.map Token.kind = some (.symbol .forWord) →
      Parser.statementAt fuel start = .ok tree finish → finish.errors = start.errors →
      ∃ (loop : ForLoop) (read : List Token), start.rest = read ++ finish.rest ∧
        loop.WrittenAs read ∧ tree = loop.tree ∧ AreProper tree.marks ∧ tree.ids.Nodup) ∧
    (∀ (loop : ForLoop) enclosing kind Γ r, loop.IsResolved enclosing kind Γ r →
      ∀ copy, loop.IsCopy copy → ∀ m locals,
        loop.OnRecord copy Γ (loop.tree.resolve enclosing kind r) m locals →
        m.store.IsClosed → ∀ env, m.store.HasEnv env →
          loop.RunsAsWritten copy Γ env m { m with locals := locals }) ∧
    ∀ clock limit steps, ((Session.initial clock limit).after steps).machine.store.IsClosed := by
  refine ⟨fun fuel start finish tree => ForLoop.of_statementAt, ?_, fun clock limit steps =>
    Session.isClosed_after (Machine.isClosed_initial clock limit) steps⟩
  intro loop enclosing kind Γ r resolved copy same m locals known closed env place
  let L : Distances := ⟨m.locals, locals⟩
  have inPlace := resolved.inPlace known.resolved
  have parts : ForLoop.PartCopies L Eq loop copy := same.parts inPlace known.lexical
  have machine : m.Moved L m.store.existing { m with locals := locals } :=
    ⟨⟨rfl, rfl⟩, closed.moved known.kept, rfl, rfl⟩
  refine ⟨fun occurrence member => ?_, fun occurrence member => ?_, fun fuel => ?_,
    ForLoop.tree_comesTo parts place.moved machine⟩
  · exact inPlace.condition.1 _ (List.mem_map_of_mem member)
  · have found := inPlace.increment.1 _ (List.mem_map_of_mem member)
    have outside := Scopes.distance?_cons [] (loop.headerScopes Γ) occurrence.2.lexeme
    rw [if_neg List.not_mem_nil] at outside
    exact outside ▸ found
  · obtain ⟨fuels, above, below, moved⟩ := ForLoop.tree_moved parts place.moved fuel
    exact ⟨fuels, above, below, moved m _ machine⟩

def onceTokens : List Token :=
  [⟨.symbol .forWord, "for", 1⟩, ⟨.symbol .leftParen, "(", 1⟩, ⟨.symbol .varWord, "var", 1⟩,
    ⟨.identifier, "i", 1⟩, ⟨.symbol .equal, "=", 1⟩, ⟨.symbol .trueWord, "true", 1⟩,
    ⟨.symbol .semicolon, ";", 1⟩, ⟨.identifier, "i", 1⟩, ⟨.symbol .semicolon, ";", 1⟩,
    ⟨.identifier, "i", 1⟩, ⟨.symbol .equal, "=", 1⟩, ⟨.symbol .falseWord, "false", 1⟩,
    ⟨.symbol .rightParen, ")", 1⟩, ⟨.symbol .printWord, "print", 1⟩, ⟨.identifier, "i", 1⟩,
    ⟨.symbol .semicolon, ";", 1⟩]

def onceLoop (firstId : Nat) : ForLoop where
  initializer := some (.var ⟨.identifier, "i", 1⟩ (some (.literal (.bool true))))
  condition := some (.var firstId ⟨.identifier, "i", 1⟩)
  increment := some (.assign (firstId + 2) ⟨.identifier, "i", 1⟩ (.literal (.bool false)))
  body := .print (.var (firstId + 3) ⟨.identifier, "i", 1⟩)
  initializes := by
    rintro _ ⟨⟩
    exact ⟨trivial, rfl, fun _ found => by cases found; trivial⟩
  tests := by
    rintro _ ⟨⟩
    rfl
  steps := by
    rintro _ ⟨⟩
    exact ⟨rfl, trivial⟩
  isStatement := rfl
  inside := rfl

def onceStart : Parser.State := ⟨onceTokens, ⟨.endOfInput, "", 1⟩, 0, []⟩

def onceFinish : Parser.State := ⟨[], ⟨.endOfInput, "", 1⟩, 4, []⟩

def onceResolved : Resolution := (onceLoop 0).tree.resolve .none .none .empty

def onceMachine : Machine := { Machine.initial (.fixed 0) none with locals := onceResolved.locals }

def onceLocals : Locals := .record ∅ ((onceLoop 4).sites [])

theorem onceTokens_proper : ∀ t ∈ onceTokens, t.IsProper := by
  have each : ∀ t ∈ onceTokens, Scan.matters t.kind = false ∨ t = ⟨.identifier, "i", 1⟩ := by
    decide
  intro t member
  rcases each t member with plain | rfl
  · exact Scan.isProper_of_not_matters plain
  · exact ⟨fun _ => ⟨by decide, by decide⟩, nofun, nofun⟩

theorem once_onRecord :
    (onceLoop 0).OnRecord (onceLoop 4) [] onceResolved onceMachine onceLocals where
  resolved _ _ := rfl
  lexical := fun _ member => Locals.getElem?_record (by decide) member
  kept closure has := by
    have none := Machine.not_hasClosure_initial (.fixed 0) none closure
    exact absurd has none

theorem once_runs_as_written :
    onceStart.rest.head?.map Token.kind = some (.symbol .forWord) ∧
      Parser.statementAt onceTokens onceStart = .ok (onceLoop 0).tree onceFinish ∧
      (∃ (loop : ForLoop) (read : List Token), onceTokens = read ++ [] ∧ loop.WrittenAs read ∧
        (onceLoop 0).tree = loop.tree ∧ AreProper (onceLoop 0).tree.marks ∧
          (onceLoop 0).tree.ids.Nodup) ∧
      (onceLoop 0).IsResolved .none .none [] .empty ∧ (onceLoop 0).IsCopy (onceLoop 4) ∧
      (onceLoop 0).OnRecord (onceLoop 4) [] onceResolved onceMachine onceLocals ∧
      onceMachine.store.IsClosed ∧ onceMachine.store.HasEnv globals ∧
      (onceLoop 0).RunsAsWritten (onceLoop 4) [] globals onceMachine
        { onceMachine with locals := onceLocals } := by
  have reads : Parser.statementAt onceTokens onceStart = .ok (onceLoop 0).tree onceFinish := by cbv
  have read := for_loops_run_as_written.1 onceTokens onceStart onceFinish _ onceTokens_proper rfl
    reads rfl
  obtain ⟨proper, distinct⟩ : AreProper (onceLoop 0).tree.marks ∧ (onceLoop 0).tree.ids.Nodup := by
    obtain ⟨-, -, -, -, -, facts⟩ := read
    exact facts
  have resolved : (onceLoop 0).IsResolved .none .none [] .empty :=
    ⟨.globals, trivial, proper, distinct, fun _ _ => Std.TreeMap.getElem?_emptyc, by decide +kernel⟩
  have copy : (onceLoop 0).IsCopy (onceLoop 4) := ⟨rfl, rfl, rfl, rfl⟩
  have closed : onceMachine.store.IsClosed := Machine.isClosed_initial (.fixed 0) none
  have place : onceMachine.store.HasEnv globals := List.forall_mem_singleton.mpr closed.globals
  exact ⟨rfl, reads, read, resolved, copy, once_onRecord, closed, place,
    for_loops_run_as_written.2.1 _ _ _ _ _ resolved _ copy _ _ once_onRecord closed _ place⟩

end Lox
