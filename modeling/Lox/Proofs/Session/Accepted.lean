import Lox.Session
import Lox.Proofs.Parser.Program
import Lox.Proofs.Parser.StatementIds
import Lox.Proofs.Resolution.Sound

namespace Lox

def Site.occurrence (site : Site) : Nat × Token := (site.id, site.name)

namespace Stmt

theorem sitesOf_occurrences (Γ : Scopes) (occurrences : List (Nat × Token)) :
    (sitesOf Γ occurrences).map Site.occurrence = occurrences := by
  simp [sitesOf, Site.occurrence, Function.comp_def]

mutual

theorem sites_occurrences : (s : Stmt) → (Γ : Scopes) →
    (s.sites Γ).map Site.occurrence = s.occurrences
  | .expression value, Γ | .print value, Γ => sitesOf_occurrences Γ value.occurrences
  | .var name initializer, Γ => sitesOf_occurrences _ (Expr.optionOccurrences initializer)
  | .block statements, Γ => allSites_occurrences statements ([] :: Γ)
  | .branch condition thenBranch none, Γ => by
    rw [sites, occurrences, List.map_append, sitesOf_occurrences, sites_occurrences thenBranch]
  | .branch condition thenBranch (some elseBranch), Γ => by
    rw [sites, occurrences, List.map_append, List.map_append, sitesOf_occurrences,
      sites_occurrences thenBranch, sites_occurrences elseBranch]
  | .loop condition body, Γ => by
    rw [sites, occurrences, List.map_append, sitesOf_occurrences, sites_occurrences body]
  | .function declaration, Γ => functionSites_occurrences declaration _
  | .ret _ value, Γ => sitesOf_occurrences Γ (Expr.optionOccurrences value)
  | .classDecl name superclass methods, Γ => by
    rw [sites, occurrences, List.map_append, sitesOf_occurrences, methodSites_occurrences methods]

theorem functionSites_occurrences : (d : FunctionDecl) → (Γ : Scopes) →
    (functionSites Γ d).map Site.occurrence = functionOccurrences d
  | ⟨_, params, body⟩, Γ => allSites_occurrences body (bodyScopes params Γ)

theorem methodSites_occurrences : (ds : List FunctionDecl) → (Γ : Scopes) →
    (methodSites Γ ds).map Site.occurrence = methodOccurrences ds
  | [], _ => rfl
  | d :: rest, Γ => by
    rw [methodSites, methodOccurrences, List.map_append, functionSites_occurrences d,
      methodSites_occurrences rest]

theorem allSites_occurrences : (ss : List Stmt) → (Γ : Scopes) →
    (allSites Γ ss).map Site.occurrence = allOccurrences ss
  | [], _ => rfl
  | s :: rest, Γ => by
    rw [allSites, allOccurrences, List.map_append, sites_occurrences s, allSites_occurrences rest]

end

end Stmt

def statementsOf (source : String) (firstId : Nat) : List Stmt :=
  (parse (tokensOf (scan source)) firstId).statements

def nextIdOf (source : String) (firstId : Nat) : Nat :=
  (parse (tokensOf (scan source)) firstId).nextId

def localsOf (source : String) (firstId : Nat) : Locals :=
  (resolve (statementsOf source firstId)).locals

/-- The text passes all static checks. -/
structure IsAccepted (source : String) (firstId : Nat) : Prop where
  scanned : lexErrorsOf (scan source) = []
  parsed : (parse (tokensOf (scan source)) firstId).errors = []
  resolved : (resolve (statementsOf source firstId)).errors = []

def textSites (source : String) (firstId : Nat) : List Site :=
  Stmt.allSites [] (statementsOf source firstId)

section Text

variable (source : String) (firstId : Nat)

theorem textSites_ids :
    (textSites source firstId).map Site.id = Stmt.allIds (statementsOf source firstId) := by
  have occurrences := Stmt.allSites_occurrences (statementsOf source firstId) []
  rw [Stmt.allIds, idsOf, ← occurrences, List.map_map]
  rfl

theorem textSites_fresh :
    Parser.Fresh firstId (nextIdOf source firstId) ((textSites source firstId).map Site.id) := by
  rw [textSites_ids]
  exact parse_ids (tokensOf (scan source)) firstId

end Text

theorem isProper_beforeEnd (source : String) :
    ∀ t ∈ beforeEnd (tokensOf (scan source)), t.IsProper :=
  fun t member => isProper_scan source t ((List.takeWhile_sublist _).subset member)

namespace IsAccepted

variable {source : String} {firstId : Nat}

theorem sound (h : IsAccepted source firstId) :
    Tracks none (Stmt.afterAll [] (statementsOf source firstId))
        (Lox.resolve (statementsOf source firstId)).scopes ∧
      localsOf source firstId = Locals.record ∅ (textSites source firstId) ∧
      ∀ records : Records, Agrees records (textSites source firstId) →
        Stmt.AllResolved records [] (statementsOf source firstId) := by
  have spells := spells_of_parse h.parsed
  exact resolve_sound spells.wellFormed (spells.areProper (isProper_beforeEnd source)) h.resolved

theorem resolve (h : IsAccepted source firstId) :
    localsOf source firstId = Locals.record ∅ (textSites source firstId) ∧
      ∀ records : Records, Agrees records (textSites source firstId) →
        Stmt.AllResolved records [] (statementsOf source firstId) :=
  h.sound.2

theorem getElem?_locals (h : IsAccepted source firstId) {site : Site}
    (member : site ∈ textSites source firstId) :
    (localsOf source firstId)[site.id]? = site.distance := by
  rw [h.resolve.1]
  have distinct := List.nodup_iff_count_le_one.mpr (textSites_fresh source firstId).distinct
  exact Locals.getElem?_record distinct member

theorem getElem?_locals_of_not_mem (h : IsAccepted source firstId) {id : Nat}
    (outside : id < firstId ∨ nextIdOf source firstId ≤ id) :
    (localsOf source firstId)[id]? = none := by
  have absent : id ∉ (textSites source firstId).map Site.id := by
    intro member
    obtain ⟨low, high⟩ := (textSites_fresh source firstId).range id member
    omega
  rw [h.resolve.1, Locals.getElem?_record_of_not_mem _ absent]
  exact Std.TreeMap.getElem?_emptyc

section Merge

variable {locals : Locals} {id : Nat}

theorem getElem?_merge_of_earlier (h : IsAccepted source firstId) (earlier : id < firstId) :
    (locals.merge (localsOf source firstId))[id]? = locals[id]? := by
  rw [Locals.getElem?_merge, h.getElem?_locals_of_not_mem (.inl earlier), Option.none_or]

variable (unused : ∀ id, firstId ≤ id → locals[id]? = none)
include unused

theorem getElem?_merge (h : IsAccepted source firstId) {site : Site}
    (member : site ∈ textSites source firstId) :
    (locals.merge (localsOf source firstId))[site.id]? = site.distance := by
  have new := ((textSites_fresh source firstId).range _ (List.mem_map_of_mem member)).1
  rw [Locals.getElem?_merge, h.getElem?_locals member, unused _ new, Option.or_none]

theorem getElem?_merge_of_later (h : IsAccepted source firstId)
    (later : nextIdOf source firstId ≤ id) :
    (locals.merge (localsOf source firstId))[id]? = none := by
  have new := Nat.le_trans (textSites_fresh source firstId).ordered later
  rw [Locals.getElem?_merge, h.getElem?_locals_of_not_mem (.inr later), unused id new,
    Option.none_or]

end Merge

end IsAccepted

def staticErrors (source : String) (firstId : Nat) : List Diagnostic :=
  let errors := (lexErrorsOf (scan source)).map .lex ++
    (parse (tokensOf (scan source)) firstId).errors.map .parse
  if errors.isEmpty then (resolve (statementsOf source firstId)).errors.map .resolve else errors

theorem isAccepted_iff {source : String} {firstId : Nat} :
    IsAccepted source firstId ↔ staticErrors source firstId = [] := by
  unfold staticErrors
  constructor
  · intro h
    simp [h.scanned, h.parsed, h.resolved]
  · intro h
    dsimp only at h
    split at h
    next none =>
      simp only [List.isEmpty_iff, List.append_eq_nil_iff, List.map_eq_nil_iff] at none h
      exact ⟨none.1, none.2, h⟩
    next some' => simp [h] at some'

theorem staticErrors_isEmpty {source : String} {firstId : Nat} :
    (staticErrors source firstId).isEmpty = true ↔ IsAccepted source firstId := by
  rw [List.isEmpty_iff, isAccepted_iff]

theorem checkProgram_eq (source : String) (firstId : Nat) :
    checkProgram source firstId =
      if (staticErrors source firstId).isEmpty then
        (.ok (statementsOf source firstId, localsOf source firstId), nextIdOf source firstId)
      else (.error (staticErrors source firstId), nextIdOf source firstId) := by
  unfold checkProgram staticErrors localsOf nextIdOf statementsOf
  dsimp only
  generalize (lexErrorsOf (scan source)).map Diagnostic.lex ++
    (parse (tokensOf (scan source)) firstId).errors.map Diagnostic.parse = errors
  generalize resolve (parse (tokensOf (scan source)) firstId).statements = resolution
  cases errors with
  | nil => cases resolution.errors <;> rfl
  | cons error rest => rfl

namespace Session

variable {source : String} {session : Session}

theorem run_eq (fuel : Nat) (source : String) :
    session.run fuel source =
      if (staticErrors source session.nextId).isEmpty then
        session.perform (nextIdOf source session.nextId)
          (Run.interpret fuel (statementsOf source session.nextId)
            (localsOf source session.nextId))
      else (.rejected (staticErrors source session.nextId),
        { session with nextId := nextIdOf source session.nextId }) := by
  rw [run, checkProgram_eq]
  cases (staticErrors source session.nextId).isEmpty <;> rfl

theorem run_of_isAccepted (fuel : Nat) (h : IsAccepted source session.nextId) :
    session.run fuel source = session.perform (nextIdOf source session.nextId)
      (Run.interpret fuel (statementsOf source session.nextId)
        (localsOf source session.nextId)) := by
  rw [run_eq, if_pos (staticErrors_isEmpty.mpr h)]

/-- A text that is not accepted only takes its ids. -/
theorem run_of_not_isAccepted (fuel : Nat) (h : ¬ IsAccepted source session.nextId) :
    session.run fuel source = (.rejected (staticErrors source session.nextId),
      { session with nextId := nextIdOf source session.nextId }) := by
  rw [run_eq, if_neg (mt staticErrors_isEmpty.mp h)]

end Session

end Lox
