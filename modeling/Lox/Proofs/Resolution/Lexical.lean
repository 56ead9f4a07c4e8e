import Lox.Proofs.Parser.StatementIds
import Lox.Proofs.Resolution.Walk

namespace Lox

open Landmarks

namespace Expr

mutual

theorem occurrences_landmarks : (e : Expr) →
    e.landmarks.filterMap Landmark.occurrence? = e.occurrences
  | literal _ => rfl
  | grouping inner => occurrences_landmarks inner
  | unary _ operand => occurrences_landmarks operand
  | binary left _ right | logical left _ right => by
    rw [landmarks, occurrences, List.filterMap_append, occurrences_landmarks left,
      occurrences_landmarks right]
  | var _ _ => rfl
  | assign id name value => by
    rw [landmarks, occurrences, List.filterMap_append, occurrences_landmarks value]
    rfl
  | call callee _ arguments => by
    rw [landmarks, occurrences, List.filterMap_append, occurrences_landmarks callee,
      allOccurrences_landmarks arguments]
  | get object _ => occurrences_landmarks object
  | set object _ value => by
    rw [landmarks, occurrences, List.filterMap_append, occurrences_landmarks object,
      occurrences_landmarks value]
  | this _ _ => rfl
  | super _ _ _ => rfl

theorem allOccurrences_landmarks : (es : List Expr) →
    (allLandmarks es).filterMap Landmark.occurrence? = allOccurrences es
  | [] => rfl
  | e :: rest => by
    rw [allLandmarks, allOccurrences, List.filterMap_append, occurrences_landmarks e,
      allOccurrences_landmarks rest]

end

theorem optionOccurrences_landmarks (e : Option Expr) :
    (optionLandmarks e).filterMap Landmark.occurrence? = optionOccurrences e := by
  cases e with
  | none => rfl
  | some e => exact e.occurrences_landmarks

end Expr

namespace Stmt

theorem occurrences_within (region : Region) (inner : Landmarks) :
    (Landmark.within region inner).filterMap Landmark.occurrence? =
      inner.filterMap Landmark.occurrence? := by
  rw [Landmark.within, List.cons_append, List.filterMap_cons_none rfl, List.filterMap_append]
  exact List.append_nil _

theorem occurrences_inheritance (name : Token) (superclass : Option Expr) :
    (inheritance name superclass).filterMap Landmark.occurrence? = [] := by
  unfold inheritance
  split <;> rfl

theorem occurrences_receiverScope (superclass : Option Expr) (methods : Landmarks) :
    (receiverScope superclass methods).filterMap Landmark.occurrence? =
      methods.filterMap Landmark.occurrence? := by
  cases superclass with
  | none => rw [receiverScope, occurrences_within, List.filterMap_cons_none rfl]
  | some e =>
    rw [receiverScope, occurrences_within, List.filterMap_cons_none rfl, occurrences_within,
      List.filterMap_cons_none rfl]

mutual

theorem functionOccurrences_landmarks (kind : EnclosingFunction) : (d : FunctionDecl) →
    (functionLandmarks kind d).filterMap Landmark.occurrence? = functionOccurrences d
  | ⟨_, params, body⟩ => by
    have none : (params.map Landmark.declares).filterMap Landmark.occurrence? = [] := by
      simp [List.filterMap_eq_nil_iff, Landmark.occurrence?]
    rw [functionLandmarks, occurrences_within, List.filterMap_append, none,
      allOccurrences_landmarks body]
    rfl

theorem methodOccurrences_landmarks : (ds : List FunctionDecl) →
    (methodLandmarks ds).filterMap Landmark.occurrence? = methodOccurrences ds
  | [] => rfl
  | d :: rest => by
    rw [methodLandmarks, methodOccurrences, List.filterMap_append,
      functionOccurrences_landmarks _ d, methodOccurrences_landmarks rest]

theorem occurrences_landmarks : (s : Stmt) →
    s.landmarks.filterMap Landmark.occurrence? = s.occurrences
  | .expression value | .print value => value.occurrences_landmarks
  | .var name initializer => by
    rw [landmarks, List.filterMap_cons_none rfl, occurrences_within,
      Expr.optionOccurrences_landmarks]
    rfl
  | .block statements => by
    rw [landmarks, occurrences_within, allOccurrences_landmarks statements]
    rfl
  | .branch condition thenBranch none => by
    rw [landmarks, occurrences, List.filterMap_append, condition.occurrences_landmarks,
      occurrences_landmarks thenBranch]
  | .branch condition thenBranch (some elseBranch) => by
    rw [landmarks, occurrences, List.filterMap_append, List.filterMap_append,
      condition.occurrences_landmarks, occurrences_landmarks thenBranch,
      occurrences_landmarks elseBranch]
  | .loop condition body => by
    rw [landmarks, occurrences, List.filterMap_append, condition.occurrences_landmarks,
      occurrences_landmarks body]
  | .function declaration => by
    rw [landmarks, List.filterMap_cons_none rfl, functionOccurrences_landmarks _ declaration]
    rfl
  | .ret _ value => by
    rw [landmarks, List.filterMap_cons_none rfl, Expr.optionOccurrences_landmarks]
    rfl
  | .classDecl name superclass methods => by
    rw [landmarks, List.filterMap_cons_none rfl, occurrences_within, List.filterMap_append,
      List.filterMap_append, occurrences_inheritance, Expr.optionOccurrences_landmarks,
      occurrences_receiverScope, methodOccurrences_landmarks methods]
    rfl

theorem allOccurrences_landmarks : (ss : List Stmt) →
    (allLandmarks ss).filterMap Landmark.occurrence? = allOccurrences ss
  | [] => rfl
  | s :: rest => by
    rw [allLandmarks, allOccurrences, List.filterMap_append, occurrences_landmarks s,
      allOccurrences_landmarks rest]

end

end Stmt

/-- One error is reported for each violation of a static rule, in the order of the text, and no
other. -/
theorem errors_are_violations (program : List Stmt) :
    ∃ found : List (Nat × ResolveError), found.Nodup ∧
      (∀ place error,
        (place, error) ∈ found ↔ ViolatesAt (Stmt.allLandmarks program) place error) ∧
      (resolve program).errors = found.map Prod.snd := by
  obtain ⟨nest, h⟩ := stands_resolve program
  exact h.reported

theorem place_unique {text : Landmarks}
    (distinct : ((text.filterMap Landmark.occurrence?).map Prod.fst).Nodup) {place place' id : Nat}
    {l l' : Landmark} {name name' : Token} (here : text[place]? = some l)
    (there : text[place']? = some l') (occurs : l.occurrence? = some (id, name))
    (occurs' : l'.occurrence? = some (id, name')) : place = place' := by
  rw [List.Nodup, List.pairwise_map, List.pairwise_filterMap, List.pairwise_iff_getElem] at distinct
  obtain ⟨lt, rfl⟩ := List.getElem?_eq_some_iff.mp here
  obtain ⟨lt', rfl⟩ := List.getElem?_eq_some_iff.mp there
  rcases Nat.lt_trichotomy place place' with before | same | behind
  · have apart := distinct place place' lt lt' before (id, name) occurs (id, name') occurs'
    exact absurd rfl apart
  · exact same
  · have apart := distinct place' place lt' lt behind (id, name') occurs' (id, name) occurs
    exact absurd rfl apart

/-- In a program that was read, whether or not there are errors in it, the occurrence of a name has
its lexical distance on record and nothing else. -/
theorem distances_are_lexical (tokens : List Token) (firstId : Nat) {place id d : Nat}
    {l : Landmark} {name : Token}
    (here : (Stmt.allLandmarks (parse tokens firstId).statements)[place]? = some l)
    (occurs : l.occurrence? = some (id, name)) :
    (resolve (parse tokens firstId).statements).locals[id]? = some d ↔
      ¬ IsMisplaced ((Stmt.allLandmarks (parse tokens firstId).statements).take place) l ∧
        LexicalDistance ((Stmt.allLandmarks (parse tokens firstId).statements).take place)
          name.lexeme d := by
  generalize program : (parse tokens firstId).statements = statements at here ⊢
  have distinct : (((Stmt.allLandmarks statements).filterMap Landmark.occurrence?).map
      Prod.fst).Nodup := by
    rw [Stmt.allOccurrences_landmarks, ← program]
    exact List.nodup_iff_count_le_one.mpr (parse_ids tokens firstId).distinct
  obtain ⟨nest, h⟩ := stands_resolve statements
  rw [h.recorded distinct]
  constructor
  · rintro ⟨place', l', here', name', occurs', placed, found⟩
    obtain rfl := place_unique distinct here here' occurs occurs'
    rw [here] at here'
    cases here'
    rw [occurs] at occurs'
    cases occurs'
    exact ⟨placed, found⟩
  · rintro ⟨placed, found⟩
    exact ⟨place, l, here, name, occurs, placed, found⟩

def localName : Token := ⟨.identifier, "x", 1⟩

def readingBlock : List Token :=
  [⟨.symbol .leftBrace, "\x7b", 1⟩, ⟨.symbol .varWord, "var", 1⟩, localName,
    ⟨.symbol .semicolon, ";", 1⟩, localName, ⟨.symbol .semicolon, ";", 1⟩,
    ⟨.symbol .rightBrace, "\x7d", 1⟩, ⟨.endOfInput, "", 1⟩]

theorem local_name_read_in_its_block :
    (Stmt.allLandmarks (parse readingBlock 0).statements)[4]? = some (.reads 0 localName) ∧
      (resolve (parse readingBlock 0).statements).locals[0]? = some 0 := by
  have here : (Stmt.allLandmarks (parse readingBlock 0).statements)[4]? =
      some (.reads 0 localName) := rfl
  refine ⟨here, (distances_are_lexical readingBlock 0 here rfl).mpr ⟨id, ?_⟩⟩
  have stays : Stays [.opens .initializer, .closes .initializer] :=
    stays_snoc.mpr ⟨stays_snoc.mpr ⟨stays_nil, by decide⟩, by decide⟩
  exact ⟨⟨[.opens .block], .declares localName, _, rfl, rfl, stays, rfl, by decide⟩, nofun⟩

end Lox
