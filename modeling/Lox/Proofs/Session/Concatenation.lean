import Mathlib
import Lox.Proofs.Session.Alike

namespace Lox

variable {first second : String} {firstId firstId' : Nat}

theorem Spells.append {ss ss' : List Stmt} {ts ts' : List Token}
    (before : Spells (.declarations ss) ts) (behind : Spells (.declarations ss') ts') :
    Spells (.declarations (ss ++ ss')) (ts ++ ts') := by
  induction ss generalizing ts with
  | nil =>
    cases before
    exact behind
  | cons s rest ih =>
    cases before with
    | more leading others =>
      rw [List.append_assoc]
      exact .more leading (ih others)

theorem scan_joint (second : String) (clean : lexErrorsOf (scan first) = []) :
    lexErrorsOf (scan (first ++ "\n" ++ second)) =
        lexErrorsOf (scan (movedDown (newlinesOf first + 1) second)) ∧
      beforeEnd (tokensOf (scan (first ++ "\n" ++ second))) =
        beforeEnd (tokensOf (scan first)) ++
          beforeEnd (tokensOf (scan (movedDown (newlinesOf first + 1) second))) := by
  obtain ⟨items, alone, inner⟩ := scan_ends first
  have joint := scan_append second (not_unterminated_of_clean clean)
  rw [alone, List.dropLast_concat, Nat.add_comm, ← scan_movedDown] at joint
  have free : ∀ t ∈ tokensOf items, t.kind ≠ .endOfInput := fun t member =>
    inner t (mem_tokensOf.mp member)
  rw [alone, lexErrorsOf_append, List.append_eq_nil_iff] at clean
  constructor
  · rw [joint, lexErrorsOf_append, clean.1, List.nil_append]
  · have left : beforeEnd (tokensOf (scan first)) = tokensOf items := by
      rw [alone, tokensOf_append]
      exact beforeEnd_append free rfl
    rw [joint, tokensOf_append, beforeEnd_append_of_free free, left]

theorem afterAll_top (ss : List Stmt) : Stmt.afterAll [] ss = [] := by
  induction ss with
  | nil => rfl
  | cons s rest ih => rwa [Stmt.afterAll, List.foldl_cons, Reference.after_top]

theorem tokens_movedDown {lines : Lines} {k : Nat} {source : String}
    (moves : ∀ t ∈ tokensOf (scan source), lines.admits t (t.line + k)) :
    List.Forall₂ (Token.Like lines) (tokensOf (scan source))
      (tokensOf (scan (movedDown k source))) := by
  rw [scan_movedDown, tokensOf_map_raise, List.forall₂_map_right_iff, List.forall₂_same]
  exact fun t member => ⟨rfl, rfl, moves t member⟩

theorem IsAccepted.movedDown (h : IsAccepted second firstId) (k firstId' : Nat) :
    IsAccepted (movedDown k second) firstId' := by
  have moves : ∀ t ∈ tokensOf (scan second), Lines.admits ⟨fun t line => line = t.line + k⟩ t
      (t.line + k) := fun _ _ => rfl
  refine h.ofLike (tokens_movedDown moves) ?_ firstId'
  rw [scan_movedDown, lexErrorsOf_map_raise, h.scanned]
  rfl

theorem IsAccepted.scopes (h : IsAccepted first firstId) :
    (Lox.resolve (statementsOf first firstId)).scopes = [] := by
  have tracks := h.sound.1
  rw [afterAll_top] at tracks
  generalize (Lox.resolve (statementsOf first firstId)).scopes = scopes at tracks
  cases tracks
  rfl

theorem resolveList_append (enclosing : EnclosingClass) (kind : EnclosingFunction)
    (ss ts : List Stmt) (r : Resolution) :
    Stmt.resolveList enclosing kind (ss ++ ts) r =
      Stmt.resolveList enclosing kind ts (Stmt.resolveList enclosing kind ss r) := by
  induction ss generalizing r with
  | nil => rfl
  | cons s rest ih => exact ih _

theorem IsAccepted.resolve_append (h : IsAccepted first firstId) (ss : List Stmt) :
    (Lox.resolve (statementsOf first firstId ++ ss)).errors = (Lox.resolve ss).errors := by
  have start : Resolution.Like .anyIds .empty (Lox.resolve (statementsOf first firstId)) := by
    refine ⟨h.scopes, ?_⟩
    rw [h.resolved]
    exact .nil
  have again : Stmt.AllLike .anyIds ss ss := SameStatements.allLike rfl
  rw [Lox.resolve, resolveList_append]
  exact (eq_of_forall₂ (again.resolve start).errors fun _ _ like => ResolveError.Like.eq like).symm

theorem IsAccepted.joint (h : IsAccepted first firstId) (h' : IsAccepted second firstId')
    (jointId : Nat) :
    IsAccepted (first ++ "\n" ++ second) jointId ∧
      SameStatements (statementsOf (first ++ "\n" ++ second) jointId)
        (statementsOf first firstId ++
          statementsOf (Lox.movedDown (newlinesOf first + 1) second) firstId') := by
  have moved := h'.movedDown (newlinesOf first + 1) firstId'
  obtain ⟨lexErrors, tokens⟩ := scan_joint second h.scanned
  have spells := (spells_of_parse h.parsed).append (spells_of_parse moved.parsed)
  rw [← tokens] at spells
  obtain ⟨parsed, (same : SameStatements (statementsOf first firstId ++ statementsOf _ firstId')
    (statementsOf _ jointId))⟩ := parse_of_spells spells
  refine ⟨⟨lexErrors.trans moved.scanned, parsed, ?_⟩, same.symm⟩
  have errors := same.allLike.resolveErrors
  rw [h.resolve_append, moved.resolved] at errors
  exact List.forall₂_nil_left_iff.mp errors

namespace Run

theorem program_append {fuel : Nat} {ss : List Stmt} {m m' : Machine}
    (runs : program fuel ss m = .ok () m') (ts : List Stmt) :
    program fuel (ss ++ ts) m = program fuel ts m' := by
  induction ss generalizing m with
  | nil =>
    cases runs
    rfl
  | cons s rest ih =>
    simp only [List.cons_append, program_cons, bind, EStateM.bind] at runs ⊢
    cases h : execute fuel s globals m with
    | ok progress between =>
      simp only [h] at runs ⊢
      exact ih runs
    | error stop between => simp [h] at runs

end Run

theorem allSites_append (ss ts : List Stmt) :
    Stmt.allSites [] (ss ++ ts) = Stmt.allSites [] ss ++ Stmt.allSites [] ts := by
  induction ss with
  | nil => rfl
  | cons s rest ih =>
    rw [List.cons_append, Stmt.allSites, Stmt.allSites, Reference.after_top, ih, List.append_assoc]

namespace Session

variable {lines : Lines} {s s' : Session} {follower : String}

theorem proceed_append {fuel : Nat} {ss : List Stmt} (ends : (s.proceed fuel ss).1 = .finished ())
    (ts : List Stmt) : s.proceed fuel (ss ++ ts) = (s.proceed fuel ss).2.proceed fuel ts := by
  simp only [proceed, perform, Outcome.ofRun] at ends ⊢
  cases h : Run.program fuel ss s.machine with
  | ok result m' => rw [Run.program_append h]
  | error stop m' =>
    rw [h] at ends
    cases stop <;> cases ends

theorem Like.runKnown (h : s.Like lines s') (fuel : Nat) (accepted : IsAccepted follower s.nextId)
    {ts : List Stmt} (alike : Stmt.AllLike (.unnumbered lines) (statementsOf follower s.nextId) ts)
    (sites : Agrees s'.onRecord (Stmt.allSites [] ts)) :
    (s.run fuel follower).1.Like lines (s'.proceed fuel ts).1 ∧
      (s.run fuel follower).2.Like lines (s'.proceed fuel ts).2 := by
  rw [run_eq_proceed fuel accepted]
  have ends := (h.learnLeft accepted).proceed fuel
    (alike.number (covers_between lines _ _) (agrees_learn accepted h.fresh) sites)
  exact ⟨ends.outcome, ends.session⟩

/-- The text behind a first one that ends without an error runs as it does in one text with it. -/
theorem Like.runJoint (h : s.Like lines s') (fuel : Nat)
    (kept : lines.Keeps (tokensOf (scan first)))
    (tokens : List.Forall₂ (Token.Like lines) (tokensOf (scan follower))
      (tokensOf (scan (movedDown (newlinesOf first + 1) second))))
    (finishes : (s.run fuel first).1 = .finished ()) (accepted : IsAccepted second firstId)
    (accepted' : IsAccepted follower firstId') :
    ((s.run fuel first).2.run fuel follower).1.Like lines
        (s'.run fuel (first ++ "\n" ++ second)).1 ∧
      ((s.run fuel first).2.run fuel follower).2.Like lines
        (s'.run fuel (first ++ "\n" ++ second)).2 := by
  have leading : IsAccepted first s.nextId := by
    by_contra refused
    rw [run_eq_skip fuel refused] at finishes
    cases finishes
  obtain ⟨joint, same⟩ := leading.joint accepted s'.nextId
  -- Statements of the two texts, each alike a part of the joint ones.
  have alike : Stmt.AllLike (.unnumbered lines)
      (statementsOf first s.nextId ++ statementsOf follower (s.learn first).nextId)
      (statementsOf (first ++ "\n" ++ second) s'.nextId) :=
    ((statementsOf_like kept.like _ _).append (statementsOf_like tokens _ _)).join same.allLike
  obtain ⟨ss, ts, parts, alike, alike'⟩ := alike.append_left
  -- The first text and the statements from it.
  have sites := agrees_learn joint h.fresh'
  rw [textSites, parts, allSites_append] at sites
  obtain ⟨sites, sites'⟩ := agrees_append.mp sites
  have known := (h.learnLeft leading).learnRight joint
  have ends := known.proceed fuel
    (alike.number (covers_between lines _ _) (agrees_learn leading h.fresh) sites)
  rw [run_eq_proceed fuel leading] at finishes ⊢
  rw [run_eq_proceed fuel joint, parts]
  have finishes' := ends.outcome.finishes finishes
  -- The other text goes on from there.
  rw [proceed_append finishes' ts]
  refine ends.session.runKnown fuel (accepted'.again _) ?_ (ends.agrees sites')
  rwa [ends.keeps.1]

/-- One session goes through texts as another goes through others: each text ends as its counterpart
does, and altogether the same is printed. -/
structure Follows (lines : Lines) (s : Session) (texts : List (Nat × String)) (s' : Session)
    (texts' : List (Nat × String)) : Prop where
  outcomes : List.Forall₂ (Outcome.Like lines) (s.outcomes texts) (s'.outcomes texts')
  sink : (s'.runAll texts').machine.sink = (s.runAll texts).machine.sink

theorem Like.follows (h : s.Like lines s') {fuel : Nat} {later : List (Nat × String)}
    (kept : lines.Keeps (tokensOf (scan first))) (kept' : lines.Keeps (tokensOfAll later))
    (tokens : List.Forall₂ (Token.Like lines) (tokensOf (scan follower))
      (tokensOf (scan (movedDown (newlinesOf first + 1) second))))
    (finishes : (s.run fuel first).1 = .finished ()) (accepted : IsAccepted second firstId)
    (accepted' : IsAccepted follower firstId') :
    Follows lines (s.run fuel first).2 ((fuel, follower) :: later) s'
      ((fuel, first ++ "\n" ++ second) :: later) := by
  obtain ⟨outcome, behind⟩ := h.runJoint fuel kept tokens finishes accepted accepted'
  obtain ⟨outcomes, last⟩ := behind.runAll later kept'
  exact ⟨.cons outcome outcomes, last.sink⟩

end Session

theorem Outcome.Like.eq {o o' : Outcome Unit} (h : o.Like .still o') : o = o' := by
  cases h with
  | runtime cause token => rw [token.eq]
  | _ => rfl

def Lines.moving (kept moved : List Token) (k : Nat) : Lines :=
  ⟨fun t line => t ∈ kept ∧ line = t.line ∨ t ∈ moved ∧ line = t.line + k⟩

theorem Lines.keeps_still (ts : List Token) : Lines.still.Keeps ts := fun _ _ => rfl

theorem Lines.keeps_moving {kept moved ts : List Token} {k : Nat} (h : ts ⊆ kept) :
    (moving kept moved k).Keeps ts :=
  fun _ member => .inl ⟨h member, rfl⟩

/-- A session equals one program. Whatever texts it was given before, an accepted text behind one
that ends without an error ends as it does in one text with it, with the same output, and all later
texts end and print the same. Only the lines of its own tokens in errors are greater, by one more
than the newlines of the first text. If it stands as many lines further down, there is no
difference. -/
theorem session_is_one_program (clock : Clock) (limit : Option Nat)
    (earlier later : List (Nat × String)) {session : Session}
    (reached : session = (Session.initial clock limit).runAll earlier) {fuel : Nat}
    (finishes : (session.run fuel first).1 = .finished ()) (accepted : IsAccepted second firstId) :
    Session.Follows
        (.moving (tokensOfAll (earlier ++ (fuel, first) :: later)) (tokensOf (scan second))
          (newlinesOf first + 1))
        (session.run fuel first).2 ((fuel, second) :: later)
        session ((fuel, first ++ "\n" ++ second) :: later) ∧
      (session.run fuel first).2.outcomes
          ((fuel, movedDown (newlinesOf first + 1) second) :: later) =
        session.outcomes ((fuel, first ++ "\n" ++ second) :: later) ∧
      ((session.run fuel first).2.runAll
          ((fuel, movedDown (newlinesOf first + 1) second) :: later)).machine.sink =
        (session.runAll ((fuel, first ++ "\n" ++ second) :: later)).machine.sink := by
  have goesAlong (lines : Lines) (kept : lines.Keeps (tokensOfAll earlier)) :
      session.Like lines session := by
    rw [reached]
    exact ((Session.Like.initial clock limit).runAll earlier kept).2
  constructor
  · have all : tokensOfAll (earlier ++ (fuel, first) :: later) =
        tokensOfAll earlier ++ (tokensOf (scan first) ++ tokensOfAll later) := by
      simp [tokensOfAll]
    rw [all]
    refine (goesAlong _ (Lines.keeps_moving ?_)).follows (Lines.keeps_moving ?_)
      (Lines.keeps_moving ?_) (tokens_movedDown fun t member => .inr ⟨member, rfl⟩) finishes
      accepted accepted
    · exact List.subset_append_left _ _
    · exact List.subset_append_of_subset_right _ (List.subset_append_left _ _)
    · exact List.subset_append_of_subset_right _ (List.subset_append_right _ _)
  · have still := (goesAlong .still (Lines.keeps_still _)).follows (Lines.keeps_still _)
      (Lines.keeps_still (tokensOfAll later)) (forall₂_token_refl _) finishes accepted
      (accepted.movedDown (newlinesOf first + 1) firstId)
    exact ⟨eq_of_forall₂ still.outcomes fun _ _ like => like.eq, still.sink.symm⟩

def readerText : String := "fun f() \x7b x; \x7d"

def callerText : String := "fun g() \x7b y; \x7d f();"

/-- An error in a function of the first text keeps its line, one in a function of the second
moves. -/
theorem error_lines_in_two_functions :
    ((Session.initial (.fixed 0) none).run 6 readerText).1 = .finished () ∧ IsAccepted callerText 0 ∧
      ((Session.initial (.fixed 0) none).run 6 readerText).2.outcomes [(6, callerText), (6, "g();")] =
        [.halted (.runtime ⟨.undefinedGlobal "x", ⟨.identifier, "x", 1⟩⟩),
          .halted (.runtime ⟨.undefinedGlobal "y", ⟨.identifier, "y", 1⟩⟩)] ∧
      (Session.initial (.fixed 0) none).outcomes [(6, readerText ++ "\n" ++ callerText), (6, "g();")] =
        [.halted (.runtime ⟨.undefinedGlobal "x", ⟨.identifier, "x", 1⟩⟩),
          .halted (.runtime ⟨.undefinedGlobal "y", ⟨.identifier, "y", 2⟩⟩)] ∧
      Session.Follows
        (.moving (tokensOfAll [(6, readerText), (6, "g();")]) (tokensOf (scan callerText)) 1)
        ((Session.initial (.fixed 0) none).run 6 readerText).2 [(6, callerText), (6, "g();")]
        (Session.initial (.fixed 0) none) [(6, readerText ++ "\n" ++ callerText), (6, "g();")] := by
  have finishes : ((Session.initial (.fixed 0) none).run 6 readerText).1 = .finished () := by cbv
  have accepted : IsAccepted callerText 0 := isAccepted_iff.mpr (by cbv)
  exact ⟨finishes, accepted, by cbv, by cbv,
    (session_is_one_program (.fixed 0) none [] [(6, "g();")] rfl finishes accepted).1⟩

end Lox
