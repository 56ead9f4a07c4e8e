import Lox.Proofs.Resolution.Checks

namespace Lox

theorem sitesOf_append (Γ : Scopes) (first second : List (Nat × Token)) :
    sitesOf Γ (first ++ second) = sitesOf Γ first ++ sitesOf Γ second := List.map_append

/-- Inside a class the scope of the receiver is around, and directly around it that of the
superclass if there is one. -/
def Encloses (enclosing : EnclosingClass) (Γ : Scopes) : Prop :=
  match enclosing with
  | .none => True
  | .plain => ∃ d, Γ.distance? "this" = some d
  | .subclass => ∃ d, Γ.distance? "super" = some (d + 1) ∧ Γ.distance? "this" = some d

namespace Encloses

variable {enclosing : EnclosingClass} {Γ : Scopes}

theorem push (h : Encloses enclosing Γ) {names : List String} (plain : ∀ n ∈ names, IsPlain n) :
    Encloses enclosing (names :: Γ) := by
  have noThis : "this" ∉ names := fun member => (plain _ member).1 rfl
  have noSuper : "super" ∉ names := fun member => (plain _ member).2 rfl
  cases enclosing with
  | none => trivial
  | plain =>
    obtain ⟨d, this⟩ := h
    exact ⟨d + 1, by simp [Scopes.distance?_cons, noThis, this]⟩
  | subclass =>
    obtain ⟨d, super, this⟩ := h
    exact ⟨d + 1, by simp [Scopes.distance?_cons, noSuper, super],
      by simp [Scopes.distance?_cons, noThis, this]⟩

theorem distance?_declare {name other : String} (h : other ≠ name) (Γ : Scopes) :
    (Γ.declare name).distance? other = Γ.distance? other := by
  cases Γ with
  | nil => rfl
  | cons names Γ => simp [Scopes.declare, Scopes.distance?_cons, h]

theorem declare (h : Encloses enclosing Γ) {name : String} (plain : IsPlain name) :
    Encloses enclosing (Γ.declare name) := by
  have this := distance?_declare plain.1.symm Γ
  have super := distance?_declare plain.2.symm Γ
  cases enclosing with
  | none => trivial
  | plain =>
    simp only [Encloses, this]
    exact h
  | subclass =>
    simp only [Encloses, this, super]
    exact h

theorem ofClass (superclass : Option Expr) (Γ : Scopes) :
    Encloses (Stmt.enclosedBy superclass) (Stmt.classScopes superclass Γ) := by
  cases superclass with
  | none => exact ⟨0, by simp [Stmt.classScopes, Scopes.distance?_cons]⟩
  | some e =>
    exact ⟨0, by simp [Stmt.classScopes, Scopes.distance?_cons],
      by simp [Stmt.classScopes, Scopes.distance?_cons]⟩

end Encloses

namespace Expr

variable {enclosing : EnclosingClass} {Γ : Scopes} {pending : Option String}

theorem checks_var (id : Nat) (name : Token) :
    Checks pending Γ (fun r => (var id name).resolve enclosing r) pending Γ
      [⟨id, name, Γ.distance? name.lexeme⟩] (pending ≠ some name.lexeme) :=
  ((Checks.notPending name).seq (Checks.occurrence id name)).weaken And.left

theorem checks_this (encloses : Encloses enclosing Γ) (id : Nat) (keyword : Token) :
    Checks pending Γ (fun r => (this id keyword).resolve enclosing r) pending Γ
      [⟨id, keyword, Γ.distance? keyword.lexeme⟩] (∃ d, Γ.distance? "this" = some d) := by
  cases enclosing with
  | none => exact Checks.report _ _
  | plain => exact (Checks.occurrence id keyword).weaken fun _ => encloses
  | subclass =>
    obtain ⟨d, -, this⟩ := encloses
    exact (Checks.occurrence id keyword).weaken fun _ => ⟨d, this⟩

theorem checks_super (encloses : Encloses enclosing Γ) (id : Nat) (keyword method : Token) :
    Checks pending Γ (fun r => (super id keyword method).resolve enclosing r) pending Γ
      [⟨id, keyword, Γ.distance? keyword.lexeme⟩]
      (∃ d, Γ.distance? "super" = some (d + 1) ∧ Γ.distance? "this" = some d) := by
  cases enclosing with
  | none => exact Checks.report _ _
  | plain => exact Checks.report _ _
  | subclass => exact (Checks.occurrence id keyword).weaken fun _ => encloses

def Accepted (Γ : Scopes) (pending : Option String) (e : Expr) : Prop :=
  Given (sitesOf Γ e.occurrences) fun records => e.Resolved records Γ pending

def AllAccepted (Γ : Scopes) (pending : Option String) (es : List Expr) : Prop :=
  Given (sitesOf Γ (allOccurrences es)) fun records => AllResolved records Γ pending es

mutual

theorem checks (encloses : Encloses enclosing Γ) (plain : ∀ n ∈ pending, IsPlain n) :
    (e : Expr) → e.WellFormed → AreProper e.marks →
    Checks pending Γ (fun r => e.resolve enclosing r) pending Γ (sitesOf Γ e.occurrences)
      (e.Accepted Γ pending)
  | literal _, _, _ => Checks.nothing.weaken fun _ _ _ => trivial
  | grouping inner, wellFormed, proper => by
    have proper' : AreProper inner.marks := by simpa [marks] using proper
    exact checks encloses plain inner wellFormed proper'
  | unary _ operand, wellFormed, proper => by
    have proper' : AreProper operand.marks := by
      simp only [marks, AreProper.exactly_iff] at proper
      exact proper.2
    exact checks encloses plain operand wellFormed.2.2 proper'
  | binary left _ right, ⟨_, _, _, _, _, wellFormed, wellFormed'⟩, proper
  | logical left _ right, ⟨_, _, _, _, _, wellFormed, wellFormed'⟩, proper => by
    simp only [marks, AreProper.append_iff, AreProper.exactly_iff] at proper
    have first := checks encloses plain left wellFormed proper.1
    have all := first.both (checks encloses plain right wellFormed' proper.2.2)
    rw [← sitesOf_append] at all
    exact all
  | var id name, _, _ => (checks_var id name).weaken fun ready records agrees =>
      ⟨agrees _ List.mem_cons_self, ready⟩
  | assign id name value, ⟨isName, wellFormed⟩, proper => by
    simp only [marks, AreProper.exactly_iff, AreProper.symbol_iff] at proper
    have both := (checks encloses plain value wellFormed proper.2).seq (Checks.occurrence id name)
    have sites : sitesOf Γ (assign id name value).occurrences =
        sitesOf Γ value.occurrences ++ [⟨id, name, Γ.distance? name.lexeme⟩] := sitesOf_append ..
    rw [sites]
    refine both.weaken fun facts records agrees => ?_
    rw [sites, agrees_append] at agrees
    exact ⟨facts.1 records agrees.1, agrees.2 _ List.mem_cons_self, proper.1.identifier isName⟩
  | call callee _ arguments, ⟨_, _, _, wellFormed, wellFormed'⟩, proper => by
    simp only [marks, AreProper.append_iff, AreProper.symbol_iff, AreProper.exactly_iff] at proper
    have proper' : ∀ argument ∈ arguments, AreProper argument.marks := by
      have listed := proper.1.2
      rw [argumentMarks_eq] at listed
      exact AreProper.entries_iff.mp listed
    have first := checks encloses plain callee wellFormed proper.1.1
    have all := first.both (allChecks encloses plain arguments wellFormed' proper')
    rw [← sitesOf_append] at all
    exact all
  | get object _, ⟨_, _, wellFormed⟩, proper => by
    simp only [marks, AreProper.append_iff] at proper
    exact checks encloses plain object wellFormed proper.1
  | set object _ value, ⟨_, _, wellFormed, wellFormed'⟩, proper => by
    simp only [marks, AreProper.append_iff, AreProper.symbol_iff, AreProper.exactly_iff] at proper
    have first := checks encloses plain value wellFormed' proper.2.2
    have all := first.both (checks encloses plain object wellFormed proper.1)
    rw [← sitesOf_append] at all
    exact all.weaken fun facts records agrees => (facts records agrees).symm
  | this id keyword, isThis, proper => by
    have spelled : keyword.lexeme = "this" := (proper keyword List.mem_cons_self).this isThis
    refine (checks_this encloses id keyword).weaken fun ⟨d, found⟩ records agrees => ?_
    have known := agrees _ List.mem_cons_self
    simp only [spelled, found] at known
    refine ⟨spelled, fun pends => ?_, d, found, known⟩
    exact (plain "this" pends).1 rfl
  | super id keyword method, ⟨isSuper, _⟩, proper => by
    have spelled : keyword.lexeme = "super" :=
      (proper keyword List.mem_cons_self).super isSuper
    refine (checks_super encloses id keyword method).weaken
      fun ⟨d, found, found'⟩ records agrees => ?_
    have known := agrees _ List.mem_cons_self
    simp only [spelled, found] at known
    refine ⟨fun pends => ?_, fun pends => ?_, d, found, found', known⟩
    · exact (plain "super" pends).2 rfl
    · exact (plain "this" pends).1 rfl

theorem allChecks (encloses : Encloses enclosing Γ) (plain : ∀ n ∈ pending, IsPlain n) :
    (es : List Expr) → AllWellFormed es → (∀ e ∈ es, AreProper e.marks) →
    Checks pending Γ (fun r => resolveList enclosing es r) pending Γ (sitesOf Γ (allOccurrences es))
      (AllAccepted Γ pending es)
  | [], _, _ => Checks.nothing.weaken fun _ _ _ => trivial
  | e :: rest, ⟨wellFormed, wellFormed'⟩, proper => by
    obtain ⟨proper, proper'⟩ := List.forall_mem_cons.mp proper
    have first := checks encloses plain e wellFormed proper
    have all := first.both (allChecks encloses plain rest wellFormed' proper')
    rw [← sitesOf_append] at all
    exact all

end

end Expr

namespace Stmt

variable {enclosing : EnclosingClass} {kind : EnclosingFunction} {Γ : Scopes}

def afterAll (Γ : Scopes) (ss : List Stmt) : Scopes := ss.foldl after Γ

theorem afterAll_cons (names : List String) (Γ : Scopes) (ss : List Stmt) :
    ∃ names', afterAll (names :: Γ) ss = names' :: Γ := by
  induction ss generalizing names with
  | nil => exact ⟨names, rfl⟩
  | cons s rest ih =>
    obtain ⟨names', same⟩ : ∃ names', s.after (names :: Γ) = names' :: Γ := by
      cases s <;> exact ⟨_, rfl⟩
    obtain ⟨names'', same'⟩ := ih names'
    exact ⟨names'', by rw [afterAll, List.foldl_cons, same]; exact same'⟩

def Accepted (Γ : Scopes) (s : Stmt) : Prop :=
  Given (s.sites Γ) fun records => s.Resolved records Γ

def AllAccepted (Γ : Scopes) (ss : List Stmt) : Prop :=
  Given (allSites Γ ss) fun records => AllResolved records Γ ss

def FunctionAccepted (Γ : Scopes) (d : FunctionDecl) : Prop :=
  Given (functionSites Γ d) fun records => FunctionResolved records Γ d

def MethodsAccepted (Γ : Scopes) (ds : List FunctionDecl) : Prop :=
  Given (methodSites Γ ds) fun records => MethodsResolved records Γ ds

theorem checks_params (params : List Token) (names : List String) :
    Checks none (names :: Γ) (fun r => params.foldl Resolution.declareAndDefine r) none
      (((params.map Token.lexeme).reverse ++ names) :: Γ) []
      ((params.map Token.lexeme).Nodup ∧ ∀ param ∈ params, param.lexeme ∉ names) := by
  induction params generalizing names with
  | nil => exact Checks.nothing.weaken fun _ => ⟨.nil, nofun⟩
  | cons param params ih =>
    have both := (Checks.declareAndDefine (Γ := names :: Γ) param).seq (ih (param.lexeme :: names))
    have same : ((param :: params).map Token.lexeme).reverse ++ names =
        (params.map Token.lexeme).reverse ++ (param.lexeme :: names) := by simp
    rw [same]
    refine both.weaken fun ⟨fresh, distinct, others⟩ => ⟨?_, fun p member => ?_⟩
    · refine List.nodup_cons.mpr ⟨fun member => ?_, distinct⟩
      obtain ⟨p, later, twice⟩ := List.mem_map.mp member
      exact others p later (by simp [twice])
    · rcases List.mem_cons.mp member with rfl | later
      · exact fresh names rfl
      · exact fun declared => others p later (List.mem_cons_of_mem _ declared)

theorem checks_option (encloses : Encloses enclosing Γ) {pending : Option String}
    (plain : ∀ n ∈ pending, IsPlain n) (e : Option Expr)
    (wellFormed : ∀ inner ∈ e, inner.WellFormed) (proper : ∀ inner ∈ e, AreProper inner.marks) :
    Checks pending Γ (fun r => Expr.resolveOption enclosing e r) pending Γ
      (sitesOf Γ (Expr.optionOccurrences e)) (∀ inner ∈ e, inner.Accepted Γ pending) := by
  cases e with
  | none => exact Checks.nothing.weaken fun _ => nofun
  | some e =>
    refine (Expr.checks encloses plain e (wellFormed e rfl) (proper e rfl)).weaken ?_
    intro accepted inner found
    cases found
    exact accepted

theorem plain_none : ∀ n ∈ (none : Option String), IsPlain n := nofun

theorem plain_pending (Γ : Scopes) {name : String} (plain : IsPlain name) :
    ∀ n ∈ Γ.pending name, IsPlain n := by
  intro n found
  simp only [Scopes.pending] at found
  split at found
  · cases found
  · cases found
    exact plain

theorem checks_enterClass (name : Token) (superclass : Option Expr)
    (inherits : ∀ e ∈ superclass, IsSuperclass e) :
    Checks none (Γ.declare name.lexeme) (fun r => enterClass name superclass r) none
      (classScopes superclass (Γ.declare name.lexeme))
      (sitesOf (Γ.declare name.lexeme) (Expr.optionOccurrences superclass))
      (∀ e ∈ superclass, e.Accepted (Γ.declare name.lexeme) (Γ.pending name.lexeme)) := by
  cases superclass with
  | none => exact (Checks.enterWith "this").weaken fun _ => nofun
  | some e =>
    cases e with
    | var id token =>
      have other : Checks none (Γ.declare name.lexeme)
          (fun r => r.reportIf (inheritsItself name (.var id token)) .inheritsItself token) none
          (Γ.declare name.lexeme) [] (token.lexeme ≠ name.lexeme) :=
        Checks.reportIf _ _ fun _ _ apart => by simpa [inheritsItself] using apart
      have inherited : Checks none (Γ.declare name.lexeme)
          (fun r => (Expr.var id token).resolve .subclass r) none (Γ.declare name.lexeme)
          [⟨id, token, (Γ.declare name.lexeme).distance? token.lexeme⟩]
          (none ≠ some token.lexeme) := Expr.checks_var id token
      have all := ((other.seq inherited).seq (Checks.enterWith "super")).seq
        (Checks.enterWith "this")
      refine all.weaken fun facts e found records agrees => ?_
      cases found
      refine ⟨agrees _ List.mem_cons_self, fun pends => ?_⟩
      simp only [Scopes.pending] at pends
      split at pends
      · cases pends
      · exact facts.1.1.1 (Option.some.inj pends).symm
    | _ => exact (inherits _ rfl).elim

theorem checks_leaveClass (superclass : Option Expr) :
    Checks none (classScopes superclass Γ) (fun r => leaveClass superclass r) none Γ [] True := by
  cases superclass with
  | none => exact Checks.leave
  | some e => exact (Checks.leave.seq Checks.leave).weaken fun _ => trivial

theorem plain_function {d : FunctionDecl} (wellFormed : FunctionWellFormed d)
    (proper : AreProper (functionMarks d)) : IsPlain d.name.lexeme := by
  obtain ⟨name, params, body⟩ := d
  simp only [functionMarks, functionHeader, AreProper.append_iff, AreProper.exactly_iff] at proper
  exact proper.1.1.1.1.identifier wellFormed.1

theorem encloses_after (encloses : Encloses enclosing Γ) (s : Stmt) (wellFormed : s.WellFormed)
    (proper : AreProper s.marks) : Encloses enclosing (s.after Γ) := by
  cases s with
  | var name initializer =>
    simp only [marks, AreProper.append_iff, AreProper.symbol_iff, AreProper.exactly_iff] at proper
    exact encloses.declare (proper.1.1.identifier wellFormed.1)
  | function declaration =>
    exact encloses.declare (plain_function wellFormed (AreProper.symbol_iff.mp proper))
  | classDecl name superclass methods =>
    simp only [marks, classHeader, AreProper.append_iff, AreProper.exactly_iff,
      AreProper.symbol_iff] at proper
    exact encloses.declare (proper.1.1.1.1.identifier wellFormed.1)
  | _ => exact encloses

theorem option_proper {before : List Mark} {e : Option Expr}
    (proper : AreProper (optionMarks before e)) : ∀ inner ∈ e, AreProper inner.marks := by
  intro inner found
  cases found
  exact (AreProper.append_iff.mp proper).2

mutual

theorem checks_function {enclosing : EnclosingClass} {Γ : Scopes} (encloses : Encloses enclosing Γ)
    (kind : EnclosingFunction) : (d : FunctionDecl) → FunctionWellFormed d →
    AreProper (functionMarks d) →
    Checks none Γ (fun r => resolveFunction enclosing kind d r) none Γ (functionSites Γ d)
      (FunctionAccepted Γ d)
  | ⟨name, params, body⟩, ⟨_, _, areNames, wellFormed⟩, proper => by
    simp only [functionMarks, functionHeader, AreProper.append_iff, AreProper.exactly_iff,
      AreProper.symbol_iff, AreProper.entries_iff] at proper
    have plain (param : Token) (member : param ∈ params) : IsPlain param.lexeme :=
      (proper.1.1.1.2 param member).1.identifier (areNames param member)
    have plain' : ∀ n ∈ (params.map Token.lexeme).reverse, IsPlain n := by
      intro n member
      obtain ⟨param, member', rfl⟩ := List.mem_map.mp (List.mem_reverse.mp member)
      exact plain param member'
    have inner := allChecks (encloses.push plain') kind body wellFormed proper.1.2
    obtain ⟨names', same⟩ := afterAll_cons (params.map Token.lexeme).reverse Γ body
    rw [same] at inner
    have params' := checks_params (Γ := Γ) params []
    rw [List.append_nil] at params'
    have all := ((Checks.enter.seq params').seq inner).seq Checks.leave
    rw [List.append_nil] at all
    refine all.weaken fun facts records agrees => ?_
    exact ⟨facts.1.1.2.1, plain, facts.1.2 records agrees⟩

theorem checks_methods {enclosing : EnclosingClass} {Γ : Scopes} (encloses : Encloses enclosing Γ) :
    (ds : List FunctionDecl) → MethodsWellFormed ds → AreProper (methodMarks ds) →
    Checks none Γ (fun r => resolveMethods enclosing ds r) none Γ (methodSites Γ ds)
      (MethodsAccepted Γ ds)
  | [], _, _ => Checks.nothing.weaken fun _ _ _ => trivial
  | d :: rest, ⟨wellFormed, wellFormed'⟩, proper => by
    obtain ⟨proper, proper'⟩ := AreProper.append_iff.mp proper
    exact (checks_function encloses (.ofMethod d.name) d wellFormed proper).both
      (checks_methods encloses rest wellFormed' proper')

theorem checks {enclosing : EnclosingClass} {Γ : Scopes} (encloses : Encloses enclosing Γ)
    (kind : EnclosingFunction) : (s : Stmt) → s.WellFormed → AreProper s.marks →
    Checks none Γ (fun r => s.resolve enclosing kind r) none (s.after Γ) (s.sites Γ)
      (s.Accepted Γ)
  | .expression value, wellFormed, proper => by
    exact Expr.checks encloses plain_none value wellFormed (AreProper.append_iff.mp proper).1
  | .print value, wellFormed, proper => by
    simp only [marks, AreProper.append_iff, AreProper.symbol_iff] at proper
    exact Expr.checks encloses plain_none value wellFormed proper.1
  | .var name initializer, ⟨isName, wellFormed⟩, proper => by
    simp only [marks, AreProper.append_iff, AreProper.symbol_iff, AreProper.exactly_iff] at proper
    have plain := proper.1.1.identifier isName
    have value := checks_option (encloses.declare plain) (plain_pending Γ plain) initializer
      wellFormed (option_proper proper.1.2)
    have all := ((Checks.declare name).seq value).seq (Checks.define name.lexeme)
    rw [List.append_nil] at all
    refine all.weaken fun facts records agrees => ?_
    refine ⟨plain, facts.1.1, fun e found => ?_⟩
    cases found
    exact facts.1.2 e rfl records agrees
  | .block statements, wellFormed, proper => by
    simp only [marks, AreProper.append_iff, AreProper.symbol_iff] at proper
    have inside : Encloses enclosing ([] :: Γ) := encloses.push nofun
    have inner := allChecks inside kind statements wellFormed proper.1
    obtain ⟨names', same⟩ := afterAll_cons [] Γ statements
    rw [same] at inner
    have all := (Checks.enter.seq inner).seq Checks.leave
    rw [List.append_nil] at all
    exact all.weaken fun facts => facts.1.2
  | .branch condition thenBranch none, ⟨wellFormed, isStatement, wellFormed'⟩, proper => by
    simp only [marks, conditionMarks, AreProper.append_iff, AreProper.symbol_iff] at proper
    have first := checks encloses kind thenBranch wellFormed' proper.2
    rw [after_eq_of_isStatement isStatement] at first
    have all := (Expr.checks encloses plain_none condition wellFormed proper.1.1).both first
    refine all.weaken fun facts records agrees => ?_
    obtain ⟨condition', then'⟩ := facts records agrees
    exact ⟨condition', isStatement, then'⟩
  | .branch condition thenBranch (some elseBranch),
      ⟨wellFormed, isStatement, wellFormed', _, isStatement', wellFormed''⟩, proper => by
    simp only [marks, conditionMarks, AreProper.append_iff, AreProper.symbol_iff] at proper
    have first := checks encloses kind thenBranch wellFormed' proper.1.2
    have second := checks encloses kind elseBranch wellFormed'' proper.2
    rw [after_eq_of_isStatement isStatement] at first
    rw [after_eq_of_isStatement isStatement'] at second
    have all := ((Expr.checks encloses plain_none condition wellFormed proper.1.1.1).both
      first).both second
    rw [List.append_assoc] at all
    refine all.weaken fun facts records agrees => ?_
    obtain ⟨⟨condition', then'⟩, else'⟩ := facts records agrees
    exact ⟨condition', ⟨isStatement, then'⟩, ⟨isStatement', else'⟩⟩
  | .loop condition body, ⟨wellFormed, isStatement, wellFormed'⟩, proper => by
    simp only [marks, conditionMarks, AreProper.append_iff, AreProper.symbol_iff] at proper
    have inner := checks encloses kind body wellFormed' proper.2
    rw [after_eq_of_isStatement isStatement] at inner
    have all := (Expr.checks encloses plain_none condition wellFormed proper.1.1).both inner
    refine all.weaken fun facts records agrees => ?_
    obtain ⟨condition', body'⟩ := facts records agrees
    exact ⟨condition', isStatement, body'⟩
  | .function declaration, wellFormed, proper => by
    have proper' := AreProper.symbol_iff.mp proper
    have plain := plain_function wellFormed proper'
    have inner := checks_function (encloses.declare plain) .function declaration wellFormed proper'
    have all := (Checks.declareAndDefine (Γ := Γ) declaration.name).seq inner
    exact all.weaken fun facts records agrees => ⟨plain, facts.1, facts.2 records agrees⟩
  | .ret keyword value, ⟨_, wellFormed⟩, proper => by
    simp only [marks, AreProper.append_iff, AreProper.exactly_iff] at proper
    have inner := checks_option encloses plain_none value wellFormed (option_proper proper.1.2)
    have top : Checks none Γ (fun r => r.reportIf (kind == .none) .topLevelReturn keyword) none Γ
        [] True := Checks.reportIf _ _ fun _ _ _ => trivial
    have initializer : Checks none Γ (fun r => r.reportIf (value.isSome && kind == .initializer)
        .initializerReturn keyword) none Γ [] True := Checks.reportIf _ _ fun _ _ _ => trivial
    have all := (top.seq initializer).seq inner
    refine all.weaken fun facts records agrees e found => ?_
    cases found
    exact facts.2 e rfl records agrees
  | .classDecl name superclass methods, ⟨isName, inherits, wellFormed⟩, proper => by
    simp only [marks, classHeader, AreProper.append_iff, AreProper.exactly_iff,
      AreProper.symbol_iff] at proper
    have plain := proper.1.1.1.1.identifier isName
    have members := checks_methods (Encloses.ofClass superclass (Γ.declare name.lexeme)) methods
      wellFormed proper.1.2
    have all := (((Checks.declareAndDefine (Γ := Γ) name).seq
      (checks_enterClass name superclass inherits)).seq members).seq (checks_leaveClass superclass)
    rw [List.append_nil] at all
    refine all.weaken fun facts records agrees => ?_
    obtain ⟨agrees, agrees'⟩ := agrees_append.mp agrees
    obtain ⟨⟨⟨fresh, inherited⟩, members⟩, -⟩ := facts
    refine ⟨plain, fresh, fun e found => ?_, members records agrees'⟩
    cases found
    exact inherited e rfl records agrees

theorem allChecks {enclosing : EnclosingClass} {Γ : Scopes} (encloses : Encloses enclosing Γ)
    (kind : EnclosingFunction) : (ss : List Stmt) → AllWellFormed ss → AreProper (allMarks ss) →
    Checks none Γ (fun r => resolveList enclosing kind ss r) none (afterAll Γ ss) (allSites Γ ss)
      (AllAccepted Γ ss)
  | [], _, _ => Checks.nothing.weaken fun _ _ _ => trivial
  | s :: rest, ⟨wellFormed, wellFormed'⟩, proper => by
    obtain ⟨proper, proper'⟩ := AreProper.append_iff.mp proper
    have first := checks encloses kind s wellFormed proper
    have encloses' := encloses_after encloses s wellFormed proper
    exact first.both (allChecks encloses' kind rest wellFormed' proper')

end

end Stmt

/-- A program that is resolved without errors leaves all scopes again, and it has the distance of
every occurrence on record, and no others. -/
theorem resolve_sound {program : List Stmt} (wellFormed : Stmt.AllWellFormed program)
    (proper : AreProper (Stmt.allMarks program)) (clean : (resolve program).errors = []) :
    Tracks none (Stmt.afterAll [] program) (resolve program).scopes ∧
      (resolve program).locals = Locals.record ∅ (Stmt.allSites [] program) ∧
      ∀ records : Records, Agrees records (Stmt.allSites [] program) →
        Stmt.AllResolved records [] program := by
  have encloses : Encloses .none [] := trivial
  obtain ⟨new, errors, holds⟩ := Stmt.allChecks encloses .none program wellFormed proper .empty
  have none : new = [] := by
    have same : new = (resolve program).errors := errors.symm
    rw [same, clean]
  exact holds none .globals

end Lox
