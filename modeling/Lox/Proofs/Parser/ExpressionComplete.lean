import Lox.Proofs.Parser.Reading
import Lox.Proofs.Syntax.Written

namespace Lox

def Expr.Same (e e' : Expr) : Prop := e'.eraseIds = e.eraseIds

/-- No operator of the level or a tighter one comes first. -/
def Ends (l : Precedence) (rest : List Token) : Prop :=
  ∀ k, l ≤ k → ∀ t ∈ rest.head?, Parser.isOneOf k.operators t.kind = false

theorem Ends.tighter {l k : Precedence} {rest : List Token} (ends : Ends l rest) (h : l ≤ k) :
    Ends k rest :=
  fun m further => ends m (Precedence.le_trans h further)

theorem Ends.operator {k : Precedence} {operator : Token} {rest : List Token}
    (isOperator : Parser.isOneOf k.operators operator.kind = true) :
    Ends k.tighter (operator :: rest) := by
  rintro m further t ⟨⟩
  by_contra other
  have known := Precedence.isOneOf_operators_iff.mp isOperator
  have again := Precedence.isOneOf_operators_iff.mp (Bool.not_eq_false _ ▸ other)
  rw [known, Option.some.injEq] at again
  subst again
  refine Precedence.not_tighter_le ?_ further
  rintro rfl
  simp [Precedence.operators, Parser.isOneOf] at isOperator

theorem Ends.closed {l : Precedence} {t : Token} {rest : List Token}
    (none : Precedence.ofOperator t.kind = none) : Ends l (t :: rest) := by
  rintro k - _ ⟨⟩
  by_contra other
  have known := Precedence.isOneOf_operators_iff.mp (Bool.not_eq_false _ ▸ other)
  simp [none] at known

theorem Ends.nil {l : Precedence} : Ends l [] := by
  rintro k - t ⟨⟩

namespace Parser

section Entries

variable {α : Type} {entry : Parser α} {marks : α → List Mark} {same : α → α → Prop} {n : Nat}

/-- `entry` reads the written form of an entry in front of a comma or the end of the list. -/
def ReadsEntry (entry : Parser α) (marks : α → List Mark) (same : α → α → Prop) (n : Nat) (a : α) :
    Prop :=
  ∀ ts t rest, Spelled (marks a) ts → ts.length ≤ n →
    t.kind = .symbol .comma ∨ t.kind = .symbol .rightParen →
    Accepts entry ts (t :: rest) (same a) ∧ ∃ first ∈ ts.head?, first.kind ≠ .symbol .rightParen

theorem head_following {closing : Token} (rest : List Token)
    (closes : closing.kind = .symbol .rightParen) {as : List α} {ts : List Token}
    (spelled : Spelled (as.flatMap fun a => .symbol .comma :: marks a) ts) :
    ∃ t behind, ts ++ closing :: rest = t :: behind ∧
      (t.kind = .symbol .comma ∨ t.kind = .symbol .rightParen) := by
  cases as with
  | nil =>
    cases spelled
    exact ⟨closing, rest, rfl, .inr closes⟩
  | cons b bs =>
    rw [List.flatMap_cons, List.cons_append, Spelled.cons_iff] at spelled
    obtain ⟨t, ws, isComma, -, rfl⟩ := spelled
    exact ⟨t, _, rfl, .inl isComma⟩

theorem accepts_moreEntries {overflow : ParseError.Cause} {closing : Token} {rest : List Token}
    (closes : closing.kind = .symbol .rightParen) {as : List α}
    (each : ∀ a ∈ as, ReadsEntry entry marks same n a) {fuel ts : List Token} {count : Nat}
    (bound : count + as.length ≤ maxEntries) (short : ts.length ≤ n)
    (enough : ts.length ≤ fuel.length)
    (spelled : Spelled (as.flatMap fun a => .symbol .comma :: marks a) ts) :
    Accepts (moreEntries entry overflow fuel count) ts (closing :: rest) (List.Forall₂ same as) := by
  induction as generalizing fuel ts count with
  | nil =>
    cases spelled
    cases fuel with
    | nil => exact Accepts.pure .nil
    | cons _ fuel =>
      refine Accepts.bindNothing (Accepts.accepts_not (by simp [closes])) ?_
      rintro _ rfl
      exact Accepts.pure .nil
  | cons a as ih =>
    obtain ⟨holds, others⟩ := List.forall_mem_cons.mp each
    rw [List.flatMap_cons, List.cons_append, Spelled.cons_iff] at spelled
    obtain ⟨comma, _, isComma, spelled, rfl⟩ := spelled
    obtain ⟨us, vs, rfl, first, second⟩ := Spelled.append_iff.mp spelled
    simp only [List.length_cons, List.length_append] at bound short enough
    obtain ⟨_, fuel, rfl⟩ := List.exists_cons_of_length_pos (Nat.lt_of_lt_of_le (Nat.succ_pos _) enough)
    simp only [List.length_cons] at enough
    obtain ⟨t, behind, split, separates⟩ := head_following rest closes second
    refine Accepts.bindToken (Accepts.accepts isComma) ?_
    rintro _ rfl
    have fits : ¬ maxEntries ≤ count := by omega
    simp only [if_true, if_neg fits]
    refine Accepts.bind (split ▸ (holds us t behind first (by omega) separates).1) fun b isSame => ?_
    refine Accepts.bindLast (ih others (by omega) (by omega) (by omega) second) fun bs areSame => ?_
    exact Accepts.pure (.cons isSame areSame)

theorem accepts_entries (overflow : ParseError.Cause) {closing : Token} {rest : List Token}
    (closes : closing.kind = .symbol .rightParen) {as : List α}
    (each : ∀ a ∈ as, ReadsEntry entry marks same n a) {ts : List Token}
    (bound : as.length ≤ maxEntries) (short : ts.length ≤ n)
    (spelled : Spelled (entryMarks marks as) ts) :
    Accepts (entries entry overflow) ts (closing :: rest) (List.Forall₂ same as) := by
  cases as with
  | nil =>
    cases spelled
    refine Accepts.bindNothing (Accepts.isAt closes) ?_
    rintro _ rfl
    exact Accepts.pure .nil
  | cons a as =>
    obtain ⟨holds, others⟩ := List.forall_mem_cons.mp each
    obtain ⟨us, vs, rfl, first, second⟩ := Spelled.append_iff.mp spelled
    simp only [List.length_cons, List.length_append] at bound short
    obtain ⟨t, behind, split, separates⟩ := head_following rest closes second
    obtain ⟨reads, head, isHead, notClosing⟩ := holds us t behind first (by omega) separates
    refine Accepts.bindNothing (Accepts.isAt_not ?_) ?_
    · cases us with
      | nil => cases isHead
      | cons _ _ =>
        cases isHead
        simpa using notClosing
    rintro _ rfl
    refine Accepts.bind (split ▸ reads) fun b isSame => ?_
    refine Accepts.bindNothing Accepts.remaining ?_
    rintro _ rfl
    refine Accepts.bindLast (accepts_moreEntries closes others (by omega) (by omega : vs.length ≤ n)
      (by simp) second) fun bs areSame => ?_
    exact Accepts.pure (.cons isSame areSame)

end Entries

def readLoop (nested : Parser Expr) (k : Precedence) (fuel : List Token) (first : Expr) : Parser Expr :=
  match k with
  | .call => calls nested fuel first
  | _ => chain k.node k.operators (k.tighter.rule nested) fuel first

def loopLevels : List Precedence := .call :: Precedence.logicalLevels ++ Precedence.binaryLevels

theorem rule_eq_readLoop {nested : Parser Expr} {k : Precedence} (level : k ∈ loopLevels) :
    k.rule nested = k.tighter.rule nested >>= fun first =>
      remaining >>= fun fuel => readLoop nested k fuel first := by
  simp only [loopLevels, Precedence.logicalLevels, Precedence.binaryLevels, List.cons_append,
    List.nil_append, List.mem_cons, List.not_mem_nil, or_false] at level
  rcases level with rfl | rfl | rfl | rfl | rfl | rfl | rfl <;> rfl

theorem accepts_readLoop (nested : Parser Expr) (fuel : List Token) {k : Precedence}
    {rest : List Token} {e e' : Expr} (level : k ∈ loopLevels) (ends : Ends k rest) (same : e.Same e') :
    Accepts (readLoop nested k fuel e') [] rest e.Same := by
  have none := ends k (Precedence.le_refl k)
  simp only [loopLevels, Precedence.logicalLevels, Precedence.binaryLevels, List.cons_append,
    List.nil_append, List.mem_cons, List.not_mem_nil, or_false] at level
  cases fuel with
  | nil => rcases level with rfl | rfl | rfl | rfl | rfl | rfl | rfl <;> exact Accepts.pure same
  | cons _ fuel =>
    rcases level with rfl | rfl | rfl | rfl | rfl | rfl | rfl
    all_goals
      refine Accepts.bindNothing (Accepts.takeIf_none none) ?_
      rintro _ rfl
      exact Accepts.pure same

/-- The rule of a level reads the written form of `e` and gives `e` back, up to ids. The nested
parser has fuel for all that is shorter. -/
def ReadsBack (l : Precedence) (e : Expr) (ts : List Token) : Prop :=
  ∀ fuel rest, ts.length ≤ fuel.length + 1 → Ends l rest →
    Accepts (l.rule (expressionAt fuel)) ts rest e.Same

/-- The rule of a level reads the written form of `e` and goes on with `e` as its first operand. -/
def ReadsFirst (k : Precedence) (e : Expr) (ts : List Token) : Prop :=
  ∀ fuel rest, ts.length ≤ fuel.length + 1 → Ends k.tighter rest → ∀ s, s.rest = ts ++ rest →
    ∃ e' s' more, k.rule (expressionAt fuel) s = readLoop (expressionAt fuel) k more e' s' ∧
      s'.rest = rest ∧ rest.length ≤ more.length ∧ s'.errors = s.errors ∧ e.Same e'

theorem ReadsFirst.readsBack {k : Precedence} {e : Expr} {ts : List Token} (level : k ∈ loopLevels)
    (h : ReadsFirst k e ts) : ReadsBack k e ts := by
  intro fuel rest bound ends s hs
  obtain ⟨e', s', more, eq, hrest, -, herrors, same⟩ :=
    h fuel rest bound (ends.tighter (Precedence.le_tighter k)) s hs
  obtain ⟨e'', t, run, hrest', herrors', same'⟩ :=
    accepts_readLoop (expressionAt fuel) more level ends same s' hrest
  exact ⟨e'', t, eq ▸ run, hrest', herrors'.trans herrors, same'⟩

theorem ReadsBack.readsFirst {k : Precedence} {e : Expr} {ts : List Token} (level : k ∈ loopLevels)
    (h : ReadsBack k.tighter e ts) : ReadsFirst k e ts := by
  intro fuel rest bound ends s hs
  obtain ⟨e', s', run, hrest, herrors, same⟩ := h fuel rest bound ends s hs
  refine ⟨e', s', rest, ?_, hrest, Nat.le_refl _, herrors, same⟩
  rw [rule_eq_readLoop level, bind_ok run, bind_ok (show remaining s' = .ok s'.rest s' from rfl), hrest]

variable {e : Expr} {ts : List Token}

theorem ReadsBack.looser {l : Precedence} (starts : StartsAt e.level ts)
    (tight : l.tighter ≤ e.level) (h : ReadsBack l.tighter e ts) : ReadsBack l e ts := by
  by_cases level : l ∈ loopLevels
  · exact (h.readsFirst level).readsBack level
  intro fuel rest bound ends
  have inside := h fuel rest bound (ends.tighter (Precedence.le_tighter l))
  cases l with
  | assignment =>
    refine Accepts.bindLast inside fun target same => ?_
    refine Accepts.bindNothing (Accepts.takeIf_none fun t found => ?_) ?_
    · simpa [isOneOf, Precedence.operators] using ends .assignment (Precedence.le_refl _) t found
    · rintro _ rfl
      exact Accepts.pure same
  | unary =>
    obtain ⟨t, us, rfl, -, operand⟩ := starts
    refine Accepts.bindNothing (Accepts.takeWhile (by simp) ?_) ?_
    · rintro _ ⟨⟩
      have isOperand := operand tight
      by_contra other
      revert isOperand other
      cases t.kind with
      | symbol fixed => cases fixed <;> decide
      | identifier | string | number | endOfInput => simp [isOneOf]
    · rintro _ rfl
      exact Accepts.bindLast inside fun operand same => Accepts.pure same
  | primary => exact inside
  | disjunction | conjunction | equality | comparison | term | factor | call =>
    exact absurd (by decide) level

/-- All rules that may find `e` at their place read it back. -/
structure Reads (e : Expr) : Prop where
  back : ∀ {ts}, Spelled e.marks ts → ∀ l, l ≤ e.level → ReadsBack l e ts
  first : ∀ {ts}, Spelled e.marks ts → ∀ k ∈ loopLevels, k ≤ e.level → ReadsFirst k e ts

theorem Reads.ofBack (wellFormed : e.WellFormed) (notLoop : e.level ∉ loopLevels)
    (own : ∀ {ts}, Spelled e.marks ts → ReadsBack e.level e ts) : Reads e := by
  have back : ∀ {ts}, Spelled e.marks ts → ∀ l, l ≤ e.level → ReadsBack l e ts :=
    fun spelled l bound => Precedence.le_induction (motive := fun l => ReadsBack l e _)
      (own spelled)
      (fun l tight h => h.looser (startsAt_level e wellFormed spelled) tight) bound
  refine ⟨back, fun spelled k level bound => ?_⟩
  rcases Precedence.eq_or_tighter_le bound with rfl | ⟨tight, -⟩
  · exact absurd level notLoop
  · exact (back spelled _ tight).readsFirst level

theorem Reads.ofFirst (wellFormed : e.WellFormed) (isLoop : e.level ∈ loopLevels)
    (own : ∀ {ts}, Spelled e.marks ts → ReadsFirst e.level e ts) : Reads e := by
  have back : ∀ {ts}, Spelled e.marks ts → ∀ l, l ≤ e.level → ReadsBack l e ts :=
    fun spelled l bound => Precedence.le_induction (motive := fun l => ReadsBack l e _)
      ((own spelled).readsBack isLoop)
      (fun l tight h => h.looser (startsAt_level e wellFormed spelled) tight) bound
  refine ⟨back, fun spelled k level bound => ?_⟩
  rcases Precedence.eq_or_tighter_le bound with rfl | ⟨tight, -⟩
  · exact own spelled
  · exact (back spelled _ tight).readsFirst level

theorem primary_level : Precedence.primary ∉ loopLevels := by decide

theorem reads_literal (value : Literal) : Reads (.literal value) := by
  refine .ofBack trivial primary_level fun {ts} spelled fuel rest bound ends => ?_
  obtain ⟨t, us, kind, empty, rfl⟩ := Spelled.cons_iff.mp spelled
  cases empty
  have kind : t.kind = value.kind := kind
  refine Accepts.bindNothing Accepts.next? ?_
  rintro _ rfl
  rcases value with _ | _ | b | _
  case bool =>
    cases b
    all_goals
      simp only [List.cons_append, List.head?_cons, kind, Literal.kind]
      exact Accepts.bindToken Accepts.skip fun _ _ => Accepts.pure rfl
  all_goals
    simp only [List.cons_append, List.head?_cons, kind, Literal.kind]
    exact Accepts.bindToken Accepts.skip fun _ _ => Accepts.pure rfl

theorem reads_var (id : Nat) {name : Token} (isName : name.kind = .identifier) :
    Reads (.var id name) := by
  refine .ofBack isName primary_level fun {ts} spelled fuel rest bound ends => ?_
  obtain ⟨t, us, rfl, empty, rfl⟩ := Spelled.cons_iff.mp spelled
  cases empty
  refine Accepts.bindNothing Accepts.next? ?_
  rintro _ rfl
  simp only [List.cons_append, List.head?_cons, isName]
  refine Accepts.bindToken Accepts.skip fun _ _ => ?_
  exact Accepts.bindNothing Accepts.freshId fun _ _ => Accepts.pure rfl

theorem reads_this (id : Nat) {keyword : Token} (isThis : keyword.kind = .symbol .thisWord) :
    Reads (.this id keyword) := by
  refine .ofBack isThis primary_level fun {ts} spelled fuel rest bound ends => ?_
  obtain ⟨t, us, rfl, empty, rfl⟩ := Spelled.cons_iff.mp spelled
  cases empty
  refine Accepts.bindNothing Accepts.next? ?_
  rintro _ rfl
  simp only [List.cons_append, List.head?_cons, isThis]
  refine Accepts.bindToken Accepts.skip fun _ _ => ?_
  exact Accepts.bindNothing Accepts.freshId fun _ _ => Accepts.pure rfl

theorem reads_super (id : Nat) {keyword method : Token} (isSuper : keyword.kind = .symbol .superWord)
    (isName : method.kind = .identifier) : Reads (.super id keyword method) := by
  refine .ofBack ⟨isSuper, isName⟩ primary_level fun {ts} spelled fuel rest bound ends => ?_
  obtain ⟨t, us, rfl, behind, rfl⟩ := Spelled.cons_iff.mp spelled
  obtain ⟨dot, vs, isDot, last, rfl⟩ := Spelled.cons_iff.mp behind
  obtain ⟨name, ws, rfl, empty, rfl⟩ := Spelled.cons_iff.mp last
  cases empty
  refine Accepts.bindNothing Accepts.next? ?_
  rintro _ rfl
  simp only [List.cons_append, List.head?_cons, isSuper]
  refine Accepts.bindToken Accepts.skip fun _ _ => ?_
  refine Accepts.bindToken (Accepts.expect isDot _) fun _ _ => ?_
  refine Accepts.bindToken (Accepts.expectName isName _) ?_
  rintro _ rfl
  exact Accepts.bindNothing Accepts.freshId fun _ _ => Accepts.pure rfl

theorem Reads.nested {inner : Expr} (h : Reads inner) {fuel rest : List Token}
    (spelled : Spelled inner.marks ts) (starts : StartsAt inner.level ts)
    (enough : ts.length ≤ fuel.length) (ends : Ends .assignment rest) :
    Accepts (expressionAt fuel) ts rest inner.Same := by
  obtain ⟨t, us, rfl, -⟩ := starts
  obtain ⟨_, fuel, rfl⟩ := List.exists_cons_of_length_pos (Nat.lt_of_lt_of_le (Nat.succ_pos _) enough)
  exact h.back spelled .assignment (Nat.zero_le _) fuel rest enough ends

theorem reads_grouping {inner : Expr} (wellFormed : inner.WellFormed) (h : Reads inner) :
    Reads (.grouping inner) := by
  refine .ofBack wellFormed primary_level fun {ts} spelled fuel rest bound ends => ?_
  obtain ⟨opening, us, isOpening, behind, rfl⟩ := Spelled.cons_iff.mp spelled
  obtain ⟨vs, ws, rfl, inside, last⟩ := Spelled.append_iff.mp behind
  obtain ⟨closing, _, isClosing, empty, rfl⟩ := Spelled.cons_iff.mp last
  cases empty
  refine Accepts.bindNothing Accepts.next? ?_
  rintro _ rfl
  simp only [List.cons_append, List.head?_cons, show opening.kind = .symbol .leftParen from isOpening]
  simp only [List.length_cons, List.length_append, List.length_nil] at bound
  refine Accepts.bindToken Accepts.skip fun _ _ => ?_
  refine Accepts.bind (h.nested inside (startsAt_level inner wellFormed inside) (by omega)
    (.closed (by rw [show closing.kind = .symbol .rightParen from isClosing]; rfl)))
      fun inner' same => ?_
  refine Accepts.bindToken (Accepts.expect isClosing _) fun _ _ => Accepts.pure ?_
  simpa [Expr.Same, Expr.eraseIds] using same

theorem unary_cons {nested : Parser Expr} {operator : Token} {us : List Token} {s s' : State}
    {operand : Expr} (isOperator : isOneOf [.bang, .minus] operator.kind = true)
    (head : s.rest = operator :: us) (run : unary nested { s with rest := us } = .ok operand s') :
    unary nested s = .ok (.unary operator operand) s' := by
  simp only [unary, bind, EStateM.bind, takeWhile, head, List.takeWhile_cons, List.dropWhile_cons,
    isOperator, if_true] at run ⊢
  cases hc : call nested { s with rest := us.dropWhile fun t => isOneOf [.bang, .minus] t.kind } with
  | error error t => simp [hc] at run
  | ok inner t =>
    simp only [hc, pure, EStateM.pure, EStateM.Result.ok.injEq] at run ⊢
    obtain ⟨rfl, rfl⟩ := run
    exact ⟨rfl, rfl⟩

theorem reads_unary {operator : Token} {operand : Expr}
    (wellFormed : (Expr.unary operator operand).WellFormed) (h : Reads operand) :
    Reads (.unary operator operand) := by
  refine .ofBack wellFormed (show Precedence.unary ∉ loopLevels by decide)
    fun {ts} spelled fuel rest bound ends s hs => ?_
  obtain ⟨t, us, rfl, behind, rfl⟩ := Spelled.cons_iff.mp spelled
  obtain ⟨operand', s', run, hrest, herrors, same⟩ :=
    h.back behind .unary wellFormed.2.1 fuel rest (Nat.le_of_succ_le bound) ends
      { s with rest := us ++ rest } rfl
  refine ⟨.unary t operand', s', unary_cons wellFormed.1 hs run, hrest, herrors, ?_⟩
  simpa [Expr.Same, Expr.eraseIds] using same

theorem ReadsFirst.node {k : Precedence} {left right : Expr} {operator : Token} {us : List Token}
    (level : k ∈ Precedence.logicalLevels ++ Precedence.binaryLevels)
    (known : Precedence.ofOperator operator.kind = some k) (first : ReadsFirst k left ts)
    (second : ReadsBack k.tighter right us) :
    ReadsFirst k (k.node left operator right) (ts ++ operator :: us) := by
  intro fuel rest bound ends s hs
  have isOperator := Precedence.isOneOf_operators_iff.mpr known
  simp only [List.length_append, List.length_cons] at bound
  obtain ⟨left', s₁, fuel₁, eq, hrest, enough, herrors, same⟩ :=
    first fuel (operator :: us ++ rest) (by omega) (.operator isOperator) s (by simp [hs])
  obtain ⟨spare, fuel₁, rfl⟩ :=
    List.exists_cons_of_length_pos (Nat.lt_of_lt_of_le (Nat.succ_pos _) enough)
  simp only [List.length_cons, List.length_append, List.cons_append] at enough
  obtain ⟨right', s₂, run, hrest', herrors', same'⟩ :=
    second fuel rest (by omega) ends { s₁ with rest := us ++ rest } rfl
  refine ⟨k.node left' operator right', s₂, fuel₁, ?_, hrest', by omega,
    herrors'.trans herrors, ?_⟩
  · have round : chain k.node k.operators (k.tighter.rule (expressionAt fuel)) (spare :: fuel₁) left' s₁ =
        chain k.node k.operators (k.tighter.rule (expressionAt fuel)) fuel₁
          (k.node left' operator right') s₂ := by
      rw [chain, bind_ok (takeIf_some (by simpa using hrest) isOperator)]
      exact bind_ok run
    rw [eq]
    simp only [Precedence.logicalLevels, Precedence.binaryLevels, List.cons_append, List.nil_append,
      List.mem_cons, List.not_mem_nil, or_false] at level
    rcases level with rfl | rfl | rfl | rfl | rfl | rfl <;> exact round
  · simp only [Precedence.logicalLevels, Precedence.binaryLevels, List.cons_append, List.nil_append,
      List.mem_cons, List.not_mem_nil, or_false] at level
    simp only [Expr.Same] at same same' ⊢
    rcases level with rfl | rfl | rfl | rfl | rfl | rfl <;>
      simp [Precedence.node, Expr.eraseIds, same, same']

theorem Reads.node {k : Precedence} {left right : Expr} {operator : Token}
    (level : k ∈ Precedence.logicalLevels ++ Precedence.binaryLevels)
    (known : Precedence.ofOperator operator.kind = some k) (leftLevel : k ≤ left.level)
    (rightLevel : k.tighter ≤ right.level) (wellFormed : (k.node left operator right).WellFormed)
    (nodeLevel : (k.node left operator right).level = k)
    (nodeMarks : (k.node left operator right).marks =
      left.marks ++ .exactly operator :: right.marks)
    (first : Reads left) (second : Reads right) : Reads (k.node left operator right) := by
  have isLoop : k ∈ loopLevels := List.mem_cons_of_mem _ level
  refine .ofFirst wellFormed (by rw [nodeLevel]; exact isLoop) fun {ts} spelled => ?_
  rw [nodeMarks] at spelled
  obtain ⟨us, vs, rfl, spelledLeft, behind⟩ := Spelled.append_iff.mp spelled
  obtain ⟨t, ws, rfl, spelledRight, rfl⟩ := Spelled.cons_iff.mp behind
  rw [nodeLevel]
  exact (first.first spelledLeft k isLoop leftLevel).node level known
    (second.back spelledRight k.tighter rightLevel)

theorem ReadsFirst.get {object : Expr} {dot name : Token} (isDot : dot.kind = .symbol .dot)
    (isName : name.kind = .identifier) (h : ReadsFirst .call object ts) :
    ReadsFirst .call (.get object name) (ts ++ [dot, name]) := by
  intro fuel rest bound ends s hs
  simp only [List.length_append, List.length_cons, List.length_nil] at bound
  obtain ⟨object', s₁, fuel₁, eq, hrest, enough, herrors, same⟩ :=
    h fuel (dot :: name :: rest) (by omega)
      (.operator (k := .call) (by simp [isOneOf, Precedence.operators, isDot])) s (by simp [hs])
  obtain ⟨_, fuel₁, rfl⟩ :=
    List.exists_cons_of_length_pos (Nat.lt_of_lt_of_le (Nat.succ_pos _) enough)
  simp only [List.length_cons] at enough
  obtain ⟨name', s₂, run, hrest', herrors', sameName⟩ :=
    Accepts.expectName isName .propertyName { s₁ with rest := [name] ++ rest } rfl
  subst sameName
  refine ⟨.get object' name', s₂, fuel₁, ?_, hrest', by omega, herrors'.trans herrors, ?_⟩
  · rw [eq, readLoop, calls, bind_ok (takeIf_some hrest (by simp [isOneOf, isDot]))]
    simp only [isDot, beq_self_eq_true, if_true]
    exact bind_ok run
  · simpa [Expr.Same, Expr.eraseIds] using same

theorem reads_get {object : Expr} {name : Token} (wellFormed : (Expr.get object name).WellFormed)
    (h : Reads object) : Reads (.get object name) := by
  refine .ofFirst wellFormed (show Precedence.call ∈ loopLevels by decide) fun {ts} spelled => ?_
  obtain ⟨us, vs, rfl, inside, behind⟩ := Spelled.append_iff.mp spelled
  obtain ⟨dot, ws, isDot, last, rfl⟩ := Spelled.cons_iff.mp behind
  obtain ⟨t, _, rfl, empty, rfl⟩ := Spelled.cons_iff.mp last
  cases empty
  exact (h.first inside .call (by decide) wellFormed.1).get isDot wellFormed.2.1

theorem eraseAllIds_eq {es es' : List Expr} (same : List.Forall₂ Expr.Same es es') :
    Expr.eraseAllIds es' = Expr.eraseAllIds es := by
  induction same with
  | nil => rfl
  | cons head _ ih => simp only [Expr.eraseAllIds, ih, show Expr.eraseIds _ = _ from head]

theorem Reads.entry {e : Expr} {fuel : List Token} (wellFormed : e.WellFormed) (h : Reads e) :
    ReadsEntry (expressionAt fuel) Expr.marks Expr.Same fuel.length e := by
  intro ts t rest spelled enough separates
  have starts := startsAt_level e wellFormed spelled
  have ends : Ends .assignment (t :: rest) := by
    rcases separates with kind | kind <;> exact .closed (by rw [kind]; rfl)
  refine ⟨h.nested spelled starts enough ends, ?_⟩
  obtain ⟨first, us, rfl, begins, -⟩ := starts
  refine ⟨first, rfl, fun closing => ?_⟩
  rw [closing] at begins
  exact absurd begins (by decide)

theorem ReadsFirst.call {callee : Expr} {opening paren : Token} {arguments : List Expr}
    {us : List Token} (opens : opening.kind = .symbol .leftParen)
    (closes : paren.kind = .symbol .rightParen) (fits : arguments.length ≤ maxEntries)
    (h : ReadsFirst .call callee ts)
    (each : ∀ e ∈ arguments, e.WellFormed ∧ Reads e)
    (spelled : Spelled (Expr.argumentMarks arguments) us) :
    ReadsFirst .call (.call callee paren arguments) (ts ++ opening :: us ++ [paren]) := by
  intro fuel rest bound ends s hs
  simp only [List.length_append, List.length_cons, List.length_nil] at bound
  obtain ⟨callee', s₁, fuel₁, eq, hrest, enough, herrors, same⟩ :=
    h fuel (opening :: us ++ paren :: rest) (by omega)
      (.operator (k := .call) (by simp [isOneOf, Precedence.operators, opens])) s (by simp [hs])
  obtain ⟨_, fuel₁, rfl⟩ :=
    List.exists_cons_of_length_pos (Nat.lt_of_lt_of_le (Nat.succ_pos _) enough)
  simp only [List.length_cons, List.length_append, List.cons_append] at enough
  rw [Expr.argumentMarks_eq] at spelled
  obtain ⟨arguments', s₂, run, hrest', herrors', same'⟩ :=
    accepts_entries .tooManyArguments closes
      (fun e member => (each e member).2.entry (each e member).1) fits
      (show us.length ≤ fuel.length by omega) spelled
      { s₁ with rest := us ++ paren :: rest } rfl
  obtain ⟨paren', s₃, run', hrest'', herrors'', sameParen⟩ :=
    Accepts.expect closes .argumentsClosing s₂ hrest'
  subst sameParen
  refine ⟨.call callee' paren' arguments', s₃, fuel₁, ?_, hrest'', by omega,
    herrors''.trans (herrors'.trans herrors), ?_⟩
  · rw [eq, readLoop, calls, bind_ok (takeIf_some (by simpa using hrest) (by simp [isOneOf, opens]))]
    simp only [opens, beq_iff_eq, Kind.symbol.injEq, reduceCtorEq, if_false]
    rw [bind_ok run, bind_ok run']
    rfl
  · simp only [Expr.Same, Expr.eraseIds, eraseAllIds_eq same']
    rw [show Expr.eraseIds _ = _ from same]

theorem reads_call {callee : Expr} {paren : Token} {arguments : List Expr}
    (wellFormed : (Expr.call callee paren arguments).WellFormed) (h : Reads callee)
    (each : ∀ e ∈ arguments, e.WellFormed ∧ Reads e) : Reads (.call callee paren arguments) := by
  refine .ofFirst wellFormed (show Precedence.call ∈ loopLevels by decide) fun {ts} spelled => ?_
  obtain ⟨level, closes, fits, -, -⟩ := wellFormed
  simp only [Expr.marks, List.append_assoc] at spelled
  obtain ⟨us, vs, rfl, inside, behind⟩ := Spelled.append_iff.mp spelled
  obtain ⟨opening, ws, opens, rest, rfl⟩ := Spelled.cons_iff.mp behind
  obtain ⟨as, xs, rfl, written, last⟩ := Spelled.append_iff.mp rest
  obtain ⟨t, _, rfl, empty, rfl⟩ := Spelled.cons_iff.mp last
  cases empty
  have reads := (h.first inside .call (by decide) level).call opens closes fits each written
  rwa [List.append_assoc, List.cons_append] at reads

theorem reads_target {target e value : Expr} {fuel us rest : List Token} {equals : Token}
    (sign : equals.kind = .symbol .equal) (h : Reads target) (spelled : Spelled target.marks ts)
    (tight : .disjunction ≤ target.level) (bound : ts.length + us.length ≤ fuel.length)
    (inside : value.WellFormed) (hv : Reads value) (written : Spelled value.marks us)
    (ends : Ends .assignment rest)
    (joins : ∀ target' value', target.Same target' → value.Same value' →
      Accepts (assignTo target' equals value') [] rest e.Same) :
    Accepts (assignment (expressionAt fuel)) (ts ++ equals :: us) rest e.Same := by
  have isOperator : isOneOf Precedence.assignment.operators equals.kind = true := by
    simp [isOneOf, Precedence.operators, sign]
  refine Accepts.bind (h.back spelled .disjunction tight fuel _ (by omega)
    (.operator isOperator)) fun target' same => ?_
  refine Accepts.bindToken (Accepts.takeIf (by simp [sign])) ?_
  rintro _ rfl
  refine Accepts.bindLast (hv.nested written (startsAt_level value inside written) (by omega) ends)
    fun value' same' => ?_
  exact joins target' value' same same'

theorem reads_assign (id : Nat) {name : Token} {value : Expr}
    (wellFormed : (Expr.assign id name value).WellFormed) (h : Reads value) :
    Reads (.assign id name value) := by
  refine .ofBack wellFormed (show Precedence.assignment ∉ loopLevels by decide)
    fun {ts} spelled fuel rest bound ends => ?_
  obtain ⟨t, _, rfl, behind, rfl⟩ := Spelled.cons_iff.mp spelled
  obtain ⟨equals, us, sign, written, rfl⟩ := Spelled.cons_iff.mp behind
  refine reads_target sign (reads_var id wellFormed.1) (Spelled.kept t)
    (show Precedence.disjunction ≤ .primary by decide) ?_ wellFormed.2 h written ends
      fun target' value' same same' => ?_
  · simp only [List.length_cons, List.length_nil] at bound ⊢
    omega
  cases target' with
  | var id' name' =>
    obtain rfl : name' = t := by simpa [Expr.Same, Expr.eraseIds] using same
    refine Accepts.bindNothing Accepts.freshId fun _ _ => Accepts.pure ?_
    simpa [Expr.Same, Expr.eraseIds] using same'
  | _ => simp [Expr.Same, Expr.eraseIds] at same

theorem reads_set {object value : Expr} {name : Token}
    (wellFormed : (Expr.set object name value).WellFormed) (ho : Reads object) (hv : Reads value) :
    Reads (.set object name value) := by
  refine .ofBack wellFormed (show Precedence.assignment ∉ loopLevels by decide)
    fun {ts} spelled fuel rest bound ends => ?_
  obtain ⟨level, isName, inside, insideValue⟩ := wellFormed
  have marks : (Expr.set object name value).marks =
      (Expr.get object name).marks ++ .symbol .equal :: value.marks := by
    simp [Expr.marks]
  rw [marks] at spelled
  obtain ⟨us, _, rfl, spelledTarget, behind⟩ := Spelled.append_iff.mp spelled
  obtain ⟨equals, vs, sign, written, rfl⟩ := Spelled.cons_iff.mp behind
  simp only [List.length_append, List.length_cons] at bound
  refine reads_target sign (reads_get ⟨level, isName, inside⟩ ho) spelledTarget
    (show Precedence.disjunction ≤ .call by decide) (by omega) insideValue hv written ends
    fun target' value' same same' => ?_
  cases target' with
  | get object' name' =>
    obtain ⟨sameObject, rfl⟩ : object'.eraseIds = object.eraseIds ∧ name' = name := by
      simpa [Expr.Same, Expr.eraseIds] using same
    refine Accepts.pure ?_
    simpa [Expr.Same, Expr.eraseIds, sameObject] using same'
  | _ => simp [Expr.Same, Expr.eraseIds] at same

mutual

theorem reads_of_wellFormed : (e : Expr) → e.WellFormed → Reads e
  | .literal value, _ => reads_literal value
  | .grouping inner, wellFormed => reads_grouping wellFormed (reads_of_wellFormed inner wellFormed)
  | .unary _ operand, wellFormed => reads_unary wellFormed (reads_of_wellFormed operand wellFormed.2.2)
  | .binary left operator right, wellFormed => by
    obtain ⟨k, level, known, leftLevel, rightLevel, insideLeft, insideRight⟩ := wellFormed
    have same : k.node left operator right = .binary left operator right := by
      revert level
      cases k <;> simp [Precedence.binaryLevels, Precedence.node]
    rw [← same]
    refine Reads.node (List.mem_append_right _ level) known leftLevel rightLevel ?_ ?_ ?_
      (reads_of_wellFormed left insideLeft) (reads_of_wellFormed right insideRight)
    · rw [same]
      exact ⟨k, level, known, leftLevel, rightLevel, insideLeft, insideRight⟩
    · simp [same, Expr.level, known]
    · simp [same, Expr.marks]
  | .logical left operator right, wellFormed => by
    obtain ⟨k, level, known, leftLevel, rightLevel, insideLeft, insideRight⟩ := wellFormed
    have same : k.node left operator right = .logical left operator right := by
      revert level
      cases k <;> simp [Precedence.logicalLevels, Precedence.node]
    rw [← same]
    refine Reads.node (List.mem_append_left _ level) known leftLevel rightLevel ?_ ?_ ?_
      (reads_of_wellFormed left insideLeft) (reads_of_wellFormed right insideRight)
    · rw [same]
      exact ⟨k, level, known, leftLevel, rightLevel, insideLeft, insideRight⟩
    · simp [same, Expr.level, known]
    · simp [same, Expr.marks]
  | .var id _, wellFormed => reads_var id wellFormed
  | .assign id _ value, wellFormed => reads_assign id wellFormed (reads_of_wellFormed value wellFormed.2)
  | .call callee _ arguments, wellFormed =>
    reads_call wellFormed (reads_of_wellFormed callee wellFormed.2.2.2.1)
      (all_read arguments wellFormed.2.2.2.2)
  | .get object _, wellFormed => reads_get wellFormed (reads_of_wellFormed object wellFormed.2.2)
  | .set object _ value, wellFormed =>
    reads_set wellFormed (reads_of_wellFormed object wellFormed.2.2.1)
      (reads_of_wellFormed value wellFormed.2.2.2)
  | .this id _, wellFormed => reads_this id wellFormed
  | .super id _ _, wellFormed => reads_super id wellFormed.1 wellFormed.2

theorem all_read : (es : List Expr) → Expr.AllWellFormed es → ∀ e ∈ es, e.WellFormed ∧ Reads e
  | [], _ => by simp
  | e :: rest, wellFormed =>
    List.forall_mem_cons.mpr ⟨⟨wellFormed.1, reads_of_wellFormed e wellFormed.1⟩,
      all_read rest wellFormed.2⟩

end

theorem accepts_expression (wellFormed : e.WellFormed) (spelled : Spelled e.marks ts)
    {rest : List Token} (ends : Ends .assignment rest) : Accepts expression ts rest e.Same := by
  intro s hs
  have starts := startsAt_level e wellFormed spelled
  exact (reads_of_wellFormed e wellFormed).nested spelled starts
    (show ts.length ≤ s.rest.length by simp [hs]) ends s hs

end Parser

end Lox
