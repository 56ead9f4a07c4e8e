import Lox.Proofs.Printed.Legible
import Lox.Proofs.Alike.Trees

namespace Lox

open Bracketed (round curly ofString)

variable {number : Float → String}

def Matching.unplaced : Matching := .unnumbered ⟨fun _ _ => True⟩

theorem plain_ofString {text : String}
    (isWord : Bracketed.IsWord text.toList := by decide +kernel) : (ofString text).Plain := isWord

theorem not_break {P : Char → Prop} {c : Char} (holds : P c)
    (fails : ¬P ' ' ∧ ¬P '(' ∧ ¬P ')' ∧ ¬P '\x7b' ∧ ¬P '\x7d') : Bracketed.isBreak c = false := by
  refine Bool.eq_false_iff.mpr fun breaks => ?_
  obtain ⟨space, left, right, open', close'⟩ := fails
  simp only [Bracketed.isBreak, List.mem_cons, List.not_mem_nil, or_false,
    decide_eq_true_eq] at breaks
  rcases breaks with rfl | rfl | rfl | rfl | rfl <;> contradiction

theorem not_break_of_continues {c : Char} (continues : ContinuesName c) :
    Bracketed.isBreak c = false :=
  not_break continues (by decide)

theorem not_break_of_digit {c : Char} (digit : c.isDigit = true ∨ c = '.') :
    Bracketed.isBreak c = false :=
  not_break (P := fun c => c.isDigit = true ∨ c = '.') digit (by decide)

theorem Token.IsName.starts {t : Token} (h : t.IsName) :
    ∃ first others, t.lexeme.toList = first :: others ∧ StartsName first ∧
      (∀ c ∈ others, ContinuesName c) ∧
      ∀ word ∈ Symbol.words, word.spelling.toList ≠ first :: others := by
  have lexeme := h.2
  generalize t.lexeme.toList = text at lexeme ⊢
  cases lexeme with
  | name starts continues free => exact ⟨_, _, rfl, starts, continues, free⟩

theorem Token.IsName.plain {t : Token} (h : t.IsName) : (ofString t.lexeme).Plain := by
  obtain ⟨first, others, text, starts, continues, -⟩ := h.starts
  rw [Bracketed.ofString, text]
  refine ⟨List.cons_ne_nil _ _, List.forall_mem_cons.mpr ⟨?_, ?_⟩⟩
  · refine not_break_of_continues ?_
    rcases starts with letter | underscore
    · exact .inl (by simp [Char.isAlphanum, letter])
    · exact .inr underscore
  · exact fun c member => not_break_of_continues (continues c member)

theorem Token.IsOneOf.plain {symbols : List Symbol} {t : Token} (h : t.IsOneOf symbols)
    (plain : ∀ fixed ∈ symbols, Bracketed.IsWord fixed.spelling.toList) :
    (ofString t.lexeme).Plain := by
  obtain ⟨fixed, member, -, same⟩ := h
  rw [same]
  exact plain fixed member

theorem WritesNumerals.plain (writes : WritesNumerals number) {x : Float} (h : IsNumeral x) :
    (ofString (number x)).Plain :=
  ⟨writes.some x h, fun c member => not_break_of_digit (writes.digits x h c member)⟩

namespace Expr

mutual

theorem plain_bracketed (writes : WritesNumerals number) : (e : Expr) → e.Legible →
    (e.bracketed number).Plain
  | literal (.number _), legible => writes.plain legible
  | literal (.string _), legible => legible.elim
  | literal (.bool true), _ => show (ofString "true").Plain from plain_ofString
  | literal (.bool false), _ => show (ofString "false").Plain from plain_ofString
  | literal .nil, _ => show (ofString "nil").Plain from plain_ofString
  | grouping inner, legible => ⟨plain_ofString, plain_bracketed writes inner legible, trivial⟩
  | unary _ operand, ⟨isOperator, legible⟩ =>
    ⟨isOperator.plain (by decide +kernel), plain_bracketed writes operand legible, trivial⟩
  | binary left _ right, ⟨isOperator, legible, legible'⟩
  | logical left _ right, ⟨isOperator, legible, legible'⟩ =>
    ⟨isOperator.plain (by decide +kernel), plain_bracketed writes left legible,
      plain_bracketed writes right legible', trivial⟩
  | var _ _, isName => isName.plain
  | assign _ _ value, ⟨isName, legible⟩ =>
    ⟨plain_ofString, isName.plain, plain_bracketed writes value legible, trivial⟩
  | call callee _ arguments, ⟨_, legible, legible'⟩ =>
    ⟨plain_ofString, plain_bracketed writes callee legible,
      allPlain_bracketed writes arguments legible'⟩
  | get object _, ⟨isName, legible⟩ =>
    ⟨plain_ofString, plain_bracketed writes object legible, isName.plain, trivial⟩
  | set object _ value, ⟨isName, legible, legible'⟩ =>
    ⟨plain_ofString,
      ⟨plain_ofString, plain_bracketed writes object legible, isName.plain, trivial⟩,
      plain_bracketed writes value legible', trivial⟩
  | this _ _, _ => plain_ofString
  | super _ _ _, ⟨_, isName⟩ => ⟨plain_ofString, isName.plain, trivial⟩

theorem allPlain_bracketed (writes : WritesNumerals number) : (es : List Expr) → AllLegible es →
    Bracketed.AllPlain (allBracketed number es)
  | [], _ => trivial
  | e :: rest, ⟨legible, legible'⟩ =>
    ⟨plain_bracketed writes e legible, allPlain_bracketed writes rest legible'⟩

end

end Expr

theorem Expr.plain_option (writes : WritesNumerals number) {e : Option Expr}
    (legible : ∀ inner ∈ e, inner.Legible) : Bracketed.AllPlain (optionBracketed number e) := by
  cases e with
  | none => trivial
  | some inner => exact ⟨inner.plain_bracketed writes (legible inner rfl), trivial⟩

theorem plain_params {params : List Token} (areNames : ∀ param ∈ params, param.IsName) :
    (paramsBracketed params).Plain := by
  show Bracketed.AllPlain _
  induction params with
  | nil => trivial
  | cons param params ih =>
    obtain ⟨first, others⟩ := List.forall_mem_cons.mp areNames
    exact ⟨first.plain, ih others⟩

theorem Bracketed.allPlain_append {parts rest : List Bracketed} (first : AllPlain parts)
    (others : AllPlain rest) : AllPlain (parts ++ rest) := by
  induction parts with
  | nil => exact others
  | cons part parts ih => exact ⟨first.1, ih first.2⟩

namespace Stmt

mutual

theorem functionPlain (writes : WritesNumerals number) : (d : FunctionDecl) → FunctionLegible d →
    Bracketed.AllPlain (functionBracketed number d)
  | ⟨_, _, body⟩, ⟨isName, areNames, legible⟩ =>
    ⟨isName.plain, plain_params areNames, allPlain_bracketed writes body legible, trivial⟩

theorem methodsPlain (writes : WritesNumerals number) :
    (ds : List FunctionDecl) → MethodsLegible ds →
    Bracketed.AllPlain (methodsBracketed number ds)
  | [], _ => trivial
  | d :: rest, ⟨legible, legible'⟩ =>
    Bracketed.allPlain_append (functionPlain writes d legible) (methodsPlain writes rest legible')

theorem plain_bracketed (writes : WritesNumerals number) : (s : Stmt) → s.Legible →
    (s.bracketed number).Plain
  | expression value, legible | print value, legible =>
    ⟨plain_ofString, value.plain_bracketed writes legible, trivial⟩
  | var _ _, ⟨isName, legible⟩ =>
    ⟨plain_ofString, isName.plain, Expr.plain_option writes legible⟩
  | block statements, legible => allPlain_bracketed writes statements legible
  | branch condition thenBranch none, ⟨legible, legible'⟩ =>
    ⟨plain_ofString, condition.plain_bracketed writes legible,
      plain_bracketed writes thenBranch legible', trivial⟩
  | branch condition thenBranch (some elseBranch), ⟨legible, legible', legible''⟩ =>
    ⟨plain_ofString, condition.plain_bracketed writes legible,
      plain_bracketed writes thenBranch legible', plain_bracketed writes elseBranch legible'',
      trivial⟩
  | loop condition body, ⟨legible, legible'⟩ =>
    ⟨plain_ofString, condition.plain_bracketed writes legible,
      plain_bracketed writes body legible', trivial⟩
  | function declaration, legible =>
    ⟨plain_ofString, functionPlain writes declaration legible⟩
  | ret _ _, ⟨_, legible⟩ => ⟨plain_ofString, Expr.plain_option writes legible⟩
  | classDecl _ none methods, ⟨isName, _, legible⟩ =>
    ⟨plain_ofString, isName.plain, methodsPlain writes methods legible⟩
  | classDecl _ (some superclass) methods, ⟨isName, inherits, legible⟩ =>
    ⟨plain_ofString, isName.plain, plain_ofString,
      superclass.plain_bracketed writes (inherits _ rfl), methodsPlain writes methods legible⟩

theorem allPlain_bracketed (writes : WritesNumerals number) : (ss : List Stmt) → AllLegible ss →
    Bracketed.AllPlain (allBracketed number ss)
  | [], _ => trivial
  | s :: rest, ⟨legible, legible'⟩ =>
    ⟨plain_bracketed writes s legible, allPlain_bracketed writes rest legible'⟩

end

end Stmt

inductive Expr.Shape where
  | literal | grouping | unary | binary | logical | var | assign | call | get | set | this | super
deriving DecidableEq

def Expr.shape : Expr → Shape
  | literal _ => .literal
  | grouping _ => .grouping
  | unary .. => .unary
  | binary .. => .binary
  | logical .. => .logical
  | var .. => .var
  | assign .. => .assign
  | call .. => .call
  | get .. => .get
  | set .. => .set
  | this .. => .this
  | super .. => .super

namespace Bracketed

/-- The trees that are printed as one word. -/
def wordShape (text : List Char) : Expr.Shape :=
  if StartsName (text.headD ' ') then
    if text ∈ ["true".toList, "false".toList, "nil".toList] then .literal
    else if text = "this".toList then .this
    else .var
  else .literal

def headShape (text : List Char) : Option Expr.Shape :=
  if text = "group".toList then some .grouping
  else if text = "call".toList then some .call
  else if text = ".".toList then some .get
  else if text = "super".toList then some .super
  else if text ∈ Expr.logicalOperators.map fun fixed => fixed.spelling.toList then some .logical
  else none

def exprShape : Bracketed → Expr.Shape
  | word text => wordShape text
  | round (word head :: rest) =>
    match headShape head with
    | some shape => shape
    | none =>
      if head = "=".toList then
        match rest with
        | round _ :: _ => .set
        | _ => .assign
      else match rest with
        | [_] => .unary
        | _ => .binary
  | _ => .literal

end Bracketed

theorem WritesNumerals.noWord (writes : WritesNumerals number) {x : Float} (h : IsNumeral x) :
    ∃ c others, (number x).toList = c :: others ∧ ¬StartsName c := by
  obtain ⟨c, others, text⟩ := List.exists_cons_of_ne_nil (writes.some x h)
  refine ⟨c, others, text, ?_⟩
  rcases writes.digits x h c (by rw [text]; exact List.mem_cons_self) with digit | rfl
  · intro starts
    rw [starts.not_digit] at digit
    cases digit
  · decide

theorem Expr.shape_bracketed (writes : WritesNumerals number) :
    (e : Expr) → e.Legible → (e.bracketed number).exprShape = e.shape
  | literal (.number x), legible => by
    obtain ⟨c, others, text, noName⟩ := writes.noWord legible
    show Bracketed.wordShape (number x).toList = _
    rw [Bracketed.wordShape, text, List.headD_cons, if_neg noName]
    rfl
  | literal (.string _), legible => legible.elim
  | literal (.bool true), _ => show Bracketed.wordShape "true".toList = .literal by decide +kernel
  | literal (.bool false), _ => show Bracketed.wordShape "false".toList = .literal by decide +kernel
  | literal .nil, _ => show Bracketed.wordShape "nil".toList = .literal by decide +kernel
  | grouping _, _ => rfl
  | unary operator _, ⟨⟨fixed, member, _, same⟩, _⟩ => by
    have noHead : ∀ fixed ∈ unaryOperators, Bracketed.headShape fixed.spelling.toList = none ∧
      fixed.spelling.toList ≠ "=".toList := by decide
    simp only [bracketed, same, ofString, Bracketed.exprShape, noHead fixed member, if_false]
    rfl
  | binary _ operator _, ⟨⟨fixed, member, _, same⟩, _⟩ => by
    have noHead : ∀ fixed ∈ binaryOperators, Bracketed.headShape fixed.spelling.toList = none ∧
      fixed.spelling.toList ≠ "=".toList := by decide
    simp only [bracketed, same, ofString, Bracketed.exprShape, noHead fixed member, if_false]
    rfl
  | logical _ operator _, ⟨⟨fixed, member, _, same⟩, _⟩ => by
    have head : ∀ fixed ∈ logicalOperators,
      Bracketed.headShape fixed.spelling.toList = some .logical := by decide
    simp only [bracketed, same, ofString, Bracketed.exprShape, head fixed member]
    rfl
  | var _ name, isName => by
    obtain ⟨first, others, text, starts, -, free⟩ := isName.starts
    have other (word : Symbol) (member : word ∈ Symbol.words) :
      name.lexeme.toList ≠ word.spelling.toList := fun same => free word member (same ▸ text)
    have noLiteral : name.lexeme.toList ∉ ["true".toList, "false".toList, "nil".toList] := by
      simp only [List.mem_cons, List.not_mem_nil, or_false, not_or]
      exact ⟨other .trueWord (by decide), other .falseWord (by decide), other .nilWord (by decide)⟩
    show Bracketed.wordShape _ = _
    have noThis : name.lexeme.toList ≠ "this".toList := other .thisWord (by decide)
    have begins : StartsName (name.lexeme.toList.headD ' ') := by rw [text]; exact starts
    rw [Bracketed.wordShape, if_pos begins, if_neg noLiteral, if_neg noThis]
    rfl
  | assign _ _ _, _ => rfl
  | call _ _ _, _ => rfl
  | get _ _, _ => rfl
  | set _ _ _, _ => rfl
  | this _ _, _ => rfl
  | super _ _ _, _ => rfl

theorem ofString_injective {text text' : String} (same : ofString text = ofString text') :
    text = text' := by
  rw [Bracketed.ofString, Bracketed.ofString, Bracketed.word.injEq] at same
  exact String.toList_injective same

theorem Token.IsName.like {t t' : Token} (h : t.IsName) (h' : t'.IsName)
    (same : ofString t.lexeme = ofString t'.lexeme) : t.Like Matching.unplaced t' :=
  ⟨h'.1.trans h.1.symm, (ofString_injective same).symm, trivial⟩

theorem Token.IsOneOf.like {symbols : List Symbol} {t t' : Token} (h : t.IsOneOf symbols)
    (h' : t'.IsOneOf symbols) (same : ofString t.lexeme = ofString t'.lexeme) :
    t.Like Matching.unplaced t' := by
  obtain ⟨fixed, -, kind, lexeme⟩ := h
  obtain ⟨fixed', -, kind', lexeme'⟩ := h'
  have texts := ofString_injective same
  obtain rfl : fixed = fixed' := spelling_injective (by rw [← lexeme, ← lexeme', texts])
  exact ⟨kind'.trans kind.symm, texts.symm, trivial⟩

theorem Token.IsOneOf.like_single {fixed : Symbol} {t t' : Token} (h : t.IsOneOf [fixed])
    (h' : t'.IsOneOf [fixed]) : t.Like Matching.unplaced t' := by
  refine h.like h' ?_
  obtain ⟨_, member, -, lexeme⟩ := h
  obtain ⟨_, member', -, lexeme'⟩ := h'
  rw [lexeme, lexeme', List.mem_singleton.mp member, List.mem_singleton.mp member']

theorem Literal.eq_of_text (writes : WritesNumerals number) {v v' : Literal} (legible : v.Legible)
    (legible' : v'.Legible) (same : v.text number = v'.text number) : v = v' := by
  have apart (x : Float) (numeral : IsNumeral x) :
      number x ≠ "true" ∧ number x ≠ "false" ∧ number x ≠ "nil" := by
    obtain ⟨c, others, text, noName⟩ := writes.noWord numeral
    refine ⟨?_, ?_, ?_⟩
    all_goals
      intro same
      rw [same] at text
      cases text
      revert noName
      decide
  cases v with
  | string contents => exact legible.elim
  | number x =>
    obtain ⟨notTrue, notFalse, notNil⟩ := apart x legible
    cases v' with
    | string contents => exact legible'.elim
    | number x' => rw [writes.injective x x' legible legible' same]
    | bool value =>
      cases value
      · exact absurd same notFalse
      · exact absurd same notTrue
    | nil => exact absurd same notNil
  | bool value =>
    cases v' with
    | string contents => exact legible'.elim
    | number x' =>
      obtain ⟨notTrue, notFalse, -⟩ := apart x' legible'
      cases value
      · exact absurd same.symm notFalse
      · exact absurd same.symm notTrue
    | bool value' => cases value <;> cases value' <;> simp_all [text]
    | nil => cases value <;> simp [text] at same
  | nil =>
    cases v' with
    | string contents => exact legible'.elim
    | number x' => exact absurd same.symm (apart x' legible').2.2
    | bool value => cases value <;> simp [text] at same
    | nil => rfl

namespace Expr

theorem shape_eq (writes : WritesNumerals number) {e e' : Expr} (legible : e.Legible)
    (legible' : e'.Legible) (same : e.bracketed number = e'.bracketed number) :
    e.shape = e'.shape := by
  rw [← e.shape_bracketed writes legible, ← e'.shape_bracketed writes legible', same]

mutual

theorem like_of_bracketed (writes : WritesNumerals number) : (e e' : Expr) → e.Legible →
    e'.Legible → e.bracketed number = e'.bracketed number → e.Like .unplaced e'
  | literal value, e', legible, legible', same => by
    have shapes := shape_eq writes legible legible' same
    cases e' with
    | literal value' =>
      obtain rfl := Literal.eq_of_text writes legible legible' (ofString_injective same)
      exact .literal _
    | _ => cases shapes
  | grouping inner, e', legible, legible', same => by
    have shapes := shape_eq writes legible legible' same
    cases e' with
    | grouping inner' =>
      simp only [bracketed, Bracketed.round.injEq, List.cons.injEq] at same
      exact .grouping (like_of_bracketed writes inner inner' legible legible' same.2.1)
    | _ => cases shapes
  | unary operator operand, e', legible, legible', same => by
    have shapes := shape_eq writes legible legible' same
    cases e' with
    | unary operator' operand' =>
      simp only [bracketed, Bracketed.round.injEq, List.cons.injEq] at same
      exact .unary (legible.1.like legible'.1 same.1)
        (like_of_bracketed writes operand operand' legible.2 legible'.2 same.2.1)
    | _ => cases shapes
  | binary left operator right, e', legible, legible', same => by
    have shapes := shape_eq writes legible legible' same
    cases e' with
    | binary left' operator' right' =>
      simp only [bracketed, Bracketed.round.injEq, List.cons.injEq] at same
      exact .binary (like_of_bracketed writes left left' legible.2.1 legible'.2.1 same.2.1)
        (legible.1.like legible'.1 same.1)
        (like_of_bracketed writes right right' legible.2.2 legible'.2.2 same.2.2.1)
    | _ => cases shapes
  | logical left operator right, e', legible, legible', same => by
    have shapes := shape_eq writes legible legible' same
    cases e' with
    | logical left' operator' right' =>
      simp only [bracketed, Bracketed.round.injEq, List.cons.injEq] at same
      exact .logical (like_of_bracketed writes left left' legible.2.1 legible'.2.1 same.2.1)
        (legible.1.like legible'.1 same.1)
        (like_of_bracketed writes right right' legible.2.2 legible'.2.2 same.2.2.1)
    | _ => cases shapes
  | var id name, e', legible, legible', same => by
    have shapes := shape_eq writes legible legible' same
    cases e' with
    | var id' name' => exact .var trivial (Token.IsName.like legible legible' same)
    | _ => cases shapes
  | assign id name value, e', legible, legible', same => by
    have shapes := shape_eq writes legible legible' same
    cases e' with
    | assign id' name' value' =>
      simp only [bracketed, Bracketed.round.injEq, List.cons.injEq] at same
      exact .assign trivial (legible.1.like legible'.1 same.2.1)
        (like_of_bracketed writes value value' legible.2 legible'.2 same.2.2.1)
    | _ => cases shapes
  | call callee paren arguments, e', legible, legible', same => by
    have shapes := shape_eq writes legible legible' same
    cases e' with
    | call callee' paren' arguments' =>
      simp only [bracketed, Bracketed.round.injEq, List.cons.injEq] at same
      exact .call (like_of_bracketed writes callee callee' legible.2.1 legible'.2.1 same.2.1)
        (legible.1.like_single legible'.1)
        (allLike_of_bracketed writes arguments arguments' legible.2.2 legible'.2.2 same.2.2)
    | _ => cases shapes
  | get object name, e', legible, legible', same => by
    have shapes := shape_eq writes legible legible' same
    cases e' with
    | get object' name' =>
      simp only [bracketed, Bracketed.round.injEq, List.cons.injEq] at same
      exact .get (like_of_bracketed writes object object' legible.2 legible'.2 same.2.1)
        (legible.1.like legible'.1 same.2.2.1)
    | _ => cases shapes
  | set object name value, e', legible, legible', same => by
    have shapes := shape_eq writes legible legible' same
    cases e' with
    | set object' name' value' =>
      simp only [bracketed, Bracketed.round.injEq, List.cons.injEq] at same
      obtain ⟨-, ⟨-, objects, names, -⟩, values, -⟩ := same
      exact .set (like_of_bracketed writes object object' legible.2.1 legible'.2.1 objects)
        (legible.1.like legible'.1 names)
        (like_of_bracketed writes value value' legible.2.2 legible'.2.2 values)
    | _ => cases shapes
  | this id keyword, e', legible, legible', same => by
    have shapes := shape_eq writes legible legible' same
    cases e' with
    | this id' keyword' => exact .this trivial (Token.IsOneOf.like_single legible legible')
    | _ => cases shapes
  | super id keyword method, e', legible, legible', same => by
    have shapes := shape_eq writes legible legible' same
    cases e' with
    | super id' keyword' method' =>
      simp only [bracketed, Bracketed.round.injEq, List.cons.injEq] at same
      exact .super trivial (legible.1.like_single legible'.1) (legible.2.like legible'.2 same.2.1)
    | _ => cases shapes

theorem allLike_of_bracketed (writes : WritesNumerals number) : (es es' : List Expr) →
    AllLegible es → AllLegible es' → allBracketed number es = allBracketed number es' →
      AllLike .unplaced es es'
  | [], [], _, _, _ => .nil
  | e :: rest, e' :: rest', ⟨legible, others⟩, ⟨legible', others'⟩, same => by
    simp only [allBracketed, List.cons.injEq] at same
    exact .cons (like_of_bracketed writes e e' legible legible' same.1)
      (allLike_of_bracketed writes rest rest' others others' same.2)

end

theorem optionLike_of_bracketed (writes : WritesNumerals number) {e e' : Option Expr}
    (legible : ∀ inner ∈ e, inner.Legible) (legible' : ∀ inner ∈ e', inner.Legible)
    (same : optionBracketed number e = optionBracketed number e') : OptionLike .unplaced e e' := by
  cases e with
  | none =>
    cases e' with
    | none => exact .none
    | some inner' => cases same
  | some inner =>
    cases e' with
    | none => cases same
    | some inner' =>
      simp only [optionBracketed, Option.map_some, Option.toList_some, List.cons.injEq] at same
      exact .some (like_of_bracketed writes inner inner' (legible _ rfl) (legible' _ rfl) same.1)

end Expr

theorem params_like_of_bracketed {params params' : List Token}
    (areNames : ∀ param ∈ params, param.IsName) (areNames' : ∀ param ∈ params', param.IsName)
    (same : paramsBracketed params = paramsBracketed params') :
    List.Forall₂ (Token.Like Matching.unplaced) params params' := by
  rw [paramsBracketed, paramsBracketed, Bracketed.round.injEq] at same
  induction params generalizing params' with
  | nil =>
    cases params' with
    | nil => exact .nil
    | cons param' params' => cases same
  | cons param params ih =>
    cases params' with
    | nil => cases same
    | cons param' params' =>
      obtain ⟨first, others⟩ := List.forall_mem_cons.mp areNames
      obtain ⟨first', others'⟩ := List.forall_mem_cons.mp areNames'
      simp only [List.map_cons, List.cons.injEq] at same
      exact .cons (first.like first' same.1) (ih others others' same.2)

inductive Stmt.Shape where
  | expression | print | var | block | branch | loop | function | ret | classDecl
deriving DecidableEq

def Stmt.shape : Stmt → Shape
  | expression _ => .expression
  | print _ => .print
  | var .. => .var
  | block _ => .block
  | branch .. => .branch
  | loop .. => .loop
  | function _ => .function
  | ret .. => .ret
  | classDecl .. => .classDecl

def Bracketed.stmtShape : Bracketed → Stmt.Shape
  | round (word head :: _) =>
    if head = ";".toList then .expression
    else if head = "print".toList then .print
    else if head = "var".toList then .var
    else if head = "if".toList then .branch
    else if head = "while".toList then .loop
    else if head = "fun".toList then .function
    else if head = "return".toList then .ret
    else .classDecl
  | _ => .block

namespace Stmt

theorem shape_bracketed (number : Float → String) (s : Stmt) :
    (s.bracketed number).stmtShape = s.shape := by
  cases s with
  | branch condition thenBranch elseBranch => cases elseBranch <;> rfl
  | classDecl name superclass methods => cases superclass <;> rfl
  | _ => rfl

theorem shape_eq {s s' : Stmt} (same : s.bracketed number = s'.bracketed number) :
    s.shape = s'.shape := by
  rw [← s.shape_bracketed number, ← s'.shape_bracketed number, same]

theorem methodsBracketed_ne {ds : List FunctionDecl} (legible : MethodsLegible ds)
    (rest : List Bracketed) : methodsBracketed number ds ≠ ofString "<" :: rest := by
  intro same
  cases ds with
  | nil => cases same
  | cons d ds =>
    obtain ⟨name, params, body⟩ := d
    obtain ⟨first, others, text, starts, -⟩ := legible.1.1.starts
    have sign : name.lexeme = "<" := ofString_injective (List.cons.inj same).1
    rw [sign] at text
    cases text
    revert starts
    decide

mutual

theorem functionLike_of_bracketed (writes : WritesNumerals number) : (d d' : FunctionDecl) →
    FunctionLegible d → FunctionLegible d' →
      functionBracketed number d = functionBracketed number d' → FunctionLike .unplaced d d'
  | ⟨name, params, body⟩, ⟨name', params', body'⟩, ⟨isName, areNames, legible⟩,
      ⟨isName', areNames', legible'⟩, same => by
    simp only [functionBracketed, List.cons.injEq, Bracketed.curly.injEq] at same
    exact .mk (isName.like isName' same.1) (params_like_of_bracketed areNames areNames' same.2.1)
      (allLike_of_bracketed writes body body' legible legible' same.2.2.1)

theorem methodsLike_of_bracketed (writes : WritesNumerals number) : (ds ds' : List FunctionDecl) →
    MethodsLegible ds → MethodsLegible ds' →
      methodsBracketed number ds = methodsBracketed number ds' → MethodsLike .unplaced ds ds'
  | [], [], _, _, _ => .nil
  | [], ⟨_, _, _⟩ :: _, _, _, same => nomatch same
  | ⟨_, _, _⟩ :: _, [], _, _, same => nomatch same
  | d :: rest, d' :: rest', ⟨legible, others⟩, ⟨legible', others'⟩, same => by
    have three (d : FunctionDecl) : (functionBracketed number d).length = 3 := by cases d; rfl
    obtain ⟨first, later⟩ := List.append_inj same ((three d).trans (three d').symm)
    exact .cons (functionLike_of_bracketed writes d d' legible legible' first)
      (methodsLike_of_bracketed writes rest rest' others others' later)

theorem like_of_bracketed (writes : WritesNumerals number) : (s s' : Stmt) → s.Legible →
    s'.Legible → s.bracketed number = s'.bracketed number → s.Like .unplaced s'
  | expression value, s', legible, legible', same => by
    have shapes := shape_eq same
    cases s' with
    | expression value' =>
      simp only [bracketed, Bracketed.round.injEq, List.cons.injEq] at same
      exact .expression (value.like_of_bracketed writes value' legible legible' same.2.1)
    | _ => cases shapes
  | print value, s', legible, legible', same => by
    have shapes := shape_eq same
    cases s' with
    | print value' =>
      simp only [bracketed, Bracketed.round.injEq, List.cons.injEq] at same
      exact .print (value.like_of_bracketed writes value' legible legible' same.2.1)
    | _ => cases shapes
  | var name initializer, s', legible, legible', same => by
    have shapes := shape_eq same
    cases s' with
    | var name' initializer' =>
      simp only [bracketed, Bracketed.round.injEq, List.cons.injEq] at same
      exact .var (legible.1.like legible'.1 same.2.1)
        (Expr.optionLike_of_bracketed writes legible.2 legible'.2 same.2.2)
    | _ => cases shapes
  | block statements, s', legible, legible', same => by
    have shapes := shape_eq same
    cases s' with
    | block statements' =>
      simp only [bracketed, Bracketed.curly.injEq] at same
      exact .block (allLike_of_bracketed writes statements statements' legible legible' same)
    | _ => cases shapes
  | branch condition thenBranch none, s', legible, legible', same => by
    have shapes := shape_eq same
    cases s' with
    | branch condition' thenBranch' elseBranch' =>
      cases elseBranch' with
      | some elseBranch' => simp [bracketed] at same
      | none =>
        simp only [bracketed, Bracketed.round.injEq, List.cons.injEq] at same
        exact .branch (condition.like_of_bracketed writes condition' legible.1 legible'.1 same.2.1)
          (like_of_bracketed writes thenBranch thenBranch' legible.2 legible'.2 same.2.2.1)
    | _ => cases shapes
  | branch condition thenBranch (some elseBranch), s', legible, legible', same => by
    have shapes := shape_eq same
    cases s' with
    | branch condition' thenBranch' elseBranch' =>
      cases elseBranch' with
      | none => simp [bracketed] at same
      | some elseBranch' =>
        simp only [bracketed, Bracketed.round.injEq, List.cons.injEq] at same
        obtain ⟨-, conditions, firsts, seconds, -⟩ := same
        exact .branchElse
          (condition.like_of_bracketed writes condition' legible.1 legible'.1 conditions)
          (like_of_bracketed writes thenBranch thenBranch' legible.2.1 legible'.2.1 firsts)
          (like_of_bracketed writes elseBranch elseBranch' legible.2.2 legible'.2.2 seconds)
    | _ => cases shapes
  | loop condition body, s', legible, legible', same => by
    have shapes := shape_eq same
    cases s' with
    | loop condition' body' =>
      simp only [bracketed, Bracketed.round.injEq, List.cons.injEq] at same
      exact .loop (condition.like_of_bracketed writes condition' legible.1 legible'.1 same.2.1)
        (like_of_bracketed writes body body' legible.2 legible'.2 same.2.2.1)
    | _ => cases shapes
  | function declaration, s', legible, legible', same => by
    have shapes := shape_eq same
    cases s' with
    | function declaration' =>
      simp only [bracketed, Bracketed.round.injEq, List.cons.injEq] at same
      exact .function
        (functionLike_of_bracketed writes declaration declaration' legible legible' same.2)
    | _ => cases shapes
  | ret keyword value, s', legible, legible', same => by
    have shapes := shape_eq same
    cases s' with
    | ret keyword' value' =>
      simp only [bracketed, Bracketed.round.injEq, List.cons.injEq] at same
      exact .ret (legible.1.like_single legible'.1)
        (Expr.optionLike_of_bracketed writes legible.2 legible'.2 same.2)
    | _ => cases shapes
  | classDecl name superclass methods, s', legible, legible', same => by
    have shapes := shape_eq same
    cases s' with
    | classDecl name' superclass' methods' =>
      cases superclass <;> cases superclass' <;>
        simp only [bracketed, Bracketed.round.injEq, List.cons.injEq] at same
      · exact .classDecl (legible.1.like legible'.1 same.2.1) .none
          (methodsLike_of_bracketed writes methods methods' legible.2.2 legible'.2.2 same.2.2)
      · exact absurd same.2.2 (methodsBracketed_ne legible.2.2 _)
      · exact absurd same.2.2.symm (methodsBracketed_ne legible'.2.2 _)
      · obtain ⟨-, names, -, inherited, members⟩ := same
        exact .classDecl (legible.1.like legible'.1 names)
          (.some (Expr.like_of_bracketed writes _ _ (legible.2.1 _ rfl) (legible'.2.1 _ rfl)
            inherited))
          (methodsLike_of_bracketed writes methods methods' legible.2.2 legible'.2.2 members)
    | _ => cases shapes

theorem allLike_of_bracketed (writes : WritesNumerals number) : (ss ss' : List Stmt) →
    AllLegible ss → AllLegible ss' → allBracketed number ss = allBracketed number ss' →
      AllLike .unplaced ss ss'
  | [], [], _, _, _ => .nil
  | s :: rest, s' :: rest', ⟨legible, others⟩, ⟨legible', others'⟩, same => by
    simp only [allBracketed, List.cons.injEq] at same
    exact .cons (like_of_bracketed writes s s' legible legible' same.1)
      (allLike_of_bracketed writes rest rest' others others' same.2)

end

end Stmt

theorem Stmt.allBracketed_eq_of_texts (writes : WritesNumerals number) : (ss ss' : List Stmt) →
    AllLegible ss → AllLegible ss' → texts number ss = texts number ss' →
      allBracketed number ss = allBracketed number ss'
  | [], [], _, _, _ => rfl
  | s :: rest, s' :: rest', ⟨legible, others⟩, ⟨legible', others'⟩, same => by
    simp only [texts, List.cons.injEq] at same
    have written : (s.bracketed number).write = (s'.bracketed number).write := by
      rw [← s.toList_text, ← s'.toList_text, same.1]
    rw [allBracketed, allBracketed,
      allBracketed_eq_of_texts writes rest rest' others others' same.2,
      Bracketed.write_injective (s.plain_bracketed writes legible)
        (s'.plain_bracketed writes legible') written]

/-- Printed programs can be read in one way only: two texts without errors, without strings and with
finite numbers only that have the same printed statements have the same statements but for the ids
of occurrences and the lines of tokens. -/
theorem printed_programs_unique {source source' : String} {firstId firstId' : Nat}
    (writes : WritesNumerals number) (plain : IsPlainSource source firstId)
    (plain' : IsPlainSource source' firstId')
    (same : Stmt.texts number (statementsOf source firstId) =
      Stmt.texts number (statementsOf source' firstId')) :
    Stmt.AllLike .unplaced (statementsOf source firstId) (statementsOf source' firstId') := by
  have legible := plain.legible
  have legible' := plain'.legible
  refine Stmt.allLike_of_bracketed writes _ _ legible legible' ?_
  exact Stmt.allBracketed_eq_of_texts writes _ _ legible legible' same

def bitNumeral (x : Float) : String := if x = 1.0 then "1.0" else Nat.repr x.toBits.toNat

theorem repr_injective {m n : Nat} (same : Nat.repr m = Nat.repr n) : m = n := by
  rw [Nat.repr_eq_ofList_toDigits, Nat.repr_eq_ofList_toDigits] at same
  rw [← Nat.ofDigitChars_toDigits (b := 10) (n := m) (by decide) (by decide),
    String.ofList_injective same, Nat.ofDigitChars_toDigits (by decide) (by decide)]

theorem toBits_injective {x y : Float} (same : x.toBits = y.toBits) : x = y := by
  obtain ⟨⟨bits, _⟩⟩ := x
  obtain ⟨⟨bits', _⟩⟩ := y
  obtain rfl : bits = bits' := same
  rfl

theorem writesNumerals_bitNumeral : WritesNumerals bitNumeral := by
  have digits (n : Nat) : ∀ c ∈ (Nat.repr n).toList, c.isDigit = true := by
    intro c member
    rw [Nat.toList_repr] at member
    exact Nat.isDigit_of_mem_toDigits (by decide) (by decide) member
  have noPoint (n : Nat) : Nat.repr n ≠ "1.0" := by
    intro same
    have point := digits n '.' (by rw [same]; decide)
    revert point
    decide
  refine ⟨fun x _ => ?_, fun x _ => ?_, fun x y _ _ same => ?_⟩
  · unfold bitNumeral
    split
    · decide +kernel
    · rw [Nat.toList_repr]
      exact Nat.toDigits_ne_nil
  · unfold bitNumeral
    split
    · intro c member
      have listed : c ∈ ['1', '.', '0'] := member
      simp only [List.mem_cons, List.not_mem_nil, or_false] at listed
      rcases listed with rfl | rfl | rfl <;> decide
    · exact fun c member => .inl (digits _ c member)
  · unfold bitNumeral at same
    split at same <;> split at same
    · rename_i one one'
      rw [one, one']
    · exact absurd same.symm (noPoint _)
    · exact absurd same (noPoint _)
    · exact toBits_injective (UInt64.toNat_inj.mp (repr_injective same))

theorem print_one_printed_alike :
    Stmt.texts bitNumeral (statementsOf "print 1;" 0) = ["(print 1.0)"] ∧
      Stmt.AllLike .unplaced (statementsOf "print 1;" 0) (statementsOf "print\n1.0;" 5) :=
  ⟨by decide +kernel,
    printed_programs_unique writesNumerals_bitNumeral
      ⟨by decide +kernel, by decide +kernel, by decide +kernel⟩
      ⟨by decide +kernel, by decide +kernel, by decide +kernel⟩ (by decide +kernel)⟩

end Lox
