import Lox.Proofs.Parser.Reading
import Lox.Proofs.Syntax.Written

namespace Lox

namespace Parser

def ReadsExpr (l : Precedence) (e : Expr) (read _ : List Token) : Prop := SpellsExpr l e read

variable {nested : Parser Expr}

theorem Sound.skip {α : Type} {f : Unit → Parser α} {token : Token}
    {T : α → List Token → List Token → Prop}
    (h : Sound (f ()) fun b vs rest => T b (token :: vs) rest) (us : List Token) :
    Sound (Parser.skip >>= f) fun b vs rest =>
      us = [] ∧ some token = (vs ++ rest).head? → T b (us ++ vs) rest := by
  intro s
  have further := h { s with rest := s.rest.tail }
  rw [bind_ok (show Parser.skip s = .ok () { s with rest := s.rest.tail } from rfl)]
  cases hf : f () { s with rest := s.rest.tail } with
  | error e t => simpa only [hf] using further
  | ok b t =>
    simp only [hf] at further ⊢
    obtain ⟨new, errors, holds⟩ := further
    refine ⟨new, errors, fun none => ?_⟩
    obtain ⟨vs, rest, first⟩ := holds none
    cases hr : s.rest with
    | nil =>
      rw [hr] at rest
      obtain ⟨rfl, empty⟩ := List.append_eq_nil_iff.mp rest.symm
      exact ⟨[], by simp [empty], fun found => by simp [empty] at found⟩
    | cons t' after =>
      rw [hr] at rest
      refine ⟨t' :: vs, by rw [List.cons_append, ← rest]; rfl, fun found => ?_⟩
      obtain ⟨rfl, head⟩ := found
      simp only [List.cons_append, List.head?_cons, Option.some.injEq] at head
      subst head
      exact first

theorem sound_literal {token : Token} (value : Literal) (kind : token.kind = value.kind)
    (us : List Token) :
    Sound (do skip; pure (.literal value)) fun e vs rest =>
      us = [] ∧ some token = (vs ++ rest).head? → ReadsExpr .primary e (us ++ vs) rest := by
  refine Sound.skip (T := ReadsExpr .primary) ?_ us
  exact Sound.pure fun _ => ⟨Precedence.le_refl _, trivial, Spelled.single kind⟩

theorem sound_primary (inner : Sound nested (ReadsExpr .assignment)) :
    Sound (primary nested) (ReadsExpr .primary) := by
  refine Sound.next?.bind fun token us => ?_
  cases token with
  | none => exact Sound.fail _
  | some token =>
    dsimp only
    split
    case h_1 kind => exact sound_literal (.bool false) kind us
    case h_2 kind => exact sound_literal (.bool true) kind us
    case h_3 kind => exact sound_literal .nil kind us
    case h_4 value kind => exact sound_literal (.number value) kind us
    case h_5 contents kind => exact sound_literal (.string contents) kind us
    case h_6 kind =>
      refine Sound.skip (T := ReadsExpr .primary) ?_ us
      refine (Sound.expect _ _).bind fun dot _ => (Sound.expectName _).bind fun method _ =>
        Sound.freshId.bind fun id _ => Sound.pure fun rest => ?_
      rintro rfl ⟨rfl, name⟩ ⟨rfl, isDot⟩
      exact ⟨Precedence.le_refl _, ⟨kind, name⟩,
        .cons rfl (.cons isDot (.cons rfl .nil))⟩
    case h_7 kind =>
      refine Sound.skip (T := ReadsExpr .primary) ?_ us
      refine Sound.freshId.bind fun id _ => Sound.pure fun rest => ?_
      rintro rfl
      exact ⟨Precedence.le_refl _, kind, Spelled.kept token⟩
    case h_8 kind =>
      refine Sound.skip (T := ReadsExpr .primary) ?_ us
      refine Sound.freshId.bind fun id _ => Sound.pure fun rest => ?_
      rintro rfl
      exact ⟨Precedence.le_refl _, kind, Spelled.kept token⟩
    case h_9 kind =>
      refine Sound.skip (T := ReadsExpr .primary) ?_ us
      refine inner.bind fun e ts => (Sound.expect _ _).bind fun closing _ => Sound.pure fun rest => ?_
      rintro ⟨rfl, isClosing⟩ ⟨level, wellFormed, spelled⟩
      exact ⟨Precedence.le_refl _, wellFormed, .cons kind (spelled.append (.symbol isClosing))⟩
    case h_10 => exact Sound.fail _

section Entries

variable {α : Type} {entry : Parser α} {P : α → Prop}

theorem sound_moreEntries {marks : α → List Mark} (overflow : ParseError.Cause)
    (each : Sound entry fun a read _ => P a ∧ Spelled (marks a) read) (fuel : List Token)
    (count : Nat) :
    Sound (moreEntries entry overflow fuel count) fun as read _ =>
      (as = [] ∨ count + as.length ≤ maxEntries) ∧ (∀ a ∈ as, P a) ∧
        Spelled (as.flatMap fun a => .symbol .comma :: marks a) read := by
  induction fuel generalizing count with
  | nil => exact Sound.pure fun _ => ⟨.inl rfl, by simp, .nil⟩
  | cons _ fuel ih =>
    refine (Sound.accepts .comma).bind fun found us => ?_
    refine Sound.ite (fun isFound => ?_) fun notFound => ?_
    · dsimp only
      refine Sound.ite (fun overflows => ?_) fun fits => ?_
      · exact (Sound.reportHere overflow).bind fun _ _ => each.bind fun _ _ =>
          (ih (count + 1)).bind fun _ _ => Sound.pure fun _ _ _ impossible => impossible.elim
      · refine each.bind fun first ts => (ih (count + 1)).bind fun others _ => Sound.pure ?_
        rintro rest ⟨bound, all, spelled⟩ ⟨holds, written⟩ (⟨-, comma, rfl, isComma⟩ | ⟨absent, -⟩)
        · refine ⟨.inr ?_, List.forall_mem_cons.mpr ⟨holds, all⟩, ?_⟩
          · rcases bound with rfl | bound
            · simp only [List.length_cons, List.length_nil]
              omega
            · simp only [List.length_cons]
              omega
          · have behind : Spelled (.symbol .comma :: marks first ++ _) (comma :: ts ++ _) :=
              .cons isComma (written.append spelled)
            simpa using behind
        · simp [isFound] at absent
    · refine Sound.pure fun rest => ?_
      rintro (⟨present, -⟩ | ⟨-, rfl, -⟩)
      · exact (notFound present).elim
      · exact ⟨.inl rfl, by simp, .nil⟩

theorem sound_entries (marks : α → List Mark) (overflow : ParseError.Cause)
    (each : Sound entry fun a read _ => P a ∧ Spelled (marks a) read) :
    Sound (entries entry overflow) fun as read _ =>
      as.length ≤ maxEntries ∧ (∀ a ∈ as, P a) ∧ Spelled (entryMarks marks as) read := by
  refine (Sound.isAt .rightParen).bind fun closes us => ?_
  refine Sound.ite (fun _ => Sound.pure ?_) fun _ => ?_
  · rintro rest rfl
    exact ⟨Nat.zero_le _, by simp, .nil⟩
  · refine each.bind fun first ts => Sound.remaining.bind fun fuel _ =>
      (sound_moreEntries overflow each fuel 1).bind fun others _ => Sound.pure ?_
    rintro rest ⟨bound, all, spelled⟩ ⟨rfl, -⟩ ⟨holds, written⟩ rfl
    refine ⟨?_, List.forall_mem_cons.mpr ⟨holds, all⟩,
      written.append (by simpa only [List.append_nil, List.nil_append] using spelled)⟩
    rcases bound with rfl | bound
    · simp [maxEntries]
    · simp only [List.length_cons]
      omega

end Entries

theorem sound_calls (inner : Sound nested (ReadsExpr .assignment)) (fuel : List Token)
    (callee : Expr) :
    Sound (calls nested fuel callee) fun e read _ =>
      ∀ ts, SpellsExpr .call callee ts → SpellsExpr .call e (ts ++ read) := by
  induction fuel generalizing callee with
  | nil => exact Sound.pure fun _ ts spells => by simpa using spells
  | cons _ fuel ih =>
    refine (Sound.takeIf _).bind fun found us => ?_
    cases found with
    | none =>
      refine Sound.pure fun rest => ?_
      rintro ⟨rfl, -⟩ ts spells
      simpa using spells
    | some token =>
      dsimp only
      refine Sound.ite (fun isDot => ?_) fun notDot => ?_
      · refine (Sound.expectName _).bind fun name _ => (ih _).weaken ?_
        rintro e read rest holds ⟨rfl, isName⟩ ⟨rfl, -⟩ ts spells
        simpa using holds _ (spells.get (by simpa using isDot) isName)
      · refine (sound_entries (P := Expr.WellFormed) Expr.marks _
          (inner.weaken fun e read _ h => ⟨h.wellFormed, h.spelled⟩)).bind fun arguments as =>
            (Sound.expect _ _).bind fun paren _ => (ih _).weaken ?_
        rintro e read rest holds ⟨rfl, isParen⟩ ⟨bound, all, written⟩ ⟨rfl, opens⟩ ts spells
        have opening : token.kind = .symbol .leftParen := by
          simpa [isOneOf, show token.kind ≠ .symbol .dot by simpa using notDot] using opens
        simpa using holds _ (spells.call opening isParen bound all written)

theorem sound_call (inner : Sound nested (ReadsExpr .assignment)) :
    Sound (call nested) (ReadsExpr .call) := by
  refine (sound_primary inner).bind fun callee us => Sound.remaining.bind fun fuel _ =>
    (sound_calls inner fuel callee).weaken ?_
  rintro e read rest holds ⟨rfl, -⟩ ⟨level, wellFormed, spelled⟩
  exact holds us ⟨Precedence.le_of_tighter_le level, wellFormed, spelled⟩

theorem sound_unary (inner : Sound nested (ReadsExpr .assignment)) :
    Sound (unary nested) (ReadsExpr .unary) := by
  refine (Sound.takeWhile _).bind fun operators us => (sound_call inner).bind fun operand _ =>
    Sound.pure ?_
  rintro rest ⟨level, wellFormed, spelled⟩ ⟨rfl, each⟩
  have spells := SpellsExpr.unary each ⟨Precedence.le_of_tighter_le level, wellFormed, spelled⟩
  simpa [ReadsExpr] using spells

theorem sound_chain {k : Precedence}
    (level : k ∈ Precedence.logicalLevels ++ Precedence.binaryLevels) {operand : Parser Expr}
    (each : Sound operand (ReadsExpr k.tighter)) (fuel : List Token) (left : Expr) :
    Sound (chain k.node k.operators operand fuel left) fun e read _ =>
      ∀ ts, SpellsExpr k left ts → SpellsExpr k e (ts ++ read) := by
  induction fuel generalizing left with
  | nil => exact Sound.pure fun _ ts spells => by simpa using spells
  | cons _ fuel ih =>
    refine (Sound.takeIf _).bind fun found us => ?_
    cases found with
    | none =>
      refine Sound.pure fun rest => ?_
      rintro ⟨rfl, -⟩ ts spells
      simpa using spells
    | some operator =>
      refine each.bind fun right vs => (ih _).weaken ?_
      rintro e read rest holds second ⟨rfl, isOperator⟩ ts first
      simpa using holds _ (first.node level isOperator second)

theorem sound_leftAssociative {k : Precedence}
    (level : k ∈ Precedence.logicalLevels ++ Precedence.binaryLevels)
    (tighter : Sound (k.tighter.rule nested) (ReadsExpr k.tighter)) :
    Sound (k.rule nested) (ReadsExpr k) := by
  rw [Precedence.rule_of_mem_levels level]
  refine tighter.bind fun first us => Sound.remaining.bind fun fuel _ =>
    (sound_chain level tighter fuel first).weaken ?_
  rintro e read rest holds ⟨rfl, -⟩ ⟨bound, wellFormed, spelled⟩
  exact holds us ⟨Precedence.le_of_tighter_le bound, wellFormed, spelled⟩

theorem sound_disjunction (inner : Sound nested (ReadsExpr .assignment)) :
    Sound (disjunction nested) (ReadsExpr .disjunction) := by
  have factor := sound_leftAssociative (k := .factor) (by decide) (sound_unary inner)
  have term := sound_leftAssociative (k := .term) (by decide) factor
  have comparison := sound_leftAssociative (k := .comparison) (by decide) term
  have equality := sound_leftAssociative (k := .equality) (by decide) comparison
  have conjunction := sound_leftAssociative (k := .conjunction) (by decide) equality
  exact sound_leftAssociative (k := .disjunction) (by decide) conjunction

theorem sound_assignTo (target : Expr) (equals : Token) (value : Expr) :
    Sound (assignTo target equals value) fun e read _ =>
      read = [] ∧ ((∃ id name, target = .var id name ∧ ∃ id', e = .assign id' name value) ∨
        ∃ object name, target = .get object name ∧ e = .set object name value) := by
  unfold assignTo
  split
  · refine Sound.freshId.bind fun id _ => Sound.pure fun rest => ?_
    rintro rfl
    exact ⟨rfl, .inl ⟨_, _, rfl, _, rfl⟩⟩
  · exact Sound.pure fun _ => ⟨rfl, .inr ⟨_, _, rfl, rfl⟩⟩
  · exact (Sound.report _ _).bind fun _ _ => Sound.pure fun _ impossible => impossible.elim

theorem sound_assignment (inner : Sound nested (ReadsExpr .assignment)) :
    Sound (assignment nested) (ReadsExpr .assignment) := by
  refine (sound_disjunction inner).bind fun target us => (Sound.takeIf _).bind fun found vs => ?_
  cases found with
  | none =>
    refine Sound.pure fun rest => ?_
    rintro ⟨rfl, -⟩ ⟨level, wellFormed, spelled⟩
    exact ⟨Precedence.le_of_tighter_le level, wellFormed, by simpa using spelled⟩
  | some equals =>
    refine inner.bind fun value ws => (sound_assignTo target equals value).weaken ?_
    rintro e read rest ⟨rfl, shape⟩ written ⟨rfl, isEqual⟩ ⟨level, wellFormed, spelled⟩
    have sign : equals.kind = .symbol .equal := by simpa using isEqual
    rcases shape with ⟨id, name, rfl, id', rfl⟩ | ⟨object, name, rfl, rfl⟩
    · obtain ⟨_, _, rfl, empty, rfl⟩ := Spelled.cons_iff.mp spelled
      cases empty
      simpa [ReadsExpr] using written.assign id' wellFormed sign
    · obtain ⟨bound, isName, inside⟩ := wellFormed
      obtain ⟨os, ns, rfl, first, second⟩ := Spelled.append_iff.mp spelled
      obtain ⟨dot, _, isDot, last, rfl⟩ := Spelled.cons_iff.mp second
      obtain ⟨_, _, rfl, empty, rfl⟩ := Spelled.cons_iff.mp last
      cases empty
      simpa [ReadsExpr] using written.set ⟨bound, inside, first⟩ isDot isName sign

theorem sound_expressionAt (fuel : List Token) :
    Sound (expressionAt fuel) (ReadsExpr .assignment) := by
  induction fuel with
  | nil => exact Sound.fail _
  | cons _ fuel ih => exact sound_assignment ih

theorem sound_expression : Sound expression (ReadsExpr .assignment) := by
  refine Sound.remaining.bind fun fuel us => (sound_expressionAt fuel).weaken ?_
  rintro e read rest spells ⟨rfl, -⟩
  exact spells

end Parser

end Lox
