import Lox.Proofs.Resolution.Locals
import Lox.Proofs.Syntax.Written

namespace Lox

def Token.IsReceiver (t : Token) : Prop :=
  t.kind = .symbol .thisWord ∨ t.kind = .symbol .superWord

/-- None of the tokens that a tree holds is `this` or `super`. -/
def AreReceiverFree (ms : List Mark) : Prop := ∀ t, .exactly t ∈ ms → ¬ t.IsReceiver

namespace AreReceiverFree

variable {ms ns : List Mark} {ts : List Token}

theorem append_iff :
    AreReceiverFree (ms ++ ns) ↔ AreReceiverFree ms ∧ AreReceiverFree ns := by
  simp only [AreReceiverFree, List.mem_append, or_imp, forall_and]

theorem tail {mark : Mark} (h : AreReceiverFree (mark :: ms)) : AreReceiverFree ms :=
  fun t member => h t (List.mem_cons_of_mem _ member)

theorem of_spelled (spelled : Spelled ms ts) (free : ∀ t ∈ ts, ¬ t.IsReceiver) :
    AreReceiverFree ms := by
  have each := spelled.forall_marks (p := fun mark => ∀ t, mark = .exactly t → ¬ t.IsReceiver) ?_
  · exact fun t member => each _ member t rfl
  rintro t member _ admits t' rfl
  obtain rfl : t = t' := admits
  exact free t member

theorem of_arguments {es : List Expr} (h : AreReceiverFree (Expr.argumentMarks es)) :
    ∀ e ∈ es, AreReceiverFree e.marks := by
  intro e member t found
  refine h t ?_
  rw [Expr.argumentMarks_eq]
  cases es with
  | nil => cases member
  | cons first rest =>
    rcases List.mem_cons.mp member with rfl | later
    · exact List.mem_append_left _ found
    · exact List.mem_append_right _
        (List.mem_flatMap.mpr ⟨e, later, List.mem_cons_of_mem _ found⟩)

end AreReceiverFree

namespace Resolution

variable {r : Resolution}

theorem occurrence_of_no_scopes (outside : r.scopes = []) (id : Nat) (name : Token) :
    r.occurrence id name = r := by
  simp [occurrence, distance?, outside]

theorem isPending_of_no_scopes (outside : r.scopes = []) (name : String) :
    r.isPending name = false := by
  simp [isPending, outside]

end Resolution

namespace Expr

variable {enclosing : EnclosingClass} {r : Resolution}

mutual

theorem resolve_of_no_scopes (outside : r.scopes = []) : (e : Expr) → e.WellFormed →
    AreReceiverFree e.marks → e.resolve enclosing r = r
  | literal _, _, _ => rfl
  | grouping inner, wellFormed, free =>
    resolve_of_no_scopes outside inner wellFormed (AreReceiverFree.append_iff.mp free.tail).1
  | unary _ operand, wellFormed, free =>
    resolve_of_no_scopes outside operand wellFormed.2.2 free.tail
  | binary left _ right, ⟨_, _, _, _, _, wellFormed, wellFormed'⟩, free
  | logical left _ right, ⟨_, _, _, _, _, wellFormed, wellFormed'⟩, free => by
    obtain ⟨first, second⟩ := AreReceiverFree.append_iff.mp free
    rw [resolve, resolve_of_no_scopes outside left wellFormed first,
      resolve_of_no_scopes outside right wellFormed' second.tail]
  | var id name, _, _ => by
    rw [resolve, Resolution.isPending_of_no_scopes outside]
    exact Resolution.occurrence_of_no_scopes outside id name
  | assign id name value, wellFormed, free => by
    rw [resolve, resolve_of_no_scopes outside value wellFormed.2 free.tail.tail,
      Resolution.occurrence_of_no_scopes outside]
  | call callee _ arguments, wellFormed, free => by
    obtain ⟨front, -⟩ := AreReceiverFree.append_iff.mp free
    obtain ⟨first, rest⟩ := AreReceiverFree.append_iff.mp front
    rw [resolve, resolve_of_no_scopes outside callee wellFormed.2.2.2.1 first,
      resolveList_of_no_scopes outside arguments wellFormed.2.2.2.2 rest.tail.of_arguments]
  | get object _, wellFormed, free =>
    resolve_of_no_scopes outside object wellFormed.2.2 (AreReceiverFree.append_iff.mp free).1
  | set object _ value, wellFormed, free => by
    obtain ⟨first, rest⟩ := AreReceiverFree.append_iff.mp free
    rw [resolve, resolve_of_no_scopes outside value wellFormed.2.2.2 rest.tail.tail.tail,
      resolve_of_no_scopes outside object wellFormed.2.2.1 first]
  | this _ keyword, wellFormed, free =>
    absurd (.inl wellFormed) (free keyword List.mem_cons_self)
  | super _ keyword _, wellFormed, free =>
    absurd (.inr wellFormed.1) (free keyword List.mem_cons_self)

theorem resolveList_of_no_scopes (outside : r.scopes = []) : (es : List Expr) →
    AllWellFormed es → (∀ e ∈ es, AreReceiverFree e.marks) → resolveList enclosing es r = r
  | [], _, _ => rfl
  | e :: rest, wellFormed, free => by
    obtain ⟨first, others⟩ := List.forall_mem_cons.mp free
    rw [resolveList, resolve_of_no_scopes outside e wellFormed.1 first,
      resolveList_of_no_scopes outside rest wellFormed.2 others]

end

end Expr

end Lox
