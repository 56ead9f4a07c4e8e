import Mathlib
import Lox.Proofs.Scanning.Factorization

namespace Lox

namespace Placed

variable {passed source : List Char} {placed : List (Item × List Char)}

theorem within (h : Placed passed source placed) {item : Item} {upTo : List Char}
    (member : (item, upTo) ∈ placed) : passed <+: upTo ∧ upTo <+: passed ++ source := by
  induction h with
  | finished => cases member
  | @item passed gap text rest item' placed layout reads others ih =>
    have begins : passed <+: passed ++ gap ++ text := by
      rw [List.append_assoc]
      exact List.prefix_append _ _
    have same : passed ++ gap ++ text ++ rest = passed ++ (gap ++ text ++ rest) := by simp
    rw [← same]
    rcases List.mem_cons.mp member with here | behind
    · cases here
      exact ⟨begins, List.prefix_append _ _⟩
    · obtain ⟨later, inside⟩ := ih behind
      exact ⟨begins.trans later, inside⟩

theorem ordered (h : Placed passed source placed) :
    (placed.map Prod.snd ++ [passed ++ source]).Pairwise (· <+: ·) := by
  induction h with
  | finished => exact List.pairwise_singleton _ _
  | @item passed gap text rest item placed layout reads others ih =>
    have same : passed ++ (gap ++ text ++ rest) = passed ++ gap ++ text ++ rest := by simp
    rw [same, List.map_cons, List.cons_append]
    refine List.pairwise_cons.mpr ⟨fun upTo member => ?_, ih⟩
    rcases List.mem_append.mp member with behind | atEnd
    · obtain ⟨⟨item', _⟩, member', rfl⟩ := List.mem_map.mp behind
      exact (others.within member').1
    · rw [List.mem_singleton.mp atEnd]
      exact List.prefix_append _ _

theorem eq_of_unterminated (h : Placed passed source placed) {line : Nat} {upTo : List Char}
    (member : (.error ⟨.unterminatedString, line⟩, upTo) ∈ placed) : upTo = passed ++ source := by
  induction h with
  | finished => cases member
  | item layout reads others ih =>
    rcases List.mem_cons.mp member with here | behind
    · cases here
      cases reads
      simp
    · simpa using ih behind

theorem lines_ordered (h : Placed passed source placed) {first : Nat}
    (counted : ∀ item upTo, (item, upTo) ∈ placed → item.line = first + upTo.count '\n')
    {last : Item} (ends : last.line = first + (passed ++ source).count '\n') :
    ((placed.map Prod.fst ++ [last]).map Item.line).Pairwise (· ≤ ·) := by
  have lines : (placed.map Prod.fst ++ [last]).map Item.line =
      (placed.map Prod.snd ++ [passed ++ source]).map fun upTo => first + upTo.count '\n' := by
    rw [List.map_append, List.map_append, List.map_map, List.map_map, List.map_singleton, ends]
    congr 1
    exact List.map_inj_left.mpr fun entry member => counted entry.1 entry.2 member
  rw [lines, List.pairwise_map]
  exact h.ordered.imp fun begins => Nat.add_le_add_left (begins.sublist.count_le '\n') first

end Placed

/-- Line numbers are exact. There is one way to cut a text into items and layout, and there each item
is on the line behind the newlines up to the end of its text, the one for the end of the text
included. An open string goes on up to there. -/
theorem lines_are_exact (source : String) :
    ∃ placed, Placed [] source.toList placed ∧
      (∀ cut, Placed [] source.toList cut → cut.map Prod.snd = placed.map Prod.snd) ∧
      scan source = placed.map Prod.fst ++ [.ok ⟨.endOfInput, "", 1 + newlinesOf source⟩] ∧
      (∀ item upTo, (item, upTo) ∈ placed →
        upTo <+: source.toList ∧ item.line = 1 + upTo.count '\n') ∧
      (∀ line, .error ⟨.unterminatedString, line⟩ ∈ scan source → line = 1 + newlinesOf source) ∧
      ((scan source).map Item.line).Pairwise (· ≤ ·) := by
  obtain ⟨placed, last, items_eq, cut, lines⟩ := Scan.placed_items 1 source.toList [] rfl
  obtain ⟨items, ends, -⟩ := scan_ends source
  have scanned : scan source =
      placed.map Prod.fst ++ [.ok ⟨.endOfInput, "", 1 + newlinesOf source⟩] := by
    obtain ⟨rfl, -⟩ := List.append_inj' (items_eq.symm.trans ends) rfl
    exact ends
  have counted : ∀ item upTo, (item, upTo) ∈ placed →
      upTo <+: source.toList ∧ item.line = 1 + upTo.count '\n' :=
    fun item upTo member => ⟨(cut.within member).2, lines item upTo member⟩
  refine ⟨placed, cut, ?_, scanned, counted, ?_, ?_⟩
  · intro cut' other
    simpa [Function.comp_def] using congrArg (List.map Prod.snd) (other.unique cut)
  · intro line member
    obtain ⟨upTo, member⟩ : ∃ upTo, (.error ⟨.unterminatedString, line⟩, upTo) ∈ placed := by
      simpa [scanned] using member
    have line_eq := (counted _ upTo member).2
    rw [cut.eq_of_unterminated member] at line_eq
    exact line_eq
  · rw [scanned]
    exact cut.lines_ordered lines rfl

example : (scan "\"a\nb\" c // \"\n\"d\n").map Item.line = [2, 2, 4, 4] := by cbv

/-- Scanning is compositional at a newline. Behind a text without an open string, and behind one more
newline, any text is read as it is read alone, only further down. -/
theorem scan_composes_at_newline (first second : String)
    (closed : ∀ line, .error ⟨.unterminatedString, line⟩ ∉ scan first) :
    ∃ items, scan first = items ++ [.ok ⟨.endOfInput, "", 1 + newlinesOf first⟩] ∧
      (∀ t, .ok t ∈ items → t.kind ≠ .endOfInput) ∧
      scan (first ++ "\n" ++ second) =
        items ++ (scan second).map (Item.raise (1 + newlinesOf first)) := by
  obtain ⟨items, ends, inner⟩ := scan_ends first
  have closed' : ∀ item ∈ scan first, ¬item.IsUnterminated := by
    rintro (⟨cause, line⟩ | t) member unterminated
    · obtain rfl : cause = .unterminatedString := unterminated
      exact closed line member
    · exact unterminated
  refine ⟨items, ends, inner, ?_⟩
  rw [scan_append second closed', ends, List.dropLast_concat]

/-- An operator is not extended by an equals sign behind the newline. -/
theorem operator_ends_at_newline :
    (∀ line, .error ⟨.unterminatedString, line⟩ ∉ scan "a // b\n@ !") ∧
      scan ("a // b\n@ !" ++ "\n" ++ "= \"") =
        [.ok ⟨.identifier, "a", 1⟩, .error ⟨.unexpectedCharacter '@', 2⟩,
          .ok ⟨.symbol .bang, "!", 2⟩, .ok ⟨.symbol .equal, "=", 3⟩,
          .error ⟨.unterminatedString, 3⟩, .ok ⟨.endOfInput, "", 3⟩] := by
  have alone : scan "a // b\n@ !" = [.ok ⟨.identifier, "a", 1⟩,
      .error ⟨.unexpectedCharacter '@', 2⟩, .ok ⟨.symbol .bang, "!", 2⟩,
      .ok ⟨.endOfInput, "", 2⟩] := by cbv
  have behind : scan "= \"" = [.ok ⟨.symbol .equal, "=", 1⟩, .error ⟨.unterminatedString, 1⟩,
      .ok ⟨.endOfInput, "", 1⟩] := by cbv
  have closed : ∀ line, .error ⟨.unterminatedString, line⟩ ∉ scan "a // b\n@ !" := by
    intro line
    simp [alone]
  obtain ⟨items, ends, -, joined⟩ := scan_composes_at_newline "a // b\n@ !" "= \"" closed
  have parts : items = (scan "a // b\n@ !").dropLast := by rw [ends, List.dropLast_concat]
  refine ⟨closed, ?_⟩
  rw [joined, parts, alone, behind]
  rfl

end Lox
