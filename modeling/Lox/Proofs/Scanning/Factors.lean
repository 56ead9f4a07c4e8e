import Lox.Proofs.Scanning.Lexeme

namespace Lox

/-- The blanks and comments in front of an item. A comment ends in front of its newline, or with the
text. -/
inductive Layout : List Char → List Char → Prop
  | none {rest : List Char} : Layout [] rest
  | blank {c : Char} {gap rest : List Char} (blank : c ∈ [' ', '\t', '\r', '\n'])
      (others : Layout gap rest) : Layout (c :: gap) rest
  | comment {body gap rest : List Char} (inLine : '\n' ∉ body)
      (ends : ∀ c ∈ (gap ++ rest).head?, c = '\n') (others : Layout gap rest) :
      Layout ('/' :: '/' :: body ++ gap) rest

/-- No lexeme that starts here is longer than this one. -/
def IsLongest (lexeme rest : List Char) : Prop :=
  ∀ kind other, Lexeme kind other → other <+: lexeme ++ rest → other.length ≤ lexeme.length

/-- The item that a text is read as, in front of the rest of the source. -/
inductive Reads : Item → List Char → List Char → Prop
  | token {t : Token} {rest : List Char} (lexeme : Lexeme t.kind t.lexeme.toList)
      (noComment : ¬['/', '/'] <+: t.lexeme.toList ++ rest)
      (longest : IsLongest t.lexeme.toList rest) :
      Reads (.ok t) t.lexeme.toList rest
  | unexpected {c : Char} {line : Nat} {rest : List Char} (noBlank : c ∉ [' ', '\t', '\r', '\n'])
      (noQuote : c ≠ '"') (noLexeme : ∀ kind other, Lexeme kind other → ¬other <+: c :: rest) :
      Reads (.error ⟨.unexpectedCharacter c, line⟩) [c] rest
  | unterminated {contents : List Char} {line : Nat} (openEnded : '"' ∉ contents) :
      Reads (.error ⟨.unterminatedString, line⟩) ('"' :: contents) []

/-- A source in pieces: layout and items in turn, with layout at both ends. -/
inductive Factors : List Char → List Item → Prop
  | finished {gap : List Char} (layout : Layout gap []) : Factors gap []
  | item {gap text rest : List Char} {item : Item} {items : List Item}
      (layout : Layout gap (text ++ rest)) (reads : Reads item text rest)
      (others : Factors rest items) : Factors (gap ++ text ++ rest) (item :: items)

/-- The same pieces behind what has been passed on the way, each item with all of the text up to its
end. -/
inductive Placed : List Char → List Char → List (Item × List Char) → Prop
  | finished {passed gap : List Char} (layout : Layout gap []) : Placed passed gap []
  | item {passed gap text rest : List Char} {item : Item} {placed : List (Item × List Char)}
      (layout : Layout gap (text ++ rest)) (reads : Reads item text rest)
      (others : Placed (passed ++ gap ++ text) rest placed) :
      Placed passed (gap ++ text ++ rest) ((item, passed ++ gap ++ text) :: placed)

namespace Placed

variable {passed source : List Char} {placed : List (Item × List Char)}

theorem factors (h : Placed passed source placed) : Factors source (placed.map Prod.fst) := by
  induction h with
  | finished layout => exact .finished layout
  | item layout reads _ ih => exact .item layout reads ih

theorem lead {ahead : List Char}
    (extends' : ∀ gap rest, source = gap ++ rest → Layout gap rest → Layout (ahead ++ gap) rest)
    (h : Placed (passed ++ ahead) source placed) : Placed passed (ahead ++ source) placed := by
  generalize start : passed ++ ahead = passed' at h
  cases h with
  | finished layout => exact .finished (extends' source [] (List.append_nil _).symm layout)
  | @item _ gap text rest item placed layout reads others =>
    have leading : passed' ++ gap ++ text = passed ++ (ahead ++ gap) ++ text := by simp [← start]
    rw [leading] at others ⊢
    have whole := Placed.item (extends' gap _ (List.append_assoc ..) layout) reads others
    simpa only [List.append_assoc] using whole

theorem blank {c : Char} (blank : c ∈ [' ', '\t', '\r', '\n'])
    (h : Placed (passed ++ [c]) source placed) : Placed passed (c :: source) placed :=
  h.lead fun _ _ _ layout => .blank blank layout

theorem comment {body : List Char} (inLine : '\n' ∉ body)
    (ends : ∀ c ∈ source.head?, c = '\n')
    (h : Placed (passed ++ ('/' :: '/' :: body)) source placed) :
    Placed passed ('/' :: '/' :: body ++ source) placed :=
  h.lead fun _ _ whole layout => .comment inLine (whole ▸ ends) layout

theorem read {text : List Char} {item : Item} (reads : Reads item text source)
    (h : Placed (passed ++ text) source placed) :
    Placed passed (text ++ source) ((item, passed ++ text) :: placed) := by
  have whole : Placed (passed ++ [] ++ text) source placed := by rwa [List.append_nil]
  have placed' := Placed.item .none reads whole
  rwa [List.append_nil] at placed'

end Placed

namespace Factors

variable {source : List Char} {items : List Item}

theorem placed (h : Factors source items) (passed : List Char) :
    ∃ placed, Placed passed source placed ∧ placed.map Prod.fst = items := by
  induction h generalizing passed with
  | finished layout => exact ⟨[], .finished layout, rfl⟩
  | item layout reads _ ih =>
    obtain ⟨placed, others, rfl⟩ := ih _
    exact ⟨_, .item layout reads others, rfl⟩

theorem lexeme (h : Factors source items) : ∀ t, .ok t ∈ items → Lexeme t.kind t.lexeme.toList := by
  intro t member
  induction h with
  | finished => exact absurd member List.not_mem_nil
  | item _ reads _ ih =>
    rcases List.mem_cons.mp member with rfl | later
    · cases reads with
      | token lexeme => exact lexeme
    · exact ih later

end Factors

def Item.content : Item → Except LexError.Cause (Kind × String)
  | .ok t => .ok (t.kind, t.lexeme)
  | .error e => .error e.cause

structure Begins (source : List Char) : Prop where
  noBlank : ∀ c ∈ source.head?, c ∉ [' ', '\t', '\r', '\n']
  noComment : ¬['/', '/'] <+: source

theorem Begins.nil : Begins [] := ⟨by simp, by simp⟩

theorem takeWhile_stop {p : Char → Bool} {run tail : List Char} (all : ∀ c ∈ run, p c = true)
    (stops : ∀ c ∈ tail.head?, p c = false) :
    (run ++ tail).takeWhile p = run ∧ (run ++ tail).dropWhile p = tail := by
  rw [List.takeWhile_append_of_pos all, List.dropWhile_append_of_pos all]
  cases tail with
  | nil => simp
  | cons c tail => simp [stops c rfl]

namespace Layout

theorem eq_nil {gap rest : List Char} (h : Layout gap rest) (begins : Begins (gap ++ rest)) :
    gap = [] := by
  cases h with
  | none => rfl
  | blank blank => exact absurd blank (begins.noBlank _ rfl)
  | comment => exact absurd (by simp) begins.noComment

theorem unique {gap gap' rest rest' : List Char} (h : Layout gap rest) (h' : Layout gap' rest')
    (begins : Begins rest) (begins' : Begins rest') (same : gap ++ rest = gap' ++ rest') :
    gap = gap' := by
  induction h generalizing gap' with
  | none =>
    rw [List.nil_append] at same
    exact (h'.eq_nil (same ▸ begins)).symm
  | @blank c gap rest blank others ih =>
    cases h' with
    | none => exact Layout.eq_nil (.blank blank others) (same ▸ begins')
    | blank _ others' =>
      obtain ⟨rfl, tails⟩ := List.cons.inj same
      rw [ih others' begins tails]
    | comment =>
      obtain ⟨rfl, _⟩ := List.cons.inj same
      exact absurd blank (by decide)
  | @comment body gap rest inLine ends others ih =>
    cases h' with
    | none => exact Layout.eq_nil (.comment inLine ends others) (same ▸ begins')
    | blank blank =>
      obtain ⟨rfl, _⟩ := List.cons.inj same
      exact absurd blank (by decide)
    | @comment body' gap' _ inLine' ends' others' =>
      have cuts : ∀ {body after : List Char}, '\n' ∉ body → (∀ c ∈ after.head?, c = '\n') →
          (body ++ after).takeWhile (· != '\n') = body ∧
            (body ++ after).dropWhile (· != '\n') = after := by
        intro body after inLine ends
        refine takeWhile_stop ?_ ?_
        · intro c member
          simpa using ne_of_mem_of_not_mem member inLine
        · simpa using ends
      have lines : body ++ (gap ++ rest) = body' ++ (gap' ++ rest') := by simpa using same
      have first := cuts inLine ends
      rw [lines] at first
      have second := cuts inLine' ends'
      rw [← first.1, second.1, ih others' begins (first.2.symm.trans second.2)]

end Layout

namespace Reads

variable {item item' : Item} {text text' rest rest' : List Char}

theorem begins (h : Reads item text rest) : Begins (text ++ rest) := by
  cases h with
  | token lexeme noComment =>
    obtain ⟨c, others, spelled⟩ := List.exists_cons_of_ne_nil lexeme.ne_nil
    refine ⟨?_, noComment⟩
    rw [spelled] at lexeme ⊢
    simpa using lexeme.not_blank
  | unexpected noBlank noQuote noLexeme =>
    refine ⟨by simpa using noBlank, ?_⟩
    intro slashes
    have slash : Lexeme (.symbol .slash) ['/'] := .fixed .slash
    exact noLexeme _ _ slash ((List.prefix_append ['/'] ['/']).trans slashes)
  | unterminated => exact ⟨by simp, by simp⟩

theorem ne_nil (h : Reads item text rest) : text ≠ [] := by
  cases h with
  | token lexeme => exact lexeme.ne_nil
  | unexpected => exact List.cons_ne_nil _ _
  | unterminated => exact List.cons_ne_nil _ _

theorem no_lexeme_of_open {contents : List Char} (openEnded : '"' ∉ contents) (kind : Kind)
    (other : List Char) (lexeme : Lexeme kind other) : ¬other <+: '"' :: contents := by
  intro starts
  obtain ⟨c, others, rfl⟩ := List.exists_cons_of_ne_nil lexeme.ne_nil
  obtain ⟨rfl, within⟩ := List.cons_prefix_cons.mp starts
  obtain ⟨inner, _, _, rfl⟩ := lexeme.quoted_rule
  exact openEnded (within.subset (by simp))

theorem unique (h : Reads item text rest) (h' : Reads item' text' rest')
    (same : text ++ rest = text' ++ rest') : text = text' ∧ item.content = item'.content := by
  cases h with
  | token lexeme noComment longest =>
    cases h' with
    | token lexeme' noComment' longest' =>
      have le := longest' _ _ lexeme ⟨_, same⟩
      have ge := longest _ _ lexeme' ⟨_, same.symm⟩
      have texts := (List.append_inj same (by omega)).1
      rw [← texts] at lexeme'
      refine ⟨texts, ?_⟩
      rw [Item.content, Item.content, lexeme.kind_unique lexeme', String.toList_injective texts]
    | unexpected noBlank noQuote noLexeme =>
      exact absurd ⟨_, same⟩ (noLexeme _ _ lexeme)
    | unterminated openEnded =>
      rw [List.append_nil] at same
      exact absurd ⟨_, same⟩ (no_lexeme_of_open openEnded _ _ lexeme)
  | unexpected noBlank noQuote noLexeme =>
    cases h' with
    | token lexeme' =>
      exact absurd ⟨_, same.symm⟩ (noLexeme _ _ lexeme')
    | unexpected =>
      obtain ⟨rfl, _⟩ := List.cons.inj same
      exact ⟨rfl, rfl⟩
    | unterminated => exact absurd (List.cons.inj same).1 noQuote
  | unterminated openEnded =>
    rw [List.append_nil] at same
    cases h' with
    | token lexeme' =>
      exact absurd ⟨_, same.symm⟩ (no_lexeme_of_open openEnded _ _ lexeme')
    | unexpected _ noQuote => exact absurd (List.cons.inj same).1.symm noQuote
    | unterminated =>
      rw [List.append_nil] at same
      exact ⟨same, rfl⟩

end Reads

namespace Placed

variable {passed : List Char}

theorem eq_nil {gap : List Char} {placed : List (Item × List Char)} (layout : Layout gap [])
    (h : Placed passed gap placed) : placed = [] := by
  cases h with
  | finished => rfl
  | @item _ gap' text rest _ _ layout' reads =>
    have gaps := layout'.unique layout reads.begins Begins.nil (by simp)
    have nothing : text ++ rest = [] := by simpa using gaps
    exact absurd (List.append_eq_nil_iff.mp nothing).1 reads.ne_nil

/-- A text can be cut in one way only. -/
theorem unique {source : List Char} {placed placed' : List (Item × List Char)}
    (h : Placed passed source placed) (h' : Placed passed source placed') :
    placed.map (Prod.map Item.content id) = placed'.map (Prod.map Item.content id) := by
  induction h generalizing placed' with
  | finished layout => rw [h'.eq_nil layout]
  | @item passed gap text rest item placed layout reads others ih =>
    generalize whole : gap ++ text ++ rest = source at h'
    cases h' with
    | finished layout' =>
      subst whole
      exact absurd (eq_nil layout' (.item layout reads others)) (List.cons_ne_nil _ _)
    | @item _ gap' text' rest' item' placed' layout' reads' others' =>
      rw [List.append_assoc, List.append_assoc] at whole
      obtain rfl := layout.unique layout' reads.begins reads'.begins whole
      have cut := List.append_cancel_left whole
      obtain ⟨rfl, contents⟩ := reads.unique reads' cut
      obtain rfl := List.append_cancel_left cut
      rw [List.map_cons, List.map_cons, ih others', Prod.map_apply, Prod.map_apply, contents]

end Placed

theorem Factors.unique {source : List Char} {items items' : List Item} (h : Factors source items)
    (h' : Factors source items') : items.map Item.content = items'.map Item.content := by
  obtain ⟨placed, cut, rfl⟩ := h.placed []
  obtain ⟨placed', cut', rfl⟩ := h'.placed []
  simpa [Function.comp_def] using congrArg (List.map Prod.fst) (cut.unique cut')

end Lox
