import Lox.Proofs.Scanning.Factorization

namespace Lox

inductive Filler : List Char → Prop
  | nothing : Filler []
  | blank {c : Char} {others : List Char} (isBlank : c ∈ [' ', '\t', '\r', '\n'])
      (isFiller : Filler others) : Filler (c :: others)
  | comment {body others : List Char} (inLine : '\n' ∉ body) (isFiller : Filler others) :
      Filler ('/' :: '/' :: body ++ '\n' :: others)

/-- What keeps two lexemes apart. The blank comes first, for a slash might belong to the lexeme in
front. -/
structure Separator where
  first : Char
  others : List Char
  isBlank : first ∈ [' ', '\t', '\r', '\n']
  isFiller : Filler others

def Separator.text (separator : Separator) : List Char := separator.first :: separator.others

/-- The texts one behind the other, with a separator between any two. -/
def spread (separators : Nat → Separator) : List (List Char) → List Char
  | [] => []
  | [text] => text
  | text :: next :: rest =>
    text ++ (separators 0).text ++ spread (fun place => separators (place + 1)) (next :: rest)

example :
    let comment : Separator :=
      ⟨' ', "/// ! \n\t".toList, by decide,
        @Filler.comment "/ ! ".toList _ (by decide) (.blank (by decide) .nothing)⟩
    spread (fun _ => comment) ["!".toList, "=".toList] = "! /// ! \n\t=".toList := rfl

theorem Filler.layout {gap : List Char} (h : Filler gap) (rest : List Char) : Layout gap rest := by
  induction h with
  | nothing => exact .none
  | blank isBlank _ ih => exact .blank isBlank ih
  | comment inLine _ ih => exact .comment inLine (by simp) (.blank (by decide) ih)

theorem Separator.layout (separator : Separator) (rest : List Char) :
    Layout separator.text rest :=
  .blank separator.isBlank (separator.isFiller.layout rest)

theorem Separator.begins (separator : Separator) (rest : List Char) :
    ∀ b ∈ (separator.text ++ rest).head?, b ∈ [' ', '\t', '\r', '\n'] := by
  intro b head
  cases head
  exact separator.isBlank

theorem blank_cases {c : Char} (h : c ∈ [' ', '\t', '\r', '\n']) :
    ¬ContinuesName c ∧ c.isDigit = false ∧ c ≠ '.' ∧ c ≠ '=' ∧ c ≠ '/' := by
  simp only [List.mem_cons, List.not_mem_nil, or_false] at h
  rcases h with rfl | rfl | rfl | rfl <;> decide

namespace Lexeme

variable {kind kind' : Kind} {c b : Char} {text others more : List Char}

theorem numeral_chars {value : Float} (h : Lexeme (.number value) text) :
    ∀ x ∈ text, x.isDigit = true ∨ x = '.' := by
  intro x member
  cases h with
  | whole some all => exact .inl (all x member)
  | fraction some all someDecimals allDecimals =>
    rcases List.mem_append.mp member with whole | behind
    · exact .inl (all x whole)
    rcases List.mem_cons.mp behind with point | decimal
    · exact .inr point
    · exact .inl (allDecimals x decimal)

theorem not_blank_behind (h : Lexeme kind text) (h' : Lexeme kind' (text ++ b :: more)) :
    b ∉ [' ', '\t', '\r', '\n'] := by
  intro blank
  obtain ⟨noName, noDigit, noPoint, noEqual, -⟩ := blank_cases blank
  obtain ⟨c, others, rfl⟩ := List.exists_cons_of_ne_nil h.ne_nil
  rw [List.cons_append] at h'
  have inside : b ∈ others ++ b :: more := List.mem_append_right _ List.mem_cons_self
  by_cases digit : c.isDigit = true
  · rw [h'.numeral_rule digit] at h'
    rcases h'.numeral_chars b (List.mem_cons_of_mem _ inside) with digit' | point
    · exact absurd digit' (by simp [noDigit])
    · exact noPoint point
  by_cases starts : StartsName c
  · exact noName ((h'.word_rule starts).2 b inside)
  by_cases quote : c = '"'
  · subst quote
    obtain ⟨contents, _, _, rfl⟩ := h.quoted_rule
    obtain ⟨contents', closed, _, same⟩ := h'.quoted_rule
    -- The closing quote would be one of the contents.
    have begins := congrArg List.dropLast same
    rw [List.dropLast_append_of_ne_nil (List.cons_ne_nil _ _), List.dropLast_concat] at begins
    exact closed (by simp [← begins])
  · have mark := (h'.mark_rule (by simpa using digit) starts quote).1
    rcases mark.short with none | ⟨equals, _⟩
    · rw [none] at inside
      cases inside
    · rw [equals] at inside
      exact noEqual (List.mem_singleton.mp inside)

theorem no_comment (h : Lexeme kind text) {rest : List Char}
    (apart : ∀ b ∈ rest.head?, b ∈ [' ', '\t', '\r', '\n']) : ¬['/', '/'] <+: text ++ rest := by
  intro slashes
  obtain ⟨c, others, rfl⟩ := List.exists_cons_of_ne_nil h.ne_nil
  obtain ⟨rfl, slash⟩ := List.cons_prefix_cons.mp slashes
  rcases (h.mark_rule (by decide) (by decide) (by decide)).1.short with rfl | ⟨rfl, _⟩
  · obtain ⟨behind, rfl⟩ := slash
    exact (blank_cases (apart '/' rfl)).2.2.2.2 rfl
  · exact absurd (List.cons_prefix_cons.mp slash).1 (by decide)

theorem reads {t : Token} (h : Lexeme t.kind t.lexeme.toList) {rest : List Char}
    (apart : ∀ b ∈ rest.head?, b ∈ [' ', '\t', '\r', '\n']) :
    Reads (.ok t) t.lexeme.toList rest := by
  refine .token h (h.no_comment apart) ?_
  intro kind other lexeme starts
  refine Nat.le_of_not_lt fun longer => ?_
  have within : t.lexeme.toList <+: other :=
    List.prefix_of_prefix_length_le (List.prefix_append _ _) starts (by omega)
  obtain ⟨behind, rfl⟩ := within
  cases behind with
  | nil => simp at longer
  | cons b more =>
    have head : b ∈ rest.head? := by
      obtain ⟨tail, same⟩ := (List.prefix_append_right_inj _).mp starts
      simp [← same]
    exact h.not_blank_behind lexeme (apart b head)

end Lexeme

theorem factors_spread {tokens : List Token}
    (lexemes : ∀ t ∈ tokens, Lexeme t.kind t.lexeme.toList) (separators : Nat → Separator)
    {gap : List Char} (layout : ∀ rest, Layout gap rest) :
    Factors (gap ++ spread separators (tokens.map fun t => t.lexeme.toList))
      (tokens.map .ok) := by
  induction tokens generalizing separators gap with
  | nil =>
    rw [List.map_nil, spread, List.append_nil]
    exact .finished (layout [])
  | cons t others ih =>
    have lexeme := lexemes t List.mem_cons_self
    have behind := ih fun t member => lexemes t (List.mem_cons_of_mem _ member)
    cases others with
    | nil =>
      have read : Reads (.ok t) t.lexeme.toList [] := lexeme.reads nofun
      have alone := Factors.item (layout _) read (.finished .none)
      rwa [List.append_nil] at alone
    | cons next rest =>
      have others := behind (fun place => separators (place + 1)) (separators 0).layout
      have whole := Factors.item (layout _) (lexeme.reads ((separators 0).begins _)) others
      simpa [spread] using whole

theorem tokens_of_contents {items : List Item} {tokens : List Token}
    (same : items.map Item.content = tokens.map fun t => .ok (t.kind, t.lexeme)) :
    lexErrorsOf items = [] ∧
      (tokensOf items).map (fun t => (t.kind, t.lexeme)) =
        tokens.map fun t => (t.kind, t.lexeme) := by
  induction items generalizing tokens with
  | nil =>
    cases tokens with
    | nil => exact ⟨rfl, rfl⟩
    | cons => cases same
  | cons item items ih =>
    cases tokens with
    | nil => cases same
    | cons t tokens =>
      obtain ⟨here, behind⟩ := List.cons.inj same
      obtain ⟨clean, contents⟩ := ih behind
      cases item with
      | error e => cases here
      | ok t' =>
        refine ⟨clean, (List.map_cons ..).trans ?_⟩
        rw [Except.ok.inj here]
        exact congrArg _ contents

def lexemesOf (source : String) : List (List Char) :=
  ((tokensOf (scan source)).filter fun t => t.kind ≠ .endOfInput).map fun t => t.lexeme.toList

/-- Only the tokens of a text matter, not the layout. The lexemes that are read from any text, errors
left out, are read as the same tokens from a text that has nothing but separators between them. -/
theorem layout_is_immaterial (source : String) (separators : Nat → Separator) :
    lexErrorsOf (scan (String.ofList (spread separators (lexemesOf source)))) = [] ∧
      (tokensOf (scan (String.ofList (spread separators (lexemesOf source))))).map
          (fun t => (t.kind, t.lexeme)) =
        (tokensOf (scan source)).map fun t => (t.kind, t.lexeme) := by
  obtain ⟨items, last, scanned, factors⟩ := Scan.factors_items 1 source.toList
  have real : ∀ t ∈ tokensOf items, Lexeme t.kind t.lexeme.toList := fun t member =>
    factors.lexeme t (mem_tokensOf.mp member)
  have all : tokensOf (scan source) = tokensOf items ++ [⟨.endOfInput, "", last⟩] := by
    rw [scan, scanned, tokensOf_append]
    rfl
  have kept : (tokensOf items).filter (fun t => t.kind ≠ .endOfInput) = tokensOf items :=
    List.filter_eq_self.mpr fun t member => by simpa using (real t member).not_end
  have lexemes : lexemesOf source = (tokensOf items).map fun t => t.lexeme.toList := by
    rw [lexemesOf, all, List.filter_append, kept]
    simp
  rw [all, lexemes]
  generalize text_eq : spread separators ((tokensOf items).map fun t => t.lexeme.toList) = text
  have again : Factors text ((tokensOf items).map .ok) :=
    text_eq ▸ factors_spread real separators (fun _ => .none)
  obtain ⟨items', last', scanned', factors'⟩ := Scan.factors_items 1 text
  have contents := factors'.unique again
  rw [List.map_map] at contents
  obtain ⟨clean, same⟩ := tokens_of_contents contents
  rw [scan, String.toList_ofList, scanned', lexErrorsOf_append, tokensOf_append, clean,
    List.map_append, List.map_append, same]
  exact ⟨rfl, rfl⟩

end Lox
