import Lox.Token.Scan

namespace Lox

def StartsName (c : Char) : Prop := c.isAlpha = true ∨ c = '_'
deriving Decidable

def ContinuesName (c : Char) : Prop := c.isAlphanum = true ∨ c = '_'
deriving Decidable

/-- The texts that are read as a token of a given kind. -/
inductive Lexeme : Kind → List Char → Prop
  | fixed (symbol : Symbol) : Lexeme (.symbol symbol) symbol.spelling.toList
  | name {first : Char} {others : List Char} (starts : StartsName first)
      (continues : ∀ c ∈ others, ContinuesName c)
      (free : ∀ word ∈ Symbol.words, word.spelling.toList ≠ first :: others) :
      Lexeme .identifier (first :: others)
  | whole {digits : List Char} (some : digits ≠ []) (all : ∀ d ∈ digits, d.isDigit = true) :
      Lexeme (.number (Scan.numberValue digits)) digits
  | fraction {digits decimals : List Char} (some : digits ≠ [])
      (all : ∀ d ∈ digits, d.isDigit = true) (someDecimals : decimals ≠ [])
      (allDecimals : ∀ d ∈ decimals, d.isDigit = true) :
      Lexeme (.number (Scan.numberValue (digits ++ '.' :: decimals))) (digits ++ '.' :: decimals)
  | quoted {contents : List Char} (closed : '"' ∉ contents) :
      Lexeme (.string (String.ofList contents)) ('"' :: contents ++ ['"'])

theorem startsName_of_word {word : Symbol} (h : word ∈ Symbol.words) :
    ∃ first others, word.spelling.toList = first :: others ∧ StartsName first ∧
      ∀ c ∈ others, ContinuesName c := by
  have spelled : ∀ word ∈ Symbol.words, word.spelling.toList ≠ [] ∧
      (word.spelling.toList.headD ' ').isAlpha = true ∧
      word.spelling.toList.all Char.isAlphanum = true := by decide
  obtain ⟨some, letter, letters⟩ := spelled word h
  obtain ⟨first, others, text⟩ := List.exists_cons_of_ne_nil some
  rw [text] at letter letters
  refine ⟨first, others, text, Or.inl letter, ?_⟩
  intro c member
  exact Or.inl (List.all_eq_true.mp letters c (List.mem_cons_of_mem _ member))

theorem spelling_injective {s t : Symbol} (same : s.spelling = t.spelling) : s = t := by
  have apart : ∀ s ∈ Symbol.all, ∀ t ∈ Symbol.all, s.spelling = t.spelling → s = t := by
    decide +kernel
  exact apart s s.mem_all t t.mem_all same

/-- A mark has one character, or two of which the second is an equals sign, and the first occurs in
no other rule. -/
structure IsMark (c : Char) (others : List Char) : Prop where
  noDigit : c.isDigit = false
  noName : ¬StartsName c
  noQuote : c ≠ '"'
  first : c ∈ ['(', ')', '\x7b', '\x7d', ',', '.', '-', '+', ';', '*', '!', '=', '<', '>', '/']
  short : others = [] ∨ others = ['='] ∧ c ∈ ['!', '=', '<', '>']

theorem isMark_of_mem {symbol : Symbol} (h : symbol ∈ Symbol.marks) :
    ∃ c others, symbol.spelling.toList = c :: others ∧ IsMark c others := by
  have spelled : ∀ symbol ∈ Symbol.marks, symbol.spelling.toList ≠ [] ∧
      (symbol.spelling.toList.headD ' ').isDigit = false ∧
      ¬StartsName (symbol.spelling.toList.headD ' ') ∧ symbol.spelling.toList.headD ' ' ≠ '"' ∧
      symbol.spelling.toList.headD ' ' ∈
        ['(', ')', '\x7b', '\x7d', ',', '.', '-', '+', ';', '*', '!', '=', '<', '>', '/'] ∧
      (symbol.spelling.toList.tail = [] ∨ symbol.spelling.toList.tail = ['='] ∧
        symbol.spelling.toList.headD ' ' ∈ ['!', '=', '<', '>']) := by decide
  obtain ⟨some, marks⟩ := spelled symbol h
  obtain ⟨c, others, text⟩ := List.exists_cons_of_ne_nil some
  rw [text] at marks
  obtain ⟨noDigit, noName, noQuote, first, short⟩ := marks
  exact ⟨c, others, text, noDigit, noName, noQuote, first, short⟩

theorem StartsName.not_digit {c : Char} (h : StartsName c) : c.isDigit = false := by
  rcases h with letter | rfl
  · delta Char.isAlpha Char.isUpper Char.isLower at letter
    delta Char.isDigit
    simp only [Bool.or_eq_true, Bool.and_eq_true, Bool.and_eq_false_iff, decide_eq_true_eq,
      decide_eq_false_iff_not] at letter ⊢
    grind
  · decide

namespace Lexeme

variable {kind : Kind} {c : Char} {others : List Char}

theorem ne_nil {text : List Char} (h : Lexeme kind text) : text ≠ [] := by
  cases h with
  | fixed symbol =>
    have spelled : ∀ symbol ∈ Symbol.all, symbol.spelling.toList ≠ [] := by decide
    exact spelled symbol symbol.mem_all
  | name => exact List.cons_ne_nil _ _
  | whole some => exact some
  | fraction some => exact List.append_ne_nil_of_left_ne_nil some _
  | quoted => exact List.cons_ne_nil _ _

theorem not_end {text : List Char} (h : Lexeme kind text) : kind ≠ .endOfInput := by
  rintro rfl
  cases h

theorem spelled {symbol : Symbol} {text : List Char} (h : Lexeme (.symbol symbol) text) :
    text = symbol.spelling.toList := by
  cases h
  rfl

/-- The kind of a text that starts like a name: a keyword if the whole of it is spelled like one. -/
def wordKind (text : List Char) : Kind :=
  ((Symbol.word? (String.ofList text)).map Kind.symbol).getD .identifier

theorem wordKind_of_word {word : Symbol} (h : word ∈ Symbol.words) :
    wordKind word.spelling.toList = .symbol word := by
  have found : ∀ word ∈ Symbol.words, Symbol.word? word.spelling = some word := by decide
  rw [wordKind, String.ofList_toList, found word h]
  rfl

theorem wordKind_of_free {text : List Char}
    (free : ∀ word ∈ Symbol.words, word.spelling.toList ≠ text) : wordKind text = .identifier := by
  have none : Symbol.word? (String.ofList text) = none := by
    rw [Symbol.word?, List.find?_eq_none]
    intro word member same
    rw [beq_iff_eq] at same
    exact free word member (by rw [same, String.toList_ofList])
  rw [wordKind, none]
  rfl

inductive Rule : Kind → Char → List Char → Prop
  | mark {symbol : Symbol} {c : Char} {others : List Char}
      (spelled : symbol.spelling.toList = c :: others) (isMark : IsMark c others) :
      Rule (.symbol symbol) c others
  | word {c : Char} {others : List Char} (starts : StartsName c)
      (continues : ∀ c ∈ others, ContinuesName c) : Rule (wordKind (c :: others)) c others
  | numeral {c : Char} {others : List Char} (digit : c.isDigit = true) :
      Rule (.number (Scan.numberValue (c :: others))) c others
  | quoted {contents : List Char} (closed : '"' ∉ contents) :
      Rule (.string (String.ofList contents)) '"' (contents ++ ['"'])

theorem rule (h : Lexeme kind (c :: others)) : Rule kind c others := by
  generalize whole : c :: others = text at h
  cases h with
  | fixed symbol =>
    rcases List.mem_append.mp symbol.mem_all with mark | word
    · obtain ⟨c', others', spelled, isMark⟩ := isMark_of_mem mark
      cases whole.trans spelled
      exact .mark spelled isMark
    · obtain ⟨c', others', spelled, starts, continues⟩ := startsName_of_word word
      cases whole.trans spelled
      rw [← wordKind_of_word word, spelled]
      exact .word starts continues
  | name starts continues free =>
    cases whole
    rw [← wordKind_of_free free]
    exact .word starts continues
  | whole some all =>
    subst whole
    exact .numeral (all c List.mem_cons_self)
  | @fraction digits _ some all =>
    obtain ⟨d, ds, rfl⟩ := List.exists_cons_of_ne_nil some
    rw [← whole]
    cases whole
    exact .numeral (all c List.mem_cons_self)
  | quoted closed =>
    cases whole
    exact .quoted closed

theorem word_rule (h : Lexeme kind (c :: others)) (starts : StartsName c) :
    kind = wordKind (c :: others) ∧ ∀ c ∈ others, ContinuesName c := by
  cases h.rule with
  | mark _ isMark => exact absurd starts isMark.noName
  | word _ continues => exact ⟨rfl, continues⟩
  | numeral digit => exact absurd digit (by simp [starts.not_digit])
  | quoted => exact absurd starts (by decide)

theorem numeral_rule (h : Lexeme kind (c :: others)) (digit : c.isDigit = true) :
    kind = .number (Scan.numberValue (c :: others)) := by
  cases h.rule with
  | mark _ isMark => exact absurd digit (by simp [isMark.noDigit])
  | word starts => exact absurd digit (by simp [starts.not_digit])
  | numeral => rfl
  | quoted => exact absurd digit (by decide)

theorem quoted_rule (h : Lexeme kind ('"' :: others)) :
    ∃ contents, '"' ∉ contents ∧ kind = .string (String.ofList contents) ∧
      others = contents ++ ['"'] := by
  cases h.rule with
  | mark _ isMark => exact absurd rfl isMark.noQuote
  | word starts => exact absurd starts (by decide)
  | numeral digit => exact absurd digit (by decide)
  | @quoted contents closed => exact ⟨contents, closed, rfl, rfl⟩

theorem mark_rule (h : Lexeme kind (c :: others)) (noDigit : c.isDigit = false)
    (noName : ¬StartsName c) (noQuote : c ≠ '"') :
    IsMark c others ∧ ∃ symbol, kind = .symbol symbol ∧ symbol.spelling.toList = c :: others := by
  cases h.rule with
  | mark spelled isMark => exact ⟨isMark, _, rfl, spelled⟩
  | word starts => exact absurd starts noName
  | numeral digit => exact absurd digit (by simp [noDigit])
  | quoted => exact absurd rfl noQuote

theorem not_blank (h : Lexeme kind (c :: others)) : c ∉ [' ', '\t', '\r', '\n'] := by
  intro blank
  have noRule : c.isDigit = false ∧ ¬StartsName c ∧ c ≠ '"' := by
    simp only [List.mem_cons, List.not_mem_nil, or_false] at blank
    rcases blank with rfl | rfl | rfl | rfl <;> decide
  have mark := (h.mark_rule noRule.1 noRule.2.1 noRule.2.2).1.first
  simp only [List.mem_cons, List.not_mem_nil, or_false] at blank
  rcases blank with rfl | rfl | rfl | rfl <;> exact absurd mark (by decide)

/-- The text of a token determines its kind, the value of a string or a number included. -/
theorem kind_unique {kind' : Kind} {text : List Char} (h : Lexeme kind text)
    (h' : Lexeme kind' text) : kind = kind' := by
  obtain ⟨c, others, rfl⟩ := List.exists_cons_of_ne_nil h.ne_nil
  by_cases digit : c.isDigit = true
  · rw [h.numeral_rule digit, h'.numeral_rule digit]
  by_cases starts : StartsName c
  · rw [(h.word_rule starts).1, (h'.word_rule starts).1]
  by_cases quote : c = '"'
  · subst quote
    obtain ⟨contents, _, rfl, rfl⟩ := h.quoted_rule
    obtain ⟨contents', _, rfl, same⟩ := h'.quoted_rule
    rw [List.append_cancel_right same]
  · obtain ⟨_, symbol, rfl, spelled⟩ := h.mark_rule (by simpa using digit) starts quote
    obtain ⟨_, symbol', rfl, spelled'⟩ := h'.mark_rule (by simpa using digit) starts quote
    rw [spelling_injective (String.toList_injective (spelled.trans spelled'.symm))]

theorem of_word (starts : StartsName c) (continues : ∀ c ∈ others, ContinuesName c) :
    Lexeme (wordKind (c :: others)) (c :: others) := by
  by_cases reserved : ∃ word ∈ Symbol.words, word.spelling.toList = c :: others
  · obtain ⟨word, member, spelled⟩ := reserved
    rw [← spelled, wordKind_of_word member]
    exact .fixed word
  · have free : ∀ word ∈ Symbol.words, word.spelling.toList ≠ c :: others := by
      intro word member spelled
      exact reserved ⟨word, member, spelled⟩
    rw [wordKind_of_free free]
    exact .name starts continues free

end Lexeme

end Lox
