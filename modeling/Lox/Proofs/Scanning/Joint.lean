import Lox.Token.Scan

namespace Lox

def Token.raise (k : Nat) (t : Token) : Token := { t with line := t.line + k }

def LexError.raise (k : Nat) (e : LexError) : LexError := { e with line := e.line + k }

namespace Item

def raise (k : Nat) : Item → Item
  | .ok t => .ok (t.raise k)
  | .error e => .error (e.raise k)

def line : Item → Nat
  | .ok t => t.line
  | .error e => e.line

def IsUnterminated : Item → Prop
  | .ok _ => False
  | .error e => e.cause = .unterminatedString

end Item

namespace Scan

open CodeUnit

variable {σ : Type} [CodeUnit σ] {line : Nat} {unit : σ} {rest : List σ}

def Step.raise (k : Nat) (s : Step σ) : Step σ := ⟨s.item.map (Item.raise k), s.line + k, s.rest⟩

theorem operator_raise (alone extended : Symbol) (line : Nat) (unit : σ) (rest : List σ) (k : Nat) :
    operator alone extended (line + k) unit rest =
      (operator alone extended line unit rest).raise k := by
  cases rest with
  | nil => rfl
  | cons next rest =>
    simp only [operator]
    split <;> rfl

theorem slash_raise (line : Nat) (unit : σ) (rest : List σ) (k : Nat) :
    slash (line + k) unit rest = (slash line unit rest).raise k := by
  cases rest with
  | nil => rfl
  | cons next rest =>
    simp only [slash]
    split <;> rfl

theorem string_raise (line : Nat) (unit : σ) (rest : List σ) (k : Nat) :
    string (line + k) unit rest = (string line unit rest).raise k := by
  simp only [string, Nat.add_right_comm line k]
  split <;> rfl

theorem step_raise (line : Nat) (unit : σ) (rest : List σ) (k : Nat) :
    step (line + k) unit rest = (step line unit rest).raise k := by
  unfold step
  split
  all_goals first
    | rfl
    | exact operator_raise ..
    | exact slash_raise ..
    | exact string_raise ..
    | skip
  · simp only [Step.raise, Option.map_none, Nat.add_right_comm]
  split
  · rfl
  split <;> rfl

theorem items_raise (line : Nat) (units : List σ) (k : Nat) :
    items (line + k) units = (items line units).map (Item.raise k) := by
  induction line, units using items.induct with
  | case1 line => simp [items, Item.raise, Token.raise]
  | case2 line unit rest next smaller ih =>
    rw [items, items, step_raise, List.map_append]
    simp only [Step.raise]
    rw [ih]
    cases (step line unit rest).item <;> rfl

section Counting

theorem countNewlines_cons (unit : σ) (units : List σ) :
    countNewlines (unit :: units) = countNewlines [unit] + countNewlines units := by
  simp only [countNewlines, ← List.countP_append, List.singleton_append]

theorem countNewlines_single {u : σ} {c : Char} (same : glyph u = c) (other : c ≠ '\n') :
    countNewlines [u] = 0 := by
  simp [countNewlines, same, other]

theorem countNewlines_dropWhile {p : σ → Bool} {units : List σ}
    (stops : ∀ u, p u = true → countNewlines [u] = 0) :
    countNewlines (units.dropWhile p) = countNewlines units := by
  induction units with
  | nil => rfl
  | cons u units ih =>
    cases h : p u with
    | false => simp [h]
    | true =>
      rw [List.dropWhile_cons_of_pos h, ih, countNewlines_cons u units, stops u h, Nat.zero_add]

theorem countNewlines_digit {u : σ} (digit : isDigit u = true) : countNewlines [u] = 0 := by
  refine countNewlines_single rfl ?_
  intro same
  rw [isDigit, same] at digit
  cases digit

theorem countNewlines_inWord {u : σ} (inside : continuesWord u = true) :
    countNewlines [u] = 0 := by
  refine countNewlines_single rfl ?_
  intro same
  rw [continuesWord, same] at inside
  cases inside

/-- The step goes on with the line behind the newlines that it took in. What it reads stands on
that line, and it is not the end. -/
structure Step.Counts (line : Nat) (rest : List σ) (s : Step σ) : Prop where
  counted : s.line + countNewlines s.rest = line + countNewlines rest
  stamped : ∀ item ∈ s.item, item.line = s.line
  kind : ∀ t, s.item = some (.ok t) → t.kind ≠ .endOfInput

theorem step_newline {newline : σ} (isNewline : glyph newline = '\n') (line : Nat)
    (more : List σ) : step line newline more = ⟨none, line + 1, more⟩ := by
  simp only [step, isNewline]

section Results

variable {last : Nat} {behind : List σ}
  (counted : last + countNewlines behind = line + countNewlines rest)
include counted

theorem counts_nothing : Step.Counts line rest ⟨none, last, behind⟩ := ⟨counted, nofun, nofun⟩

theorem counts_token {kind : Kind} {units : List σ} (real : kind ≠ .endOfInput) :
    Step.Counts line rest (token kind units last behind) where
  counted := counted
  stamped := by
    rintro item found
    cases found
    rfl
  kind t found := by
    cases found
    exact real

theorem counts_failure {cause : LexError.Cause} :
    Step.Counts line rest (failure cause last behind) where
  counted := counted
  stamped := by
    rintro item found
    cases found
    rfl
  kind t found := by cases found

end Results

theorem counts_symbol {fixed : Symbol} : Step.Counts line rest (symbol fixed line unit rest) :=
  counts_token rfl (by simp)

theorem counts_operator (alone extended : Symbol) :
    Step.Counts line rest (operator alone extended line unit rest) := by
  cases rest with
  | nil => exact counts_symbol
  | cons next rest =>
    simp only [operator]
    split
    · rename_i isEqual
      refine counts_token ?_ (by simp)
      rw [countNewlines_cons next, countNewlines_single (beq_iff_eq.mp isEqual) (by decide),
        Nat.zero_add]
    · exact counts_symbol

theorem counts_slash : Step.Counts line rest (slash line unit rest) := by
  cases rest with
  | nil => exact counts_symbol
  | cons next rest =>
    simp only [slash]
    split
    · rename_i isSlash
      refine counts_nothing ?_
      rw [countNewlines_dropWhile fun u h => countNewlines_single rfl (by simpa using h),
        countNewlines_cons next, countNewlines_single (beq_iff_eq.mp isSlash) (by decide),
        Nat.zero_add]
    · exact counts_symbol

theorem counts_string : Step.Counts line rest (string line unit rest) := by
  have whole : countNewlines (split (fun u => glyph u != '"') rest).1 +
      countNewlines (split (fun u => glyph u != '"') rest).2 = countNewlines rest := by
    simp only [countNewlines, split, ← List.countP_append, List.takeWhile_append_dropWhile]
  have stops := List.head?_dropWhile_not (fun u => glyph u != '"') rest
  simp only [string, split] at whole ⊢
  split
  · rename_i behind
    rw [behind] at whole
    refine counts_failure ?_
    rw [← whole, Nat.add_assoc]
  · rename_i quote after behind
    rw [behind] at whole stops
    have isQuote : glyph quote = '"' := by simpa using stops
    refine counts_token ?_ (by simp)
    rw [← whole, countNewlines_cons quote, countNewlines_single isQuote (by decide),
      Nat.zero_add, Nat.add_assoc]

theorem countNewlines_splitNumber (units : List σ) :
    countNewlines (splitNumber units).2 = countNewlines units := by
  have digits (units : List σ) : countNewlines (split isDigit units).2 = countNewlines units :=
    countNewlines_dropWhile fun u => countNewlines_digit
  simp only [splitNumber]
  split
  · rename_i point digit rest behind
    split
    · rename_i isFraction
      obtain ⟨isPoint, isDigit'⟩ := Bool.and_eq_true_iff.mp isFraction
      have isPoint := countNewlines_single (beq_iff_eq.mp isPoint) (by decide)
      rw [← digits units, behind, digits rest, countNewlines_cons point, countNewlines_cons digit,
        isPoint, countNewlines_digit isDigit', Nat.zero_add, Nat.zero_add]
    · exact digits units
  · exact digits units

theorem counts_number (digit : isDigit unit = true) :
    Step.Counts line rest (number line unit rest) := by
  refine counts_token (congrArg (line + ·) ?_) (by simp)
  rw [countNewlines_splitNumber, countNewlines_cons unit, countNewlines_digit digit, Nat.zero_add]

theorem counts_word : Step.Counts line rest (word line unit rest) := by
  have counted : countNewlines (rest.dropWhile continuesWord) = countNewlines rest :=
    countNewlines_dropWhile fun u => countNewlines_inWord
  refine counts_token (congrArg (line + ·) counted) ?_
  split <;> simp

variable (single : ∀ u : σ, tail u = 0)
include single

theorem counts_unexpected : Step.Counts line rest (unexpected line unit rest) := by
  refine counts_failure ?_
  rw [single, List.drop_zero]

theorem counts_step (line : Nat) (unit : σ) (rest : List σ) :
    Step.Counts line (unit :: rest) (step line unit rest) := by
  by_cases isNewline : glyph unit = '\n'
  · have one : countNewlines [unit] = 1 := by simp [countNewlines, isNewline]
    rw [step_newline isNewline]
    exact counts_nothing (by rw [countNewlines_cons unit, one, Nat.add_assoc])
  have inLine : Step.Counts line rest (step line unit rest) := by
    unfold step
    split
    all_goals first
      | exact counts_symbol
      | exact counts_operator _ _
      | exact counts_nothing rfl
      | exact counts_slash
      | exact counts_string
      | exact absurd ‹_› isNewline
      | skip
    split
    · rename_i digit
      exact counts_number digit
    split
    · exact counts_word
    · exact counts_unexpected single
  refine ⟨?_, inLine.stamped, inLine.kind⟩
  rw [inLine.counted, countNewlines_cons unit, countNewlines_single rfl isNewline, Nat.zero_add]

theorem items_ends (line : Nat) (units : List σ) :
    ∃ read, items line units = read ++ [.ok ⟨.endOfInput, "", line + countNewlines units⟩] ∧
      ∀ t, .ok t ∈ read → t.kind ≠ .endOfInput := by
  induction line, units using items.induct with
  | case1 line => exact ⟨[], by simp [items, countNewlines], nofun⟩
  | case2 line unit rest next smaller ih =>
    obtain ⟨read, ends, inner⟩ := ih
    have counts := counts_step single line unit rest
    refine ⟨next.item.toList ++ read, ?_, ?_⟩
    · rw [items, ends, List.append_assoc, ← counts.counted]
    · intro t member
      rcases List.mem_append.mp member with here | behind
      · exact counts.kind t (Option.mem_toList.mp here)
      · exact inner t behind

end Counting

theorem items_ne_nil (line : Nat) (units : List σ) : tokensOf (items line units) ≠ [] := by
  induction line, units using items.induct with
  | case1 line =>
    rw [items]
    exact List.cons_ne_nil _ _
  | case2 line unit rest next smaller ih =>
    rw [items, tokensOf, List.filterMap_append]
    exact List.append_ne_nil_of_right_ne_nil _ ih

def Step.before (tail : List σ) (s : Step σ) : Step σ := { s with rest := s.rest ++ tail }

omit [CodeUnit σ] in
theorem split_append (p : σ → Bool) (units tail : List σ)
    (stops : units.dropWhile p ≠ [] ∨ ∀ u ∈ tail.head?, p u = false) :
    split p (units ++ tail) = ((split p units).1, (split p units).2 ++ tail) := by
  simp only [split, Prod.mk.injEq]
  induction units with
  | nil => cases tail <;> simp_all
  | cons u units ih => cases h : p u <;> simp_all

theorem string_append {tail : List σ}
    (closed : ∀ item ∈ (string line unit rest).item, ¬item.IsUnterminated) :
    string line unit (rest ++ tail) = (string line unit rest).before tail := by
  -- Without a closing quote there is an error, so the string ends in front of the tail.
  have quoted : rest.dropWhile (fun u => glyph u != '"') ≠ [] := by
    intro none
    simp only [string, split, none] at closed
    exact closed _ rfl rfl
  have ends := split_append (fun u => glyph u != '"') rest tail (.inl quoted)
  simp only [string, ends]
  cases after : split (fun u => glyph u != '"') rest with
  | mk inside outside =>
    obtain ⟨rfl, behind⟩ := (Prod.mk.injEq ..).mp after
    cases outside with
    | nil => exact absurd behind quoted
    | cons quote after => rfl

section Newline

variable {newline : σ} {more : List σ} (isNewline : glyph newline = '\n')
include isNewline

theorem operator_append (alone extended : Symbol) :
    operator alone extended line unit (rest ++ newline :: more) =
      (operator alone extended line unit rest).before (newline :: more) := by
  cases rest with
  | nil =>
    simp only [List.nil_append, operator, isNewline]
    rfl
  | cons next rest =>
    simp only [List.cons_append, operator]
    split <;> rfl

theorem slash_append :
    slash line unit (rest ++ newline :: more) =
      (slash line unit rest).before (newline :: more) := by
  cases rest with
  | nil =>
    simp only [List.nil_append, slash, isNewline]
    rfl
  | cons next rest =>
    simp only [List.cons_append, slash]
    split
    · have ends := split_append (fun u => glyph u != '\n') rest (newline :: more)
        (.inr fun u found => by cases found; simp [isNewline])
      exact congrArg (Step.mk none line) (congrArg Prod.snd ends)
    · rfl

theorem splitNumber_append (units more : List σ) :
    splitNumber (units ++ newline :: more) =
      ((splitNumber units).1, (splitNumber units).2 ++ newline :: more) := by
  have noDigit (tail : List σ) : ∀ u ∈ (newline :: tail).head?, isDigit u = false := by
    intro u found
    cases found
    simp only [isDigit, isNewline]
    rfl
  have whole := split_append isDigit units (newline :: more) (.inr (noDigit more))
  simp only [splitNumber, whole]
  generalize split isDigit units = parts
  obtain ⟨digits, behind⟩ := parts
  -- The point belongs to the number only with a digit behind it, which may not come from the tail.
  rcases behind with _ | ⟨point, _ | ⟨digit, rest⟩⟩
  · cases more <;> simp [isNewline]
  · simp [noDigit more newline rfl]
  · have fraction := split_append isDigit rest (newline :: more) (.inr (noDigit more))
    simp only [List.cons_append, fraction]
    split <;> simp

theorem number_append :
    number line unit (rest ++ newline :: more) =
      (number line unit rest).before (newline :: more) := by
  have ends := splitNumber_append isNewline (unit :: rest) more
  rw [List.cons_append] at ends
  simp only [number, ends]
  rfl

theorem word_append :
    word line unit (rest ++ newline :: more) =
      (word line unit rest).before (newline :: more) := by
  have ends := split_append continuesWord rest (newline :: more) (.inr fun u found => by
    cases found
    simp only [continuesWord, isNewline]
    rfl)
  simp only [word, ends]
  rfl

theorem items_newlines (line k : Nat) (units : List σ) :
    items line (List.replicate k newline ++ units) = items (line + k) units := by
  induction k generalizing line with
  | zero => rfl
  | succ k ih =>
    rw [List.replicate_succ, List.cons_append, items, step_newline isNewline]
    simpa [Nat.add_right_comm, Nat.add_assoc] using ih (line + 1)

variable (single : ∀ u : σ, tail u = 0)
include single

theorem step_append (closed : ∀ item ∈ (step line unit rest).item, ¬item.IsUnterminated) :
    step line unit (rest ++ newline :: more) =
      (step line unit rest).before (newline :: more) := by
  revert closed
  unfold step
  split
  all_goals intro closed
  all_goals first
    | rfl
    | exact operator_append isNewline _ _
    | exact slash_append isNewline
    | exact string_append closed
    | skip
  split
  · exact number_append isNewline
  split
  · exact word_append isNewline
  · simp only [unexpected, failure, single, List.take_zero, List.drop_zero]
    rfl

/-- A text without an open string is read in front of a newline as it is read alone, and behind the
newline reading starts afresh. -/
theorem items_append {units : List σ} {line : Nat}
    (closed : ∀ item ∈ items line units, ¬item.IsUnterminated) :
    items line (units ++ newline :: more) =
      (items line units).dropLast ++ items (line + countNewlines units + 1) more := by
  induction line, units using items.induct with
  | case1 line => simp [items, step_newline isNewline, countNewlines]
  | case2 line unit rest next smaller ih =>
    rw [items] at closed
    have here : ∀ item ∈ next.item, ¬item.IsUnterminated := fun item found =>
      closed item (List.mem_append_left _ (Option.mem_toList.mpr found))
    have behind := ih fun item member => closed item (List.mem_append_right _ member)
    have filled : items next.line next.rest ≠ [] := by
      intro none
      exact items_ne_nil next.line next.rest (by rw [none]; rfl)
    have counted := (counts_step single line unit rest).counted
    rw [List.cons_append, items, items, step_append isNewline single here,
      List.dropLast_append_of_ne_nil filled, List.append_assoc, ← counted]
    exact congrArg (next.item.toList ++ ·) behind

end Newline

end Scan

theorem tokensOf_scan_ne_nil (source : String) : tokensOf (scan source) ≠ [] :=
  Scan.items_ne_nil 1 source.toList

def newlinesOf (source : String) : Nat := source.toList.count '\n'

def movedDown (k : Nat) (source : String) : String :=
  String.ofList (List.replicate k '\n') ++ source

theorem tokensOf_map_raise (k : Nat) (items : List Item) :
    tokensOf (items.map (Item.raise k)) = (tokensOf items).map (Token.raise k) := by
  simp only [tokensOf, List.filterMap_map, List.map_filterMap]
  congr 1
  funext item
  cases item <;> rfl

theorem lexErrorsOf_map_raise (k : Nat) (items : List Item) :
    lexErrorsOf (items.map (Item.raise k)) = (lexErrorsOf items).map (LexError.raise k) := by
  simp only [lexErrorsOf, List.filterMap_map, List.map_filterMap]
  congr 1
  funext item
  cases item <;> rfl

theorem tokensOf_append (first second : List Item) :
    tokensOf (first ++ second) = tokensOf first ++ tokensOf second :=
  List.filterMap_append

theorem lexErrorsOf_append (first second : List Item) :
    lexErrorsOf (first ++ second) = lexErrorsOf first ++ lexErrorsOf second :=
  List.filterMap_append

theorem mem_tokensOf {items : List Item} {t : Token} : t ∈ tokensOf items ↔ .ok t ∈ items := by
  rw [tokensOf, List.mem_filterMap]
  constructor
  · rintro ⟨_ | _, member, ⟨⟩⟩
    exact member
  · exact fun member => ⟨_, member, rfl⟩

theorem not_unterminated_of_clean {items : List Item} (clean : lexErrorsOf items = []) :
    ∀ item ∈ items, ¬item.IsUnterminated := by
  intro item member
  cases item with
  | ok t => exact not_false
  | error e => cases List.filterMap_eq_nil_iff.mp clean _ member

theorem glyph_newline : CodeUnit.glyph '\n' = '\n' := rfl

theorem tail_char (c : Char) : CodeUnit.tail c = 0 := rfl

theorem scan_movedDown (k : Nat) (source : String) :
    scan (movedDown k source) = (scan source).map (Item.raise k) := by
  rw [scan, movedDown, String.toList_append, String.toList_ofList,
    Scan.items_newlines glyph_newline, Scan.items_raise, scan]

theorem countNewlines_toList (source : String) :
    Scan.countNewlines source.toList = newlinesOf source := rfl

theorem scan_ends (source : String) :
    ∃ items, scan source = items ++ [.ok ⟨.endOfInput, "", 1 + newlinesOf source⟩] ∧
      ∀ t, .ok t ∈ items → t.kind ≠ .endOfInput :=
  Scan.items_ends tail_char 1 source.toList

/-- The items of two texts with a newline between them. -/
theorem scan_append {first : String} (second : String)
    (closed : ∀ item ∈ scan first, ¬item.IsUnterminated) :
    scan (first ++ "\n" ++ second) =
      (scan first).dropLast ++ (scan second).map (Item.raise (1 + newlinesOf first)) := by
  have text : (first ++ "\n" ++ second).toList = first.toList ++ '\n' :: second.toList := by simp
  rw [scan, text, Scan.items_append glyph_newline tail_char closed, Nat.add_assoc,
    countNewlines_toList, Nat.add_comm (newlinesOf first), Scan.items_raise, scan, scan]

end Lox
