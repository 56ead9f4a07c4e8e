import Lox.Proofs.Scanning.Factors
import Lox.Proofs.Scanning.Joint

namespace Lox

namespace Scan

open CodeUnit

variable {line : Nat} {c : Char} {rest : List Char}

/-- The step passes over one piece of layout, or reads one item. -/
inductive Step.Takes (source : List Char) (next : Step Char) : Prop
  | blank {c : Char} (blank : c ∈ [' ', '\t', '\r', '\n']) (silent : next.item = none)
      (whole : c :: next.rest = source)
  | comment {body : List Char} (inLine : '\n' ∉ body) (ends : ∀ c ∈ next.rest.head?, c = '\n')
      (silent : next.item = none) (whole : '/' :: '/' :: body ++ next.rest = source)
  | read {item : Item} {text : List Char} (reads : Reads item text next.rest)
      (found : next.item = some item) (whole : text ++ next.rest = source)

theorem takes_token (line : Nat) {kind : Kind} {text : List Char} (lexeme : Lexeme kind text)
    (noComment : ¬['/', '/'] <+: text ++ rest) (longest : IsLongest text rest) :
    Step.Takes (text ++ rest) (token kind text line rest) := by
  have spelled : (String.ofList text).toList = text := String.toList_ofList
  have reads : Reads (.ok ⟨kind, String.ofList text, line⟩) (String.ofList text).toList rest := by
    refine .token ?_ ?_ ?_
    all_goals
      simp only [spelled]
      assumption
  rw [spelled] at reads
  exact .read reads rfl rfl

theorem not_comment {text : List Char} (h : c ≠ '/') : ¬['/', '/'] <+: c :: text := by
  intro slashes
  exact h (List.cons_prefix_cons.mp slashes).1.symm

theorem of_mem_takeWhile {p : Char → Bool} {text : List Char} (h : c ∈ text.takeWhile p) :
    p c = true :=
  List.all_eq_true.mp List.all_takeWhile c h

theorem prefix_takeWhile {p : Char → Bool} {text whole : List Char} (starts : text <+: whole)
    (all : ∀ c ∈ text, p c = true) : text <+: whole.takeWhile p := by
  obtain ⟨tail, rfl⟩ := starts
  rw [List.takeWhile_append_of_pos all]
  exact List.prefix_append _ _

theorem dropWhile_stop (p : Char → Bool) (text : List Char) :
    ∀ c ∈ (text.dropWhile p).head?, p c = false := by
  intro c head
  have stops := List.head?_dropWhile_not p text
  rw [Option.mem_def.mp head] at stops
  simpa using stops

theorem isLongest_of_begins {text : List Char}
    (longest : ∀ kind others, Lexeme kind (c :: others) → others <+: text ++ rest →
      others <+: text) : IsLongest (c :: text) rest := by
  intro kind other lexeme starts
  obtain ⟨c', others, rfl⟩ := List.exists_cons_of_ne_nil lexeme.ne_nil
  obtain ⟨rfl, within⟩ := List.cons_prefix_cons.mp starts
  exact Nat.succ_le_succ (longest kind others lexeme within).length_le

theorem continuesWord_iff : continuesWord c = true ↔ ContinuesName c := by
  simp [continuesWord, ContinuesName, glyph]

theorem startsWord_iff : startsWord c = true ↔ StartsName c := by
  simp [startsWord, StartsName, glyph]

theorem word_eq (line : Nat) (c : Char) (rest : List Char) :
    word line c rest = token (Lexeme.wordKind (c :: rest.takeWhile continuesWord))
      (c :: rest.takeWhile continuesWord) line (rest.dropWhile continuesWord) := by
  simp only [word, split, Lexeme.wordKind, text]
  cases Symbol.word? (String.ofList (c :: rest.takeWhile continuesWord)) <;> rfl

theorem takes_word (starts : StartsName c) : Step.Takes (c :: rest) (word line c rest) := by
  have whole : c :: rest.takeWhile continuesWord ++ rest.dropWhile continuesWord = c :: rest :=
    congrArg (c :: ·) List.takeWhile_append_dropWhile
  have continues : ∀ x ∈ rest.takeWhile continuesWord, ContinuesName x := by
    intro x member
    exact continuesWord_iff.mp (of_mem_takeWhile member)
  have noSlash : c ≠ '/' := by
    rintro rfl
    revert starts
    decide
  rw [word_eq, ← whole]
  refine takes_token line (.of_word starts continues) (not_comment noSlash) (isLongest_of_begins ?_)
  intro kind others lexeme within
  rw [List.takeWhile_append_dropWhile] at within
  refine prefix_takeWhile within ?_
  intro x member
  exact continuesWord_iff.mpr ((lexeme.word_rule starts).2 x member)

theorem takes_string : Step.Takes ('"' :: rest) (string line '"' rest) := by
  have join : rest.takeWhile (· != '"') ++ rest.dropWhile (· != '"') = rest :=
    List.takeWhile_append_dropWhile
  have closed : '"' ∉ rest.takeWhile (· != '"') := by
    intro member
    simpa using of_mem_takeWhile member
  have stops := dropWhile_stop (· != '"') rest
  simp only [string, split, glyph]
  generalize rest.takeWhile (· != '"') = contents at *
  generalize rest.dropWhile (· != '"') = after at *
  subst join
  cases after with
  | nil =>
    rw [List.append_nil]
    exact .read (.unterminated closed) rfl (List.append_nil _)
  | cons quote more =>
    obtain rfl : quote = '"' := by simpa using stops quote rfl
    have whole : '"' :: (contents ++ '"' :: more) = '"' :: contents ++ ['"'] ++ more := by simp
    rw [whole]
    refine takes_token _ (.quoted closed) (not_comment (by decide)) (isLongest_of_begins ?_)
    intro kind others lexeme within
    obtain ⟨contents', closed', rfl, rfl⟩ := lexeme.quoted_rule
    obtain ⟨tail, same⟩ := within
    have run : ∀ contents : List Char, '"' ∉ contents → ∀ after,
        (contents ++ '"' :: after).takeWhile (· != '"') = contents := by
      intro contents noQuote after
      refine (takeWhile_stop ?_ (by simp)).1
      intro c member
      simpa using ne_of_mem_of_not_mem member noQuote
    have alike : contents' = contents := by
      rw [← run contents' closed' tail, ← run contents closed more]
      simpa using congrArg (List.takeWhile (· != '"')) same
    rw [alike]
    exact List.prefix_refl _

theorem splitNumber_cases (text : List Char) :
    (splitNumber text = (text.takeWhile isDigit, text.dropWhile isDigit) ∧
      ∀ d more, text.dropWhile isDigit = '.' :: d :: more → d.isDigit = false) ∨
    ∃ d more, text.dropWhile isDigit = '.' :: d :: more ∧ d.isDigit = true ∧
      splitNumber text =
        (text.takeWhile isDigit ++ '.' :: d :: more.takeWhile isDigit, more.dropWhile isDigit) := by
  simp only [splitNumber, split]
  split
  · rename_i point d more after
    split
    · rename_i fraction
      simp only [glyph, Bool.and_eq_true, beq_iff_eq] at fraction
      obtain ⟨rfl, digit⟩ := fraction
      exact Or.inr ⟨d, more, after, digit, rfl⟩
    · rename_i fraction
      refine Or.inl ⟨rfl, ?_⟩
      intro d' more' after'
      cases after.symm.trans after'
      simpa [glyph, isDigit] using fraction
  · rename_i short
    refine Or.inl ⟨rfl, ?_⟩
    intro d more after
    exact absurd after (short '.' d more)

theorem splitNumber_join (text : List Char) :
    (splitNumber text).1 ++ (splitNumber text).2 = text := by
  have whole : text.takeWhile isDigit ++ text.dropWhile isDigit = text :=
    List.takeWhile_append_dropWhile
  rcases splitNumber_cases text with ⟨cut, _⟩ | ⟨d, more, after, _, cut⟩
  · rw [cut]
    exact whole
  · rw [cut]
    rw [after] at whole
    simpa using whole

theorem lexeme_splitNumber (digit : c.isDigit = true) (rest : List Char) :
    Lexeme (.number (numberValue (splitNumber (c :: rest)).1)) (splitNumber (c :: rest)).1 := by
  have some : (c :: rest).takeWhile isDigit ≠ [] := by
    rw [List.takeWhile_cons_of_pos (show isDigit c = true from digit)]
    exact List.cons_ne_nil _ _
  have all : ∀ text : List Char, ∀ d ∈ text.takeWhile isDigit, d.isDigit = true := by
    intro text d member
    exact of_mem_takeWhile (p := isDigit) member
  rcases splitNumber_cases (c :: rest) with ⟨cut, _⟩ | ⟨d, more, after, digit, cut⟩
  · rw [cut]
    exact .whole some (all _)
  · rw [cut]
    refine .fraction some (all _) (List.cons_ne_nil _ _) ?_
    intro x member
    rcases List.mem_cons.mp member with rfl | member
    · exact digit
    · exact all _ x member

theorem prefix_splitNumber {value : Float} {numeral text : List Char}
    (lexeme : Lexeme (.number value) numeral) (starts : numeral <+: text) :
    numeral <+: (splitNumber text).1 := by
  cases lexeme with
  | whole some all =>
    have run : numeral <+: text.takeWhile isDigit := prefix_takeWhile starts all
    rcases splitNumber_cases text with ⟨cut, _⟩ | ⟨d, more, _, _, cut⟩
    · rwa [cut]
    · rw [cut]
      exact run.trans (List.prefix_append _ _)
  | @fraction digits decimals some all someDecimals allDecimals =>
    obtain ⟨tail, rfl⟩ := starts
    obtain ⟨d, others, rfl⟩ := List.exists_cons_of_ne_nil someDecimals
    have cutAt : digits ++ '.' :: d :: others ++ tail = digits ++ '.' :: d :: (others ++ tail) := by
      simp
    have point : ∀ c ∈ ('.' :: d :: (others ++ tail)).head?, isDigit c = false := by
      simp [isDigit, glyph]
    obtain ⟨whole, after⟩ := takeWhile_stop (p := isDigit) all point
    rw [cutAt]
    rcases splitNumber_cases (digits ++ '.' :: d :: (others ++ tail)) with
      ⟨_, noFraction⟩ | ⟨d', more, after', digit, cut⟩
    · have digit := allDecimals d List.mem_cons_self
      exact absurd digit (by simp [noFraction d _ after])
    · cases after.symm.trans after'
      rw [cut, whole]
      have run : others <+: (others ++ tail).takeWhile isDigit :=
        prefix_takeWhile (List.prefix_append _ _)
          fun c member => allDecimals c (List.mem_cons_of_mem _ member)
      simpa using run

theorem takes_number (digit : c.isDigit = true) : Step.Takes (c :: rest) (number line c rest) := by
  have noSlash : c ≠ '/' := by
    rintro rfl
    revert digit
    decide
  have whole := splitNumber_join (c :: rest)
  have lexeme := lexeme_splitNumber digit rest
  have longest : IsLongest (splitNumber (c :: rest)).1 (splitNumber (c :: rest)).2 := by
    intro kind other standing starts
    rw [whole] at starts
    obtain ⟨c', others, rfl⟩ := List.exists_cons_of_ne_nil standing.ne_nil
    obtain ⟨rfl, _⟩ := List.cons_prefix_cons.mp starts
    rw [standing.numeral_rule digit] at standing
    exact (prefix_splitNumber standing starts).length_le
  have taken := takes_token line lexeme (by rw [whole]; exact not_comment noSlash) longest
  rw [whole] at taken
  have value : (splitNumber (c :: rest)).1.map glyph = (splitNumber (c :: rest)).1 := List.map_id _
  rwa [number, value]

theorem takes_mark {symbol : Symbol} {others : List Char}
    (spelled : symbol.spelling.toList = c :: others) (mark : symbol ∈ Symbol.marks)
    (noComment : ¬['/', '/'] <+: c :: others ++ rest)
    (alone : others = [] → c ∈ ['!', '=', '<', '>'] → rest.head? ≠ some '=') :
    Step.Takes (c :: others ++ rest) (token (.symbol symbol) (c :: others) line rest) := by
  have lexeme := Lexeme.fixed symbol
  obtain ⟨c', others', spelled', isMark⟩ := isMark_of_mem mark
  cases spelled.symm.trans spelled'
  rw [spelled] at lexeme
  refine takes_token line lexeme noComment (isLongest_of_begins ?_)
  intro kind longer standing within
  have short := (standing.mark_rule isMark.noDigit isMark.noName isMark.noQuote).1.short
  rcases short with rfl | ⟨rfl, extendable⟩
  · exact List.nil_prefix
  rcases isMark.short with rfl | ⟨rfl, _⟩
  · obtain ⟨tail, rfl⟩ := within
    exact absurd rfl (alone rfl extendable)
  · exact List.prefix_refl _

theorem takes_symbol {fixed : Symbol} (spelled : fixed.spelling.toList = [c])
    (mark : fixed ∈ Symbol.marks) (noComment : ¬['/', '/'] <+: c :: rest)
    (alone : c ∈ ['!', '=', '<', '>'] → rest.head? ≠ some '=') :
    Step.Takes (c :: rest) (symbol fixed line c rest) :=
  takes_mark spelled mark noComment fun _ => alone

theorem takes_operator {alone extended : Symbol} (spelled : alone.spelling.toList = [c])
    (mark : alone ∈ Symbol.marks) (spelled' : extended.spelling.toList = [c, '='])
    (mark' : extended ∈ Symbol.marks) (noSlash : c ≠ '/') :
    Step.Takes (c :: rest) (operator alone extended line c rest) := by
  cases rest with
  | nil => exact takes_symbol spelled mark (not_comment noSlash) (by simp)
  | cons next rest =>
    simp only [operator]
    split
    · rename_i equals
      obtain rfl : next = '=' := by simpa [glyph] using equals
      exact takes_mark spelled' mark' (not_comment noSlash) (by simp)
    · rename_i other
      refine takes_symbol spelled mark (not_comment noSlash) ?_
      simpa [glyph] using fun _ => other

theorem takes_slash : Step.Takes ('/' :: rest) (slash line '/' rest) := by
  cases rest with
  | nil => exact takes_symbol rfl (by decide) (by simp) (by simp)
  | cons next rest =>
    simp only [slash]
    split
    · rename_i second
      obtain rfl : next = '/' := by simpa [glyph] using second
      have join : rest.takeWhile (· != '\n') ++ rest.dropWhile (· != '\n') = rest :=
        List.takeWhile_append_dropWhile
      have inLine : '\n' ∉ rest.takeWhile (· != '\n') := by
        intro member
        simpa using of_mem_takeWhile member
      have ends : ∀ c ∈ (rest.dropWhile (· != '\n')).head?, c = '\n' := by
        intro c head
        exact by simpa using dropWhile_stop (· != '\n') rest c head
      exact .comment inLine ends rfl (congrArg (fun text => '/' :: '/' :: text) join)
    · rename_i other
      refine takes_symbol rfl (by decide) ?_ (by simp)
      intro slashes
      simp only [List.cons_prefix_cons] at slashes
      exact other (by simp [glyph, ← slashes.2.1])

theorem takes_unexpected (noBlank : c ∉ [' ', '\t', '\r', '\n']) (noDigit : c.isDigit = false)
    (noName : ¬StartsName c) (noQuote : c ≠ '"')
    (noMark : ∀ others, ¬IsMark c others) : Step.Takes (c :: rest) (unexpected line c rest) := by
  have reads : Reads (.error ⟨.unexpectedCharacter c, line⟩) [c] rest := by
    refine .unexpected noBlank noQuote ?_
    intro kind other lexeme starts
    obtain ⟨c', others, rfl⟩ := List.exists_cons_of_ne_nil lexeme.ne_nil
    obtain ⟨rfl, _⟩ := List.cons_prefix_cons.mp starts
    exact noMark others (lexeme.mark_rule noDigit noName noQuote).1
  refine .read reads ?_ rfl
  simp [unexpected, failure, text, tail]

theorem takes_step (line : Nat) (c : Char) (rest : List Char) :
    Step.Takes (c :: rest) (step line c rest) := by
  unfold step
  split
  all_goals try
    rename_i same
    obtain rfl : c = _ := same
  all_goals first
    | exact takes_symbol rfl (by decide) (not_comment (by decide)) fun h => absurd h (by decide)
    | exact takes_operator rfl (by decide) rfl (by decide) (by decide)
    | exact .blank (by decide) rfl rfl
    | exact takes_slash
    | exact takes_string
    | skip
  -- No mark, no blank and no quote stands here.
  split
  · rename_i digit
    exact takes_number digit
  split
  · rename_i letter
    exact takes_word (startsWord_iff.mp letter)
  · rename_i digit letter
    have noMark : ∀ others, ¬IsMark c others := by
      intro others mark
      have first := mark.first
      simp_all [glyph]
    refine takes_unexpected ?_ (by simpa [isDigit, glyph] using digit) ?_ ?_ noMark
    · simp_all [glyph]
    · exact fun starts => letter (startsWord_iff.mpr starts)
    · simp_all [glyph]

theorem Step.Counts.line_eq {source taken : List Char} {next : Step Char}
    (counts : next.Counts line source) (whole : taken ++ next.rest = source) :
    next.line = line + taken.count '\n' := by
  have counted := counts.counted
  have both : countNewlines (taken ++ next.rest) = taken.count '\n' + countNewlines next.rest :=
    List.countP_append
  rw [← whole, both] at counted
  omega

theorem placed_items {first : Nat} (line : Nat) (source passed : List Char)
    (start : line = first + passed.count '\n') :
    ∃ placed last, items line source = placed.map Prod.fst ++ [.ok ⟨.endOfInput, "", last⟩] ∧
      Placed passed source placed ∧
        ∀ item upTo, (item, upTo) ∈ placed → item.line = first + upTo.count '\n' := by
  induction line, source using items.induct generalizing passed with
  | case1 line => exact ⟨[], line, by simp [items], .finished .none, by simp⟩
  | case2 line c rest next smaller ih =>
    have counts := counts_step tail_char line c rest
    have goesOn {taken : List Char} (whole : taken ++ next.rest = c :: rest) :
        next.line = first + (passed ++ taken).count '\n' := by
      rw [counts.line_eq whole, start, List.count_append, Nat.add_assoc]
    rw [items]
    cases takes_step line c rest with
    | @blank b blank silent whole =>
      obtain ⟨placed, last, items_eq, cut, lines⟩ := ih (passed ++ [b]) (goesOn whole)
      refine ⟨placed, last, ?_, whole ▸ cut.blank blank, lines⟩
      simp only [silent, Option.toList_none, List.nil_append]
      exact items_eq
    | @comment body inLine ends silent whole =>
      obtain ⟨placed, last, items_eq, cut, lines⟩ :=
        ih (passed ++ '/' :: '/' :: body) (goesOn whole)
      refine ⟨placed, last, ?_, whole ▸ cut.comment inLine ends, lines⟩
      simp only [silent, Option.toList_none, List.nil_append]
      exact items_eq
    | @read item text reads found whole =>
      obtain ⟨placed, last, items_eq, cut, lines⟩ := ih (passed ++ text) (goesOn whole)
      refine ⟨(item, passed ++ text) :: placed, last, ?_, whole ▸ cut.read reads, ?_⟩
      · simp only [found, Option.toList_some, List.cons_append, List.nil_append, List.map_cons]
        exact congrArg (item :: ·) items_eq
      · intro item' upTo member
        rcases List.mem_cons.mp member with here | behind
        · cases here
          exact (counts.stamped item found).trans (goesOn whole)
        · exact lines item' upTo behind

theorem factors_items (line : Nat) (source : List Char) :
    ∃ read last, items line source = read ++ [.ok ⟨.endOfInput, "", last⟩] ∧
      Factors source read := by
  obtain ⟨placed, last, items_eq, cut, -⟩ := placed_items line source [] rfl
  exact ⟨_, last, items_eq, cut.factors⟩

end Scan

end Lox
