import Lox.Proofs.Scanning.Bytes

namespace Lox

/-- Byte positions: where the current lexeme starts, and how far the text has been read. -/
structure Cursor where
  start : Nat
  curr : Nat
  line : Nat

/-- What a scanner would fail at for good: a byte behind the end, a slice that does not begin and
end between characters, a turn that stands still. -/
inductive Cursor.Fault where
  | readBehindEnd
  | brokenSlice (first last : Nat)
  | standstill

abbrev Scanner := EStateM Cursor.Fault Cursor

namespace Scanner

open CodeUnit (glyph)
open Scan (isDigit startsWord continuesWord)

section Source

variable (source : String)

def byte? (position : Nat) : Option UInt8 := source.toByteArray.data[position]?

def byteOrZero (position : Nat) : UInt8 := (byte? source position).getD 0

def peek : Scanner UInt8 := fun c => .ok (byteOrZero source c.curr) c

def peekNext : Scanner UInt8 := fun c => .ok (byteOrZero source (c.curr + 1)) c

def isAtEnd : Scanner Bool := fun c => .ok (source.utf8ByteSize ≤ c.curr) c

def advance : Scanner UInt8 := fun c =>
  match byte? source c.curr with
  | some byte => .ok byte { c with curr := c.curr + 1 }
  | none => .error .readBehindEnd c

def accept (expected : Char) : Scanner Bool := fun c =>
  if glyph (byteOrZero source c.curr) == expected && c.curr < source.utf8ByteSize then
    .ok true { c with curr := c.curr + 1 }
  else .ok false c

/-- The text between two positions, each of which has to be between characters. -/
def slice (first last : Nat) : Scanner String := fun c =>
  if between : first ≤ last ∧ String.Pos.Raw.IsValid source ⟨first⟩ ∧
      String.Pos.Raw.IsValid source ⟨last⟩ then
    .ok (source.extract ⟨⟨first⟩, between.2.1⟩ ⟨⟨last⟩, between.2.2⟩) c
  else .error (.brokenSlice first last) c

def lexeme : Scanner String := fun c => slice source c.start c.curr c

def currentLine : Scanner Nat := fun c => .ok c.line c

def make (kind : Kind) : Scanner (Option Item) := do
  let lexeme ← lexeme source
  pure (some (.ok ⟨kind, lexeme, ← currentLine⟩))

def failure (cause : LexError.Cause) : Scanner (Option Item) := do
  pure (some (.error ⟨cause, ← currentLine⟩))

def newLine : Scanner Unit := fun c => .ok () { c with line := c.line + 1 }

/-- Moves on byte by byte as long as the next one, or the end, has a property, and counts the bytes
that begin a new line. -/
def advanceWhile (goesOn : Option UInt8 → Bool) (breaksLine : UInt8 → Bool) (c : Cursor) :
    EStateM.Result Cursor.Fault Cursor Unit :=
  if goesOn (byte? source c.curr) then
    if c.curr < source.utf8ByteSize then
      advanceWhile goesOn breaksLine
        { c with
          curr := c.curr + 1
          line := c.line + (breaksLine (byteOrZero source c.curr)).toNat }
    else .error .readBehindEnd c
  else .ok () c
termination_by source.utf8ByteSize - c.curr

/-- The loops over digits and words ask the zero behind the end. -/
def advanceOver (p : UInt8 → Bool) : Scanner Unit :=
  advanceWhile source (fun byte => p (byte.getD 0)) fun _ => false

/-- The loop over a string looks for the end itself. -/
def advanceToQuote : Scanner Unit :=
  advanceWhile source (fun byte => byte.any fun byte => glyph byte != '"')
    fun byte => glyph byte == '\n'

def skipLine : Scanner Unit := fun c =>
  if c.curr ≤ source.utf8ByteSize then
    let ahead := source.toByteArray.data.toList.drop c.curr
    match ahead.findIdx? fun byte => glyph byte == '\n' with
    | some offset => .ok () { c with curr := c.curr + offset }
    | none => .ok () { c with curr := source.utf8ByteSize }
  else .error .readBehindEnd c

def either (alone extended : Symbol) : Scanner (Option Item) := do
  if ← accept source '=' then make source (.symbol extended) else make source (.symbol alone)

def slash : Scanner (Option Item) := do
  if ← accept source '/' then
    skipLine source
    pure none
  else make source (.symbol .slash)

def contents : Scanner String := fun c => slice source (c.start + 1) (c.curr - 1) c

def closeString : Scanner (Option Item) := do
  let _ ← advance source
  let contents ← contents source
  make source (.string contents)

def string : Scanner (Option Item) := do
  advanceToQuote source
  if ← isAtEnd source then failure .unterminatedString else closeString source

def fraction : Scanner Unit := do
  if glyph (← peek source) == '.' && isDigit (← peekNext source) then
    let _ ← advance source
    advanceOver source isDigit
  else pure ()

def advanceOverNumeral : Scanner Unit := do
  advanceOver source isDigit
  fraction source

def number : Scanner (Option Item) := do
  advanceOverNumeral source
  let numeral ← lexeme source
  make source (.number (Scan.numberValue numeral.toList))

def word : Scanner (Option Item) := do
  advanceOver source continuesWord
  let word ← lexeme source
  make source (match Symbol.word? word with
    | some fixed => .symbol fixed
    | none => .identifier)

def remaining : Scanner String := fun c => slice source c.start source.utf8ByteSize c

def moveBehind (character : Char) : Scanner Unit := fun c =>
  .ok () { c with curr := c.start + character.utf8Size }

def unexpected : Scanner (Option Item) := do
  let remaining ← remaining source
  let character := remaining.toList.headD '\uFFFD'
  moveBehind character
  failure (.unexpectedCharacter character)

def scanToken : Scanner (Option Item) := do
  let byte ← advance source
  match glyph byte with
  | '(' => make source (.symbol .leftParen)
  | ')' => make source (.symbol .rightParen)
  | '\x7b' => make source (.symbol .leftBrace)
  | '\x7d' => make source (.symbol .rightBrace)
  | ',' => make source (.symbol .comma)
  | '.' => make source (.symbol .dot)
  | '-' => make source (.symbol .minus)
  | '+' => make source (.symbol .plus)
  | ';' => make source (.symbol .semicolon)
  | '*' => make source (.symbol .star)
  | '!' => either source .bang .bangEqual
  | '=' => either source .equal .equalEqual
  | '<' => either source .less .lessEqual
  | '>' => either source .greater .greaterEqual
  | ' ' | '\r' | '\t' => pure none
  | '\n' => do
    newLine
    pure none
  | '/' => slash source
  | '"' => string source
  | _ =>
    if isDigit byte then number source
    else if startsWord byte then word source
    else unexpected source

/-- One turn of the main loop: the positions it moved between, and what it found. -/
structure Turn where
  start : Nat
  stop : Nat
  item : Option Item

/-- All turns of the main loop, and the line of the end. -/
def turnsFrom (c : Cursor) : Except Cursor.Fault (List Turn × Nat) :=
  if c.curr < source.utf8ByteSize then
    match (scanToken source).run { c with start := c.curr } with
    | .error fault _ => .error fault
    | .ok item next =>
      if c.curr < next.curr then do
        let others ← turnsFrom next
        pure (⟨next.start, next.curr, item⟩ :: others.1, others.2)
      else .error .standstill
  else .ok ([], c.line)
termination_by source.utf8ByteSize - c.curr

def turns : Except Cursor.Fault (List Turn × Nat) := turnsFrom source ⟨0, 0, 1⟩

end Source

theorem run_bind {α β : Type} {x : Scanner α} {f : α → Scanner β} {c c' : Cursor} {a : α}
    (runs : x.run c = .ok a c') : (x >>= f).run c = (f a).run c' := by
  show EStateM.bind x f c = _
  rw [EStateM.bind, show x c = _ from runs]
  rfl

def width (cs : List Char) : Nat := (Scan.encode cs).length

@[simp] theorem width_append (cs cs' : List Char) : width (cs ++ cs') = width cs + width cs' := by
  rw [width, Scan.encode_append, List.length_append]
  rfl

theorem width_single (c : Char) : width [c] = c.utf8Size := by
  rw [width, Scan.encode_cons, Scan.encode_nil, List.append_nil, String.length_utf8EncodeChar]

theorem width_pos {cs : List Char} (some : cs ≠ []) : 0 < width cs := by
  obtain ⟨c, cs, rfl⟩ := List.exists_cons_of_ne_nil some
  rw [← List.singleton_append, width_append, width_single]
  exact Nat.lt_of_lt_of_le c.utf8Size_pos (Nat.le_add_right _ _)

theorem utf8ByteSize_eq_width (source : String) : source.utf8ByteSize = width source.toList := by
  rw [width, ← data_toByteArray, Array.length_toList, ByteArray.size_data, String.size_toByteArray]

variable {source : String}

structure Ahead (source : String) (position : Nat) (bytes : List UInt8) : Prop where
  inside : position ≤ source.utf8ByteSize
  rest : source.toByteArray.data.toList.drop position = bytes

namespace Ahead

variable {position : Nat} {byte : UInt8} {bytes others : List UInt8}

theorem byte?_eq (ahead : Ahead source position bytes) : byte? source position = bytes.head? := by
  rw [← ahead.rest, List.head?_drop, byte?, Array.getElem?_toList]

theorem length_eq (ahead : Ahead source position bytes) :
    position + bytes.length = source.utf8ByteSize := by
  have inside := ahead.inside
  rw [← ahead.rest, List.length_drop, Array.length_toList, ByteArray.size_data,
    String.size_toByteArray]
  omega

theorem skip (bytes : List UInt8) (ahead : Ahead source position (bytes ++ others)) :
    Ahead source (position + bytes.length) others := by
  have size := ahead.length_eq
  rw [List.length_append] at size
  refine ⟨by omega, ?_⟩
  rw [← List.drop_drop, ahead.rest, List.drop_left]

theorem next (ahead : Ahead source position (byte :: bytes)) : Ahead source (position + 1) bytes :=
  ahead.skip [byte]

theorem lt_iff (ahead : Ahead source position bytes) :
    position < source.utf8ByteSize ↔ bytes ≠ [] := by
  have size := ahead.length_eq
  rw [← List.length_pos_iff]
  omega

end Ahead

variable {before taken after cs : List Char}

theorem ahead_of_whole (whole : source.toList = before ++ after) :
    Ahead source (width before) (Scan.encode after) := by
  constructor
  · rw [utf8ByteSize_eq_width, whole, width_append]
    exact Nat.le_add_right _ _
  · rw [data_toByteArray, whole, Scan.encode_append, width, List.drop_left]

theorem isValid_of_whole (whole : source.toList = before ++ after) :
    String.Pos.Raw.IsValid source ⟨width before⟩ := by
  refine String.Pos.Raw.isValid_iff_exists_append.mpr ⟨.ofList before, .ofList after, ?_, ?_⟩
  · rw [← String.ofList_append, ← whole, String.ofList_toList]
  · rw [String.rawEndPos, utf8ByteSize_eq_width, String.toList_ofList]

theorem slice_of_whole (whole : source.toList = before ++ taken ++ after) (c : Cursor) :
    (slice source (width before) (width (before ++ taken))).run c =
      .ok (String.ofList taken) c := by
  have starts : String.Pos.Raw.IsValid source ⟨width before⟩ :=
    isValid_of_whole (whole.trans (List.append_assoc ..))
  have ends : String.Pos.Raw.IsValid source ⟨width (before ++ taken)⟩ := isValid_of_whole whole
  have ordered : width before ≤ width (before ++ taken) := by
    rw [width_append]
    exact Nat.le_add_right _ _
  have ahead := ahead_of_whole (whole.trans (List.append_assoc ..))
  rw [EStateM.run, slice, dif_pos ⟨ordered, starts, ends⟩]
  congr 1
  apply String.toByteArray_inj.mp
  apply ByteArray.ext
  apply Array.toList_inj.mp
  rw [data_toByteArray (.ofList taken), String.toList_ofList]
  show (source.toByteArray.extract (width before) (width (before ++ taken))).data.toList = _
  rw [ByteArray.data_extract, Array.toList_extract, List.extract_eq_take_drop, ahead.rest,
    Scan.encode_append, width_append, Nat.add_sub_cancel_left, width, List.take_left]

section Operations

variable {curr : Nat} {byte : UInt8} {bytes : List UInt8}

theorem advance_of_ahead {start line : Nat} (ahead : Ahead source curr (byte :: bytes)) :
    (advance source).run ⟨start, curr, line⟩ = .ok byte ⟨start, curr + 1, line⟩ := by
  rw [EStateM.run, advance, ahead.byte?_eq, List.head?_cons]

theorem advanceWhile_of_ahead (start line : Nat) (goesOn : Option UInt8 → Bool)
    (breaksLine : UInt8 → Bool) {p : UInt8 → Bool} (same : ∀ byte, goesOn (some byte) = p byte)
    (stops : goesOn none = false) (ahead : Ahead source curr bytes) :
    advanceWhile source goesOn breaksLine ⟨start, curr, line⟩ =
      .ok () ⟨start, curr + (bytes.takeWhile p).length,
        line + (bytes.takeWhile p).countP breaksLine⟩ := by
  induction bytes generalizing curr line with
  | nil =>
    rw [advanceWhile, ahead.byte?_eq, List.head?_nil, stops]
    rfl
  | cons byte bytes ih =>
    rw [advanceWhile, ahead.byte?_eq, List.head?_cons, same, List.takeWhile_cons]
    cases holds : p byte with
    | false => rfl
    | true =>
      have inside : curr < source.utf8ByteSize := ahead.lt_iff.mpr (List.cons_ne_nil _ _)
      have here : byteOrZero source curr = byte := by rw [byteOrZero, ahead.byte?_eq]; rfl
      rw [if_pos rfl, if_pos inside, here, ih _ ahead.next, if_pos rfl, List.length_cons,
        List.countP_cons]
      cases breaksLine byte <;> simp [Nat.add_comm, Nat.add_left_comm]

variable (ahead : Ahead source curr (Scan.encode cs))
include ahead

theorem accept_of_ahead {start line : Nat} {expected : Char} (small : expected.toNat < 128) :
    (accept source expected).run ⟨start, curr, line⟩ = .ok (cs.head? == some expected)
      ⟨start, if cs.head? == some expected then curr + 1 else curr, line⟩ := by
  have inside := ahead.lt_iff
  rw [EStateM.run, accept, byteOrZero, ahead.byte?_eq]
  rcases Scan.encode_cases cs with rfl | ⟨next, rest, first, others, rfl, bytes, spelled⟩
  · simp at inside
    simp [Nat.not_lt_of_le inside]
  · have equals : (glyph first == expected) = (next == expected) :=
      Scan.is_encode small (spelled ▸ List.mem_cons_self)
    rw [bytes] at inside ⊢
    have inside := inside.mpr (List.cons_ne_nil _ _)
    simp only [List.head?_cons, Option.getD_some, equals, inside, decide_true, Bool.and_true]
    cases same : next == expected
    all_goals simp_all

theorem advanceOver_of_ahead (start line : Nat) {p : UInt8 → Bool} {q : Char → Bool}
    (same : ∀ c, ∀ byte ∈ String.utf8EncodeChar c, p byte = q c) (zero : p 0 = false) :
    (advanceOver source p).run ⟨start, curr, line⟩ =
      .ok () ⟨start, curr + width (cs.takeWhile q), line⟩ := by
  have run := advanceWhile_of_ahead start line (fun byte => p (byte.getD 0)) (fun _ => false)
    (fun _ => rfl) zero ahead
  simp only [Option.getD_some, (Scan.takeWhile_encode same cs).1, List.countP_false] at run
  exact run

theorem advanceToQuote_of_ahead (start line : Nat) :
    (advanceToQuote source).run ⟨start, curr, line⟩ =
      .ok () ⟨start, curr + width (cs.takeWhile (· != '"')),
        line + Scan.countNewlines (cs.takeWhile (· != '"'))⟩ := by
  have run := advanceWhile_of_ahead start line
    (fun byte => byte.any fun byte => glyph byte != '"') (fun byte => glyph byte == '\n')
    (fun _ => rfl) rfl ahead
  have contents := (Scan.takeWhile_encode (p := fun byte => glyph byte != '"')
    (fun c byte => Scan.isNot_encode (by decide)) cs).1
  simp only [Option.any_some, contents] at run
  rw [← Scan.countNewlines_encode]
  exact run

theorem skipLine_of_ahead (start line : Nat) :
    (skipLine source).run ⟨start, curr, line⟩ =
      .ok () ⟨start, curr + width (cs.takeWhile (· != '\n')), line⟩ := by
  have comment := (Scan.takeWhile_encode (p := fun byte => glyph byte != '\n')
    (fun c byte => Scan.isNot_encode (by decide)) cs).1
  have run : width (cs.takeWhile (· != '\n')) =
      (Scan.encode cs).findIdx fun byte => glyph byte == '\n' := by
    rw [width, ← comment, List.takeWhile_eq_take_findIdx_not, List.length_take,
      Nat.min_eq_left List.findIdx_le_length]
    simp only [bne, Bool.not_not]
  rw [run, List.findIdx_eq_getD_findIdx?, EStateM.run, skipLine, if_pos ahead.inside]
  simp only [ahead.rest, ← ahead.length_eq]
  cases (Scan.encode cs).findIdx? fun byte => glyph byte == '\n' <;> rfl

theorem isAtEnd_of_ahead (start line : Nat) :
    (isAtEnd source).run ⟨start, curr, line⟩ = .ok cs.isEmpty ⟨start, curr, line⟩ := by
  have size := ahead.length_eq
  rw [EStateM.run, isAtEnd, ← size]
  congr 1
  rcases Scan.encode_cases cs with none | ⟨c, rest, _, _, more, bytes, _⟩
  · simp [none]
  · rw [bytes, more]
    exact decide_eq_false (Nat.not_le_of_lt (Nat.lt_add_of_pos_right (Nat.succ_pos _)))

theorem answer_of_ahead {p : UInt8 → Bool} {q : Char → Bool}
    (same : ∀ c, ∀ byte ∈ String.utf8EncodeChar c, p byte = q c) (zero : p 0 = false) :
    p (byteOrZero source curr) = cs.head?.any q := by
  rw [byteOrZero, ahead.byte?_eq]
  rcases Scan.encode_cases cs with rfl | ⟨c, rest, byte, _, rfl, bytes, spelled⟩
  · exact zero
  · rw [bytes]
    exact same c byte (spelled ▸ List.mem_cons_self)

omit ahead

variable {start line : Nat}

theorem run_peek : (peek source).run ⟨start, curr, line⟩ =
    .ok (byteOrZero source curr) ⟨start, curr, line⟩ := rfl

theorem run_peekNext : (peekNext source).run ⟨start, curr, line⟩ =
    .ok (byteOrZero source (curr + 1)) ⟨start, curr, line⟩ := rfl

theorem fraction_of_none (ahead : Ahead source curr (Scan.encode cs))
    (none : ∀ d more, cs = '.' :: d :: more → d.isDigit = false) :
    (fraction source).run ⟨start, curr, line⟩ = .ok () ⟨start, curr, line⟩ := by
  have point := answer_of_ahead ahead (p := fun byte => glyph byte == '.')
    (fun c byte => Scan.is_encode (by decide)) (by decide)
  have refused : (glyph (byteOrZero source curr) == '.' &&
      isDigit (byteOrZero source (curr + 1))) = false := by
    rw [point]
    rcases cs with _ | ⟨c, more⟩
    · rfl
    by_cases isPoint : c = '.'
    · subst isPoint
      have behind : Ahead source (curr + 1) (Scan.encode more) := ahead.next
      rw [answer_of_ahead behind (fun c byte => Scan.isDigit_encode) (by decide)]
      rcases more with _ | ⟨d, more⟩
      · rfl
      · exact none d more rfl
    · simp [isPoint]
  rw [fraction, run_bind run_peek, run_bind run_peekNext, refused]
  rfl

theorem fraction_of_some {d : Char} (digit : d.isDigit = true)
    (ahead : Ahead source curr (Scan.encode ('.' :: d :: cs))) :
    (fraction source).run ⟨start, curr, line⟩ =
      .ok () ⟨start, curr + width ('.' :: d :: cs.takeWhile isDigit), line⟩ := by
  have behind : Ahead source (curr + 1) (Scan.encode (d :: cs)) := ahead.next
  have accepted : (glyph (byteOrZero source curr) == '.' &&
      isDigit (byteOrZero source (curr + 1))) = true := by
    have point := answer_of_ahead ahead (p := fun byte => glyph byte == '.')
      (fun c byte => Scan.is_encode (by decide)) (by decide)
    rw [point, answer_of_ahead behind (fun c byte => Scan.isDigit_encode) (by decide)]
    exact digit
  have digits := advanceOver_of_ahead behind start line
    (fun c byte => Scan.isDigit_encode) (by decide)
  have taken : curr + 1 + width ((d :: cs).takeWhile isDigit) =
      curr + width ('.' :: d :: cs.takeWhile isDigit) := by
    rw [List.takeWhile_cons_of_pos (show isDigit d = true from digit),
      ← List.singleton_append (l := d :: _), width_append, Nat.add_assoc]
    rfl
  rw [taken] at digits
  rw [fraction, run_bind run_peek, run_bind run_peekNext, accepted, if_pos rfl]
  have point : Ahead source curr (46 :: Scan.encode (d :: cs)) := ahead
  exact (run_bind (advance_of_ahead point)).trans digits

end Operations

/-- The scanner has ended a turn where reading the characters ends its step. -/
def Follows (before cs : List Char) (next : Scan.Step Char)
    (result : EStateM.Result Cursor.Fault Cursor (Option Item)) : Prop :=
  ∃ taken, taken ++ next.rest = cs ∧
    result = .ok next.item ⟨width before, width (before ++ taken), next.line⟩

theorem lexeme_of_whole {line curr : Nat} (whole : source.toList = before ++ (taken ++ after))
    (behind : curr = width (before ++ taken)) :
    (lexeme source).run ⟨width before, curr, line⟩ =
      .ok (String.ofList taken) ⟨width before, curr, line⟩ := by
  subst behind
  exact slice_of_whole (whole.trans (List.append_assoc ..).symm) _

theorem follows_make (taken : List Char) {line curr : Nat}
    (whole : source.toList = before ++ (taken ++ after)) (behind : curr = width (before ++ taken))
    (kind : Kind) :
    Follows before (taken ++ after) (Scan.token kind taken line after)
      ((make source kind).run ⟨width before, curr, line⟩) := by
  refine ⟨taken, rfl, ?_⟩
  rw [make, run_bind (lexeme_of_whole whole behind), ← behind]
  rfl

theorem width_both {c next : Char} (narrow : next.utf8Size = 1) :
    width (before ++ [c]) + 1 = width (before ++ [c, next]) := by
  rw [← narrow, ← width_single, ← width_append, List.append_assoc]
  rfl

theorem width_behind (before first others : List Char) :
    width (before ++ first) + width others = width (before ++ (first ++ others)) := by
  rw [← List.append_assoc, width_append (before ++ first)]

section Branches

variable {c : Char} {line : Nat} (whole : source.toList = before ++ c :: cs)
include whole

theorem ahead_behind_first : Ahead source (width (before ++ [c])) (Scan.encode cs) :=
  ahead_of_whole (whole.trans (List.append_cons ..))

theorem follows_either (alone extended : Symbol) :
    Follows before (c :: cs) (Scan.operator alone extended line c cs)
      ((either source alone extended).run ⟨width before, width (before ++ [c]), line⟩) := by
  rw [either, run_bind (accept_of_ahead (ahead_behind_first whole) (by decide))]
  cases cs with
  | nil => exact follows_make [c] whole rfl _
  | cons next rest =>
    by_cases equals : next = '='
    · subst equals
      exact follows_make [c, '='] whole (width_both rfl) _
    · simp only [Scan.operator, Scan.glyph_char, List.head?_cons, Option.some_beq_some,
        beq_false_of_ne equals, Bool.false_eq_true, if_false]
      exact follows_make [c] whole rfl _

theorem follows_slash : Follows before (c :: cs) (Scan.slash line c cs)
    ((slash source).run ⟨width before, width (before ++ [c]), line⟩) := by
  rw [slash, run_bind (accept_of_ahead (ahead_behind_first whole) (by decide))]
  cases cs with
  | nil => exact follows_make [c] whole rfl _
  | cons next rest =>
    by_cases again : next = '/'
    · subst again
      have ahead : Ahead source (width (before ++ [c, '/'])) (Scan.encode rest) :=
        ahead_of_whole (whole.trans (by simp))
      have start : (if ('/' :: rest).head? == some '/' then width (before ++ [c]) + 1
          else width (before ++ [c])) = width (before ++ [c, '/']) := width_both rfl
      refine ⟨c :: '/' :: rest.takeWhile (· != '\n'), ?_, ?_⟩
      · exact congrArg (c :: '/' :: ·) List.takeWhile_append_dropWhile
      · rw [start]
        refine (run_bind (skipLine_of_ahead ahead _ _)).trans ?_
        rw [width_behind]
        rfl
    · simp only [Scan.slash, Scan.glyph_char, List.head?_cons, Option.some_beq_some,
        beq_false_of_ne again, Bool.false_eq_true, if_false]
      exact follows_make [c] whole rfl _

omit whole in
theorem follows_closeString {contents : List Char}
    (whole : source.toList = before ++ ('"' :: contents ++ '"' :: after)) :
    Follows before ('"' :: contents ++ '"' :: after)
      (Scan.token (.string (.ofList contents)) ('"' :: contents ++ ['"']) line after)
      ((closeString source).run ⟨width before, width (before ++ '"' :: contents), line⟩) := by
  have ahead : Ahead source (width (before ++ '"' :: contents)) (34 :: Scan.encode after) :=
    ahead_of_whole (show source.toList = before ++ '"' :: contents ++ '"' :: after by simp [whole])
  have stop : width (before ++ '"' :: contents) + 1 =
      width (before ++ ('"' :: contents ++ ['"'])) :=
    width_behind before ('"' :: contents) ['"']
  have read : (Scanner.contents source).run
      ⟨width before, width (before ++ '"' :: contents) + 1, line⟩ =
        .ok (String.ofList contents)
          ⟨width before, width (before ++ '"' :: contents) + 1, line⟩ := by
    have start : width (before ++ ['"']) = width before + 1 := width_append before ['"']
    have inside : source.toList = before ++ ['"'] ++ contents ++ '"' :: after := by simp [whole]
    have cut := slice_of_whole inside
    rw [start, List.append_assoc] at cut
    exact cut _
  have every : '"' :: contents ++ '"' :: after = '"' :: contents ++ ['"'] ++ after := by simp
  rw [closeString, run_bind (advance_of_ahead ahead), run_bind read]
  rw [every] at whole ⊢
  exact follows_make _ whole stop _

theorem follows_string (quote : c = '"') : Follows before (c :: cs) (Scan.string line c cs)
    ((string source).run ⟨width before, width (before ++ [c]), line⟩) := by
  subst quote
  have parts : cs.takeWhile (· != '"') ++ cs.dropWhile (· != '"') = cs :=
    List.takeWhile_append_dropWhile
  have closed := List.head?_dropWhile_not (· != '"') cs
  rw [string, run_bind (advanceToQuote_of_ahead (ahead_behind_first whole) _ _), width_behind]
  simp only [Scan.string, Scan.split, Scan.glyph_char]
  generalize cs.takeWhile (· != '"') = contents at *
  generalize cs.dropWhile (· != '"') = behind at *
  subst parts
  have ahead : Ahead source (width (before ++ (['"'] ++ contents))) (Scan.encode behind) :=
    ahead_of_whole (whole.trans (by simp))
  rw [run_bind (isAtEnd_of_ahead ahead _ _)]
  cases behind with
  | nil => exact ⟨'"' :: contents, rfl, rfl⟩
  | cons quote rest =>
    obtain rfl : quote = '"' := by simpa using closed
    exact follows_closeString whole

theorem follows_word : Follows before (c :: cs) (Scan.word line c cs)
    ((word source).run ⟨width before, width (before ++ [c]), line⟩) := by
  have parts : c :: cs = c :: cs.takeWhile continuesWord ++ cs.dropWhile continuesWord :=
    congrArg (c :: ·) List.takeWhile_append_dropWhile.symm
  have advanced := advanceOver_of_ahead (ahead_behind_first whole) (width before) line
    (fun c byte => Scan.continuesWord_encode) (by decide)
  rw [width_behind, List.singleton_append] at advanced
  rw [parts] at whole ⊢
  rw [word, run_bind advanced, run_bind (lexeme_of_whole whole rfl)]
  exact follows_make _ whole rfl _

theorem numeral_of_whole (digit : c.isDigit = true) :
    (advanceOverNumeral source).run ⟨width before, width (before ++ [c]), line⟩ =
      .ok () ⟨width before, width (before ++ (Scan.splitNumber (c :: cs)).1), line⟩ := by
  have advanced := advanceOver_of_ahead (ahead_behind_first whole) (width before) line
    (fun c byte => Scan.isDigit_encode) (by decide)
  have cut : (c :: cs).takeWhile isDigit = c :: cs.takeWhile isDigit :=
    List.takeWhile_cons_of_pos digit
  have rest : (c :: cs).dropWhile isDigit = cs.dropWhile isDigit :=
    List.dropWhile_cons_of_pos digit
  have behind : source.toList = before ++ c :: cs.takeWhile isDigit ++ cs.dropWhile isDigit := by
    simp [whole]
  rw [advanceOverNumeral, run_bind advanced, width_behind, List.singleton_append]
  rcases Scan.splitNumber_cases (c :: cs) with ⟨split, none⟩ | ⟨d, more, after, digit, split⟩
  · rw [rest] at none
    rw [split, cut]
    exact fraction_of_none (ahead_of_whole behind) none
  · rw [rest] at after
    rw [after] at behind
    rw [split, cut, fraction_of_some digit (ahead_of_whole behind), ← width_append,
      List.append_assoc]

theorem follows_number (digit : c.isDigit = true) : Follows before (c :: cs) (Scan.number line c cs)
    ((number source).run ⟨width before, width (before ++ [c]), line⟩) := by
  have join := Scan.splitNumber_join (c :: cs)
  have same : (Scan.splitNumber (c :: cs)).1.map (glyph : Char → Char) =
    (Scan.splitNumber (c :: cs)).1 := List.map_id _
  rw [number, run_bind (numeral_of_whole whole digit), Scan.number, same]
  generalize Scan.splitNumber (c :: cs) = parts at *
  rw [← join] at whole ⊢
  rw [run_bind (lexeme_of_whole whole rfl), String.toList_ofList]
  exact follows_make _ whole rfl _

theorem follows_unexpected (curr : Nat) : Follows before (c :: cs) (Scan.unexpected line c cs)
    ((unexpected source).run ⟨width before, curr, line⟩) := by
  have all : (remaining source).run ⟨width before, curr, line⟩ =
      .ok (String.ofList (c :: cs)) ⟨width before, curr, line⟩ := by
    have size : source.utf8ByteSize = width (before ++ (c :: cs)) := by
      rw [utf8ByteSize_eq_width, whole]
    rw [EStateM.run, remaining, size]
    have all : source.toList = before ++ (c :: cs) ++ [] := by rw [whole, List.append_nil]
    exact slice_of_whole all _
  refine ⟨[c], rfl, ?_⟩
  rw [unexpected, run_bind all, String.toList_ofList, List.headD_cons, width_append, width_single]
  simp [Scan.unexpected, Scan.failure, CodeUnit.text, CodeUnit.tail]
  rfl

theorem follows_scanToken (line : Nat) : Follows before (c :: cs) (Scan.step line c cs)
    ((scanToken source).run ⟨width before, width before, line⟩) := by
  have shape := Scan.encoding c
  have ahead := ahead_of_whole whole
  rw [Scan.encode_cons] at ahead
  have narrow := String.length_utf8EncodeChar c
  generalize String.utf8EncodeChar c = bytes at *
  cases shape with
  | @wide lead others large _ apart =>
    have large' : 128 ≤ (glyph lead).toNat :=
      Scan.toNat_glyph lead ▸ apart lead List.mem_cons_self
    have noDigit : isDigit lead = false := Scan.isDigit_of_large large'
    have noWord : startsWord lead = false := by
      have other : glyph lead ≠ '_' := Scan.ne_of_large large' (by decide)
      simp [startsWord, Scan.isAlpha_of_large large', other]
    rw [Scan.step_of_large large, scanToken, run_bind (advance_of_ahead ahead)]
    split
    all_goals try
      rename_i same
      exact absurd same (Scan.ne_of_large large' (by decide))
    rw [noDigit, noWord]
    exact follows_unexpected whole _
  | @ascii byte small same =>
    have behind : width before + 1 = width (before ++ [c]) := by
      rw [width_append, width_single, ← narrow]
      rfl
    have digit : isDigit byte = isDigit c := congrArg Char.isDigit same
    have letter : startsWord byte = startsWord c := by simp only [startsWord, same]; rfl
    rw [scanToken, run_bind (advance_of_ahead ahead), behind, same, digit, letter]
    unfold Scan.step
    simp only [Scan.glyph_char]
    split
    all_goals first
      | exact follows_make [_] whole rfl _
      | exact follows_either whole _ _
      | exact follows_slash whole
      | exact follows_string whole rfl
      | exact ⟨[_], rfl, rfl⟩
      | skip
    -- No mark, no blank and no quote stands here.
    cases number : isDigit c with
    | true =>
      simp only [*, if_true]
      exact follows_number whole number
    | false =>
      cases word : startsWord c with
      | true =>
        simp only [*, if_true, Bool.false_eq_true, if_false]
        exact follows_word whole
      | false =>
        simp only [*, Bool.false_eq_true, if_false]
        exact follows_unexpected whole _

end Branches

/-- The turns lie side by side from one position to another. -/
inductive SideBySide : Nat → List Turn → Nat → Prop
  | nil (position : Nat) : SideBySide position [] position
  | cons (turn : Turn) {turns : List Turn} {last : Nat}
      (others : SideBySide turn.stop turns last) : SideBySide turn.start (turn :: turns) last

/-- A turn moves on over whole characters. Over a character outside ASCII where an item could start
it moves alone, and reports it. -/
structure Turn.Sound (source : String) (turn : Turn) : Prop where
  starts : String.Pos.Raw.IsValid source ⟨turn.start⟩
  stops : String.Pos.Raw.IsValid source ⟨turn.stop⟩
  onward : turn.start < turn.stop
  inside : turn.stop ≤ source.utf8ByteSize
  reports : ∀ before c after, source.toList = before ++ c :: after →
    turn.start = (String.ofList before).utf8ByteSize → 1 < c.utf8Size →
      turn.stop = turn.start + c.utf8Size ∧
        ∃ line, turn.item = some (.error ⟨.unexpectedCharacter c, line⟩)

theorem large_of_utf8Size {c : Char} (wide : 1 < c.utf8Size) : 128 ≤ c.toNat := by
  apply Nat.le_of_not_lt
  intro small
  obtain ⟨byte, spelled, -⟩ := Scan.encode_small small
  rw [← String.length_utf8EncodeChar, spelled] at wide
  exact Nat.lt_irrefl 1 wide

theorem eq_of_width_eq {before' after' : List Char} (cut : before ++ after = before' ++ after')
    (same : width before = width before') : before = before' ∧ after = after' := by
  rcases List.append_eq_append_iff.mp cut with ⟨more, longer, rest⟩ | ⟨more, longer, rest⟩
  all_goals
    have empty : more = [] := by
      apply Decidable.byContradiction
      intro some
      have := width_pos some
      rw [longer, width_append] at same
      omega
    subst empty
    simp_all

theorem turn_sound {c : Char} {line : Nat} (whole : source.toList = before ++ c :: cs)
    (join : taken ++ (Scan.step line c cs).rest = c :: cs) :
    Turn.Sound source ⟨width before, width (before ++ taken), (Scan.step line c cs).item⟩ := by
  have some : taken ≠ [] := by
    rintro rfl
    have shorter := Scan.length_step_rest line c cs
    rw [List.nil_append] at join
    rw [join, List.length_cons] at shorter
    omega
  have behind : source.toList = before ++ taken ++ (Scan.step line c cs).rest := by
    rw [whole, ← join, List.append_assoc]
  refine ⟨isValid_of_whole whole, isValid_of_whole behind, ?_, ?_, ?_⟩
  · show width before < width (before ++ taken)
    rw [width_append]
    exact Nat.lt_add_of_pos_right (width_pos some)
  · exact (ahead_of_whole behind).inside
  · intro before' c' after' whole' start wide
    rw [utf8ByteSize_eq_width, String.toList_ofList] at start
    obtain ⟨rfl, same⟩ := eq_of_width_eq (whole.symm.trans whole') start
    obtain ⟨rfl, rfl⟩ := List.cons.inj same
    rw [Scan.step_of_large (large_of_utf8Size wide)] at join ⊢
    obtain rfl : taken = [c] :=
      List.append_cancel_right (show taken ++ cs = [c] ++ cs from join)
    refine ⟨?_, line, by simp [Scan.unexpected, Scan.failure, CodeUnit.text, CodeUnit.tail]⟩
    show width (before ++ [c]) = _
    rw [width_append, width_single]

theorem turnsFrom_whole (line : Nat) (cs before : List Char) (start : Nat)
    (whole : source.toList = before ++ cs) :
    ∃ turns last, turnsFrom source ⟨start, width before, line⟩ = .ok (turns, last) ∧
      SideBySide (width before) turns source.utf8ByteSize ∧
      (∀ turn ∈ turns, turn.Sound source) ∧
      Scan.items line cs = turns.filterMap Turn.item ++ [.ok ⟨.endOfInput, "", last⟩] := by
  induction line, cs using Scan.items.induct generalizing before start with
  | case1 line =>
    have ends : source.utf8ByteSize = width before := by
      rw [utf8ByteSize_eq_width, whole, List.append_nil]
    refine ⟨[], line, ?_, ?_, by simp, by simp [Scan.items]⟩
    · rw [turnsFrom, if_neg (Nat.not_lt_of_le (Nat.le_of_eq ends))]
    · rw [ends]
      exact .nil _
  | case2 line c cs next smaller ih =>
    obtain ⟨taken, join, runs⟩ := follows_scanToken whole line
    have sound := turn_sound whole join
    have behind : source.toList = before ++ taken ++ next.rest := by
      rw [whole, ← join, List.append_assoc]
    obtain ⟨turns, last, loop, side, all, items⟩ := ih (before ++ taken) (width before) behind
    let turn : Turn := ⟨width before, width (before ++ taken), next.item⟩
    have sideBySide : SideBySide turn.start (turn :: turns) source.utf8ByteSize := .cons turn side
    refine ⟨turn :: turns, last, ?_, sideBySide, ?_, ?_⟩
    · rw [turnsFrom, if_pos (Nat.lt_of_lt_of_le sound.onward sound.inside)]
      simp only [runs]
      rw [if_pos sound.onward]
      simp only [next] at loop
      rw [loop]
      rfl
    · exact List.forall_mem_cons.mpr ⟨sound, all⟩
    · rw [Scan.items, items]
      cases found : (Scan.step line c cs).item with
      | none =>
        rw [List.filterMap_cons_none (f := Turn.item) (a := turn) found]
        rfl
      | some item =>
        rw [List.filterMap_cons_some (f := Turn.item) (a := turn) found]
        rfl

end Scanner

/-- Scanning by a cursor over the bytes of a text never fails: it reads no byte behind the end, takes
no slice through a character and never stands still. -/
theorem turns_of_text (source : String) :
    ∃ turns line, Scanner.turns source = .ok (turns, line) ∧
      Scanner.SideBySide 0 turns source.utf8ByteSize ∧ (∀ turn ∈ turns, turn.Sound source) ∧
      scan source = turns.filterMap Scanner.Turn.item ++ [.ok ⟨.endOfInput, "", line⟩] ∧
      scanBytes source.toByteArray = scan source := by
  obtain ⟨turns, last, runs, side, sound, items⟩ :=
    Scanner.turnsFrom_whole 1 source.toList [] 0 (List.nil_append source.toList).symm
  exact ⟨turns, last, runs, side, sound, items, scanBytes_toByteArray source⟩

end Lox
