import Lox.Proofs.Scanning.Factorization

namespace Lox.Scan

open CodeUnit

def encode (cs : List Char) : List UInt8 := cs.flatMap String.utf8EncodeChar

@[simp] theorem encode_nil : encode [] = [] := rfl

@[simp] theorem encode_cons (c : Char) (cs : List Char) :
    encode (c :: cs) = String.utf8EncodeChar c ++ encode cs := rfl

@[simp] theorem encode_append (cs cs' : List Char) : encode (cs ++ cs') = encode cs ++ encode cs' :=
  List.flatMap_append

/-- The bytes of a character: one that stands for it, or, outside ASCII, a first one that tells how
many follow, and none that looks like an ASCII character. -/
inductive Encoding (c : Char) : List UInt8 → Prop
  | ascii {byte : UInt8} (small : c.toNat < 128) (same : glyph byte = c) : Encoding c [byte]
  | wide {lead : UInt8} {others : List UInt8} (large : 128 ≤ c.toNat)
      (count : continuationBytes lead = others.length)
      (apart : ∀ byte ∈ lead :: others, 128 ≤ byte.toNat) : Encoding c (lead :: others)

theorem large_byte {n : Nat} (low : 128 ≤ n) (high : n < 256) : 128 ≤ (UInt8.ofNat n).toNat := by
  rw [UInt8.toNat_ofNat', Nat.mod_eq_of_lt high]
  exact low

theorem encoding (c : Char) : Encoding c (String.utf8EncodeChar c) := by
  have two : ∀ n < 32, continuationBytes (UInt8.ofNat (n + 192)) = 1 := by decide
  have three : ∀ n < 16, continuationBytes (UInt8.ofNat (n + 224)) = 2 := by decide
  have four : ∀ n < 8, continuationBytes (UInt8.ofNat (n + 240)) = 3 := by decide
  have value : c.val.toNat = c.toNat := rfl
  unfold String.utf8EncodeChar
  simp only [value]
  split
  · refine .ascii (by omega) ?_
    have fits : (UInt8.ofNat c.toNat).toNat = c.toNat := by rw [UInt8.toNat_ofNat']; omega
    simp only [glyph, fits, Char.ofNat_toNat]
  split
  · refine .wide (by omega) (two _ (Nat.mod_lt _ (by decide))) ?_
    simp only [List.forall_mem_cons]
    exact ⟨large_byte (by omega) (by omega), large_byte (by omega) (by omega), by simp⟩
  split
  · refine .wide (by omega) (three _ (Nat.mod_lt _ (by decide))) ?_
    simp only [List.forall_mem_cons]
    exact ⟨large_byte (by omega) (by omega), large_byte (by omega) (by omega),
      large_byte (by omega) (by omega), by simp⟩
  · refine .wide (by omega) (four _ (Nat.mod_lt _ (by decide))) ?_
    simp only [List.forall_mem_cons]
    exact ⟨large_byte (by omega) (by omega), large_byte (by omega) (by omega),
      large_byte (by omega) (by omega), large_byte (by omega) (by omega), by simp⟩

theorem toNat_glyph (byte : UInt8) : (glyph byte).toNat = byte.toNat := by
  have valid : byte.toNat.isValidChar := .inl (Nat.lt_trans byte.toNat_lt (by decide))
  exact congrArg Char.toNat (dif_pos valid)

theorem same_answer {α : Type} {f : Char → α} {other : α}
    (outside : ∀ c, 128 ≤ c.toNat → f c = other) {c : Char} {byte : UInt8}
    (member : byte ∈ String.utf8EncodeChar c) : f (glyph byte) = f c := by
  have shape := encoding c
  generalize String.utf8EncodeChar c = bytes at shape member
  cases shape with
  | ascii _ same =>
    rw [List.mem_singleton.mp member, same]
  | wide large _ apart =>
    rw [outside c large, outside _ (toNat_glyph byte ▸ apart byte member)]

theorem encode_ne_nil (c : Char) : String.utf8EncodeChar c ≠ [] := by
  have shape := encoding c
  generalize String.utf8EncodeChar c = bytes at shape
  cases shape <;> exact List.cons_ne_nil _ _

theorem encode_cases (cs : List Char) :
    cs = [] ∨ ∃ c rest byte bytes, cs = c :: rest ∧ encode cs = byte :: (bytes ++ encode rest) ∧
      String.utf8EncodeChar c = byte :: bytes := by
  cases cs with
  | nil => exact .inl rfl
  | cons c rest =>
    obtain ⟨byte, bytes, spelled⟩ := List.exists_cons_of_ne_nil (encode_ne_nil c)
    exact .inr ⟨c, rest, byte, bytes, rfl, by rw [encode_cons, spelled, List.cons_append], spelled⟩

theorem takeWhile_encode {p : UInt8 → Bool} {q : Char → Bool}
    (same : ∀ c, ∀ byte ∈ String.utf8EncodeChar c, p byte = q c) (cs : List Char) :
    (encode cs).takeWhile p = encode (cs.takeWhile q) ∧
      (encode cs).dropWhile p = encode (cs.dropWhile q) := by
  induction cs with
  | nil => exact ⟨rfl, rfl⟩
  | cons c cs ih =>
    rw [encode_cons]
    cases holds : q c with
    | true =>
      have all : ∀ byte ∈ String.utf8EncodeChar c, p byte = true := fun byte member =>
        (same c byte member).trans holds
      rw [List.takeWhile_append_of_pos all, List.dropWhile_append_of_pos all,
        List.takeWhile_cons_of_pos holds, List.dropWhile_cons_of_pos holds, ih.1, ih.2]
      exact ⟨rfl, rfl⟩
    | false =>
      obtain ⟨byte, bytes, spelled⟩ := List.exists_cons_of_ne_nil (encode_ne_nil c)
      have stops : p byte = false :=
        (same c byte (by rw [spelled]; exact List.mem_cons_self)).trans holds
      simp [spelled, stops, holds]

theorem countP_encode {p : UInt8 → Bool} {q : Char → Bool}
    (same : ∀ c, ∀ byte ∈ String.utf8EncodeChar c, p byte = q c)
    (single : ∀ c, q c = true → (String.utf8EncodeChar c).length = 1) (cs : List Char) :
    (encode cs).countP p = cs.countP q := by
  induction cs with
  | nil => rfl
  | cons c cs ih =>
    rw [encode_cons, List.countP_append, List.countP_cons, ih, Nat.add_comm]
    congr 1
    cases holds : q c with
    | true =>
      rw [List.countP_eq_length.mpr fun byte member => (same c byte member).trans holds,
        single c holds]
      rfl
    | false =>
      rw [List.countP_eq_zero.mpr fun byte member => by simp [same c byte member, holds]]
      rfl

theorem text_encode (cs : List Char) : text (encode cs) = String.ofList cs := by
  have bytes : (⟨(encode cs).toArray⟩ : ByteArray) = (String.ofList cs).toByteArray := by
    rw [String.toByteArray_ofList]
    exact ByteArray.ext List.data_toByteArray.symm
  have valid : (⟨(encode cs).toArray⟩ : ByteArray).IsValidUTF8 :=
    bytes ▸ (String.ofList cs).isValidUTF8
  have read : textOfBytes (encode cs) = String.fromUTF8 ⟨(encode cs).toArray⟩ valid := by
    rw [textOfBytes, String.fromUTF8?, dif_pos valid, Option.getD_some]
  exact read.trans (String.toByteArray_inj.mp bytes)

section Outside

variable {c : Char} (large : 128 ≤ c.toNat)
include large

theorem ne_of_large {d : Char} (small : d.toNat < 128) : c ≠ d := by
  rintro rfl
  omega

theorem isAlphanum_of_large : c.isAlphanum = false := by
  have above {last : Char} (small : last.toNat < 128) : ¬c.val ≤ last.val := by
    rw [UInt32.le_iff_toNat_le]
    exact Nat.not_le_of_lt (Nat.lt_of_lt_of_le small large)
  delta Char.isAlphanum Char.isAlpha Char.isUpper Char.isLower Char.isDigit
  have upper : ¬c.val ≤ 'Z'.val := above (by decide)
  have lower : ¬c.val ≤ 'z'.val := above (by decide)
  have digit : ¬c.val ≤ '9'.val := above (by decide)
  simp only [upper, lower, digit, and_false, decide_false, Bool.and_false, Bool.or_self]

theorem isDigit_of_large : c.isDigit = false :=
  (Bool.or_eq_false_iff.mp (isAlphanum_of_large large)).2

theorem isAlpha_of_large : c.isAlpha = false :=
  (Bool.or_eq_false_iff.mp (isAlphanum_of_large large)).1

end Outside

variable {c : Char} {byte : UInt8}

theorem isDigit_encode (member : byte ∈ String.utf8EncodeChar c) : isDigit byte = isDigit c :=
  same_answer (fun _ => isDigit_of_large) member

theorem continuesWord_encode (member : byte ∈ String.utf8EncodeChar c) :
    continuesWord byte = continuesWord c := by
  have outside (c : Char) (large : 128 ≤ c.toNat) : (c.isAlphanum || c == '_') = false := by
    have other : c ≠ '_' := ne_of_large large (by decide)
    simp [isAlphanum_of_large large, other]
  exact same_answer (f := fun c => c.isAlphanum || c == '_') outside member

theorem is_encode {d : Char} (small : d.toNat < 128) (member : byte ∈ String.utf8EncodeChar c) :
    (glyph byte == d) = (c == d) := by
  have outside (c : Char) (large : 128 ≤ c.toNat) : (c == d) = false := by
    simp [ne_of_large large small]
  exact same_answer (f := fun c => c == d) outside member

theorem isNot_encode {d : Char} (small : d.toNat < 128) (member : byte ∈ String.utf8EncodeChar c) :
    (glyph byte != d) = (c != d) := by
  rw [bne, bne, is_encode small member]

theorem countNewlines_encode (cs : List Char) :
    countNewlines (encode cs) = countNewlines cs := by
  refine countP_encode (fun c byte => is_encode (by decide)) (fun c newline => ?_) cs
  rw [eq_of_beq newline]
  rfl

theorem small_of_digit {d : Char} (digit : d.isDigit = true) : d.toNat < 128 := by
  refine Nat.lt_of_not_le fun large => ?_
  rw [isDigit_of_large large] at digit
  cases digit

theorem encode_small {d : Char} (small : d.toNat < 128) :
    ∃ byte, String.utf8EncodeChar d = [byte] ∧ glyph byte = d := by
  have shape := encoding d
  generalize String.utf8EncodeChar d = bytes at shape
  cases shape with
  | ascii _ same => exact ⟨_, rfl, same⟩
  | wide large => omega

theorem glyphs_encode {cs : List Char} (small : ∀ c ∈ cs, c.toNat < 128) :
    (encode cs).map glyph = cs := by
  induction cs with
  | nil => rfl
  | cons c cs ih =>
    obtain ⟨byte, spelled, same⟩ := encode_small (small c List.mem_cons_self)
    rw [encode_cons, spelled, List.singleton_append, List.map_cons, same,
      ih fun d member => small d (List.mem_cons_of_mem c member)]

theorem splitNumber_small (cs : List Char) : ∀ c ∈ (splitNumber cs).1, c.toNat < 128 := by
  have run (cs : List Char) : ∀ c ∈ cs.takeWhile isDigit, c.toNat < 128 := fun c member =>
    small_of_digit (of_mem_takeWhile member)
  rcases splitNumber_cases cs with ⟨cut, _⟩ | ⟨d, more, _, digit, cut⟩
  · rw [cut]
    exact run _
  · rw [cut]
    simp only [List.forall_mem_append, List.forall_mem_cons]
    exact ⟨run _, by decide, small_of_digit digit, run _⟩

theorem splitNumber_encode (cs : List Char) :
    splitNumber (encode cs) = (encode (splitNumber cs).1, encode (splitNumber cs).2) := by
  have digits (cs : List Char) : split isDigit (encode cs) =
      (encode (cs.takeWhile isDigit), encode (cs.dropWhile isDigit)) :=
    Prod.ext (takeWhile_encode (fun c byte => isDigit_encode) cs).1
      (takeWhile_encode (fun c byte => isDigit_encode) cs).2
  rcases splitNumber_cases cs with ⟨cut, noFraction⟩ | ⟨d, more, after, isDigit', cut⟩
  · rw [cut]
    simp only [splitNumber, digits]
    split
    · rename_i point next rest behind
      rw [if_neg]
      intro fraction
      rw [Bool.and_eq_true] at fraction
      -- The two bytes are the first ones of a point and of a digit behind it.
      rcases encode_cases (cs.dropWhile isDigit) with none | ⟨x, r, _, _, after, bytes, spelled⟩
      · rw [none] at behind
        cases behind
      · rw [bytes] at behind
        obtain ⟨rfl, others⟩ := List.cons.inj behind
        have isPoint : (glyph _ == '.') = (x == '.') :=
          is_encode (by decide) (spelled ▸ List.mem_cons_self)
        obtain rfl : x = '.' := eq_of_beq (isPoint ▸ fraction.1)
        obtain ⟨rfl, rfl⟩ := List.cons.inj spelled
        rcases encode_cases r with none | ⟨y, more, _, _, after', bytes', spelled'⟩
        · rw [none] at others
          cases others
        · rw [List.nil_append, bytes'] at others
          obtain ⟨rfl, -⟩ := List.cons.inj others
          have isDigit' : isDigit _ = y.isDigit :=
            isDigit_encode (spelled' ▸ List.mem_cons_self)
          rw [isDigit', noFraction y more (after' ▸ after)] at fraction
          cases fraction.2
    · rfl
  · obtain ⟨byte, spelled, same⟩ := encode_small (small_of_digit isDigit')
    have digit : isDigit byte = true := by rw [isDigit, same]; exact isDigit'
    have point : String.utf8EncodeChar '.' = [46] := rfl
    rw [cut]
    simp only [splitNumber, digits, after, encode_cons, encode_append, spelled, point,
      List.singleton_append, digit, Bool.and_true]
    rfl

def Step.encode (s : Step Char) : Step UInt8 := ⟨s.item, s.line, Scan.encode s.rest⟩

theorem glyph_char (c : Char) : glyph c = c := rfl

theorem token_encode (kind : Kind) (cs : List Char) (line : Nat) (rest : List Char) :
    token kind (encode cs) line (encode rest) = (token kind cs line rest).encode := by
  simp only [token, text_encode]
  rfl

section Steps

variable {line : Nat} {cs : List Char} (spelled : String.utf8EncodeChar c = [byte])
include spelled

theorem encode_single (cs : List Char) : byte :: encode cs = encode (c :: cs) := by
  rw [encode_cons, spelled, List.singleton_append]

theorem symbol_encode (fixed : Symbol) (cs : List Char) :
    symbol fixed line byte (encode cs) = (symbol fixed line c cs).encode := by
  have alone : [byte] = encode [c] := encode_single spelled []
  rw [symbol, alone]
  exact token_encode _ _ _ _

theorem operator_encode (alone extended : Symbol) :
    operator alone extended line byte (encode cs) = (operator alone extended line c cs).encode := by
  rcases encode_cases cs with rfl | ⟨next, rest, first, others, rfl, bytes, spelled'⟩
  · exact symbol_encode spelled alone []
  · have equals : (glyph first == '=') = (next == '=') :=
      is_encode (by decide) (spelled' ▸ List.mem_cons_self)
    rw [bytes]
    simp only [operator, equals, glyph_char]
    rw [← bytes]
    split
    · rename_i isEqual
      obtain rfl : next = '=' := eq_of_beq isEqual
      obtain ⟨rfl, rfl⟩ := List.cons.inj spelled'
      have both := token_encode (.symbol extended) [c, '='] line rest
      rwa [← encode_single spelled] at both
    · exact symbol_encode spelled alone (next :: rest)

theorem slash_encode : slash line byte (encode cs) = (slash line c cs).encode := by
  rcases encode_cases cs with rfl | ⟨next, rest, first, others, rfl, bytes, spelled'⟩
  · exact symbol_encode spelled .slash []
  · have again : (glyph first == '/') = (next == '/') :=
      is_encode (by decide) (spelled' ▸ List.mem_cons_self)
    have behind := (takeWhile_encode (p := fun byte => glyph byte != '\n')
      (fun c byte => isNot_encode (by decide)) rest).2
    rw [bytes]
    simp only [slash, again, glyph_char]
    rw [← bytes]
    split
    · rename_i isSlash
      obtain rfl : next = '/' := eq_of_beq isSlash
      obtain ⟨rfl, rfl⟩ := List.cons.inj spelled'
      exact congrArg (Step.mk none line) behind
    · exact symbol_encode spelled .slash (next :: rest)

theorem string_encode : string line byte (encode cs) = (string line c cs).encode := by
  have parts := takeWhile_encode (p := fun byte => glyph byte != '"')
    (fun c byte => isNot_encode (by decide)) cs
  simp only [string, split, parts.1, parts.2, countNewlines_encode]
  have closed := List.head?_dropWhile_not (fun c => c != '"') cs
  simp only [glyph_char]
  cases behind : cs.dropWhile fun c => c != '"' with
  | nil => rfl
  | cons quote rest =>
    rw [behind] at closed
    obtain rfl : quote = '"' := by simpa using closed
    have whole := token_encode (.string (String.ofList (cs.takeWhile fun c => c != '"')))
      (c :: (cs.takeWhile fun c => c != '"') ++ ['"'])
      (line + countNewlines (cs.takeWhile fun c => c != '"')) rest
    rw [List.cons_append, ← encode_single spelled, encode_append] at whole
    simp only [text_encode]
    exact whole

theorem word_encode : word line byte (encode cs) = (word line c cs).encode := by
  have parts := takeWhile_encode (p := fun byte : UInt8 => continuesWord byte)
    (fun c byte => continuesWord_encode) cs
  simp only [word, split, parts.1, parts.2, encode_single spelled, text_encode]
  exact token_encode _ _ _ _

theorem number_encode :
    number line byte (encode cs) = (number line c cs).encode := by
  have parts := splitNumber_encode (c :: cs)
  have value := glyphs_encode (splitNumber_small (c :: cs))
  have same : (splitNumber (c :: cs)).1.map (glyph : Char → Char) = (splitNumber (c :: cs)).1 :=
    List.map_id _
  simp only [number, encode_single spelled, parts, value, same]
  exact token_encode _ _ _ _

end Steps

theorem step_of_large {σ : Type} [CodeUnit σ] {unit : σ} (large : 128 ≤ (glyph unit).toNat)
    (line : Nat) (rest : List σ) : step line unit rest = unexpected line unit rest := by
  unfold step
  split
  all_goals try
    rename_i same
    exact absurd same (ne_of_large large (by decide))
  have noWord : glyph unit ≠ '_' := ne_of_large large (by decide)
  simp [isDigit, startsWord, isDigit_of_large large, isAlpha_of_large large, noWord]

theorem unexpected_encode {lead : UInt8} {others : List UInt8}
    (spelled : String.utf8EncodeChar c = lead :: others)
    (count : continuationBytes lead = others.length) (line : Nat) (cs : List Char) :
    unexpected line lead (others ++ encode cs) = (unexpected line c cs).encode := by
  have whole : lead :: others = encode [c] := by rw [encode_cons, spelled]; simp
  have counted : tail lead = others.length := count
  simp only [unexpected, counted, List.take_left, List.drop_left, whole, text_encode]
  rfl

theorem step_encode (line : Nat) {lead : UInt8} {others : List UInt8}
    (spelled : String.utf8EncodeChar c = lead :: others) (cs : List Char) :
    step line lead (others ++ encode cs) = (step line c cs).encode := by
  have shape := encoding c
  rw [spelled] at shape
  cases shape with
  | wide large count apart =>
    have large' : 128 ≤ (glyph lead).toNat := toNat_glyph lead ▸ apart lead List.mem_cons_self
    rw [step_of_large large', step_of_large large]
    exact unexpected_encode spelled count line cs
  | ascii small same =>
    have code : ∀ n < 128, continuationBytes (UInt8.ofNat n) = 0 := by decide
    have count : continuationBytes lead = ([] : List UInt8).length := by
      have value : lead.toNat = c.toNat := by rw [← same, toNat_glyph]
      have lead' : lead = UInt8.ofNat c.toNat := by rw [← value, UInt8.ofNat_toNat]
      exact lead' ▸ code _ small
    have digit : isDigit lead = isDigit c := congrArg Char.isDigit same
    have letter : startsWord lead = startsWord c := by simp only [startsWord, same]; rfl
    rw [List.nil_append]
    unfold step
    rw [same, digit, letter, glyph_char]
    split
    all_goals first
      | exact symbol_encode spelled _ _
      | exact operator_encode spelled _ _
      | exact slash_encode spelled
      | exact string_encode spelled
      | rfl
      | skip
    split
    · exact number_encode spelled
    split
    · exact word_encode spelled
    · exact unexpected_encode spelled count line cs

theorem items_encode (line : Nat) (cs : List Char) : items line (encode cs) = items line cs := by
  induction line, cs using items.induct with
  | case1 line => simp [items]
  | case2 line c rest next smaller ih =>
    obtain ⟨lead, others, spelled⟩ := List.exists_cons_of_ne_nil (encode_ne_nil c)
    rw [encode_cons, spelled, List.cons_append, items, step_encode line spelled]
    simp only [Step.encode]
    rw [ih, items]

end Lox.Scan

namespace Lox

theorem data_toByteArray (source : String) :
    source.toByteArray.data.toList = Scan.encode source.toList := by
  have whole : source.toByteArray = source.toList.utf8Encode := by
    rw [← String.toByteArray_ofList, String.ofList_toList]
  rw [whole]
  exact congrArg Array.toList List.data_toByteArray

theorem scanBytes_toByteArray (source : String) : scanBytes source.toByteArray = scan source := by
  rw [scanBytes, data_toByteArray]
  exact Scan.items_encode 1 source.toList

end Lox
