import Lox.Syntax.Text

namespace Lox

/-- A word, or parts between parentheses or between braces. -/
inductive Bracketed where
  | word (text : List Char)
  | round (parts : List Bracketed)
  | curly (parts : List Bracketed)

namespace Bracketed

def isBreak (c : Char) : Bool := c ∈ [' ', '(', ')', '\x7b', '\x7d']

mutual

def write : Bracketed → List Char
  | word text => text
  | round [] => ['(', ')']
  | round (first :: others) => '(' :: first.write ++ writeEach others ++ [')']
  | curly parts => '\x7b' :: writeEach parts ++ [' ', '\x7d']

def writeEach : List Bracketed → List Char
  | [] => []
  | part :: rest => ' ' :: part.write ++ writeEach rest

end

/-- A word is not empty and contains no space and no bracket. -/
def IsWord (text : List Char) : Prop := text ≠ [] ∧ ∀ c ∈ text, isBreak c = false

-- Reads the text from its front; other instances go through all characters.
instance {text : List Char} : Decidable (IsWord text) :=
  haveI := List.decidableBAll (fun c => isBreak c = false) text
  inferInstanceAs (Decidable (text ≠ [] ∧ ∀ c ∈ text, isBreak c = false))

mutual

def Plain : Bracketed → Prop
  | word text => IsWord text
  | round parts => AllPlain parts
  | curly parts => AllPlain parts

def AllPlain : List Bracketed → Prop
  | [] => True
  | part :: rest => part.Plain ∧ AllPlain rest

end

/-- What follows a part begins with a space or a bracket. -/
def Stops (rest : List Char) : Prop := ∀ c ∈ rest.head?, isBreak c = true

theorem stops_nil : Stops [] := by simp [Stops]

theorem stops_cons {c : Char} (isBreak : isBreak c = true) (rest : List Char) :
    Stops (c :: rest) := by
  intro d found
  cases found
  exact isBreak

inductive Closing : List Char → Prop
  | round (rest : List Char) : Closing (')' :: rest)
  | curly (rest : List Char) : Closing (' ' :: '\x7d' :: rest)

theorem stops_writeEach (parts : List Bracketed) {rest : List Char} (closing : Closing rest) :
    Stops (writeEach parts ++ rest) := by
  cases parts with
  | nil =>
    rw [writeEach, List.nil_append]
    cases closing <;> exact stops_cons rfl _
  | cons part parts =>
    rw [writeEach]
    exact stops_cons rfl _

def opening : Bracketed → Option Char
  | word _ => none
  | round _ => some '('
  | curly _ => some '\x7b'

theorem write_head (part : Bracketed) (plain : part.Plain) :
    ∃ c cs, part.write = c :: cs ∧ part.opening = if isBreak c then some c else none := by
  cases part with
  | word text =>
    obtain ⟨some, noBreak⟩ := plain
    obtain ⟨c, cs, rfl⟩ := List.exists_cons_of_ne_nil some
    exact ⟨c, cs, by rw [write], by rw [noBreak c List.mem_cons_self]; rfl⟩
  | round parts =>
    cases parts with
    | nil => exact ⟨'(', _, by rw [write], rfl⟩
    | cons first others => exact ⟨'(', _, by rw [write]; rfl, rfl⟩
  | curly parts => exact ⟨'\x7b', _, by rw [write]; rfl, rfl⟩

theorem opening_eq {part part' : Bracketed} (plain : part.Plain) (plain' : part'.Plain)
    {rest rest' : List Char} (same : part.write ++ rest = part'.write ++ rest') :
    part.opening = part'.opening := by
  obtain ⟨c, cs, begins, opening⟩ := part.write_head plain
  obtain ⟨c', cs', begins', opening'⟩ := part'.write_head plain'
  rw [begins, begins'] at same
  rw [opening, opening', (List.cons.inj same).1]

theorem write_ne (part : Bracketed) (plain : part.Plain) {c : Char} (closes : c ∈ [')', '\x7d'])
    (rest rest' : List Char) : part.write ++ rest ≠ c :: rest' := by
  intro same
  obtain ⟨c', cs, begins, opening⟩ := part.write_head plain
  rw [begins] at same
  obtain ⟨rfl, -⟩ := List.cons.inj same
  simp only [List.mem_cons, List.not_mem_nil, or_false] at closes
  rcases closes with rfl | rfl <;> cases part <;> cases opening

theorem writeEach_ne (part : Bracketed) (parts : List Bracketed) (plain : part.Plain)
    {close : List Char} (closing : Closing close) (rest : List Char) :
    close ≠ writeEach (part :: parts) ++ rest := by
  rw [writeEach, List.cons_append, List.cons_append, List.append_assoc]
  cases closing with
  | round => nofun
  | curly close =>
    intro same
    exact part.write_ne plain (by decide) _ close (List.cons.inj same).2.symm

theorem word_unique {text text' rest rest' : List Char} (noBreak : ∀ c ∈ text, isBreak c = false)
    (noBreak' : ∀ c ∈ text', isBreak c = false) (stops : Stops rest) (stops' : Stops rest')
    (same : text ++ rest = text' ++ rest') : text = text' ∧ rest = rest' := by
  have run {text rest : List Char} (noBreak : ∀ c ∈ text, isBreak c = false) (stops : Stops rest) :
      (text ++ rest).takeWhile (fun c => !isBreak c) = text := by
    rw [List.takeWhile_append_of_pos fun c member => by rw [noBreak c member]; rfl]
    cases rest with
    | nil => simp
    | cons c rest => simp [stops c rfl]
  have words : text = text' := by
    rw [← run noBreak stops, same, run noBreak' stops']
  subst words
  exact ⟨rfl, List.append_cancel_left same⟩

mutual

theorem write_unique : (part part' : Bracketed) → part.Plain → part'.Plain →
    ∀ {rest rest' : List Char}, Stops rest → Stops rest' →
      part.write ++ rest = part'.write ++ rest' → part = part' ∧ rest = rest'
  | word text, word text', plain, plain', _, _, stops, stops', same => by
    rw [write, write] at same
    obtain ⟨rfl, rfl⟩ := word_unique plain.2 plain'.2 stops stops' same
    exact ⟨rfl, rfl⟩
  | round [], round [], _, _, _, _, _, _, same => by
    rw [write] at same
    exact ⟨rfl, List.append_cancel_left same⟩
  | round (first :: others), round (first' :: others'), plain, plain', rest, rest', _, _, same => by
    simp only [write, List.cons_append, List.append_assoc, List.cons.injEq, true_and,
      List.nil_append] at same
    obtain ⟨rfl, behind⟩ := write_unique first first' plain.1 plain'.1
      (stops_writeEach others (.round rest)) (stops_writeEach others' (.round rest')) same
    obtain ⟨rfl, closed⟩ := writeEach_unique others others' plain.2 plain'.2 (.round rest)
      (.round rest') behind
    exact ⟨rfl, List.tail_eq_of_cons_eq closed⟩
  | curly parts, curly parts', plain, plain', rest, rest', _, _, same => by
    simp only [write, List.cons_append, List.append_assoc, List.cons.injEq, true_and,
      List.nil_append] at same
    obtain ⟨rfl, closed⟩ := writeEach_unique parts parts' plain plain' (.curly rest) (.curly rest')
      same
    exact ⟨rfl, List.tail_eq_of_cons_eq (List.tail_eq_of_cons_eq closed)⟩
  | round [], round (first :: _), _, plain, _, _, _, _, same => by
    simp only [write, List.cons_append, List.append_assoc, List.cons.injEq, true_and] at same
    exact absurd same.symm (first.write_ne plain.1 (by decide) _ _)
  | round (first :: _), round [], plain, _, _, _, _, _, same => by
    simp only [write, List.cons_append, List.append_assoc, List.cons.injEq, true_and] at same
    exact absurd same (first.write_ne plain.1 (by decide) _ _)
  | word _, round _, plain, plain', _, _, _, _, same
  | word _, curly _, plain, plain', _, _, _, _, same
  | round _, word _, plain, plain', _, _, _, _, same
  | round _, curly _, plain, plain', _, _, _, _, same
  | curly _, word _, plain, plain', _, _, _, _, same
  | curly _, round _, plain, plain', _, _, _, _, same => nomatch opening_eq plain plain' same

theorem writeEach_unique : (parts parts' : List Bracketed) → AllPlain parts → AllPlain parts' →
    ∀ {rest rest' : List Char}, Closing rest → Closing rest' →
      writeEach parts ++ rest = writeEach parts' ++ rest' → parts = parts' ∧ rest = rest'
  | [], [], _, _, _, _, _, _, same => ⟨rfl, same⟩
  | part :: parts, part' :: parts', plain, plain', rest, rest', closing, closing', same => by
    simp only [writeEach, List.cons_append, List.append_assoc, List.cons.injEq, true_and] at same
    obtain ⟨rfl, behind⟩ := write_unique part part' plain.1 plain'.1
      (stops_writeEach parts closing) (stops_writeEach parts' closing') same
    obtain ⟨rfl, rfl⟩ := writeEach_unique parts parts' plain.2 plain'.2 closing closing' behind
    exact ⟨rfl, rfl⟩
  | [], part :: parts, _, plain, _, _, closing, _, same =>
    absurd same (writeEach_ne part parts plain.1 closing _)
  | part :: parts, [], plain, _, _, _, _, closing, same =>
    absurd same.symm (writeEach_ne part parts plain.1 closing _)

end

/-- No two plain parts are written alike. -/
theorem write_injective {part part' : Bracketed} (plain : part.Plain) (plain' : part'.Plain)
    (same : part.write = part'.write) : part = part' :=
  (write_unique part part' plain plain' stops_nil stops_nil (by rw [same])).1

end Bracketed

end Lox
