namespace Lox

class CodeUnit (σ : Type) where
  /-- The character of an ASCII unit; any other unit stands for some character outside ASCII. -/
  glyph : σ → Char
  text : List σ → String
  /-- How many further units belong to the character that starts with this one. -/
  tail : σ → Nat

instance : CodeUnit Char where
  glyph c := c
  text := String.ofList
  tail _ := 0

/-- The replacement character stands in for bytes that are no text. -/
def textOfBytes (bytes : List UInt8) : String :=
  (String.fromUTF8? ⟨bytes.toArray⟩).getD "\uFFFD"

def continuationBytes (lead : UInt8) : Nat :=
  if lead < 0xC0 then 0 else if lead < 0xE0 then 1 else if lead < 0xF0 then 2 else 3

instance : CodeUnit UInt8 where
  glyph byte := Char.ofNat byte.toNat
  text := textOfBytes
  tail := continuationBytes

end Lox
