namespace Lox

/-- A line keeps its newline; the last one may lack it. -/
def splitLines : List Char → List (List Char)
  | [] => []
  | c :: rest =>
    if c = '\n' then [c] :: splitLines rest
    else
      match splitLines rest with
      | [] => [[c]]
      | first :: others => (c :: first) :: others

theorem flatten_splitLines (text : List Char) : (splitLines text).flatten = text := by
  induction text with
  | nil => rfl
  | cons c rest ih =>
    rw [splitLines]
    split
    · rw [List.flatten_cons, ih]
      rfl
    · split
      · rename_i empty
        rw [empty] at ih
        rw [← ih]
        rfl
      · rename_i first others lines
        rw [lines] at ih
        rw [← ih]
        rfl

end Lox
