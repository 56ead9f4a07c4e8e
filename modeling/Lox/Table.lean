namespace Lox

/-- A finite map from names, as an association list in the order of first insertion. -/
structure Table (α : Type) where
  entries : List (String × α)
deriving Repr

namespace Table

variable {α : Type}

def empty : Table α := ⟨[]⟩

def lookupEntry (name : String) : List (String × α) → Option α
  | [] => none
  | entry :: rest => if entry.1 = name then some entry.2 else lookupEntry name rest

def get? (table : Table α) (name : String) : Option α := lookupEntry name table.entries

def contains (table : Table α) (name : String) : Bool := (table.get? name).isSome

def names (table : Table α) : List String := table.entries.map Prod.fst

def insertEntry (name : String) (value : α) : List (String × α) → List (String × α)
  | [] => [(name, value)]
  | entry :: rest =>
    if entry.1 = name then (name, value) :: rest else entry :: insertEntry name value rest

def insert (table : Table α) (name : String) (value : α) : Table α :=
  ⟨insertEntry name value table.entries⟩

def ofList (entries : List (String × α)) : Table α :=
  entries.foldl (fun table entry => table.insert entry.1 entry.2) empty

@[simp] theorem get?_empty (name : String) : (empty : Table α).get? name = none := rfl

theorem lookupEntry_insertEntry (name other : String) (value : α) (entries : List (String × α)) :
    lookupEntry other (insertEntry name value entries) =
      if other = name then some value else lookupEntry other entries := by
  induction entries with
  | nil => grind [insertEntry, lookupEntry]
  | cons entry rest ih => grind [insertEntry, lookupEntry]

@[simp] theorem get?_insert (table : Table α) (name other : String) (value : α) :
    (table.insert name value).get? other = if other = name then some value else table.get? other :=
  lookupEntry_insertEntry name other value table.entries

end Table

end Lox
