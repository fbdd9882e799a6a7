import TypedQuery.Toml.Scalar
import TypedQuery.Toml.Table
import TypedQuery.Toml.Text

/-!
# Reading TOML files

A file is read line by line: headers open tables, and all other lines give names in the open
table a value. Arrays and tables in braces may go over several lines, may end in a comma and
nest at most so deep.
-/

namespace TypedQuery.Toml

/-- The text behind the comment at the start of a text; the end of its line is left. -/
def skipComment? : List Char → Option (List Char)
  | '#' :: cs =>
    let rest := cs.dropWhile (!isControl ·)
    if rest = [] ∨ (skipBreak? rest).isSome then some rest else none
  | cs => some cs

/-- The text behind blanks, comments and line breaks. -/
def skipTrivia? : Nat → List Char → Option (List Char)
  | 0, _ => none
  | fuel + 1, cs =>
    match skipComment? (skipBlank cs) with
    | none => none
    | some rest =>
      match skipBreak? rest with
      | some more => skipTrivia? fuel more
      | none => some rest

def skipAllTrivia? (cs : List Char) : Option (List Char) := skipTrivia? (cs.length + 1) cs

mutual

/-- A value that starts at the first character. `depth` is the number of containers that may
still be opened, and `fuel` bounds the steps. -/
def takeValue? (fuel depth : Nat) (cs : List Char) : Option (Toml × List Char) :=
  match fuel with
  | 0 => none
  | fuel + 1 =>
    match cs with
    | '[' :: rest =>
      if depth = 0 then none
      else (takeItems? fuel (depth - 1) rest).map fun (items, rest) => (.array items, rest)
    | '\x7b' :: rest =>
      if depth = 0 then none
      else (takeFields? fuel (depth - 1) [] rest).map fun (fields, rest) =>
        (.table (finishFields fields), rest)
    | cs => (takeString? cs).map (fun (s, rest) => (.text s, rest)) <|> takeScalar? cs
termination_by structural fuel

/-- Items up to the bracket that closes them. -/
def takeItems? (fuel depth : Nat) (cs : List Char) : Option (List Toml × List Char) :=
  match fuel with
  | 0 => none
  | fuel + 1 => do
    match ← skipAllTrivia? cs with
    | ']' :: rest => some ([], rest)
    | cs =>
      let (item, cs) ← takeValue? fuel depth cs
      match ← skipAllTrivia? cs with
      | ']' :: rest => some ([item], rest)
      | ',' :: rest =>
        let (items, rest) ← takeItems? fuel depth rest
        some (item :: items, rest)
      | _ => none
termination_by structural fuel

/-- Fields up to the brace that closes them, added to those before them. -/
def takeFields? (fuel depth : Nat) (fields : Entries) (cs : List Char) :
    Option (Entries × List Char) :=
  match fuel with
  | 0 => none
  | fuel + 1 => do
    match ← skipAllTrivia? cs with
    | '\x7d' :: rest => some (fields, rest)
    | cs =>
      let (path, key, cs) ← takeKey? cs
      match ← skipAllTrivia? cs with
      | '=' :: rest =>
        let (value, cs) ← takeValue? fuel depth (← skipAllTrivia? rest)
        let fields ← fields.insert path key value
        match ← skipAllTrivia? cs with
        | '\x7d' :: rest => some (fields, rest)
        | ',' :: rest => takeFields? fuel depth fields rest
        | _ => none
      | _ => none
termination_by structural fuel

end

/-- A name and its value. Every step consumes a character or closes a container, so twice the
length is enough. -/
def takeField? (cs : List Char) : Option (List String × String × Toml × List Char) := do
  let (path, key, cs) ← takeKey? cs
  match cs with
  | '=' :: rest =>
    let (value, rest) ← takeValue? (2 * rest.length + 2) maxDepth (skipBlank rest)
    some (path, key, value, rest)
  | _ => none

/-- What has been read of a file: the tables, and the header that the next lines belong to. -/
structure Progress where
  fields : Entries
  header : List String

/-- Reads what stands on a line before blanks and a comment. -/
def takeLine? (p : Progress) (cs : List Char) : Option (Progress × List Char) :=
  match cs with
  | '[' :: '[' :: rest => do
    let (path, key, rest) ← takeKey? (skipBlank rest)
    match skipBlank rest with
    | ']' :: ']' :: rest => some (⟨← p.fields.openItem path key, path ++ [key]⟩, rest)
    | _ => none
  | '[' :: rest => do
    let (path, key, rest) ← takeKey? (skipBlank rest)
    match skipBlank rest with
    | ']' :: rest => some (⟨← p.fields.openTable path key, path ++ [key]⟩, rest)
    | _ => none
  | cs => do
    let (path, key, value, rest) ← takeField? cs
    let fields ← p.fields.inTable p.header (Entries.insert path key value)
    some (⟨fields, p.header⟩, rest)

/-- Reads lines up to the end of a file. -/
def readLines? : Nat → Progress → List Char → Option Entries
  | 0, _, _ => none
  | fuel + 1, p, cs => do
    match ← skipAllTrivia? cs with
    | [] => some p.fields
    | cs =>
      let (p, rest) ← takeLine? p cs
      match ← skipComment? (skipBlank rest) with
      | [] => some p.fields
      | rest => readLines? fuel p (← skipBreak? rest)

/-- The table that a file holds. A mark of the byte order may stand at its start. -/
def read? (s : String) : Option (List (String × Toml)) := do
  let cs := match s.toList with
    | '\ufeff' :: cs => cs
    | cs => cs
  some (finishFields (← readLines? (cs.length + 1) ⟨[], []⟩ cs))

end TypedQuery.Toml
