import TypedQuery.Declaration.Plural
import TypedQuery.Text.Alphanumeric
import TypedQuery.Text.Lowercase

/-!
# Table names

The table of a type that names none: the words of the type's name in lower case with
underscores between them, the last word in the plural. Letters beyond ASCII keep their case.
-/

namespace TypedQuery.TableName

/-- A character that is no small ASCII letter may start a word. -/
def mayStart (c : Char) : Bool := c.toUpper == c

/-- Is there a lower case letter at a place of the name? -/
def isLowercaseAt (name : List Char) (i : Nat) : Bool := name[i]?.any Text.isLowercase

/-- The words of a name from a character on. `offset` is the place of the character, counted in
bytes as the places of its neighbours are; `fresh` tells that nothing or a separator is before
it. A word starts where a character that may start one is next to a lower case letter. -/
def words (name : List Char) (offset : Nat) (fresh : Bool) : List Char → List Char
  | [] => []
  | c :: cs =>
    let rest (fresh : Bool) : List Char := words name (offset + c.utf8Size) fresh cs
    if !Text.isAlphanumeric c then if fresh then rest true else '_' :: rest true
    else if !fresh && mayStart c &&
        (isLowercaseAt name (offset + 1) || isLowercaseAt name (offset - 1)) then
      '_' :: c.toLower :: rest false
    else c.toLower :: rest false

/-- The words of a name, in lower case with underscores between them. -/
def snakeCase (name : String) : List Char :=
  let cs := name.toList
  words cs 0 true (cs.reverse.dropWhile (!Text.isAlphanumeric ·)).reverse

/-- The table of a type name. The underscore before the last word stays with it when the plural
is formed, so a listed word is recognised only when it is the whole name. -/
def ofTypeName (name : String) : String :=
  let cs := snakeCase name
  let last := (cs.reverse.takeWhile (· != '_')).reverse
  let size := if cs.contains '_' then last.length + 1 else last.length
  String.ofList (cs.take (cs.length - size)) ++
    Plural.ofWord (String.ofList (cs.drop (cs.length - size)))

end TypedQuery.TableName
