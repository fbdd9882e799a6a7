import TypedQuery.Field.Type
import TypedQuery.Text.Blank

/-!
# Names of field types

The kind of a field from the name its type is written with, including qualified names.
A type is optional by its name alone; one wrapper is looked through, never two.
-/

namespace TypedQuery.TypeName

/-- The text behind a given beginning. -/
def afterStart? (start s : List Char) : Option (List Char) := start.isPrefixOf? s

/-- The text in front of a given end. -/
def beforeEnd? (finish s : List Char) : Option (List Char) :=
  (finish.reverse.isPrefixOf? s.reverse).map List.reverse

/-- A type name without surrounding white space and without one optional wrapper. -/
def strip (s : List Char) : List Char :=
  let t := Text.trim s
  let inner := afterStart? "Option<".toList t <|> afterStart? "std::option::Option<".toList t
  (inner.bind (beforeEnd? ['>'])).getD t

/-- Does the name start like that of an optional type? -/
def isOptional (s : List Char) : Bool :=
  let t := Text.trim s
  "Option".toList.isPrefixOf t || "std::option::Option".toList.isPrefixOf t

/-- The qualified names of scalar types beside their plain ones. -/
def qualified : List (String × ScalarType) :=
  [("uuid::Uuid", .uuid), ("chrono::DateTime<chrono::Utc>", .instant),
    ("chrono::NaiveDateTime", .localInstant), ("chrono::NaiveDate", .date), ("Value", .json)]

/-- The scalar type of a name that is not optional. A decimal may be reached by any path. -/
def scalar? (s : String) : Option ScalarType :=
  ScalarType.ofName? s <|> qualified.lookup s <|>
    if "::Decimal".toList.isSuffixOf s.toList then some .decimal else none

/-- The kind of the type with the given name, blanks inside the name left out. -/
def kind? (s : List Char) : Option Kind :=
  (scalar? (String.ofList (strip (s.filter (· ≠ ' '))))).map ScalarType.kind

end TypedQuery.TypeName
