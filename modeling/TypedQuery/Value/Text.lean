import TypedQuery.Json.Printer
import TypedQuery.Value.Basic

/-!
# Text of values

The readable text of a value and its encoding as a document. The text quotes strings but
does not escape them, so it is for people; the encoding names the type of every value.
-/

namespace TypedQuery.Value

mutual

/-- The readable text of a value. -/
def display : Value → String
  | .null => "NULL"
  | .bool b => if b then "true" else "false"
  | .int n => Number.textOfInt n.toInt
  | .float x => x.text
  | .decimal s => s
  | .text s => "'" ++ s ++ "'"
  | .uuid u => u.text
  | .timestamp t => t.text
  | .date d => d.text
  | .json j => j.print
  | .list items => "[" ++ displayItems items ++ "]"
termination_by structural v => v

def displayItems : List Value → String
  | [] => ""
  | [v] => display v
  | v :: vs => display v ++ ", " ++ displayItems vs
termination_by structural vs => vs

end

mutual

/-- The text of a value with the name of its type. -/
def inspect : Value → String
  | .null => "Null"
  | .bool b => if b then "Bool(true)" else "Bool(false)"
  | .int n => "Int(" ++ Number.textOfInt n.toInt ++ ")"
  | .float x => "Float(" ++ x.textWith ".0" ++ ")"
  | .decimal s => "Decimal(" ++ Json.quoted s ++ ")"
  | .text s => "Text(" ++ Json.quoted s ++ ")"
  | .uuid u => "Uuid(" ++ u.text ++ ")"
  | .timestamp t => "Timestamp(" ++ t.zuluText ++ ")"
  | .date d => "Date(" ++ d.text ++ ")"
  | .json j => "Json(" ++ j.print ++ ")"
  | .list items => "List([" ++ inspectItems items ++ "])"
termination_by structural v => v

def inspectItems : List Value → String
  | [] => ""
  | [v] => inspect v
  | v :: vs => inspect v ++ ", " ++ inspectItems vs
termination_by structural vs => vs

end

mutual

/-- The document that names a value's type and holds its content. -/
def encode : Value → Json
  | .null => .text "Null"
  | .bool b => .tagged "Bool" (.bool b)
  | .int n => .tagged "Int" (.ofInt n.toInt)
  | .float x => .tagged "Float" (.ofDouble x)
  | .decimal s => .tagged "Decimal" (.text s)
  | .text s => .tagged "Text" (.text s)
  | .uuid u => .tagged "Uuid" (.text u.text)
  | .timestamp t => .tagged "Timestamp" (.text t.zuluText)
  | .date d => .tagged "Date" (.text d.text)
  | .json j => .tagged "Json" j
  | .list items => .tagged "List" (.array (encodeItems items))
termination_by structural v => v

def encodeItems : List Value → List Json
  | [] => []
  | v :: vs => encode v :: encodeItems vs
termination_by structural vs => vs

end

end TypedQuery.Value
