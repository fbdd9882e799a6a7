import TypedQuery.Json.Basic
import TypedQuery.Number.Hex
import TypedQuery.Number.Shortest

/-!
# Compact text of JSON documents

No spaces, only the escapes that the grammar requires, and real numbers with the fewest
digits that read back. A real number always shows that it is one: by a point or by an
exponent.
-/

namespace TypedQuery

namespace Decimal10

/-- Positional while the point falls within sixteen digits or up to five places in front
of them; otherwise one digit, the point and an exponent with its sign. -/
def mixedText (d : Decimal10) : String :=
  let place := d.pointPlace
  if -5 < place && place ≤ 16 then
    let (whole, fraction) := d.split
    whole ++ "." ++ (if fraction = "" then "0" else fraction)
  else
    let ds := Number.digits d.digits
    let fraction := String.ofList (ds.drop 1)
    String.ofList (ds.take 1) ++ (if fraction = "" then "" else "." ++ fraction) ++
      (if 0 < place then "e+" else "e") ++ Number.textOfInt (place - 1)

end Decimal10

namespace JsonNumber

def text : JsonNumber → String
  | .whole n => Number.textOfInt n
  | .real x =>
    (if x.isNegative then "-" else "") ++
      (if x.isZero then "0.0" else (x.shortest .toEven).mixedText)

end JsonNumber

namespace Json

/-- A character inside a string literal. -/
def escape (c : Char) : List Char :=
  if c = '"' then ['\\', '"']
  else if c = '\\' then ['\\', '\\']
  else if c = '\n' then ['\\', 'n']
  else if c = '\r' then ['\\', 'r']
  else if c = '\t' then ['\\', 't']
  else if c = '\x08' then ['\\', 'b']
  else if c = '\x0c' then ['\\', 'f']
  else if c.toNat < 0x20 then '\\' :: 'u' :: Number.hexDigits 4 c.toNat
  else [c]

def quoted (s : String) : String := "\"" ++ String.ofList (s.toList.flatMap escape) ++ "\""

mutual

/-- The compact text of a document. -/
def print : Json → String
  | .null => "null"
  | .bool b => if b then "true" else "false"
  | .number n => n.text
  | .text s => quoted s
  | .array items => "[" ++ printItems items ++ "]"
  | .object fields => "\x7b" ++ printFields fields ++ "\x7d"
termination_by structural j => j

def printItems : List Json → String
  | [] => ""
  | [j] => print j
  | j :: js => print j ++ "," ++ printItems js
termination_by structural js => js

def printFields : List (String × Json) → String
  | [] => ""
  | [(k, v)] => quoted k ++ ":" ++ print v
  | (k, v) :: fs => quoted k ++ ":" ++ print v ++ "," ++ printFields fs
termination_by structural fs => fs

end

end Json

end TypedQuery
