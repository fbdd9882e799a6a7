import TypedQuery.Number.Hex

/-!
# Universally unique identifiers

Identifiers of 128 bits. They are written as 32 hexadecimal digits in five groups
and read from that form, from the bare digits, from the braced form and from the
`urn:uuid:` form, with digits in any case.
-/

namespace TypedQuery

structure Uuid where
  value : BitVec 128
deriving DecidableEq, Inhabited

namespace Uuid

/-- The lengths of the groups between the hyphens. -/
def groups : List Nat := [8, 4, 4, 4, 12]

/-- Splits a list into parts of the given lengths. -/
def parts : List Nat → List Char → List (List Char)
  | [], _ => []
  | n :: ns, cs => cs.take n :: parts ns (cs.drop n)

def text (u : Uuid) : String :=
  String.ofList (['-'].intercalate (parts groups (Number.hexDigits 32 u.value.toNat)))

/-- Exactly 32 hexadecimal digits. -/
def readBare? (cs : List Char) : Option Uuid :=
  if cs.length = 32 then (Number.readHex? cs).map fun n => ⟨BitVec.ofNat 128 n⟩ else none

/-- The digits of the five groups, if the hyphens stand between them and nowhere else. -/
def ungroup? : List Nat → List Char → Option (List Char)
  | [], [] => some []
  | [n], cs => if cs.length = n then some cs else none
  | n :: ns, cs =>
    match cs.drop n with
    | '-' :: rest => (ungroup? ns rest).map (cs.take n ++ ·)
    | _ => none
  | [], _ :: _ => none

def readGrouped? (cs : List Char) : Option Uuid := (ungroup? groups cs).bind readBare?

/-- An identifier in any of its text forms. -/
def read? (cs : List Char) : Option Uuid :=
  if cs.length = 32 then readBare? cs
  else if (cs.take 9).map Char.toLower = "urn:uuid:".toList then readGrouped? (cs.drop 9)
  else match cs with
    | '{' :: rest =>
      if rest.getLast? = some '\x7d' then readGrouped? rest.dropLast else none
    | _ => readGrouped? cs

/-- Identifiers are ordered by their bytes. -/
def compare (u v : Uuid) : Ordering := Ord.compare u.value.toNat v.value.toNat

end Uuid

end TypedQuery
