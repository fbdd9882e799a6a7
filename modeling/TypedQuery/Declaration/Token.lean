import TypedQuery.Text.Blank

/-!
# Tokens of declarations

Names, lifetimes, literals and marks. White space and comments separate tokens and carry no
meaning; comments nest. Documentation is no comment, so nothing of it is left out.
-/

namespace TypedQuery

/-- A text without its white space. -/
def squeeze (s : String) : String := String.ofList (s.toList.filter (!Text.isBlank ·))

inductive Token where
  | word (s : String)
  | lifetime (s : String)
  | literal (s : String)
  /-- A mark of one character, or one of the marks of a path and of an arrow. -/
  | mark (s : String)
deriving DecidableEq

namespace Token

def text : Token → String
  | word s => s
  | lifetime s => s
  | literal s => s
  | mark s => s

/-- White space and the two marks of writing direction. -/
def isSpace (c : Char) : Bool := Text.isBlank c || c = '\u200e' || c = '\u200f'

def isWordPart (c : Char) : Bool := c.isAlphanum || c = '_' || (0x80 ≤ c.toNat && !isSpace c)

def quote : Char := Char.ofNat 39

/-! ## Comments -/

/-- The text behind a comment up to the end of its line. -/
def skipLine : List Char → List Char
  | [] => []
  | '\n' :: cs => '\n' :: cs
  | _ :: cs => skipLine cs

/-- The text behind the end of a comment of the given depth. -/
def skipComment? : Nat → List Char → Option (List Char)
  | _, [] => none
  | depth, '/' :: '*' :: cs => skipComment? (depth + 1) cs
  | depth, '*' :: '/' :: cs => if depth ≤ 1 then some cs else skipComment? (depth - 1) cs
  | depth, _ :: cs => skipComment? depth cs

/-- The text behind the comment at its start, if there is one that is no documentation. -/
def skipRemark? : List Char → Option (List Char)
  | '/' :: '/' :: '!' :: _ => none
  | '/' :: '/' :: '/' :: '/' :: cs => some (skipLine cs)
  | '/' :: '/' :: '/' :: _ => none
  | '/' :: '/' :: cs => some (skipLine cs)
  | '/' :: '*' :: '*' :: '/' :: cs => some cs
  | '/' :: '*' :: '!' :: _ => none
  | '/' :: '*' :: '*' :: '*' :: cs => skipComment? 1 ('*' :: '*' :: cs)
  | '/' :: '*' :: '*' :: _ => none
  | '/' :: '*' :: cs => skipComment? 1 cs
  | _ => none

/-! ## Literals -/

/-- The length of a quoted literal behind its opening quote, the closing one included. -/
def quotedLength (close : Char) : List Char → Nat
  | [] => 0
  | '\\' :: _ :: cs => quotedLength close cs + 2
  | c :: cs => if c = close then 1 else quotedLength close cs + 1

/-- The length of a raw string behind its opening quote, up to a quote and as many hashes as
were in front of it. -/
def rawLength (hashes : Nat) : List Char → Nat
  | [] => 0
  | c :: cs =>
    if c = '"' ∧ (cs.take hashes).all (· = '#') ∧ hashes ≤ cs.length then hashes + 1
    else rawLength hashes cs + 1

/-- The length of the string that a text starts with: a string may have a letter for its kind
in front, and an `r` with hashes if it has no escapes. -/
def stringLength? (cs : List Char) : Option Nat :=
  let kind := if cs.head?.any fun c => c = 'b' || c = 'c' then 1 else 0
  match cs.drop kind with
  | '"' :: rest => some (kind + 1 + quotedLength '"' rest)
  | 'r' :: rest =>
    let hashes := (rest.takeWhile (· = '#')).length
    match rest.drop hashes with
    | '"' :: rest => some (kind + hashes + 2 + rawLength hashes rest)
    | _ => none
  | _ => none

/-- The length of the character literal that a text starts with. A quote opens a character
unless it starts a lifetime, which has no quote at its end. -/
def characterLength? (cs : List Char) : Option Nat :=
  let kind := if cs.head? = some 'b' then 1 else 0
  match cs.drop kind with
  | q :: '\\' :: rest => if q = quote then some (kind + 1 + quotedLength quote ('\\' :: rest)) else none
  | q :: _ :: close :: _ => if q = quote ∧ close = quote then some (kind + 3) else none
  | _ => none

/-- The length of the word that a text starts with. A raw word has a mark in front. -/
def wordLength (cs : List Char) : Nat :=
  match cs with
  | 'r' :: '#' :: rest => 2 + (rest.takeWhile isWordPart).length
  | cs => (cs.takeWhile isWordPart).length

/-! ## Tokens -/

/-- The token at the start of a text that starts with no white space and no comment. -/
def first (cs : List Char) : Token :=
  match stringLength? cs <|> characterLength? cs with
  | some n => .literal (String.ofList (cs.take n))
  | none =>
    match cs with
    | ':' :: ':' :: _ => .mark "::"
    | '-' :: '>' :: _ => .mark "->"
    | c :: rest =>
      if c = quote then .lifetime (String.ofList (c :: rest.take (wordLength rest)))
      else if c.isDigit then .literal (String.ofList (cs.take (wordLength cs)))
      else if isWordPart c then .word (String.ofList (cs.take (wordLength cs)))
      else .mark (String.singleton c)
    | [] => .mark ""

/-- The tokens of a text; `fuel` is at least its length. -/
def scan : Nat → List Char → List Token
  | 0, _ => []
  | _ + 1, [] => []
  | fuel + 1, c :: cs =>
    if isSpace c then scan fuel cs
    else match skipRemark? (c :: cs) with
      | some rest => scan fuel rest
      | none =>
        let t := first (c :: cs)
        t :: scan fuel ((c :: cs).drop t.text.length)

/-- The tokens of a text. -/
def ofText (s : String) : List Token := scan s.toList.length s.toList

/-- The text of tokens without white space. -/
def squeezed (ts : List Token) : String := squeeze (String.join (ts.map text))

end Token

end TypedQuery
