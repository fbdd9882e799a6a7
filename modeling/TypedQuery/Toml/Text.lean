import TypedQuery.Number.Hex

/-!
# Strings and keys of TOML

Strings in double quotes have escapes, those in single quotes have none. Three quotes open a
string that may hold line breaks; a break right behind them does not belong to it, and up to
two further quotes may stand before the three that close it.
-/

namespace TypedQuery.Toml

def singleQuote : Char := Char.ofNat 39

/-- Characters that may stand in no string; the tab may. -/
def isControl (c : Char) : Bool := (c.toNat < 0x20 && c != '\t') || c.toNat = 0x7F

def isBlank (c : Char) : Bool := c = ' ' || c = '\t'

def skipBlank (cs : List Char) : List Char := cs.dropWhile isBlank

/-- The text behind a line break. -/
def skipBreak? : List Char → Option (List Char)
  | '\n' :: cs => some cs
  | '\r' :: '\n' :: cs => some cs
  | _ => none

/-- The character whose number is written in exactly `n` hexadecimal digits. -/
def takeCoded? (n : Nat) (cs : List Char) : Option (Char × List Char) := do
  let code ← Number.readHex? (cs.take n)
  if (cs.take n).length = n ∧ code.isValidChar then some (Char.ofNat code, cs.drop n) else none

/-- The character of an escape, behind its backslash. -/
def takeEscape? : List Char → Option (Char × List Char)
  | 'b' :: cs => some ('\x08', cs)
  | 't' :: cs => some ('\t', cs)
  | 'n' :: cs => some ('\n', cs)
  | 'f' :: cs => some ('\x0c', cs)
  | 'r' :: cs => some ('\r', cs)
  | 'e' :: cs => some ('\x1b', cs)
  | '"' :: cs => some ('"', cs)
  | '\\' :: cs => some ('\\', cs)
  | 'x' :: cs => takeCoded? 2 cs
  | 'u' :: cs => takeCoded? 4 cs
  | 'U' :: cs => takeCoded? 8 cs
  | _ => none

/-- The rest of a string of one line behind its double quote; `fuel` is at least its length. -/
def takeBasic? : Nat → List Char → List Char → Option (String × List Char)
  | 0, _, _ => none
  | _ + 1, _, [] => none
  | fuel + 1, read, c :: cs =>
    if c = '"' then some (String.ofList read.reverse, cs)
    else if c = '\\' then do
      let (d, cs) ← takeEscape? cs
      takeBasic? fuel (d :: read) cs
    else if isControl c then none
    else takeBasic? fuel (c :: read) cs

/-- The rest of a string of one line behind its single quote. -/
def takeLiteral? (cs : List Char) : Option (String × List Char) :=
  let content := cs.takeWhile fun c => c != singleQuote && !isControl c
  match cs.drop content.length with
  | c :: rest => if c = singleQuote then some (String.ofList content, rest) else none
  | [] => none

/-- The text behind blanks and line breaks. -/
def skipLines : List Char → List Char
  | '\r' :: '\n' :: cs => skipLines cs
  | c :: cs => if isBlank c || c = '\n' then skipLines cs else c :: cs
  | [] => []

/-- The text behind a backslash that ends its line: blanks and breaks are skipped. -/
def skipContinuation? (cs : List Char) : Option (List Char) :=
  (skipBreak? (skipBlank cs)).map skipLines

/-- The rest of a string of several lines. The quotes are of the given kind, and only strings
in double quotes have escapes. -/
def takeLines? (quote : Char) : Nat → List Char → List Char → Option (String × List Char)
  | 0, _, _ => none
  | _ + 1, _, [] => none
  | fuel + 1, read, c :: cs =>
    if c = quote then
      let quotes := ((c :: cs).takeWhile (· == quote)).length
      if quotes < 3 then takeLines? quote fuel (c :: read) cs
      else
        let taken := min quotes 5
        some (String.ofList (List.replicate (taken - 3) quote ++ read).reverse,
          (c :: cs).drop taken)
    else if c = '\\' ∧ quote = '"' then
      match skipContinuation? cs with
      | some rest => takeLines? quote fuel read rest
      | none => do
        let (d, cs) ← takeEscape? cs
        takeLines? quote fuel (d :: read) cs
    else match c, cs with
      | '\r', '\n' :: rest => takeLines? quote fuel ('\n' :: '\r' :: read) rest
      | c, cs => if isControl c && c != '\n' then none else takeLines? quote fuel (c :: read) cs

/-- A string that starts at the first character. -/
def takeString? (cs : List Char) : Option (String × List Char) :=
  let lines (quote : Char) (rest : List Char) : Option (String × List Char) :=
    let rest := (skipBreak? rest).getD rest
    takeLines? quote (rest.length + 1) [] rest
  match cs with
  | '"' :: '"' :: '"' :: rest => lines '"' rest
  | '"' :: rest => takeBasic? (rest.length + 1) [] rest
  | q :: rest =>
    if q ≠ singleQuote then none
    else if [q, q].isPrefixOf rest then lines singleQuote (rest.drop 2)
    else takeLiteral? rest
  | [] => none

/-! ## Keys -/

def isBare (c : Char) : Bool := c.isAlphanum || c = '-' || c = '_'

/-- One part of a key: a bare word or a string of one line. -/
def takeKeyPart? : List Char → Option (String × List Char)
  | '"' :: cs => takeBasic? (cs.length + 1) [] cs
  | c :: cs =>
    if c = singleQuote then takeLiteral? cs
    else
      let word := (c :: cs).takeWhile isBare
      if word = [] then none else some (String.ofList word, (c :: cs).drop word.length)
  | [] => none

/-- The most that containers may nest and that a key may have parts. -/
def maxDepth : Nat := 80

/-- A key of at most `depth` parts. -/
def takeParts? : Nat → List Char → Option (List String × String × List Char)
  | 0, _ => none
  | depth + 1, cs => do
    let (part, rest) ← takeKeyPart? cs
    match skipBlank rest with
    | '.' :: rest =>
      let (path, last, rest) ← takeParts? depth (skipBlank rest)
      some (part :: path, last, rest)
    | rest => some ([], part, rest)

/-- A key: parts with points between them, all but the last naming tables. -/
def takeKey? (cs : List Char) : Option (List String × String × List Char) := takeParts? maxDepth cs

end TypedQuery.Toml
