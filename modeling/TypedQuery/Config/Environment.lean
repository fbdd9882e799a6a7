import TypedQuery.Text.Alphanumeric
import TypedQuery.Text.Blank

/-!
# Environment files

An environment file sets variables that are not set yet, one a line, up to the first line that
is not well formed. A value may be quoted and then go over several lines. Variables are
replaced by their values, except in single quotes. A name without braces is made of letters
and numbers.
-/

namespace TypedQuery

/-- Variables with their values. -/
structure Environment where
  entries : List (String × String)

namespace Environment

def singleQuote : Char := Char.ofNat 39

def get? (env : Environment) (name : String) : Option String := env.entries.lookup name

/-- Sets a variable that is not set. -/
def setNew (env : Environment) (name value : String) : Environment :=
  if (env.get? name).isSome then env else ⟨(name, value) :: env.entries⟩

/-! ## Lines -/

/-- Where in a line the reader is when it looks for the line's end. -/
inductive LineState where
  | plain
  | blank
  | escape
  | quoted (quote : Char)
  | quotedEscape (quote : Char)
deriving DecidableEq

namespace LineState

/-- What a character outside quotes leads to. -/
def start (c : Char) : LineState :=
  if c = '\\' then .escape
  else if c = '"' ∨ c = singleQuote then .quoted c
  else .plain

/-- The next state, or none where a comment starts. -/
def next? : LineState → Char → Option LineState
  | .plain, c => some (if Text.isBlank c && c != '\n' && c != '\r' then .blank else start c)
  | .blank, c => if c = '#' then none else some (start c)
  | .escape, _ => some .plain
  | .quoted q, c => some (if c = '\\' then .quotedEscape q else if c = q then .plain else .quoted q)
  | .quotedEscape q, _ => some (.quoted q)

end LineState

/-- The part of a line before a comment, and the state at the end unless there is one. -/
def scanLine (state : LineState) : List Char → List Char × Option LineState
  | [] => ([], some state)
  | c :: cs =>
    match state.next? c with
    | none => ([], none)
    | some next =>
      let (text, last) := scanLine next cs
      (c :: text, last)

/-- The lines of a text with their breaks. -/
def physicalLines : List Char → List (List Char)
  | [] => []
  | c :: cs =>
    match c, physicalLines cs with
    | '\n', lines => ['\n'] :: lines
    | c, line :: lines => (c :: line) :: lines
    | c, [] => [[c]]

/-- Lines joined where a quoted value goes on; none stands for a value that does not end. -/
def logicalLines (buffer : List Char) (state : LineState) : List (List Char) → List (Option (List Char))
  | [] => if state = .plain then [] else [none]
  | line :: lines =>
    if ((buffer ++ line).dropWhile Text.isBlank).head? = some '#' then
      logicalLines [] .plain lines
    else match scanLine state line with
      | (text, none) => some (buffer ++ text) :: logicalLines [] .plain lines
      | (text, some .plain) => some (buffer ++ text) :: logicalLines [] .plain lines
      | (text, some state) => logicalLines (buffer ++ text) state lines

/-! ## Values -/

/-- Where in a value the reader is; the flags tell whether it is in double quotes. -/
inductive ValueState where
  | plain (quoted : Bool)
  | singleQuoted
  | escape (quoted : Bool)
  | expansion (quoted braced : Bool) (name : List Char)
  | finished
  | comment
deriving DecidableEq

/-- The value of a variable, empty if it is not set. -/
def expand (env : Environment) (name : List Char) : List Char :=
  ((env.get? (String.ofList name.reverse)).getD "").toList

/-- Reads a character of a value: the next state and what is added to the value. -/
def step? (env : Environment) : ValueState → Char → Option (ValueState × List Char)
  | .comment, _ => some (.comment, [])
  | .finished, c =>
    if c = ' ' ∨ c = '\t' then some (.finished, [])
    else if c = '#' then some (.comment, [])
    else none
  | .escape quoted, c =>
    if c = 'n' then some (.plain quoted, ['\n'])
    else if c ∈ ['\\', '"', '$', ' ', singleQuote] then some (.plain quoted, [c])
    else none
  | .singleQuoted, c =>
    if c = singleQuote then some (.plain false, []) else some (.singleQuoted, [c])
  | .expansion quoted braced name, c =>
    if Text.isAlphanumeric c then some (.expansion quoted braced (c :: name), [])
    else if braced then
      if c = '\x7d' then some (.plain quoted, env.expand name)
      else some (.expansion quoted braced (c :: name), [])
    else if c = '\x7b' ∧ name = [] then some (.expansion quoted true [], [])
    else if c = '$' then some (.expansion quoted false [], env.expand name)
    else some (.plain quoted, env.expand name ++ [c])
  | .plain quoted, c =>
    if c = '$' then some (.expansion quoted false [], [])
    else if c = '"' then some (.plain !quoted, [])
    else if c = '\\' then some (.escape quoted, [])
    else if quoted then some (.plain quoted, [c])
    else if c = singleQuote then some (.singleQuoted, [])
    else if c = ' ' ∨ c = '\t' then some (.finished, [])
    else some (.plain quoted, [c])

/-- The value that a text gives from a state on. -/
def readValue? (env : Environment) : ValueState → List Char → Option (List Char)
  | .plain true, [] | .escape true, [] | .singleQuoted, [] => none
  | .expansion quoted braced name, [] => if quoted || braced then none else some (env.expand name)
  | _, [] => some []
  | state, c :: cs => do
    let (state, out) ← env.step? state c
    some (out ++ (← env.readValue? state cs))

/-! ## Assignments -/

def isNameStart (c : Char) : Bool := c.isAlpha || c = '_'

def isNamePart (c : Char) : Bool := c.isAlphanum || c = '_' || c = '.'

/-- A name and the text behind it and behind white space. -/
def takeName? : List Char → Option (List Char × List Char)
  | [] => none
  | c :: cs =>
    if isNameStart c then
      some (c :: cs.takeWhile isNamePart, (cs.dropWhile isNamePart).dropWhile Text.isBlank)
    else none

/-- The name that a line assigns to and the text behind the equals sign. The word `export` may
stand in front of the name. -/
def takeTarget? (cs : List Char) : Option (List Char × List Char) := do
  let (name, rest) ← takeName? cs
  match rest with
  | '=' :: rest => some (name, rest)
  | rest =>
    if name = "export".toList then
      match ← takeName? rest with
      | (name, '=' :: rest) => some (name, rest)
      | _ => none
    else none

def isEmptyLine (cs : List Char) : Bool := cs.isEmpty || cs.head? == some '#'

/-- The environment after a line, unless the line is not well formed. -/
def readLine? (env : Environment) (line : List Char) : Option Environment := do
  let cs := Text.trim line
  if isEmptyLine cs then some env
  else
    let (name, rest) ← takeTarget? cs
    let rest := rest.dropWhile Text.isBlank
    let value ← if isEmptyLine rest then some [] else env.readValue? (.plain false) rest
    some (env.setNew (String.ofList name) (String.ofList value))

def readLines (env : Environment) : List (Option (List Char)) → Environment
  | some line :: lines =>
    match env.readLine? line with
    | some env => readLines env lines
    | none => env
  | _ => env

/-- The environment after reading an environment file. -/
def load (env : Environment) (file : String) : Environment :=
  let cs := match file.toList with
    | '\ufeff' :: cs => cs
    | cs => cs
  env.readLines (logicalLines [] .plain (physicalLines cs))

end Environment

end TypedQuery
