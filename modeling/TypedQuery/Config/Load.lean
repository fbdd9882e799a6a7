import TypedQuery.Config.Environment
import TypedQuery.Config.Reader

/-!
# Finding the configuration

A variable of the environment, which an environment file may set, names the file to read. If
it is not set, there must be a file of the default name.
-/

namespace TypedQuery

/-- The files below a directory by their paths. -/
structure Directory where
  files : List (String × String)

namespace Directory

/-- The names on a path, with those left out that stand for the directory they are in. -/
def parts (path : String) : List String :=
  (path.splitOn "/").filter fun part => part != "" && part != "."

/-- Is there a file below the place of the given names? -/
def hasBelow (d : Directory) (names : List String) : Bool :=
  d.files.any fun (name, _) => names.isPrefixOf (parts name) && parts name != names

/-- The names of the place that a path leads to. A step up is possible from a directory only,
and not out of the first one. `here` are the names so far, the last one first. -/
def resolve? (d : Directory) (here : List String) : List String → Option (List String)
  | [] => some here.reverse
  | part :: path =>
    if part = ".." then
      match here with
      | [] => none
      | _ :: above => if d.hasBelow here.reverse then resolve? d above path else none
    else resolve? d (part :: here) path

/-- Can the path lead to a file below the directory? -/
def namesFile (path : String) : Bool :=
  let last := (path.splitOn "/").getLast?
  !path.startsWith "/" && last != some "" && last != some "."

def read? (d : Directory) (path : String) : Option String := do
  if !namesFile path then none
  let names ← d.resolve? [] (parts path)
  (d.files.find? fun (name, _) => parts name == names).map Prod.snd

end Directory

namespace Config

def environmentFile : String := ".env"

def pathVariable : String := "QUERYHAUS_CONFIG"

def defaultPath : String := "./queryhaus.toml"

/-- The configuration of a directory. -/
def load (env : Environment) (d : Directory) : Except ConfigError Config :=
  let env := ((d.read? environmentFile).map env.load).getD env
  match env.get? pathVariable with
  | some path =>
    match d.read? path with
    | some text => read text
    | none => .error .unreadable
  | none =>
    match d.read? defaultPath with
    | some text => read text
    | none =>
      if d.hasBelow (Directory.parts defaultPath) then .error .unreadable
      else .error (.invalid (.noPath pathVariable defaultPath))

end Config

end TypedQuery
