import TypedQuery.Config.Basic
import TypedQuery.Toml.Reader

/-!
# Reading the configuration

The settings are in a file with one table for the database, all of whose names must be there,
and one for the naming, which is optional with each of its names. Other names are ignored.
-/

namespace TypedQuery

/-- Why there is no configuration. -/
inductive ConfigError where
  /-- The file cannot be read. -/
  | unreadable
  /-- The file is not well formed, or a setting is missing or of the wrong type. -/
  | malformed
  | invalid (cause : InvalidConfig)
deriving DecidableEq

namespace Config

/-- A setting of a record. A record is a table, or a list of the settings in the order of the
given names; a date holds no settings. -/
def setting? (names : List String) (name : String) : Toml → Option Toml
  | .table fields => fields.lookup name
  | .array items => items[names.idxOf name]?
  | _ => none

def isRecord : Toml → Bool
  | .table _ | .array _ | .moment => true
  | _ => false

/-- A number of a width. -/
def unsigned? (width : Nat) (v : Toml) : Option Nat := do
  let n ← v.integer?
  if Number.FitsUnsigned width n then some n.toNat else none

def databaseNames : List String :=
  ["host", "port", "database", "username", "password", "min_connections", "max_connections",
    "connection_timeout_seconds"]

def readDatabase? (v : Toml) : Option DatabaseSettings := do
  let text (name : String) : Option String := setting? databaseNames name v >>= Toml.text?
  let number (width : Nat) (name : String) : Option Nat :=
    setting? databaseNames name v >>= unsigned? width
  some
    { host := ← text "host"
      port := .ofNat (← number 16 "port")
      database := ← text "database"
      username := ← text "username"
      password := ← text "password"
      minConnections := .ofNat (← number 32 "min_connections")
      maxConnections := .ofNat (← number 32 "max_connections")
      timeoutSeconds := .ofNat (← number 64 "connection_timeout_seconds") }

/-- The default naming with the settings that are given. -/
def readNaming? (v : Toml) : Option Naming :=
  if !isRecord v then none
  else Naming.settings.foldlM (fun n s =>
    match setting? (Naming.settings.map NamingSetting.key) s.key v with
    | some w => w.text?.map (s.set n)
    | none => some n) {}

def ofTable? (fields : List (String × Toml)) : Option Config := do
  some
    { database := ← fields.lookup "database" >>= readDatabase?
      naming := ← match fields.lookup "query" with
        | some v => readNaming? v
        | none => some {} }

/-- The configuration in a text. -/
def read (s : String) : Except ConfigError Config :=
  match Toml.read? s >>= ofTable? with
  | none => .error .malformed
  | some c =>
    match c.check with
    | .ok () => .ok c
    | .error cause => .error (.invalid cause)

end Config

end TypedQuery
