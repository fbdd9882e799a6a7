import TypedQuery.Naming
import TypedQuery.Number.Digits
import TypedQuery.Text.Blank

/-!
# Configuration

How the database is reached and which names statements use. Settings are checked one after
the other, those of the database first, and the first fault is reported.
-/

namespace TypedQuery

structure DatabaseSettings where
  host : String
  port : UInt16
  database : String
  username : String
  password : String
  minConnections : UInt32
  maxConnections : UInt32
  timeoutSeconds : UInt64
deriving DecidableEq

structure Config where
  database : DatabaseSettings
  naming : Naming
deriving DecidableEq

/-- Why settings cannot be used. -/
inductive InvalidConfig where
  | emptyHost
  | zeroPort
  | emptyDatabase
  | emptyUsername
  | noConnections
  | minAboveMax
  | zeroTimeout
  | notIdentifier (key value : String)
  | parameterStem (value : String)
  | sameAlias
  | noPath (name file : String)
deriving DecidableEq

namespace InvalidConfig

def message : InvalidConfig → String
  | emptyHost => "Database host cannot be empty"
  | zeroPort => "Database port cannot be zero"
  | emptyDatabase => "Database name cannot be empty"
  | emptyUsername => "Database username cannot be empty"
  | noConnections => "Database max_connections must be greater than 0"
  | minAboveMax => "Database min_connections cannot be greater than max_connections"
  | zeroTimeout => "Database connection_timeout_seconds must be greater than 0"
  | notIdentifier key value => "Query " ++ key ++ " '" ++ value ++ "' must be a plain SQL identifier"
  | parameterStem value =>
    "Query parameter_prefix '" ++ value ++ "' must be non-empty and contain no digits or whitespace"
  | sameAlias => "Query cte_alias and group_alias must differ"
  | noPath name file =>
    s!"Config path must be specified as {name} (environment or .env) or in {file} file"

end InvalidConfig

/-- The message with what it is about. -/
def InvalidConfig.report (cause : InvalidConfig) : String := "Invalid configuration: " ++ cause.message

/-- A check that holds or gives its fault. -/
def InvalidConfig.require (fault : InvalidConfig) (holds : Bool) : Except InvalidConfig Unit :=
  if holds then .ok () else .error fault

namespace DatabaseSettings

variable (d : DatabaseSettings)

/-- The address of the database with all that is needed to connect. Nothing is escaped. -/
def connectionString : String :=
  "postgresql://" ++ d.username ++ ":" ++ d.password ++ "@" ++ d.host ++ ":" ++
    Number.textOfNat d.port.toNat ++ "/" ++ d.database

def check : Except InvalidConfig Unit := do
  InvalidConfig.require .emptyHost (d.host != "")
  InvalidConfig.require .zeroPort (d.port != 0)
  InvalidConfig.require .emptyDatabase (d.database != "")
  InvalidConfig.require .emptyUsername (d.username != "")
  InvalidConfig.require .noConnections (d.maxConnections != 0)
  InvalidConfig.require .minAboveMax (d.minConnections ≤ d.maxConnections)
  InvalidConfig.require .zeroTimeout (d.timeoutSeconds != 0)

end DatabaseSettings

namespace Naming

/-- A word of ASCII letters, digits and underscores that does not start with a digit. -/
def isPlain (s : String) : Bool :=
  match s.toList with
  | [] => false
  | c :: cs => (c.isAlpha || c == '_') && cs.all fun c => c.isAlphanum || c == '_'

/-- The settings that must be plain words: all but the stem of placeholders. -/
def wordSettings : List NamingSetting := settings.filter (·.key != "parameter_prefix")

/-- May the stem start placeholders? A digit would run into their numbers. -/
def isParameterStem (s : String) : Bool :=
  s != "" && s.toList.all fun c => !c.isDigit && !Text.isBlank c

def check (n : Naming) : Except InvalidConfig Unit := do
  wordSettings.forM fun s =>
    InvalidConfig.require (.notIdentifier s.key (s.get n)) (isPlain (s.get n))
  InvalidConfig.require (.parameterStem n.parameterStem) (isParameterStem n.parameterStem)
  InvalidConfig.require .sameAlias (n.cteAlias != n.groupAlias)

end Naming

namespace Config

def check (c : Config) : Except InvalidConfig Unit := do
  c.database.check
  c.naming.check

end Config

end TypedQuery
