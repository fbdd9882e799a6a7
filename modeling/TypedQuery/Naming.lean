/-!
# Naming conventions

The names that statements use beside those of entities.
-/

namespace TypedQuery

structure Naming where
  /-- Aliases of tables are this stem and a number. -/
  aliasStem : String := "Extend"
  /-- Placeholders are this stem and a number. -/
  parameterStem : String := "@p"
  /-- The common table expression of a grouped query. -/
  cteName : String := "CommonTableExpression"
  /-- Its alias. -/
  cteAlias : String := "CTE"
  /-- The alias of the grouping subquery. -/
  groupAlias : String := "GP"
  /-- The primary key of entities that mark none. -/
  defaultKeyField : String := "id"
deriving DecidableEq

/-- A setting of the naming with the key that it is configured by. -/
structure NamingSetting where
  key : String
  get : Naming → String
  set : Naming → String → Naming

namespace Naming

/-- All settings in the order in which they are checked. -/
def settings : List NamingSetting :=
  [ ⟨"alias_prefix", aliasStem, fun n s => { n with aliasStem := s }⟩,
    ⟨"parameter_prefix", parameterStem, fun n s => { n with parameterStem := s }⟩,
    ⟨"cte_name", cteName, fun n s => { n with cteName := s }⟩,
    ⟨"cte_alias", cteAlias, fun n s => { n with cteAlias := s }⟩,
    ⟨"group_alias", groupAlias, fun n s => { n with groupAlias := s }⟩,
    ⟨"default_key_field", defaultKeyField, fun n s => { n with defaultKeyField := s }⟩ ]

/-- The default naming with some settings changed. -/
def ofSettings (value? : String → Option String) : Naming :=
  settings.foldl (fun n s => ((value? s.key).map (s.set n)).getD n) {}

end Naming

end TypedQuery
