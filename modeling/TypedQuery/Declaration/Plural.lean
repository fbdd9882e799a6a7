import TypedQuery.Text.Loose

/-!
# Plurals

The plural of an English word. Words without a plural and a few irregular ones are listed.
For all others the first rule that fits the end of the word cuts a short ending off and adds
another; a word that no rule fits takes an `s`.
-/

namespace TypedQuery.Plural

/-- A condition on one letter. -/
inductive Letter where
  | is (c : Char)
  | among (cs : List Char)
  | outside (cs : List Char)

def Letter.fits : Letter → Char → Bool
  | is c, d => c == d
  | among cs, d => cs.contains d
  | outside cs, d => !cs.contains d

/-- Words end in one of the stems and one of the endings that are cut off. -/
structure Rule where
  stems : List (List Letter)
  cut : List String
  added : String

namespace Rule

/-- The end of a word, letter by letter. -/
def stem (s : String) : List Letter := s.toList.map .is

def stemsOf (s : String) : List (List Letter) := (s.splitOn " ").map stem

/-- Does a reversed word start with the given letters? -/
def startsWith : List Letter → List Char → Bool
  | [], _ => true
  | _ :: _, [] => false
  | l :: ls, c :: cs => l.fits c && startsWith ls cs

/-- How much of a word in front of a stem is lost: all of it up to the last loose character. -/
def lost (s : List Letter) (kept : List Char) : Nat :=
  let front := kept.take (kept.length - s.length)
  front.length - (front.reverse.takeWhile (!Text.isLoose ·)).length

/-- What is left of a word when the ending is cut off, if one of the stems is before it. -/
def cutOff? (r : Rule) (word : List Char) (ending : String) : Option (List Char) :=
  let kept := word.take (word.length - ending.length)
  let stems := r.stems.filter fun s => startsWith s.reverse kept.reverse
  if ending.toList.isSuffixOf word then
    (stems.map (lost · kept)).min?.map kept.drop
  else none

/-- The plural that the rule gives to a word. -/
def pluralOf? (r : Rule) (word : List Char) : Option String :=
  (r.cut.findSome? (r.cutOff? word)).map fun kept => String.ofList kept ++ r.added

end Rule

open Letter

def vowels : List Char := ['a', 'e', 'i', 'o', 'u']

/-- The rules in the order in which they are tried. -/
def rules : List Rule :=
  [ ⟨Rule.stemsOf "eaux", [""], ""⟩,
    ⟨Rule.stemsOf "child", ["ren", ""], "ren"⟩,
    ⟨Rule.stemsOf "person people", [""], "ople"⟩,
    ⟨Rule.stemsOf "mice mouse lice louse", [""], "ice"⟩,
    ⟨Rule.stemsOf "matr cod mur sil vert ind append", ["ix", "ex"], "ices"⟩,
    ⟨Rule.stemsOf "x ch ss sh zz", [""], "es"⟩,
    ⟨Rule.stemsOf "xes ches sses shes zzes", [""], ""⟩,
    ⟨[[outside ['c', 'h'], among ['i', 'e', 'o'], among ['l', 'n']]], ["ey"], "ies"⟩,
    ⟨[[outside ('y' :: vowels)], Rule.stem "qu"], ["y"], "ies"⟩,
    ⟨Rule.stemsOf "ar l ea eo oa hoo", ["f"], "ves"⟩,
    ⟨Rule.stemsOf "kni wi li", ["fe"], "ves"⟩,
    ⟨[[]], ["sis"], "ses"⟩,
    ⟨Rule.stemsOf "apheli hyperbat periheli asyndet noumen phenomen criteri organ prolegomen hedr automat",
      ["a", "on"], "a"⟩,
    ⟨Rule.stemsOf ("agend addend millenni dat extrem bacteri desiderat strat candelabr errat ov " ++
      "symposi curricul automat quor"), ["a", "um"], "a"⟩,
    ⟨Rule.stemsOf "her at gr", ["o"], "oes"⟩,
    ⟨Rule.stemsOf "seraph cherub", ["im", ""], "im"⟩,
    ⟨Rule.stemsOf "alumn alg vertebr", ["ae", "a"], "ae"⟩,
    ⟨Rule.stemsOf ("alumn syllab octop vir radi nucle fung cact stimul termin bacill foc uter loc " ++
      "strat"), ["us", "i"], "i"⟩,
    ⟨[outside ['l'] :: Rule.stem "ias", among vowels :: Rule.stem "las",
        among ['e', 'm', 'j', 'z', 'r'] :: Rule.stem "as", among ['i', 'u'] :: Rule.stem "am"],
      [""], ""⟩,
    ⟨[[is 'e', among ['m', 'n'], is 'u']], ["s", ""], "s"⟩,
    ⟨[Rule.stem "alias", outside ['a', 'o', 'u'] :: Rule.stem "us", Rule.stem "tlas", Rule.stem "gas",
      Rule.stem "ris"], [""], "es"⟩,
    ⟨Rule.stemsOf "ax test", ["is"], "es"⟩,
    ⟨[outside vowels :: Rule.stem "ese"], [""], ""⟩,
    ⟨[[]], ["s"], "s"⟩ ]

def irregular : List (String × String) :=
  [("ox", "oxen"), ("man", "men"), ("woman", "women"), ("die", "dice"), ("yes", "yeses"),
    ("foot", "feet"), ("eave", "eaves"), ("goose", "geese"), ("tooth", "teeth"), ("quiz", "quizzes")]

/-- Words without a plural. -/
def uncountable : List String :=
  [ "accommodation", "adulthood", "advertising", "advice", "aggression", "aid", "air", "aircraft",
    "alcohol", "anger", "applause", "arithmetic", "assistance", "athletics", "bacon", "baggage",
    "beef", "biology", "blood", "botany", "bread", "butter", "carbon", "cardboard", "cash",
    "chalk", "chaos", "chess", "crossroads", "countryside", "dancing", "deer", "dignity", "dirt",
    "dust", "economics", "education", "electricity", "engineering", "enjoyment", "envy",
    "equipment", "ethics", "evidence", "evolution", "fame", "fiction", "flour", "flu", "food",
    "fuel", "fun", "furniture", "gallows", "garbage", "garlic", "genetics", "gold", "golf",
    "gossip", "grammar", "gratitude", "grief", "guilt", "gymnastics", "happiness", "hardware",
    "harm", "hate", "hatred", "health", "heat", "help", "homework", "honesty", "honey",
    "hospitality", "housework", "humour", "hunger", "hydrogen", "ice", "importance", "inflation",
    "information", "innocence", "iron", "irony", "jam", "jewelry", "judo", "karate", "knowledge",
    "lack", "laughter", "lava", "leather", "leisure", "lightning", "linguine", "linguini",
    "linguistics", "literature", "litter", "livestock", "logic", "loneliness", "luck", "luggage",
    "macaroni", "machinery", "magic", "management", "mankind", "marble", "mathematics",
    "mayonnaise", "measles", "methane", "milk", "money", "mud", "music", "mumps", "nature",
    "news", "nitrogen", "nonsense", "nurture", "nutrition", "obedience", "obesity", "oxygen",
    "pasta", "patience", "physics", "poetry", "pollution", "poverty", "pride", "psychology",
    "publicity", "punctuation", "quartz", "racism", "relaxation", "reliability", "research",
    "respect", "revenge", "rice", "rubbish", "rum", "safety", "scenery", "seafood", "seaside",
    "series", "shame", "sheep", "shopping", "sleep", "smoke", "smoking", "snow", "soap",
    "software", "soil", "spaghetti", "species", "steam", "stuff", "stupidity", "sunshine",
    "symmetry", "tennis", "thirst", "thunder", "timber", "traffic", "transportation", "trust",
    "underwear", "unemployment", "unity", "validity", "veal", "vegetation", "vegetarianism",
    "vengeance", "violence", "vitality", "warmth", "wealth", "weather", "welfare", "wheat",
    "wildlife", "wisdom", "yoga", "zinc", "zoology" ]

/-- The plural of a word. -/
def ofWord (word : String) : String :=
  if uncountable.contains word then word
  else (irregular.lookup word).getD
    ((rules.findSome? (·.pluralOf? word.toList)).getD (word ++ "s"))

end TypedQuery.Plural
