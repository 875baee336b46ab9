import SoftwareCatalog.Component.Collection
import SoftwareCatalog.Component.Locale
import SoftwareCatalog.Text.Fields

namespace SoftwareCatalog.Locales

/-- The name of a locale without its codeset and its modifier. -/
def base (name : String) : String :=
  String.ofList (name.toList.takeWhile fun c => c ≠ '.' && c ≠ '@')

def language? (base : String) : Option String := (Text.cut? '_' base).map (·.1)

/-- Names that stand for untranslated text or for nothing are not listed. -/
def isListed (name : String) : Bool := name ≠ "" && name ≠ untranslated && name ≠ "POSIX"

/-- The locales that one name asks for. -/
def requested (name : String) : List String :=
  (base name :: (language? (base name)).toList).filter isListed

/-- The locales that names ask for, each once, and untranslated text as the last resort. -/
def ofNames (names : List String) : List String :=
  (names.flatMap requested).foldl addNew [] ++ [untranslated]

/-- The variables of the environment that choose the locales. -/
structure Environment where
  language : Option String
  lcAll : Option String
  lcMessages : Option String
  lang : Option String
deriving DecidableEq, Repr

/-- The first of the three locale variables that is set and not empty. -/
def Environment.locale? (e : Environment) : Option String :=
  [e.lcAll, e.lcMessages, e.lang].findSome? fun v => v.bind Text.nonEmpty?

def ofEnvironment (e : Environment) : List String :=
  ofNames ((e.language.map (Text.fields ':')).getD [] ++ e.locale?.toList)

end SoftwareCatalog.Locales
