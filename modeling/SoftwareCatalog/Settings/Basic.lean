import SoftwareCatalog.Error
import SoftwareCatalog.Text.Fields

namespace SoftwareCatalog

/-- How records are added. -/
@[ext] structure AddSettings where
  useUniqueId : Bool := false
  preferLocal : Bool := false
  useMergeHeuristic : Bool := false
deriving DecidableEq, Repr

/-- How sources are loaded. -/
@[ext] structure LoadSettings where
  ignoreInvalid : Bool := false
  onlyNativeLanguages : Bool := false
deriving DecidableEq, Repr

/-- How components are searched. -/
@[ext] structure SearchSettings where
  locales : List String
  workers : Nat := 4
  stemming : Bool := true
  minTokenLength : Nat := 3
deriving DecidableEq, Repr

@[ext] structure Settings where
  add : AddSettings := {}
  load : LoadSettings := {}
  search : SearchSettings
deriving DecidableEq, Repr

namespace Settings

def withUniqueId (s : Settings) : Settings := { s with add := { s.add with useUniqueId := true } }

def withPreferLocal (s : Settings) : Settings := { s with add := { s.add with preferLocal := true } }

def withLocales (s : Settings) (locales : List String) : Settings :=
  { s with search := { s.search with locales } }

def isNativeLocale (s : Settings) (locale : String) : Bool := s.search.locales.contains locale

/-- Searching takes a worker and a locale. -/
def check (s : Settings) : Except SettingsError Settings :=
  if s.search.workers = 0 then .error .noWorkers
  else if s.search.locales = [] then .error .noLocales
  else .ok s

end Settings

end SoftwareCatalog
