import SoftwareCatalog.TextMap

namespace SoftwareCatalog

/-- Texts by locale. -/
abbrev LocaleMap := TextMap String

/-- The locale of untranslated text. -/
def untranslated : String := "C"

namespace LocaleMap

/-- The text for a locale, the untranslated one where there is none. -/
def localized (m : LocaleMap) (locale : Option String) : Option String :=
  (m.get? (locale.getD untranslated)).or (m.get? untranslated)

def set (m : LocaleMap) (locale : Option String) (text : String) : LocaleMap :=
  m.insert (locale.getD untranslated) text

end LocaleMap

end SoftwareCatalog
