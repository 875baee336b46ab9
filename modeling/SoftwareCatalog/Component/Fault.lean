import SoftwareCatalog.Component.Flag

namespace SoftwareCatalog

/-- Faults of a source that do not keep it from being read. -/
inductive Fault where
  | duplicateRelease | duplicateScreenshot | duplicateContentRating | noXmlHeader | translatedId
deriving DecidableEq, Repr

namespace Fault

def label : Fault → String
  | .duplicateRelease => "DUPLICATE_RELEASE"
  | .duplicateScreenshot => "DUPLICATE_SCREENSHOT"
  | .duplicateContentRating => "DUPLICATE_CONTENT_RATING"
  | .noXmlHeader => "NO_XML_HEADER"
  | .translatedId => "TRANSLATED_ID"

instance : Flag Fault where
  all := [.duplicateRelease, .duplicateScreenshot, .duplicateContentRating, .noXmlHeader,
    .translatedId]
  mem_all i := by cases i <;> decide
  label := label

def description : Fault → String
  | .duplicateRelease => "duplicate release version"
  | .duplicateScreenshot => "duplicate screenshot"
  | .duplicateContentRating => "duplicate content rating"
  | .noXmlHeader => "missing XML header"
  | .translatedId => "translated <id> element"

/-- A repetition within one source. -/
def isDuplicate : Fault → Bool
  | .duplicateRelease | .duplicateScreenshot | .duplicateContentRating => true
  | _ => false

end Fault

end SoftwareCatalog
