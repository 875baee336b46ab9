import SoftwareCatalog.Text.Blank
import SoftwareCatalog.Text.Lowercase

namespace SoftwareCatalog.Search

/-- Words too common to search for, in the order of code points. -/
def stopWords : List String := [
  "about", "all", "also", "and", "any", "application", "are", "but", "can", "for", "from",
  "get", "has", "have", "into", "its", "like", "more", "not", "only", "other", "our", "out",
  "program", "such", "that", "the", "their", "them", "this", "use", "using", "was", "will",
  "with", "you", "your"]

def isStopWord (word : String) : Bool := stopWords.contains word

def isSeparator (c : Char) : Bool := Text.isBlank c || (Text.isPunctuation c && c ≠ '-')

/-- A word and, where hyphens join it, its parts. -/
def wordAndParts (word : List Char) : List (List Char) :=
  if word = [] then []
  else if word.contains '-' then word :: (word.splitOn '-').filter (· ≠ [])
  else [word]

/-- The words of a text in lowercase, hyphenated ones also in parts. -/
def splitWords (text : String) : List String :=
  ((((Text.lower text).toList.splitOnP isSeparator).map (Text.trimList (· == '-'))).flatMap
    wordAndParts).map String.ofList

def isIndexable (minLength : Nat) (word : String) : Bool :=
  minLength ≤ word.length && !word.toList.any ['<', '>', '(', ')'].contains

/-- Drops the tags of a text, each for a blank; `inTag` says where the text begins. -/
def stripTags (inTag : Bool) : List Char → List Char
  | [] => []
  | c :: cs =>
    if c = '<' then ' ' :: stripTags true cs
    else if inTag then stripTags (c ≠ '>') cs
    else c :: stripTags false cs

def stripMarkup (markup : String) : String := String.ofList (stripTags false markup.toList)

end SoftwareCatalog.Search
