import SoftwareCatalog.Text.Lowercase

namespace SoftwareCatalog.Stem

/-- A `Y` is a consonant, a `y` a vowel. -/
def isVowel (c : Char) : Bool := ['a', 'e', 'i', 'o', 'u', 'y'].contains c

/-- An ending with what replaces it and the letters one of which has to stand in front of it. -/
structure Ending where
  text : String
  replacement : String
  after : Option (List Char) := none
deriving Repr

/-- The longest of the endings that `w` has, with what stands in front of it. -/
def longestEnding (w : List Char) : List Ending → Option (List Char × Ending)
  | [] => none
  | e :: es =>
    match e.text.toList.isSuffixOf? w, longestEnding w es with
    | some stem, some (stem', e') => if stem'.length < stem.length then some (stem', e') else some (stem, e)
    | some stem, none => some (stem, e)
    | none, r => r

def Ending.fits (e : Ending) (stem : List Char) : Bool :=
  match e.after with
  | none => true
  | some cs => stem.getLast?.any cs.contains

/-- Replaces the longest ending if it lies behind the first `region` letters and fits. -/
def replaceEnding (region : Nat) (es : List Ending) (w : List Char) : List Char :=
  match longestEnding w es with
  | some (stem, e) =>
    if region ≤ stem.length && e.fits stem then stem ++ e.replacement.toList else w
  | none => w

/-- Marks every `y` that begins the word or follows a vowel as a consonant. -/
def markConsonants (before : Option Char) : List Char → List Char
  | [] => []
  | c :: cs =>
    let d := if c = 'y' && before.all isVowel then 'Y' else c
    d :: markConsonants (some d) cs

def unmarkConsonants (w : List Char) : List Char := w.map fun c => if c = 'Y' then 'y' else c

def prepare (w : List Char) : List Char :=
  markConsonants none (match w with
    | '\'' :: r => r
    | w => w)

/-- What follows the first consonant that comes after a vowel. -/
def behindSyllable (w : List Char) : Option (List Char) :=
  match (w.dropWhile fun c => !isVowel c).dropWhile isVowel with
  | [] => none
  | _ :: r => some r

/-- Beginnings that count as the first syllable as they are. -/
def firstSyllables : List String := ["gener", "commun", "arsen"]

def firstRegionRest (w : List Char) : Option (List Char) :=
  (firstSyllables.findSome? fun p => p.toList.isPrefixOf? w).or (behindSyllable w)

/-- The numbers of letters in front of the two regions in which endings are removed. -/
def regions (w : List Char) : Nat × Nat :=
  match firstRegionRest w with
  | none => (w.length, w.length)
  | some r =>
    match behindSyllable r with
    | none => (w.length - r.length, w.length)
    | some r' => (w.length - r.length, w.length - r'.length)

/-- Whether the word ends in a short syllable. -/
def endsShort (w : List Char) : Bool :=
  match w.reverse with
  | c :: v :: d :: _ => !isVowel c && !(['w', 'x', 'Y'].contains c) && isVowel v && !isVowel d
  | [c, v] => !isVowel c && isVowel v
  | _ => false

def possessives : List Ending := [⟨"'", "", none⟩, ⟨"'s", "", none⟩, ⟨"'s'", "", none⟩]

def pluralEndings : List Ending := [⟨"sses", "ss", none⟩, ⟨"ied", "", none⟩, ⟨"ies", "", none⟩,
  ⟨"s", "", none⟩, ⟨"us", "us", none⟩, ⟨"ss", "ss", none⟩]

def dropPlural (w : List Char) : List Char :=
  match longestEnding w pluralEndings with
  | some (stem, e) =>
    if e.text = "ied" || e.text = "ies" then
      if 2 ≤ stem.length then stem ++ ['i'] else stem ++ ['i', 'e']
    else if e.text = "s" then
      if stem.dropLast.any isVowel then stem else w
    else stem ++ e.replacement.toList
  | none => w

def verbEndings : List Ending := [⟨"eed", "ee", none⟩, ⟨"eedly", "ee", none⟩, ⟨"ed", "", none⟩,
  ⟨"edly", "", none⟩, ⟨"ing", "", none⟩, ⟨"ingly", "", none⟩]

def doubled : List Char := ['b', 'd', 'f', 'g', 'm', 'n', 'p', 'r', 't']

/-- Mends a stem from which `ed` or `ing` was dropped. -/
def mend (region : Nat) (w : List Char) : List Char :=
  if ["at", "bl", "iz"].any fun e => e.toList.isSuffixOf w then w ++ ['e']
  else if doubled.any fun c => [c, c].isSuffixOf w then w.dropLast
  else if w.length = region && endsShort w then w ++ ['e']
  else w

def dropVerbEnding (region : Nat) (w : List Char) : List Char :=
  match longestEnding w verbEndings with
  | some (stem, e) =>
    if e.replacement = "ee" then
      if region ≤ stem.length then stem ++ ['e', 'e'] else w
    else if stem.any isVowel then mend region stem
    else w
  | none => w

def yToI (w : List Char) : List Char :=
  match w.reverse with
  | c :: d :: r =>
    if (c = 'y' || c = 'Y') && !isVowel d && r ≠ [] then ('i' :: d :: r).reverse else w
  | _ => w

def suffixes2 : List Ending := [
  ⟨"tional", "tion", none⟩, ⟨"enci", "ence", none⟩, ⟨"anci", "ance", none⟩, ⟨"abli", "able", none⟩,
  ⟨"entli", "ent", none⟩, ⟨"izer", "ize", none⟩, ⟨"ization", "ize", none⟩, ⟨"ational", "ate", none⟩,
  ⟨"ation", "ate", none⟩, ⟨"ator", "ate", none⟩, ⟨"alism", "al", none⟩, ⟨"aliti", "al", none⟩,
  ⟨"alli", "al", none⟩, ⟨"fulness", "ful", none⟩, ⟨"ousli", "ous", none⟩, ⟨"ousness", "ous", none⟩,
  ⟨"iveness", "ive", none⟩, ⟨"iviti", "ive", none⟩, ⟨"biliti", "ble", none⟩, ⟨"bli", "ble", none⟩,
  ⟨"ogi", "og", some ['l']⟩, ⟨"fulli", "ful", none⟩, ⟨"lessli", "less", none⟩,
  ⟨"li", "", some ['c', 'd', 'e', 'g', 'h', 'k', 'm', 'n', 'r', 't']⟩]

def suffixes3 : List Ending := [
  ⟨"tional", "tion", none⟩, ⟨"ational", "ate", none⟩, ⟨"alize", "al", none⟩, ⟨"icate", "ic", none⟩,
  ⟨"iciti", "ic", none⟩, ⟨"ical", "ic", none⟩, ⟨"ful", "", none⟩, ⟨"ness", "", none⟩,
  ⟨"ative", "", none⟩]

def shorten (r1 r2 : Nat) (w : List Char) : List Char :=
  match longestEnding w suffixes3 with
  | some (stem, e) =>
    if r1 ≤ stem.length && (e.text ≠ "ative" || r2 ≤ stem.length) then stem ++ e.replacement.toList
    else w
  | none => w

def suffixes4 : List Ending := [
  ⟨"al", "", none⟩, ⟨"ance", "", none⟩, ⟨"ence", "", none⟩, ⟨"er", "", none⟩, ⟨"ic", "", none⟩,
  ⟨"able", "", none⟩, ⟨"ible", "", none⟩, ⟨"ant", "", none⟩, ⟨"ement", "", none⟩, ⟨"ment", "", none⟩,
  ⟨"ent", "", none⟩, ⟨"ism", "", none⟩, ⟨"ate", "", none⟩, ⟨"iti", "", none⟩, ⟨"ous", "", none⟩,
  ⟨"ive", "", none⟩, ⟨"ize", "", none⟩, ⟨"ion", "", some ['s', 't']⟩]

def dropFinal (r1 r2 : Nat) (w : List Char) : List Char :=
  match w.reverse with
  | 'e' :: r =>
    if r2 ≤ r.length || (r1 ≤ r.length && !endsShort r.reverse) then r.reverse else w
  | 'l' :: r => if r2 ≤ r.length && r.head? = some 'l' then r.reverse else w
  | _ => w

/-- Words whose stem is listed. -/
def irregular : List (String × String) := [
  ("skis", "ski"), ("skies", "sky"), ("dying", "die"), ("lying", "lie"), ("tying", "tie"),
  ("idly", "idl"), ("gently", "gentl"), ("ugly", "ugli"), ("early", "earli"), ("only", "onli"),
  ("singly", "singl"), ("sky", "sky"), ("news", "news"), ("howe", "howe"), ("atlas", "atlas"),
  ("cosmos", "cosmos"), ("bias", "bias"), ("andes", "andes")]

/-- Words that stay as they are once their plural is dropped. -/
def invariants : List String := ["inning", "outing", "canning", "herring", "earring", "proceed",
  "exceed", "succeed"]

def reduce (w : List Char) : List Char :=
  let w := prepare w
  let (r1, r2) := regions w
  let w := dropPlural (replaceEnding 0 possessives w)
  let w :=
    if invariants.any fun i => i.toList = w then w
    else
      let w := yToI (dropVerbEnding r1 w)
      let w := shorten r1 r2 (replaceEnding r1 suffixes2 w)
      dropFinal r1 r2 (replaceEnding r2 suffixes4 w)
  unmarkConsonants w

/-- The stem of a lowercase word as the English Snowball stemmer gives it. -/
def english (w : String) : String :=
  match irregular.lookup w with
  | some s => s
  | none => if w.length < 3 then w else String.ofList (reduce w.toList)

/-- A way to bring a token to its stem. -/
abbrev Stemmer := String → String

def plain : Stemmer := id

def snowball : Stemmer := fun token => english (Text.lowerEach token)

def Stemmer.ofSetting (enabled : Bool) : Stemmer := if enabled then snowball else plain

end SoftwareCatalog.Stem
