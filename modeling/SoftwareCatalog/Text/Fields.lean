import SoftwareCatalog.Text.Blank

namespace SoftwareCatalog.Text

/-- The pieces of `s` between the separators, also the empty ones. -/
def fields (sep : Char) (s : String) : List String :=
  (s.toList.splitOn sep).map String.ofList

/-- The text before the first `sep` and the text after it. -/
def breakAt (sep : Char) : List Char → Option (List Char × List Char)
  | [] => none
  | c :: cs =>
    if c = sep then some ([], cs) else (breakAt sep cs).map fun r => (c :: r.1, r.2)

def cut? (sep : Char) (s : String) : Option (String × String) :=
  (breakAt sep s.toList).map fun r => (String.ofList r.1, String.ofList r.2)

theorem breakAt_eq_none {sep : Char} {cs : List Char} : breakAt sep cs = none ↔ sep ∉ cs := by
  induction cs with
  | nil => simp [breakAt]
  | cons c cs ih =>
    by_cases h : c = sep
    · simp [breakAt, h]
    · simp [breakAt, h, ih, Ne.symm h]

theorem eq_of_breakAt {sep : Char} {cs a b : List Char} (h : breakAt sep cs = some (a, b)) :
    cs = a ++ sep :: b ∧ sep ∉ a := by
  induction cs generalizing a with
  | nil => simp [breakAt] at h
  | cons c cs ih =>
    by_cases hc : c = sep
    · simp only [breakAt, hc, if_true, Option.some.injEq, Prod.mk.injEq] at h
      obtain ⟨rfl, rfl⟩ := h
      simp [hc]
    · simp only [breakAt, hc, if_false, Option.map_eq_some_iff] at h
      obtain ⟨⟨a', b'⟩, h', he⟩ := h
      simp only [Prod.mk.injEq] at he
      obtain ⟨rfl, rfl⟩ := he
      obtain ⟨rfl, hn⟩ := ih h'
      exact ⟨rfl, by simp [hn, Ne.symm hc]⟩

def startsWith (s start : String) : Bool :=
  start.toList.isPrefixOf s.toList

def endsWith (s ending : String) : Bool :=
  ending.toList.isSuffixOf s.toList

/-- What is left of `s` without `ending` at its end. -/
def dropEnding? (s ending : String) : Option String :=
  (ending.toList.isSuffixOf? s.toList).map String.ofList

def dropStart? (s start : String) : Option String :=
  (start.toList.isPrefixOf? s.toList).map String.ofList

/-- The value itself, unless it is empty. -/
def nonEmpty? (s : String) : Option String :=
  if s = "" then none else some s

/-- The pieces between blanks, without empty ones. -/
def blankFields (s : String) : List String :=
  ((s.toList.splitOnP isBlank).filter (· ≠ [])).map String.ofList

/-- The lines of a text; a line feed at the end of the text opens no further line. -/
def lines (s : String) : List (List Char) :=
  let ls := s.toList.splitOn '\n'
  match ls.getLast? with
  | some [] => ls.dropLast
  | _ => ls

end SoftwareCatalog.Text
