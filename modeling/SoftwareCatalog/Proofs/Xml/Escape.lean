import SoftwareCatalog.Text.Blank
import SoftwareCatalog.Xml.Escape

namespace SoftwareCatalog.Xml

open Text

/-- The characters that have a meaning in markup. -/
def isReferred (c : Char) : Bool := ['<', '>', '&', '\'', '"'].contains c

theorem escapeChar_of_not {c : Char} (h : isReferred c = false) : escapeChar c = [c] := by
  simp [isReferred] at h
  simp [escapeChar, h]

theorem escape_cons (c : Char) (cs : List Char) : escape (c :: cs) = escapeChar c ++ escape cs :=
  rfl

theorem escape_of_not {cs : List Char} (h : ∀ c ∈ cs, isReferred c = false) : escape cs = cs := by
  induction cs with
  | nil => rfl
  | cons c cs ih =>
    rw [escape_cons, escapeChar_of_not (h c List.mem_cons_self),
      ih fun d hd => h d (List.mem_cons_of_mem c hd), List.singleton_append]

theorem isReferred_cases {c : Char} (h : isReferred c = true) :
    c = '<' ∨ c = '>' ∨ c = '&' ∨ c = '\'' ∨ c = '"' := by
  simpa [isReferred] using h

theorem isReferred_of_isBlank {c : Char} (h : isBlank c = true) : isReferred c = false := by
  rw [Bool.eq_false_iff]
  intro hreferred
  rcases isReferred_cases hreferred with rfl | rfl | rfl | rfl | rfl <;> cases h

theorem not_mem_escape (cs : List Char) : '<' ∉ escape cs := by
  intro h
  obtain ⟨c, -, hc⟩ := List.mem_flatMap.1 h
  cases hreferred : isReferred c with
  | true =>
    rcases isReferred_cases hreferred with rfl | rfl | rfl | rfl | rfl <;> revert hc <;> decide
  | false =>
    rw [escapeChar_of_not hreferred, List.mem_singleton] at hc
    rw [← hc] at hreferred
    cases hreferred

theorem escape_append (a b : List Char) : escape (a ++ b) = escape a ++ escape b :=
  List.flatMap_append

/-- What a character is written as begins and ends with the character itself, or with what begins
and ends a reference. -/
theorem escapeChar_cases (c : Char) :
    escapeChar c = [c] ∨ ∃ name, escapeChar c = '&' :: name ++ [';'] := by
  cases hreferred : isReferred c with
  | true =>
    right
    rcases isReferred_cases hreferred with rfl | rfl | rfl | rfl | rfl
    · exact ⟨"lt".toList, by decide +kernel⟩
    · exact ⟨"gt".toList, by decide +kernel⟩
    · exact ⟨"amp".toList, by decide +kernel⟩
    · exact ⟨"apos".toList, by decide +kernel⟩
    · exact ⟨"quot".toList, by decide +kernel⟩
  | false => exact .inl (escapeChar_of_not hreferred)

theorem all_escape (cs : List Char) : (escape cs).all isBlank = cs.all isBlank := by
  have hchar (c : Char) : (escapeChar c).all isBlank = isBlank c := by
    rcases escapeChar_cases c with heq | ⟨name, heq⟩
    · simp [heq]
    · have hblank : isBlank c = false := by
        rw [Bool.eq_false_iff]
        intro hc
        rw [escapeChar_of_not (isReferred_of_isBlank hc)] at heq
        cases name with
        | nil => cases heq
        | cons d name => cases heq
      rw [hblank, heq]
      rfl
  unfold escape
  rw [List.all_flatMap]
  congr 1
  exact funext hchar

theorem head_escape {cs : List Char} (h : ∀ c ∈ cs.head?, isBlank c = false) :
    ∀ c ∈ (escape cs).head?, isBlank c = false := by
  cases cs with
  | nil => exact h
  | cons c cs =>
    rw [escape_cons]
    rcases escapeChar_cases c with heq | ⟨name, heq⟩
    · rw [heq]
      exact h
    · rw [heq]
      rintro d ⟨⟩
      rfl

theorem last_escape {cs : List Char} (h : ∀ c ∈ cs.getLast?, isBlank c = false) :
    ∀ c ∈ (escape cs).getLast?, isBlank c = false := by
  rcases List.eq_nil_or_concat cs with rfl | ⟨cs, c, rfl⟩
  · exact h
  · rw [List.concat_eq_append] at h ⊢
    have hone : escape [c] = escapeChar c := List.append_nil _
    rw [escape_append, hone]
    rcases escapeChar_cases c with heq | ⟨name, heq⟩
    · rw [heq]
      simpa using h
    · rw [heq, ← List.append_assoc, List.getLast?_concat]
      rintro d ⟨⟩
      rfl

theorem unescape_cons_of_ne {c : Char} (h : c ≠ '&') (cs : List Char) :
    unescape (c :: cs) = (unescape cs).map (c :: ·) := by
  rw [unescape, if_neg h]

theorem unescape_reference {cs name rest : List Char} {c : Char}
    (hname : referenceName cs = some (name, rest)) (hchar : reference name = some c) :
    unescape ('&' :: cs) = (unescape rest).map (c :: ·) := by
  rw [unescape, if_pos rfl]
  split
  · rename_i hnone
    rw [hname] at hnone
    cases hnone
  · rename_i name' rest' hsome
    rw [hname] at hsome
    obtain ⟨rfl, rfl⟩ := Prod.mk.inj (Option.some.inj hsome)
    rw [hchar]

theorem unescape_escapeChar (c : Char) (cs : List Char) :
    unescape (escapeChar c ++ cs) = (unescape cs).map (c :: ·) := by
  cases hreferred : isReferred c with
  | true =>
    rcases isReferred_cases hreferred with rfl | rfl | rfl | rfl | rfl
    · have hname : referenceName ("lt;".toList ++ cs) = some ("lt".toList, cs) := rfl
      exact unescape_reference hname (by decide +kernel)
    · have hname : referenceName ("gt;".toList ++ cs) = some ("gt".toList, cs) := rfl
      exact unescape_reference hname (by decide +kernel)
    · have hname : referenceName ("amp;".toList ++ cs) = some ("amp".toList, cs) := rfl
      exact unescape_reference hname (by decide +kernel)
    · have hname : referenceName ("apos;".toList ++ cs) = some ("apos".toList, cs) := rfl
      exact unescape_reference hname (by decide +kernel)
    · have hname : referenceName ("quot;".toList ++ cs) = some ("quot".toList, cs) := rfl
      exact unescape_reference hname (by decide +kernel)
  | false =>
    have hne : c ≠ '&' := by
      rintro rfl
      cases hreferred
    rw [escapeChar_of_not hreferred, List.singleton_append, unescape_cons_of_ne hne]

theorem unescape_escape (cs : List Char) : unescape (escape cs) = .ok cs := by
  induction cs with
  | nil => rw [escape, List.flatMap_nil, unescape]
  | cons c cs ih => rw [escape_cons, unescape_escapeChar, ih, Except.map]

end SoftwareCatalog.Xml
