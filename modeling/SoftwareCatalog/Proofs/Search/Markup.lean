import SoftwareCatalog.Proofs.Search.WordCount
import SoftwareCatalog.Proofs.Xml.Content
import SoftwareCatalog.Proofs.Xml.Escape

namespace SoftwareCatalog

open Text

namespace Search

open Xml

/-- The name of a reference is a word more; the character that it stands for separates words. -/
theorem wordsOf_referred {c : Char} (h : isReferred c = true) (a b b' : List Char) :
    (wordsOf (a ++ folded (escapeChar c) ++ b)).length =
        (wordsOf a).length + 1 + (wordsOf b).length ∧
      (wordsOf (a ++ folded [c] ++ b')).length = (wordsOf a).length + (wordsOf b').length := by
  have hname : ∃ name, folded (escapeChar c) = '&' :: name ++ [';'] ∧
      (wordsOf name).length = 1 ∧ folded [c] = [c] ∧ isSeparator c = true := by
    rcases isReferred_cases h with rfl | rfl | rfl | rfl | rfl
    · exact ⟨"lt".toList, by decide +kernel, by decide +kernel, by decide +kernel, by decide⟩
    · exact ⟨"gt".toList, by decide +kernel, by decide +kernel, by decide +kernel, by decide⟩
    · exact ⟨"amp".toList, by decide +kernel, by decide +kernel, by decide +kernel, by decide⟩
    · exact ⟨"apos".toList, by decide +kernel, by decide +kernel, by decide +kernel, by decide⟩
    · exact ⟨"quot".toList, by decide +kernel, by decide +kernel, by decide +kernel, by decide⟩
  obtain ⟨name, hescaped, hone, hsame, hseparator⟩ := hname
  have hopen : isSeparator '&' = true := by decide
  have hclose : isSeparator ';' = true := by decide
  constructor
  · have hsplit : a ++ ('&' :: name ++ [';']) ++ b = a ++ '&' :: (name ++ ';' :: b) := by simp
    rw [hescaped, hsplit, wordsOf_append_separator _ hopen, wordsOf_append_separator _ hclose,
      List.length_append, List.length_append, hone]
    omega
  · rw [hsame, List.append_assoc, List.singleton_append, wordsOf_append_separator _ hseparator,
      List.length_append]

theorem folded_append (a b : List Char) : folded (a ++ b) = folded a ++ folded b :=
  List.flatMap_append

theorem folded_cons (c : Char) (cs : List Char) : folded (c :: cs) = folded [c] ++ folded cs :=
  folded_append [c] cs

/-- Each reference in a text adds a word. -/
theorem length_textWords_escape (cs : List Char) :
    (textWords (escape cs)).length = (textWords cs).length + cs.countP isReferred := by
  have hgeneral (a cs : List Char) : (wordsOf (a ++ folded (escape cs))).length =
      (wordsOf (a ++ folded cs)).length + cs.countP isReferred := by
    induction cs generalizing a with
    | nil => rfl
    | cons c cs ih =>
      rw [escape_cons, folded_append, folded_cons c cs, ← List.append_assoc, ← List.append_assoc]
      cases hreferred : isReferred c with
      | true =>
        obtain ⟨hescaped, hsame⟩ :=
          wordsOf_referred hreferred a (folded (escape cs)) (folded cs)
        have hrest := ih []
        rw [List.nil_append, List.nil_append] at hrest
        rw [hescaped, hsame, List.countP_cons_of_pos hreferred, hrest]
        omega
      | false =>
        rw [escapeChar_of_not hreferred, ih, List.countP_cons_of_neg (by simp [hreferred])]
  rw [length_textWords, length_textWords]
  exact hgeneral [] cs

/-- Whether a text that begins within a tag, or outside of tags, ends within one. -/
def endsInTag (inTag : Bool) : List Char → Bool
  | [] => inTag
  | c :: cs => endsInTag (c = '<' || (inTag && c ≠ '>')) cs

theorem endsInTag_append (inTag : Bool) (a b : List Char) :
    endsInTag inTag (a ++ b) = endsInTag (endsInTag inTag a) b := by
  induction a generalizing inTag with
  | nil => rfl
  | cons c a ih => exact ih _

theorem endsInTag_concat (inTag : Bool) (a : List Char) : endsInTag inTag (a ++ ['>']) = false := by
  rw [endsInTag_append]
  simp [endsInTag]

theorem stripTags_append (inTag : Bool) (a b : List Char) :
    stripTags inTag (a ++ b) = stripTags inTag a ++ stripTags (endsInTag inTag a) b := by
  induction a generalizing inTag with
  | nil => rfl
  | cons c a ih =>
    by_cases hopen : c = '<'
    · simp [stripTags, endsInTag, hopen, ih]
    · cases inTag with
      | true => simp [stripTags, endsInTag, hopen, ih]
      | false => simp [stripTags, endsInTag, hopen, ih]

theorem stripTags_of_not_mem {cs : List Char} (h : '<' ∉ cs) :
    stripTags false cs = cs ∧ endsInTag false cs = false := by
  induction cs with
  | nil => exact ⟨rfl, rfl⟩
  | cons c cs ih =>
    obtain ⟨hne, hrest⟩ := List.ne_and_not_mem_of_not_mem_cons h
    obtain ⟨hstrip, hends⟩ := ih hrest
    simp [stripTags, endsInTag, hne.symm, hstrip, hends]

/-- Within a tag all is dropped, but for a blank for each tag that opens there. -/
theorem stripTags_of_endsInTag {inTag : Bool} {cs : List Char} (h : endsInTag inTag cs = true) :
    stripTags inTag cs = [] ∨ ∃ a, stripTags inTag cs = a ++ [' '] := by
  induction cs using List.reverseRecOn with
  | nil => exact .inl rfl
  | append_singleton cs c ih =>
    rw [stripTags_append]
    rw [endsInTag_append] at h
    by_cases hopen : c = '<'
    · exact .inr ⟨stripTags inTag cs, by simp [stripTags, hopen]⟩
    · have hbefore : endsInTag inTag cs = true := by
        simp [endsInTag, hopen] at h
        exact h.1
      simpa [stripTags, hbefore, hopen] using ih hbefore

/-- What is left of a tag with a name: nothing, but for a name that has the end of a tag in it. -/
def leftOfTag (name : String) : List Char := stripTags true (name.toList ++ ['>'])

theorem closes_leftOfTag (name : String) : Closes (leftOfTag name) := by
  unfold leftOfTag
  rw [stripTags_append]
  cases hends : endsInTag true name.toList with
  | true =>
    have hnone : stripTags true ['>'] = [] := rfl
    rw [hnone, List.append_nil]
    rcases stripTags_of_endsInTag hends with hempty | ⟨a, ha⟩
    · rw [hempty]
      exact closes_nil
    · rw [ha]
      exact (isBoundary_of_isBlank rfl).closes a
  | false => exact isBoundary_close.closes _

/-- The markup of a content without its tags. -/
def stripped (content : List Node) : List Char := stripTags false (Node.writeAll content)

theorem write_element (name : String) (attrs : List Xml.Attribute) (content : List Node) :
    (Node.element name attrs content).write = '<' :: (name.toList ++ ['>']) ++
      Node.writeAll content ++ '<' :: '/' :: (name.toList ++ ['>']) := by
  simp [Node.write]

theorem endsInTag_write (n : Node) : endsInTag false n.write = false := by
  cases n with
  | text cs =>
    unfold Node.write
    split
    · rfl
    · exact (stripTags_of_not_mem (not_mem_escape cs)).2
  | element name attrs content =>
    rw [Node.write]
    exact endsInTag_concat false _

theorem stripped_cons (n : Node) (content : List Node) :
    stripped (n :: content) = stripTags false n.write ++ stripped content := by
  unfold stripped
  rw [Node.writeAll, stripTags_append, endsInTag_write]

theorem endsInTag_writeAll (content : List Node) :
    endsInTag false (Node.writeAll content) = false := by
  induction content with
  | nil => rfl
  | cons n content ih => rw [Node.writeAll, endsInTag_append, endsInTag_write, ih]

theorem stripTags_write_element (name : String) (attrs : List Xml.Attribute)
    (content : List Node) : stripTags false (Node.element name attrs content).write =
      ([' '] ++ leftOfTag name) ++ (stripped content ++ [' ']) ++ leftOfTag name := by
  have hinner : endsInTag false ('<' :: (name.toList ++ ['>'])) = false :=
    endsInTag_concat true name.toList
  have htag : stripTags false ('<' :: (name.toList ++ ['>'])) = [' '] ++ leftOfTag name := rfl
  have hend : stripTags false ('<' :: '/' :: (name.toList ++ ['>'])) =
      [' '] ++ leftOfTag name := rfl
  rw [write_element, stripTags_append, stripTags_append, endsInTag_append, hinner,
    endsInTag_writeAll, htag, hend]
  simp [stripped]

theorem closes_element (name : String) (attrs : List Xml.Attribute) (content : List Node) :
    Closes (stripTags false (Node.element name attrs content).write) := by
  have hblank : IsBoundary ' ' := isBoundary_of_isBlank rfl
  rw [stripTags_write_element]
  exact ((hblank.closes []).append (closes_leftOfTag name)).append (hblank.closes _) |>.append
    (closes_leftOfTag name)

mutual

/-- The words that the markup of a node has without its tags. -/
def markupWords : Node → List (List Char)
  | .text cs => textWords (escape cs)
  | .element name _ content =>
    textWords (leftOfTag name) ++ markupWordsAll content ++ textWords (leftOfTag name)

def markupWordsAll : List Node → List (List Char)
  | [] => []
  | n :: ns => markupWords n ++ markupWordsAll ns

end

/-- Text ends where an element begins. -/
theorem textWords_append_stripped (a : List Char) {content : List Node}
    (h : ∀ n ∈ content.head?, n.isElement = true) :
    textWords (a ++ stripped content) = textWords a ++ textWords (stripped content) := by
  cases content with
  | nil =>
    have hempty : stripped [] = [] := rfl
    rw [hempty, List.append_nil, textWords_nil, List.append_nil]
  | cons n content =>
    cases n with
    | text cs => cases h _ rfl
    | element name attrs inner =>
      have hblank : IsBoundary ' ' := isBoundary_of_isBlank rfl
      obtain ⟨r, hr⟩ : ∃ r, stripped (.element name attrs inner :: content) = ' ' :: r := by
        rw [stripped_cons, stripTags_write_element]
        exact ⟨_, rfl⟩
      rw [hr, hblank.textWords_append, hblank.textWords_cons]

mutual

theorem textWords_write (n : Node) (h : n.Merged) :
    textWords (stripTags false n.write) = markupWords n := by
  cases n with
  | text cs =>
    rw [markupWords, Node.write]
    split
    · rename_i hblank
      have hblank' : ∀ c ∈ cs, isBlank c = true := List.all_eq_true.1 hblank
      have hnone := textWords_of_blank hblank' []
      rw [List.append_nil] at hnone
      rw [escape_of_not fun c hc => isReferred_of_isBlank (hblank' c hc), hnone]
      rfl
    · rw [(stripTags_of_not_mem (not_mem_escape cs)).1]
  | element name attrs content =>
    have hblank : IsBoundary ' ' := isBoundary_of_isBlank rfl
    have hinner := textWords_stripped content (.of_merged h)
    have hleft := closes_leftOfTag name
    have hopen : textWords ([' '] ++ leftOfTag name) = textWords (leftOfTag name) :=
      hblank.textWords_cons _
    have hfront : Closes ([' '] ++ leftOfTag name) := (hblank.closes []).append hleft
    rw [markupWords, stripTags_write_element, hfront.append (hblank.closes (stripped content)),
      hfront, hopen, hblank.textWords_concat, hinner]

theorem textWords_stripped (content : List Node) (h : MergedContent content) :
    textWords (stripped content) = markupWordsAll content := by
  cases content with
  | nil => rfl
  | cons n content =>
    have hfirst := textWords_write n (h.merged n List.mem_cons_self)
    have hrest := textWords_stripped content h.tail
    rw [markupWordsAll, ← hfirst, ← hrest, stripped_cons]
    cases n with
    | element name attrs inner => exact closes_element name attrs inner _
    | text cs => exact textWords_append_stripped _ h.element_behind_text

end

theorem endsInTag_of_blank {cs : List Char} (h : ∀ c ∈ cs, isBlank c = true) (inTag : Bool) :
    endsInTag inTag cs = inTag := by
  induction cs with
  | nil => rfl
  | cons c cs ih =>
    have hc := h c List.mem_cons_self
    have hopen : c ≠ '<' := by
      rintro rfl
      cases hc
    have hclose : c ≠ '>' := by
      rintro rfl
      cases hc
    simpa [endsInTag, hopen, hclose] using ih fun d hd => h d (List.mem_cons_of_mem c hd)

/-- White space around markup does not matter for its words. -/
theorem splitWords_stripMarkup {n : Node} (h : n.Merged) : splitWords (stripMarkup n.markup) =
    (markupWordsAll n.content).map String.ofList := by
  obtain ⟨before, after, hall, hbefore, hafter⟩ :=
    exists_trimList isBlank (Node.writeAll n.content)
  have hblank {cs : List Char} (hcs : ∀ c ∈ cs, isBlank c = true) : stripTags false cs = cs :=
    (stripTags_of_not_mem fun hmem => nomatch hcs _ hmem).1
  have hends := endsInTag_writeAll n.content
  rw [hall, endsInTag_append, endsInTag_of_blank hafter] at hends
  have hinner := textWords_stripped n.content (.of_merged h)
  unfold stripped at hinner
  rw [hall, stripTags_append, stripTags_append, hends, hblank hbefore, hblank hafter,
    endsInTag_of_blank hbefore, textWords_append_of_blank _ hafter,
    textWords_of_blank hbefore] at hinner
  rw [stripMarkup, Node.markup, String.toList_ofList, splitWords_eq_textWords, hinner]

mutual

/-- How many words markup has more than its text. -/
def excess : Node → Nat
  | .text cs => cs.countP isReferred
  | .element name _ content =>
    (textWords (leftOfTag name)).length + excessAll content + (textWords (leftOfTag name)).length

def excessAll : List Node → Nat
  | [] => 0
  | n :: ns => excess n + excessAll ns

end

mutual

theorem length_markupWords (n : Node) :
    (markupWords n).length = (n.texts.flatMap splitWords).length + excess n := by
  cases n with
  | text cs =>
    rw [markupWords, Node.texts, excess, length_textWords_escape, List.flatMap_singleton,
      splitWords_eq_textWords, List.length_map]
  | element name attrs content =>
    have hinner := length_markupWordsAll content
    rw [markupWords, Node.texts, excess, List.length_append, List.length_append, hinner]
    omega

theorem length_markupWordsAll (content : List Node) : (markupWordsAll content).length =
    ((Node.textsAll content).flatMap splitWords).length + excessAll content := by
  cases content with
  | nil => rfl
  | cons n content =>
    have hfirst := length_markupWords n
    have hrest := length_markupWordsAll content
    rw [markupWordsAll, Node.textsAll, excessAll, List.length_append, List.flatMap_append,
      List.length_append, hfirst, hrest]
    omega

end

mutual

theorem markupWords_eq (n : Node) (h : excess n = 0) :
    (markupWords n).map String.ofList = n.texts.flatMap splitWords := by
  cases n with
  | text cs =>
    have hnone : ∀ c ∈ cs, isReferred c = false := by
      rw [excess, List.countP_eq_zero] at h
      simpa using h
    rw [markupWords, Node.texts, List.flatMap_singleton, splitWords_eq_textWords,
      escape_of_not hnone]
  | element name attrs content =>
    rw [excess] at h
    have hleft : textWords (leftOfTag name) = [] := List.eq_nil_of_length_eq_zero (by omega)
    rw [markupWords, Node.texts, hleft, List.nil_append, List.append_nil]
    exact markupWordsAll_eq content (by omega)

theorem markupWordsAll_eq (content : List Node) (h : excessAll content = 0) :
    (markupWordsAll content).map String.ofList = (Node.textsAll content).flatMap splitWords := by
  cases content with
  | nil => rfl
  | cons n content =>
    rw [excessAll] at h
    rw [markupWordsAll, Node.textsAll, List.map_append, List.flatMap_append,
      markupWords_eq n (by omega), markupWordsAll_eq content (by omega)]

end

theorem markupWordsAll_eq_iff (content : List Node) :
    (markupWordsAll content).map String.ofList = (Node.textsAll content).flatMap splitWords ↔
      excessAll content = 0 := by
  constructor
  · intro heq
    have hlength := congrArg List.length heq
    rw [List.length_map, length_markupWordsAll] at hlength
    omega
  · exact markupWordsAll_eq content

/-- No reference is needed to write a text, and no word of a tag is left. -/
def Plain : Node → Prop
  | .text cs => ∀ c ∈ cs, isReferred c = false
  | .element name _ _ => splitWords (String.ofList (leftOfTag name)) = []

theorem plain_of_excess {n : Node} (h : excess n = 0) : Plain n := by
  cases n with
  | text cs =>
    rw [excess, List.countP_eq_zero] at h
    simpa [Plain] using h
  | element name attrs content =>
    rw [excess] at h
    have hleft : textWords (leftOfTag name) = [] := List.eq_nil_of_length_eq_zero (by omega)
    change splitWords (String.ofList (leftOfTag name)) = []
    rw [splitWords_eq_textWords, hleft, List.map_nil]

theorem excess_content {n : Node} (h : excess n = 0) : excessAll n.content = 0 := by
  cases n with
  | text cs => rfl
  | element name attrs content =>
    rw [excess] at h
    change excessAll content = 0
    omega

theorem excess_of_mem {n : Node} {content : List Node} (h : excessAll content = 0)
    (hn : n ∈ content) : excess n = 0 := by
  induction content with
  | nil => exact absurd hn List.not_mem_nil
  | cons m content ih =>
    rw [excessAll] at h
    rcases List.mem_cons.1 hn with rfl | hn
    · omega
    · exact ih (by omega) hn

theorem plain_of_excessAll {n : Node} {content : List Node} (h : excessAll content = 0)
    (hn : n.Within content) : Plain n := by
  induction hn with
  | here hn => exact plain_of_excess (excess_of_mem h hn)
  | inside hm _ ih => exact ih (excess_content (excess_of_mem h hm))

mutual

theorem excess_of_plain (n : Node) (h : Plain n) (hall : ∀ m : Node, m.Within n.content → Plain m) :
    excess n = 0 := by
  cases n with
  | text cs =>
    rw [excess, List.countP_eq_zero]
    simpa [Plain] using h
  | element name attrs content =>
    have hleft : textWords (leftOfTag name) = [] := by
      have hnone : splitWords (String.ofList (leftOfTag name)) = [] := h
      rwa [splitWords_eq_textWords, List.map_eq_nil_iff] at hnone
    rw [excess, hleft, excessAll_of_plain content hall]
    rfl

theorem excessAll_of_plain (content : List Node) (h : ∀ m : Node, m.Within content → Plain m) :
    excessAll content = 0 := by
  cases content with
  | nil => rfl
  | cons n content =>
    have hfirst := excess_of_plain n (h n (.here List.mem_cons_self)) fun m hm =>
      h m (.inside List.mem_cons_self hm)
    have hrest := excessAll_of_plain content fun m hm =>
      h m (Node.within_of_subset hm (List.subset_cons_self n content))
    rw [excessAll, hfirst, hrest]

end

/-- Of a document that was read, the markup of an element has the words of its text, none more and
none less, if and only if no text in it needs a reference to be written and no tag in it leaves
words. -/
theorem markup_words_exact_iff {text : String} {d : Document} (hd : Document.parse text = .ok d)
    {n : Node} (hn : n.Within d.content) (helement : n.isElement = true) :
    splitWords (stripMarkup n.markup) = n.texts.flatMap splitWords ↔
      (∀ cs, (Node.text cs).Within n.content → ∀ c ∈ cs, isReferred c = false) ∧
      (∀ name attrs inner, (Node.element name attrs inner).Within n.content →
        splitWords (String.ofList (leftOfTag name)) = []) := by
  have hmerged := (mergedContent_of_parse hd).within hn
  have htexts : n.texts = Node.textsAll n.content := by
    cases n with
    | text cs => cases helement
    | element name attrs content => rw [Node.texts, Node.content]
  rw [splitWords_stripMarkup hmerged, htexts, markupWordsAll_eq_iff]
  constructor
  · intro h
    exact ⟨fun _ hcs => plain_of_excessAll h hcs, fun _ _ _ he => plain_of_excessAll h he⟩
  · intro h
    obtain ⟨htext, htag⟩ := h
    apply excessAll_of_plain
    intro m hm
    cases m with
    | text cs => exact htext cs hm
    | element name attrs inner => exact htag name attrs inner hm

/-- What a description with an inline element is read as. -/
def editor : Node :=
  .element "description" [] [.element "p" [] [.text "Edit ".toList, .element "em" []
    [.text "images".toList]]]

theorem editor_plain :
    Document.parse "<description><p>Edit <em>images</em></p></description>" =
        .ok ⟨[editor], false⟩ ∧
      ∀ cs, (Node.text cs).Within editor.content → ∀ c ∈ cs, isReferred c = false := by
  have hread : Document.parse "<description><p>Edit <em>images</em></p></description>" =
      .ok ⟨[editor], false⟩ :=
    Document.parse_eq_ok_iff.2 ⟨[.openTag "description" [], .openTag "p" [],
      .text "Edit ".toList, .openTag "em" [], .text "images".toList, .closeTag "em",
      .closeTag "p", .closeTag "description"], by decide +kernel, rfl⟩
  have hwords : splitWords (stripMarkup editor.markup) = editor.texts.flatMap splitWords := by
    decide +kernel
  refine ⟨hread, ?_⟩
  exact ((markup_words_exact_iff hread (.here List.mem_cons_self) rfl).1 hwords).1

/-- What a description with an ampersand is read as. -/
def company : Node := .element "description" [] [.element "p" [] [.text "AT&T".toList]]

/-- The name of a reference is searched for as if it were a word. -/
theorem reference_among_words :
    Document.parse "<description><p>AT&amp;T</p></description>" = .ok ⟨[company], false⟩ ∧
      company.texts.flatMap splitWords = ["at", "t"] ∧
      splitWords (stripMarkup company.markup) = ["at", "amp", "t"] := by
  have hread : Document.parse "<description><p>AT&amp;T</p></description>" =
      .ok ⟨[company], false⟩ :=
    Document.parse_eq_ok_iff.2 ⟨[.openTag "description" [], .openTag "p" [],
      .text "AT&T".toList, .closeTag "p", .closeTag "description"], by decide +kernel, rfl⟩
  exact ⟨hread, by decide +kernel, by decide +kernel⟩

end Search

end SoftwareCatalog
