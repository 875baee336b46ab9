import SoftwareCatalog.Proofs.Text.Trim
import SoftwareCatalog.Proofs.Xml.Content
import SoftwareCatalog.Proofs.Xml.Escape

namespace SoftwareCatalog.Xml

open Text

/-- The characters that a name may begin with. -/
def isNameStart (c : Char) : Bool :=
  let n := c.toNat
  c = ':' || c = '_' || ('A' ≤ c && c ≤ 'Z') || ('a' ≤ c && c ≤ 'z') || (0xC0 ≤ n && n ≤ 0xD6) ||
    (0xD8 ≤ n && n ≤ 0xF6) || (0xF8 ≤ n && n ≤ 0x2FF) || (0x370 ≤ n && n ≤ 0x37D) ||
    (0x37F ≤ n && n ≤ 0x1FFF) || n = 0x200C || n = 0x200D || (0x2070 ≤ n && n ≤ 0x218F) ||
    (0x2C00 ≤ n && n ≤ 0x2FEF) || (0x3001 ≤ n && n ≤ 0xD7FF) || (0xF900 ≤ n && n ≤ 0xFDCF) ||
    (0xFDF0 ≤ n && n ≤ 0xFFFD) || (0x10000 ≤ n && n ≤ 0xEFFFF)

/-- The characters that a name may have after its first one. -/
def isNameChar (c : Char) : Bool :=
  let n := c.toNat
  isNameStart c || c = '-' || c = '.' || ('0' ≤ c && c ≤ '9') || n = 0xB7 ||
    (0x300 ≤ n && n ≤ 0x36F) || n = 0x203F || n = 0x2040

/-- A name of XML 1.0. -/
def isName (name : String) : Bool :=
  match name.toList with
  | [] => false
  | c :: cs => isNameStart c && cs.all isNameChar

/-- The characters that a tag is taken apart at. -/
def delimiters : List Char := ['<', '>', '/', '!', '?', '"', '\'', ' ', '\t', '\r', '\n']

theorem isNameChar_delimiter : ∀ d ∈ delimiters, isNameChar d = false := by
  have hall : (delimiters.all fun d => !isNameChar d) = true := by decide +kernel
  intro d hd
  simpa using List.all_eq_true.1 hall d hd

theorem isName_cases {name : String} (h : isName name = true) :
    ∃ c cs, name.toList = c :: cs ∧ ∀ d ∈ c :: cs, isNameChar d = true := by
  unfold isName at h
  cases hname : name.toList with
  | nil =>
    rw [hname] at h
    cases h
  | cons c cs =>
    rw [hname] at h
    obtain ⟨hstart, hrest⟩ := Bool.and_eq_true_iff.1 h
    refine ⟨c, cs, rfl, ?_⟩
    intro d hd
    rcases List.mem_cons.1 hd with rfl | hd
    · simp [isNameChar, hstart]
    · exact List.all_eq_true.1 hrest d hd

theorem not_mem_delimiters {name : String} (h : isName name = true) :
    ∀ c ∈ name.toList, c ∉ delimiters := by
  obtain ⟨c, cs, hname, hall⟩ := isName_cases h
  intro d hd hdelimiter
  have hchar := hall d (hname ▸ hd)
  rw [isNameChar_delimiter d hdelimiter] at hchar
  cases hchar

namespace Node

/-- A node without attributes and blank text, whose elements have names, and where no text follows
text, at whatever depth. -/
inductive Legible : Node → Prop
  | text {cs : List Char} (h : cs.all isBlank = false) : Legible (.text cs)
  | element {name : String} {content : List Node} (hname : isName name = true)
    (hapart : content.IsChain Apart) (hall : ∀ n ∈ content, Legible n) :
    Legible (.element name [] content)

mutual

/-- What is written of a node. -/
def kept : Node → List Node
  | .text cs => if cs.all isBlank then [] else [.text cs]
  | .element name _ content => [.element name [] (keptAll content)]

def keptAll : List Node → List Node
  | [] => []
  | n :: ns => kept n ++ keptAll ns

end

theorem writeAll_append (a b : List Node) : writeAll (a ++ b) = writeAll a ++ writeAll b := by
  induction a with
  | nil => rfl
  | cons n a ih => rw [List.cons_append, writeAll, writeAll, ih, List.append_assoc]

theorem writeAll_singleton (n : Node) : writeAll [n] = n.write := by
  rw [writeAll, writeAll, List.append_nil]

mutual

theorem writeAll_kept (n : Node) : writeAll (kept n) = n.write := by
  cases n with
  | text cs =>
    rw [kept, write]
    split
    · rfl
    · rename_i hsolid
      rw [writeAll_singleton, write, if_neg hsolid]
  | element name attrs content =>
    rw [kept, writeAll_singleton, write, write, writeAll_keptAll content]

theorem writeAll_keptAll (content : List Node) : writeAll (keptAll content) = writeAll content := by
  cases content with
  | nil => rfl
  | cons n content =>
    rw [keptAll, writeAll_append, writeAll_kept n, writeAll_keptAll content, writeAll]

end

end Node

/-- A content without attributes and blank text, whose elements have names, and where no text
follows text, at whatever depth. -/
structure LegibleContent (content : List Node) : Prop where
  apart : content.IsChain Node.Apart
  legible : ∀ n ∈ content, n.Legible

namespace LegibleContent

variable {content : List Node} {n : Node}

theorem nil : LegibleContent [] := ⟨.nil, fun _ h => absurd h List.not_mem_nil⟩

theorem element {name : String} (h : LegibleContent content) (hname : isName name = true) :
    (Node.element name [] content).Legible :=
  .element hname h.apart h.legible

theorem cons (h : LegibleContent content) (hn : n.Legible)
    (hhead : ∀ m ∈ content.head?, n.Apart m) : LegibleContent (n :: content) where
  apart := h.apart.cons hhead
  legible m hm := by
    rcases List.mem_cons.1 hm with rfl | hm
    · exact hn
    · exact h.legible m hm

end LegibleContent

theorem Node.head_keptAll {content : List Node} (h : ∀ m ∈ content.head?, m.isElement = true) :
    ∀ m ∈ (keptAll content).head?, m.isElement = true := by
  cases content with
  | nil => exact h
  | cons n content =>
    cases n with
    | text cs => cases h _ rfl
    | element name attrs inner =>
      rw [keptAll, kept]
      rintro m ⟨⟩
      rfl

mutual

theorem legibleContent_kept (n : Node) (h : n.Merged)
    (hnames : ∀ m : Node, m.Within [n] → m.isElement = true → isName m.name = true) :
    LegibleContent n.kept := by
  cases n with
  | text cs =>
    rw [Node.kept]
    split
    · exact .nil
    · rename_i hsolid
      exact LegibleContent.nil.cons (.text (Bool.eq_false_iff.2 hsolid)) nofun
  | element name attrs content =>
    have hinner := legibleContent_keptAll content (.of_merged h) fun m hm =>
      hnames m (.inside List.mem_cons_self hm)
    have hname : isName name = true := hnames _ (.here List.mem_cons_self) rfl
    rw [Node.kept]
    exact LegibleContent.nil.cons (hinner.element hname) nofun

/-- What is written of a content without text that follows text is legible. -/
theorem legibleContent_keptAll (content : List Node) (h : MergedContent content)
    (hnames : ∀ m : Node, m.Within content → m.isElement = true → isName m.name = true) :
    LegibleContent (Node.keptAll content) := by
  cases content with
  | nil => exact .nil
  | cons n content =>
    have hfirst := legibleContent_kept n (h.merged n List.mem_cons_self) fun m hm =>
      hnames m (Node.within_of_subset hm (List.cons_subset_cons n (List.nil_subset content)))
    have hrest := legibleContent_keptAll content h.tail fun m hm =>
      hnames m (Node.within_of_subset hm (List.subset_cons_self n content))
    rw [Node.keptAll]
    cases n with
    | text cs =>
      rw [Node.kept]
      split
      · exact hrest
      · rename_i hsolid
        -- What follows text is an element, and elements are kept.
        have hnext := Node.head_keptAll h.element_behind_text
        exact hrest.cons (.text (Bool.eq_false_iff.2 hsolid)) fun m hm => .inr (hnext m hm)
    | element name attrs inner =>
      rw [Node.kept] at hfirst ⊢
      exact hrest.cons (hfirst.legible _ List.mem_cons_self) fun _ _ => .inl rfl

end

theorem dropWhile_escape (cs : List Char) :
    (escape cs).dropWhile isBlank = escape (cs.dropWhile isBlank) := by
  induction cs with
  | nil => rfl
  | cons c cs ih =>
    cases hc : isBlank c with
    | true =>
      rw [escape_cons, escapeChar_of_not (isReferred_of_isBlank hc), List.singleton_append,
        List.dropWhile_cons_of_pos hc, List.dropWhile_cons_of_pos hc, ih]
    | false =>
      have hsolid : ∀ d ∈ (c :: cs).head?, isBlank d = false := by
        rintro d ⟨⟩
        exact hc
      rw [dropWhile_of_head hsolid, dropWhile_of_head (head_escape hsolid)]

theorem trimEndList_escape (cs : List Char) :
    trimEndList isBlank (escape cs) = escape (trimEndList isBlank cs) := by
  induction cs using List.reverseRecOn with
  | nil => rfl
  | append_singleton cs c ih =>
    cases hc : isBlank c with
    | true =>
      have hone : escape [c] = [c] := escape_of_not (by simpa using isReferred_of_isBlank hc)
      rw [escape_append, hone, trimEndList_concat_of hc, trimEndList_concat_of hc, ih]
    | false =>
      have hsolid : ∀ d ∈ (cs ++ [c]).getLast?, isBlank d = false := by
        rw [List.getLast?_concat]
        rintro d ⟨⟩
        exact hc
      rw [trimEndList_of_last hsolid, trimEndList_of_last (last_escape hsolid)]

namespace LegibleContent

variable {content : List Node}

/-- The text at the front of a legible content has what is not white space. -/
theorem exists_dropWhile (h : LegibleContent content) : ∃ trimmed, LegibleContent trimmed ∧
    Node.writeAll trimmed = (Node.writeAll content).dropWhile isBlank := by
  cases content with
  | nil => exact ⟨[], .nil, rfl⟩
  | cons n content =>
    cases h.legible n List.mem_cons_self with
    | @text cs hsolid =>
      have hkept : (cs.dropWhile isBlank).all isBlank = false := (all_dropWhile _ _).trans hsolid
      have hescaped : (escape cs).all isBlank = false := (all_escape cs).trans hsolid
      obtain ⟨hhead, hrest⟩ := List.isChain_cons.1 h.apart
      refine ⟨.text (cs.dropWhile isBlank) :: content, ?_, ?_⟩
      · have hcontent : LegibleContent content :=
          ⟨hrest, fun m hm => h.legible m (List.mem_cons_of_mem _ hm)⟩
        exact hcontent.cons (.text hkept) hhead
      · rw [Node.writeAll, Node.writeAll, Node.write, Node.write, hsolid, hkept,
          if_neg Bool.false_ne_true, if_neg Bool.false_ne_true, dropWhile_append_of_all hescaped,
          dropWhile_escape]
    | @element name inner hname hapart hall =>
      refine ⟨_, h, (dropWhile_of_head ?_).symm⟩
      rw [Node.writeAll, Node.write]
      rintro c ⟨⟩
      rfl

/-- So has the text at its back. -/
theorem exists_trimEndList (h : LegibleContent content) : ∃ trimmed, LegibleContent trimmed ∧
    Node.writeAll trimmed = trimEndList isBlank (Node.writeAll content) := by
  rcases List.eq_nil_or_concat content with rfl | ⟨before, n, rfl⟩
  · exact ⟨[], .nil, rfl⟩
  · rw [List.concat_eq_append] at h ⊢
    cases h.legible n (List.mem_append_right before List.mem_cons_self) with
    | @text cs hsolid =>
      have hkept : (trimEndList isBlank cs).all isBlank = false :=
        (all_trimEndList _ _).trans hsolid
      have hescaped : (escape cs).all isBlank = false := (all_escape cs).trans hsolid
      obtain ⟨hbefore, -, hhead⟩ := List.isChain_append.1 h.apart
      refine ⟨before ++ [.text (trimEndList isBlank cs)], ⟨?_, ?_⟩, ?_⟩
      · refine List.isChain_append.2 ⟨hbefore, .singleton _, ?_⟩
        rintro m hm k ⟨⟩
        exact hhead m hm (.text cs) rfl
      · intro m hm
        rcases List.mem_append.1 hm with hm | hm
        · exact h.legible m (List.mem_append_left _ hm)
        · rw [List.mem_singleton.1 hm]
          exact .text hkept
      · rw [Node.writeAll_append, Node.writeAll_append, Node.writeAll_singleton,
          Node.writeAll_singleton, Node.write, Node.write, hsolid, hkept,
          if_neg Bool.false_ne_true, if_neg Bool.false_ne_true,
          trimEndList_append_of_all hescaped, trimEndList_escape]
    | @element name inner hname hapart hall =>
      refine ⟨_, h, (trimEndList_of_last ?_).symm⟩
      rw [Node.writeAll_append, Node.writeAll_singleton, Node.write, ← List.append_assoc,
        List.getLast?_concat]
      rintro c ⟨⟩
      rfl

/-- What markup is left of a legible content is the markup of a legible content. -/
theorem exists_trimList (h : LegibleContent content) : ∃ trimmed, LegibleContent trimmed ∧
    Node.writeAll trimmed = trimList isBlank (Node.writeAll content) := by
  obtain ⟨front, hfront, hwrite⟩ := h.exists_dropWhile
  obtain ⟨trimmed, htrimmed, hback⟩ := hfront.exists_trimEndList
  exact ⟨trimmed, htrimmed, by rw [hback, hwrite, trimList]⟩

end LegibleContent

end SoftwareCatalog.Xml
