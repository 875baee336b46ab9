import Mathlib.Data.List.Chain
import SoftwareCatalog.Xml.Node

namespace SoftwareCatalog.Xml

namespace Node

/-- A node lies in a content, at whatever depth. -/
inductive Within (n : Node) : List Node → Prop
  | here {content : List Node} (h : n ∈ content) : Within n content
  | inside {content : List Node} {m : Node} (hm : m ∈ content) (h : Within n m.content) :
    Within n content

theorem within_of_subset {n : Node} {content more : List Node} (h : n.Within content)
    (hmore : content ⊆ more) : n.Within more := by
  cases h with
  | here h => exact .here (hmore h)
  | inside hm h => exact .inside (hmore hm) h

theorem not_within_nil (n : Node) : ¬n.Within [] := by
  rintro (h | ⟨h, -⟩)
  · cases h
  · cases h

theorem within_cons_iff {n m : Node} {content : List Node} :
    n.Within (m :: content) ↔ n = m ∨ n.Within m.content ∨ n.Within content := by
  constructor
  · rintro (h | ⟨hk, h⟩)
    · rcases List.mem_cons.1 h with rfl | h
      · exact .inl rfl
      · exact .inr (.inr (.here h))
    · rcases List.mem_cons.1 hk with rfl | hk
      · exact .inr (.inl h)
      · exact .inr (.inr (.inside hk h))
  · rintro (rfl | h | h)
    · exact .here List.mem_cons_self
    · exact .inside List.mem_cons_self h
    · exact within_of_subset h (List.subset_cons_self m content)

mutual

/-- The texts in a node in the order of the document. -/
def texts : Node → List String
  | .text cs => [String.ofList cs]
  | .element _ _ content => textsAll content

def textsAll : List Node → List String
  | [] => []
  | n :: ns => texts n ++ textsAll ns

end

/-- One of two neighbours is an element. -/
def Apart (m n : Node) : Prop := m.isElement = true ∨ n.isElement = true

/-- In a node no text follows text, at whatever depth. -/
inductive Merged : Node → Prop
  | text (cs : List Char) : Merged (.text cs)
  | element (name : String) (attrs : List Attribute) {content : List Node}
    (hapart : content.IsChain Apart) (hall : ∀ n ∈ content, Merged n) :
    Merged (.element name attrs content)

end Node

/-- In a content no text follows text, at whatever depth. -/
structure MergedContent (content : List Node) : Prop where
  apart : content.IsChain Node.Apart
  merged : ∀ n ∈ content, n.Merged

namespace MergedContent

variable {content : List Node} {n : Node}

theorem nil : MergedContent [] := ⟨.nil, fun _ h => absurd h List.not_mem_nil⟩

theorem of_merged (h : n.Merged) : MergedContent n.content := by
  cases h with
  | text cs => exact .nil
  | element name attrs hapart hall => exact ⟨hapart, hall⟩

theorem tail (h : MergedContent (n :: content)) : MergedContent content :=
  ⟨h.apart.tail, fun m hm => h.merged m (List.mem_cons_of_mem n hm)⟩

theorem element_behind_text {cs : List Char} (h : MergedContent (.text cs :: content)) :
    ∀ m ∈ content.head?, m.isElement = true := by
  intro m hm
  rcases (List.isChain_cons.1 h.apart).1 m hm with htext | helement
  · cases htext
  · exact helement

theorem reverse (h : MergedContent content) : MergedContent content.reverse where
  apart := by
    rw [List.isChain_reverse]
    exact h.apart.imp fun _ _ => Or.symm
  merged m hm := h.merged m (List.mem_reverse.1 hm)

theorem cons_element (h : MergedContent content) (hn : n.Merged) (helement : n.isElement = true) :
    MergedContent (n :: content) where
  apart := h.apart.cons fun _ _ => .inl helement
  merged m hm := by
    rcases List.mem_cons.1 hm with rfl | hm
    · exact hn
    · exact h.merged m hm

/-- Text that is added continues the text before it. -/
theorem addText (h : MergedContent content) (cs : List Char) :
    MergedContent (addText content cs) := by
  have htail {ts : List Char} {rest : List Node} (hrest : MergedContent rest)
      (hhead : ∀ m ∈ rest.head?, m.isElement = true) : MergedContent (.text ts :: rest) := by
    refine ⟨hrest.apart.cons fun m hm => .inr (hhead m hm), ?_⟩
    intro m hm
    rcases List.mem_cons.1 hm with rfl | hm
    · exact .text ts
    · exact hrest.merged m hm
  cases content with
  | nil => exact htail .nil fun _ hm => nomatch hm
  | cons n content =>
    cases n with
    | text ts => exact htail h.tail h.element_behind_text
    | element name attrs inner =>
      apply htail h
      intro m hm
      rw [List.head?_cons] at hm
      rw [← Option.some.inj hm]
      rfl

/-- So is all that lies in such a content. -/
theorem within (h : MergedContent content) (hn : n.Within content) : n.Merged := by
  induction hn with
  | here hn => exact h.merged _ hn
  | inside hm _ ih => exact ih (.of_merged (h.merged _ hm))

end MergedContent

/-- No text follows text in what was read so far. -/
structure Reading.Merged (s : Reading) : Prop where
  frames : ∀ f ∈ s.frames, MergedContent f.content
  top : MergedContent s.top

namespace Reading.Merged

variable {s t : Reading}

theorem modify (h : s.Merged) {f : List Node → List Node}
    (hf : ∀ content, MergedContent content → MergedContent (f content)) :
    (s.modify f).Merged := by
  unfold Reading.modify
  cases hs : s.frames with
  | nil => exact ⟨fun g hg => h.frames g (hs ▸ hg), hf _ h.top⟩
  | cons g gs =>
    refine ⟨?_, h.top⟩
    intro g' hg'
    rcases List.mem_cons.1 hg' with rfl | hg'
    · exact hf _ (h.frames g (hs ▸ List.mem_cons_self))
    · exact h.frames g' (hs ▸ List.mem_cons_of_mem g hg')

theorem step (h : s.Merged) {token : Token} (hstep : s.step token = .ok t) : t.Merged := by
  cases token with
  | text cs =>
    obtain rfl := Except.ok.inj hstep
    exact h.modify fun _ hcontent => hcontent.addText cs
  | openTag name attrs =>
    obtain rfl := Except.ok.inj hstep
    refine ⟨?_, h.top⟩
    intro f hf
    rcases List.mem_cons.1 hf with rfl | hf
    · exact .nil
    · exact h.frames f hf
  | emptyTag name attrs =>
    obtain rfl := Except.ok.inj hstep
    have hempty : (Node.element name attrs []).Merged := .element name attrs .nil nofun
    exact h.modify fun _ hcontent => hcontent.cons_element hempty rfl
  | closeTag name =>
    unfold Reading.step at hstep
    cases hs : s.frames with
    | nil =>
      rw [hs] at hstep
      cases hstep
    | cons f fs =>
      rw [hs] at hstep
      simp only at hstep
      split at hstep
      · obtain rfl := Except.ok.inj hstep
        have hrest : Reading.Merged { s with frames := fs } :=
          ⟨fun g hg => h.frames g (hs ▸ List.mem_cons_of_mem f hg), h.top⟩
        have hcontent := (h.frames f (hs ▸ List.mem_cons_self)).reverse
        have hclosed : f.close.Merged := .element f.name f.attrs hcontent.apart hcontent.merged
        exact hrest.modify fun _ hall => hall.cons_element hclosed rfl
      · cases hstep
  | declaration =>
    obtain rfl := Except.ok.inj hstep
    exact ⟨h.frames, h.top⟩

theorem foldlM (h : s.Merged) {tokens : List Token}
    (hread : tokens.foldlM Reading.step s = .ok t) : t.Merged := by
  induction tokens generalizing s with
  | nil =>
    obtain rfl := Except.ok.inj hread
    exact h
  | cons token tokens ih =>
    rw [List.foldlM_cons] at hread
    cases hnext : s.step token with
    | error e =>
      rw [hnext] at hread
      cases hread
    | ok u =>
      rw [hnext] at hread
      exact ih (h.step hnext) hread

end Reading.Merged

theorem Document.parse_eq_ok_iff {text : String} {d : Document} :
    parse text = .ok d ↔ ∃ ts, tokens text.toList = .ok ts ∧ ofTokens ts = .ok d := by
  unfold parse
  cases tokens text.toList with
  | error e =>
    constructor
    · nofun
    · nofun
  | ok ts =>
    constructor
    · exact fun h => ⟨ts, rfl, h⟩
    · rintro ⟨us, heq, h⟩
      cases heq
      exact h

/-- In a document that was read no text follows text. -/
theorem mergedContent_of_parse {text : String} {d : Document} (h : Document.parse text = .ok d) :
    MergedContent d.content := by
  obtain ⟨ts, -, h⟩ := Document.parse_eq_ok_iff.1 h
  unfold Document.ofTokens at h
  cases hread : ts.foldlM Reading.step ⟨[], [], false⟩ with
  | error e =>
    rw [hread] at h
    cases h
  | ok s =>
    rw [hread] at h
    have hstart : Reading.Merged ⟨[], [], false⟩ := ⟨nofun, .nil⟩
    have hs := hstart.foldlM hread
    change (if s.frames.isEmpty then _ else _) = Except.ok d at h
    split at h
    · obtain rfl := Except.ok.inj h
      exact hs.top.reverse
    · cases h

end SoftwareCatalog.Xml
