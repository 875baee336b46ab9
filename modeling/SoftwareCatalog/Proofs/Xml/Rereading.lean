import Mathlib.Data.List.TakeWhile
import SoftwareCatalog.Proofs.Xml.Legible

namespace SoftwareCatalog.Xml

open Text

theorem splitTag_append {cs : List Char} (h : ∀ c ∈ cs, c ≠ '>' ∧ c ≠ '"' ∧ c ≠ '\'')
    (rest : List Char) : splitTag none (cs ++ '>' :: rest) = some (cs, rest) := by
  induction cs with
  | nil => rfl
  | cons c cs ih =>
    obtain ⟨hclose, hdouble, hsingle⟩ := h c List.mem_cons_self
    have hquote : quoteAfter none c = none := by simp [quoteAfter, hdouble, hsingle]
    rw [List.cons_append, splitTag, if_neg (by simp [hclose]), hquote,
      ih fun d hd => h d (List.mem_cons_of_mem c hd), Option.map_some]

section Tag

variable {name : String}

theorem ne_of_isName (h : isName name = true) {d : Char} (hd : d ∈ delimiters) :
    ∀ c ∈ name.toList, c ≠ d := by
  rintro c hc rfl
  exact not_mem_delimiters h c hc hd

theorem not_isSpace_of_isName (h : isName name = true) :
    ∀ c ∈ name.toList, (!isSpace c) = true := by
  intro c hc
  have hblank := ne_of_isName h (d := ' ') (by decide) c hc
  have htab := ne_of_isName h (d := '\t') (by decide) c hc
  have hreturn := ne_of_isName h (d := '\r') (by decide) c hc
  have hline := ne_of_isName h (d := '\n') (by decide) c hc
  simp [isSpace, hblank, htab, hreturn, hline]

theorem splitTag_name (h : isName name = true) (rest : List Char) :
    splitTag none (name.toList ++ '>' :: rest) = some (name.toList, rest) := by
  apply splitTag_append
  intro c hc
  exact ⟨ne_of_isName h (by decide) c hc, ne_of_isName h (by decide) c hc,
    ne_of_isName h (by decide) c hc⟩

theorem openToken_name (h : isName name = true) :
    openToken name.toList = .ok (.openTag name []) := by
  have hlong : ['/'].isSuffixOf? name.toList = none := by
    rw [Option.eq_none_iff_forall_ne_some]
    intro cs hcs
    have happend := List.append_eq_of_isSuffixOf?_eq_some hcs
    have hslash : '/' ∈ name.toList := by simp [← happend]
    exact ne_of_isName h (by decide) '/' hslash rfl
  have hspaces := not_isSpace_of_isName h
  unfold openToken
  rw [hlong]
  simp only [List.takeWhile_eq_self_iff.2 hspaces, List.dropWhile_eq_nil_iff.2 hspaces,
    String.ofList_toList]
  rfl

theorem markup_open (h : isName name = true) (rest : List Char) :
    markup (name.toList ++ '>' :: rest) = .ok ([.openTag name []], rest) := by
  have hsplit := splitTag_name h rest
  have htoken := openToken_name h
  have hbang := ne_of_isName h (d := '!') (by decide)
  have hslash := ne_of_isName h (d := '/') (by decide)
  have hquestion := ne_of_isName h (d := '?') (by decide)
  obtain ⟨c, cs, hname, -⟩ := isName_cases h
  rw [hname] at hsplit htoken hbang hslash hquestion ⊢
  unfold markup
  split
  · rename_i heq
    cases heq
  · rename_i heq
    cases heq
    exact absurd rfl (hbang _ List.mem_cons_self)
  · rename_i heq
    cases heq
    exact absurd rfl (hslash _ List.mem_cons_self)
  · rename_i heq
    cases heq
    exact absurd rfl (hquestion _ List.mem_cons_self)
  · rw [hsplit]
    simp only [htoken]
    rfl

theorem markup_close (h : isName name = true) (rest : List Char) :
    markup ('/' :: name.toList ++ '>' :: rest) = .ok ([.closeTag name], rest) := by
  have hsplit : splitTag none ('/' :: name.toList ++ '>' :: rest) =
      some ('/' :: name.toList, rest) := by
    rw [List.cons_append, splitTag, if_neg (by decide), show quoteAfter none '/' = none from rfl,
      splitTag_name h, Option.map_some]
  have htrim : name.toList.reverse.dropWhile isSpace = name.toList.reverse := by
    apply dropWhile_of_head
    intro c hc
    have hspace := not_isSpace_of_isName h c (List.mem_reverse.1 (List.mem_of_mem_head? hc))
    simpa using hspace
  unfold markup
  simp only [List.cons_append] at hsplit ⊢
  rw [hsplit]
  simp [htrim]

end Tag

theorem tokensFrom_nil : tokensFrom [] = .ok [] := by rw [tokensFrom]

theorem tokensFrom_markup {cs rest : List Char} {ts : List Token}
    (h : markup cs = .ok (ts, rest)) :
    tokensFrom ('<' :: cs) = (tokensFrom rest).map (ts ++ ·) := by
  rw [tokensFrom, if_pos rfl]
  split
  · rename_i e herror
    rw [h] at herror
    cases herror
  · rename_i us more hok
    rw [h] at hok
    obtain ⟨rfl, rfl⟩ := Prod.mk.inj (Except.ok.inj hok)
    rfl

theorem tokensFrom_text {c : Char} {cs ds : List Char} (hc : c ≠ '<')
    (h : unescape (c :: cs.takeWhile isText) = .ok ds) :
    tokensFrom (c :: cs) = (tokensFrom (cs.dropWhile isText)).map (.text ds :: ·) := by
  rw [tokensFrom, if_neg hc, h]
  cases tokensFrom (cs.dropWhile isText) <;> rfl

/-- Text reaches up to the next tag. -/
theorem tokensFrom_escape {cs rest : List Char} (hcs : cs ≠ [])
    (hrest : ∀ c ∈ rest.head?, isText c = false) :
    tokensFrom (escape cs ++ rest) = (tokensFrom rest).map ([.text cs] ++ ·) := by
  have htext : ∀ c ∈ escape cs, isText c = true := by
    intro c hc
    have hne : c ≠ '<' := fun heq => not_mem_escape cs (heq ▸ hc)
    simp [isText, hne]
  have hread := unescape_escape cs
  have hsolid : escape cs ≠ [] := by
    intro hnil
    rw [hnil, unescape] at hread
    exact hcs (Except.ok.inj hread).symm
  obtain ⟨c, ds, hescape⟩ := List.exists_cons_of_ne_nil hsolid
  rw [hescape] at htext hread ⊢
  have hne : c ≠ '<' := by simpa [isText] using htext c List.mem_cons_self
  have hds : ∀ d ∈ ds, isText d = true := fun d hd => htext d (List.mem_cons_of_mem c hd)
  have hstop : rest.takeWhile isText = [] := by
    cases rest with
    | nil => rfl
    | cons d rest => rw [List.takeWhile_cons_of_neg (by simp [hrest d rfl])]
  have hrun : (ds ++ rest).takeWhile isText = ds := by
    rw [List.takeWhile_append_of_pos hds, hstop, List.append_nil]
  have htail : (ds ++ rest).dropWhile isText = rest := by
    rw [List.dropWhile_append_of_pos hds, dropWhile_of_head hrest]
  rw [List.cons_append, tokensFrom_text hne (hrun.symm ▸ hread), htail]
  rfl

namespace Node

mutual

/-- The tokens that a node is written as. -/
def tokens : Node → List Token
  | .text cs => [.text cs]
  | .element name _ content => .openTag name [] :: tokensAll content ++ [.closeTag name]

def tokensAll : List Node → List Token
  | [] => []
  | n :: ns => tokens n ++ tokensAll ns

end

/-- Behind a text no other text goes on. -/
def Ends (n : Node) (rest : List Char) : Prop :=
  n.isElement = true ∨ ∀ c ∈ rest.head?, isText c = false

/-- Written content is read as the tokens of its nodes, where each of them is. -/
theorem tokensFrom_writeAll {content : List Node} {rest : List Char}
    (hapart : content.IsChain Apart) (hrest : ∀ c ∈ rest.head?, isText c = false)
    (hall : ∀ n ∈ content, ∀ more, n.Ends more →
      tokensFrom (n.write ++ more) = (tokensFrom more).map (n.tokens ++ ·)) :
    tokensFrom (writeAll content ++ rest) = (tokensFrom rest).map (tokensAll content ++ ·) := by
  induction content with
  | nil =>
    cases htokens : tokensFrom rest <;> simp [writeAll, tokensAll, htokens, Except.map]
  | cons n content ih =>
    -- A text reaches up to the tag of the element behind it, or to what comes behind the content.
    have hends : n.Ends (writeAll content ++ rest) := by
      cases content with
      | nil => exact .inr hrest
      | cons m content =>
        rcases (List.isChain_cons.1 hapart).1 m rfl with hn | hm
        · exact .inl hn
        · cases m with
          | text cs => cases hm
          | element name attrs inner =>
            right
            rw [writeAll, write]
            rintro c ⟨⟩
            rfl
    have hfirst := hall n List.mem_cons_self _ hends
    have hmore := ih hapart.tail fun m hm => hall m (List.mem_cons_of_mem n hm)
    rw [writeAll, List.append_assoc, hfirst, hmore, tokensAll]
    cases tokensFrom rest with
    | error e => rfl
    | ok ts => simp [Except.map]

theorem Legible.tokensFrom_write {n : Node} (h : n.Legible) {rest : List Char}
    (hrest : n.Ends rest) :
    tokensFrom (n.write ++ rest) = (tokensFrom rest).map (n.tokens ++ ·) := by
  induction h generalizing rest with
  | @text cs hsolid =>
    have hne : cs ≠ [] := by
      rintro rfl
      cases hsolid
    rw [write, hsolid, if_neg Bool.false_ne_true]
    rcases hrest with helement | hstop
    · cases helement
    · exact tokensFrom_escape hne hstop
  | @element name content hname hapart hall ih =>
    have hclose := tokensFrom_markup (markup_close hname rest)
    have hstop : ∀ c ∈ ('<' :: ('/' :: name.toList ++ '>' :: rest)).head?, isText c = false := by
      rintro c ⟨⟩
      rfl
    have hcontent := tokensFrom_writeAll hapart hstop fun n hn _ => ih n hn
    have hopen := tokensFrom_markup (markup_open hname
      (writeAll content ++ '<' :: ('/' :: name.toList ++ '>' :: rest)))
    have hwrite : (Node.element name [] content).write ++ rest = '<' :: (name.toList ++ '>' ::
        (writeAll content ++ '<' :: ('/' :: name.toList ++ '>' :: rest))) := by
      simp [write]
    rw [hwrite, hopen, hcontent, hclose, tokens]
    cases tokensFrom rest with
    | error e => rfl
    | ok ts => simp [Except.map]

end Node

namespace Reading

/-- The content that a reading adds to. -/
def content (s : Reading) : List Node :=
  match s.frames with
  | [] => s.top
  | g :: _ => g.content

theorem modify_congr {s : Reading} {f g : List Node → List Node} (h : f s.content = g s.content) :
    s.modify f = s.modify g := by
  cases s with
  | mk frames top declared =>
    cases frames with
    | nil => simpa [modify, content] using h
    | cons frame frames => simpa [modify, content] using h

theorem modify_modify (s : Reading) (f g : List Node → List Node) :
    (s.modify f).modify g = s.modify (g ∘ f) := by
  cases s with
  | mk frames top declared => cases frames <;> rfl

theorem content_modify (s : Reading) (f : List Node → List Node) :
    (s.modify f).content = f s.content := by
  cases s with
  | mk frames top declared => cases frames <;> rfl

theorem modify_id (s : Reading) : s.modify id = s := by
  cases s with
  | mk frames top declared => cases frames <;> rfl

end Reading

namespace Node

theorem foldlM_tokensAll {content : List Node} (hapart : content.IsChain Apart)
    (hall : ∀ n ∈ content, ∀ s : Reading, (∀ m ∈ s.content.head?, m.Apart n) →
      n.tokens.foldlM Reading.step s = .ok (s.modify (n :: ·)))
    (s : Reading) (hs : ∀ n ∈ content.head?, ∀ m ∈ s.content.head?, m.Apart n) :
    (tokensAll content).foldlM Reading.step s = .ok (s.modify (content.reverse ++ ·)) := by
  induction content generalizing s with
  | nil => exact congrArg Except.ok s.modify_id.symm
  | cons n content ih =>
    have hnext : ∀ k ∈ content.head?, ∀ m ∈ (s.modify (n :: ·)).content.head?, m.Apart k := by
      rw [Reading.content_modify]
      rintro k hk m ⟨⟩
      exact (List.isChain_cons.1 hapart).1 k hk
    have hmore := ih hapart.tail (fun m hm => hall m (List.mem_cons_of_mem n hm))
      (s.modify (n :: ·)) hnext
    rw [tokensAll, List.foldlM_append, hall n List.mem_cons_self s (hs n rfl)]
    refine hmore.trans ?_
    rw [Reading.modify_modify, List.reverse_cons]
    simp only [Function.comp_def, List.append_assoc, List.singleton_append]

theorem Legible.foldlM_tokens {n : Node} (h : n.Legible) (s : Reading)
    (hs : ∀ m ∈ s.content.head?, m.Apart n) :
    n.tokens.foldlM Reading.step s = .ok (s.modify (n :: ·)) := by
  induction h generalizing s with
  | @text cs hsolid =>
    have hadd : addText s.content cs = .text cs :: s.content := by
      cases hcontent : s.content with
      | nil => rfl
      | cons m content =>
        cases m with
        | text ts =>
          rw [hcontent] at hs
          rcases hs _ rfl with h | h <;> cases h
        | element name attrs inner => rfl
    exact congrArg Except.ok (Reading.modify_congr hadd)
  | @element name content hname hapart hall ih =>
    -- The tag opens a frame, the content fills it, and the closing tag takes it off again.
    have hinner := foldlM_tokensAll hapart ih { s with frames := ⟨name, [], []⟩ :: s.frames } nofun
    have hclose : Reading.step { s with frames := ⟨name, [], content.reverse ++ []⟩ :: s.frames }
        (.closeTag name) = .ok (s.modify (.element name [] content :: ·)) := by
      simp [Reading.step, Frame.close]
    rw [tokens, List.cons_append, List.foldlM_cons]
    change (tokensAll content ++ [Token.closeTag name]).foldlM Reading.step
      { s with frames := ⟨name, [], []⟩ :: s.frames } = _
    rw [List.foldlM_append, hinner]
    change [Token.closeTag name].foldlM Reading.step
      { s with frames := ⟨name, [], content.reverse ++ []⟩ :: s.frames } = _
    rw [List.foldlM_cons, hclose]
    rfl

/-- A legible element is read back as it was written. -/
theorem Legible.parse_write {n : Node} (h : n.Legible) (helement : n.isElement = true) :
    Document.parse (String.ofList n.write) = .ok ⟨[n], false⟩ := by
  have htokens : Xml.tokens n.write = .ok n.tokens := by
    have hends : n.Ends [] := .inl helement
    have hwrite := h.tokensFrom_write hends
    rw [tokensFrom_nil, List.append_nil] at hwrite
    have hstart : Xml.tokens n.write = tokensFrom n.write := by
      cases n with
      | text cs => cases helement
      | element name attrs content =>
        rw [write]
        rfl
    rw [hstart, hwrite]
    simp [Except.map]
  have hread := h.foldlM_tokens ⟨[], [], false⟩ nofun
  refine Document.parse_eq_ok_iff.2 ⟨n.tokens, by rwa [String.toList_ofList], ?_⟩
  unfold Document.ofTokens
  rw [hread]
  rfl

end Node

/-- Markup that is put into an element and read again is the markup of that element. -/
theorem markup_stable {text : String} {d : Document} (hd : Document.parse text = .ok d) {n : Node}
    (hn : n.Within d.content)
    (hnames : ∀ m : Node, m.Within n.content → m.isElement = true → isName m.name = true) :
    ∃ e root, Document.parse ("<r>" ++ n.markup ++ "</r>") = .ok e ∧ e.root? = some root ∧
      root.markup = n.markup := by
  have hmerged : MergedContent n.content := .of_merged ((mergedContent_of_parse hd).within hn)
  obtain ⟨trimmed, htrimmed, hwrite⟩ :=
    (legibleContent_keptAll n.content hmerged hnames).exists_trimList
  rw [Node.writeAll_keptAll] at hwrite
  have hroot : (Node.element "r" [] trimmed).Legible := htrimmed.element (by decide)
  have htext : "<r>" ++ n.markup ++ "</r>" = String.ofList (Node.element "r" [] trimmed).write := by
    apply String.toList_injective
    simp [Node.write, hwrite, Node.markup]
  refine ⟨_, _, htext ▸ hroot.parse_write rfl, rfl, ?_⟩
  rw [Node.markup, Node.markup, Node.content, hwrite, (trimmed_trimList _ _).trimList_eq]

/-- What a paragraph with an attribute, a comment and a character section is read as. -/
def cartoon : Node :=
  .element "p" [("class", "intro")] [.text " Tom & ".toList, .element "em" [] [.text "J".toList],
    .text " <b> ".toList]

theorem cartoon_stable :
    Document.parse "<p class='intro'> Tom &amp; <em>J</em> <!-- 1940 --><![CDATA[<b>]]> </p>" =
        .ok ⟨[cartoon], false⟩ ∧
      cartoon.markup = "Tom &amp; <em>J</em> &lt;b&gt;" ∧
      ∃ e root, Document.parse ("<r>" ++ cartoon.markup ++ "</r>") = .ok e ∧
        e.root? = some root ∧ root.markup = cartoon.markup := by
  have hread :
      Document.parse "<p class='intro'> Tom &amp; <em>J</em> <!-- 1940 --><![CDATA[<b>]]> </p>" =
        .ok ⟨[cartoon], false⟩ :=
    Document.parse_eq_ok_iff.2 ⟨[.openTag "p" [("class", "intro")], .text " Tom & ".toList,
      .openTag "em" [], .text "J".toList, .closeTag "em", .text " ".toList, .text "<b>".toList,
      .text " ".toList, .closeTag "p"], by decide +kernel, rfl⟩
  have hnames : ∀ m : Node, m.Within cartoon.content → m.isElement = true →
      isName m.name = true := by
    intro m hm helement
    simp only [cartoon, Node.content, Node.within_cons_iff, Node.not_within_nil, or_false,
      false_or] at hm
    rcases hm with rfl | rfl | rfl | rfl
    · cases helement
    · decide
    · cases helement
    · cases helement
  exact ⟨hread, by decide +kernel, markup_stable hread (.here List.mem_cons_self) hnames⟩

end SoftwareCatalog.Xml
