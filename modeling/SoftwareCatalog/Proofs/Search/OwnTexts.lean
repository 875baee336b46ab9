import SoftwareCatalog.Proofs.Component.Reconcile
import SoftwareCatalog.Proofs.Search.TokenCache
import SoftwareCatalog.Proofs.Search.Words

namespace SoftwareCatalog.Search

open Text

variable {ctx : Context} {c : Component} {source : Source} {text query word token : String}

namespace Context

/-- The tokens of the words of a text. -/
def splitTokens (ctx : Context) (text : String) : List String :=
  (splitWords text).filterMap ctx.token

/-- The tokens of a query for the fields that have punctuation other than hyphens inside. -/
def wholeTokens (ctx : Context) (query : String) : List String :=
  (blankFields query).flatMap fun raw =>
    if (core raw.toList).any fun c => isPunctuation c && c ≠ '-' then
      (ctx.wholeToken (String.ofList (core raw.toList))).toList
    else []

theorem mem_splitTokens :
    token ∈ ctx.splitTokens text ↔ ∃ word ∈ splitWords text, ctx.token word = some token :=
  List.mem_filterMap

/-- A query asks for its words and for what counts as a whole. -/
theorem mem_queryTokens : token ∈ ctx.queryTokens query ↔
    token ∈ ctx.wholeTokens query ∨ token ∈ ctx.splitTokens query := by
  unfold queryTokens
  rw [mem_foldl_addNew, mem_splitTokens, splitWords_eq_flatMap]
  simp only [List.not_mem_nil, false_or, wholeTokens, wordTokens, List.mem_flatMap,
    List.mem_append, List.mem_filterMap, core]
  constructor
  · rintro ⟨raw, hraw, hwhole | ⟨word, hword, htoken⟩⟩
    · exact .inl ⟨raw, hraw, hwhole⟩
    · exact .inr ⟨word, ⟨raw, hraw, hword⟩, htoken⟩
  · rintro (⟨raw, hraw, hwhole⟩ | ⟨word, ⟨raw, hraw, hword⟩, htoken⟩)
    · exact ⟨raw, hraw, .inl hwhole⟩
    · exact ⟨raw, hraw, .inr ⟨word, hword, htoken⟩⟩

/-- One field without punctuation around it counts as a whole as it stands, or not at all. -/
theorem wholeToken_of_mem_wholeTokens (hblank : ∀ c ∈ query.toList, isBlank c = false)
    (htrimmed : Trimmed isPunctuation query.toList) (h : token ∈ ctx.wholeTokens query) :
    ctx.wholeToken query = some token := by
  by_cases hempty : query = ""
  · obtain rfl := hempty
    simp [wholeTokens, blankFields] at h
  · unfold wholeTokens at h
    rw [blankFields_of_unblanked hempty hblank, List.flatMap_singleton, core, htrimmed.trimList_eq,
      String.ofList_toList] at h
    split at h
    · exact Option.mem_toList.1 h
    · cases h

/-- A word asks for nothing but its parts. -/
theorem mem_queryTokens_word (h : word ∈ splitWords text) :
    token ∈ ctx.queryTokens word ↔ token ∈ ctx.splitTokens word := by
  obtain ⟨w, -, rfl, hword, -⟩ := exists_word h
  have hblank : ∀ c ∈ (String.ofList w).toList, isBlank c = false := by
    intro c hc
    rw [String.toList_ofList] at hc
    exact (Bool.or_eq_false_iff.1 (hword.unseparated c hc)).1
  have hnone : ctx.wholeTokens (String.ofList w) = [] := by
    have hne : String.ofList w ≠ "" := by simpa using hword.nonempty
    have hinner : ¬ w.any (fun c => isPunctuation c && c ≠ '-') = true := by
      rw [List.any_eq_true]
      rintro ⟨c, hc, hpunctuation⟩
      exact Bool.false_ne_true
        ((Bool.or_eq_false_iff.1 (hword.unseparated c hc)).2.symm.trans hpunctuation)
    unfold wholeTokens
    rw [blankFields_of_unblanked hne hblank, List.flatMap_singleton, String.toList_ofList,
      hword.core_eq, if_neg hinner]
  rw [mem_queryTokens, hnone]
  simp

end Context

/-- A text of which a component has the words as tokens. -/
inductive SplitText (ctx : Context) (c : Component) : Source → String → Prop
  | id {text : String} (h : c.id = some text) : SplitText ctx c .id text
  | name {locale text : String} (hlocale : locale ∈ ctx.locales)
    (h : c.names.get? locale = some text) : SplitText ctx c .name text
  | comment {locale text : String} (hlocale : locale ∈ ctx.locales)
    (h : c.comments.get? locale = some text) : SplitText ctx c .comment text
  | description {locale markup : String} (hlocale : locale ∈ ctx.locales)
    (h : c.descriptions.get? locale = some markup) :
    SplitText ctx c .description (stripMarkup markup)
  | keyword {locale text : String} (hlocale : locale ∈ ctx.locales)
    (h : text ∈ c.keywordsIn (some locale)) : SplitText ctx c .keyword text

/-- A value that is a token of a component as a whole. -/
inductive WholeValue (c : Component) : Source → String → Prop
  | id {value : String} (h : c.id = some value) : WholeValue c .id value
  | mimetype {value : String} (h : value ∈ c.mimetypes) : WholeValue c .mimetype value
  | pkgname {value : String} (h : value ∈ c.pkgnames) : WholeValue c .pkgname value
  | origin {value : String} (h : c.origin = some value) : WholeValue c .origin value

namespace TokenCache

theorem mem_textEntries {e : String × Nat} : e ∈ textEntries ctx source text ↔
    e.1 ∈ ctx.splitTokens text ∧ e.2 = source.weight := by
  unfold textEntries
  rw [List.mem_map]
  constructor
  · rintro ⟨token, htoken, rfl⟩
    exact ⟨htoken, rfl⟩
  · rintro ⟨htoken, hweight⟩
    exact ⟨e.1, htoken, Prod.ext rfl hweight.symm⟩

theorem mem_wholeEntry {e : String × Nat} : e ∈ wholeEntry ctx source text ↔
    ctx.wholeToken text = some e.1 ∧ e.2 = source.weight := by
  unfold wholeEntry
  rw [List.mem_map]
  constructor
  · rintro ⟨token, htoken, rfl⟩
    exact ⟨Option.mem_toList.1 htoken, rfl⟩
  · rintro ⟨htoken, hweight⟩
    exact ⟨e.1, Option.mem_toList.2 htoken, Prod.ext rfl hweight.symm⟩

theorem mem_localeEntries {e : String × Nat} {locale : String} :
    e ∈ localeEntries ctx c locale ↔
      (∃ text, c.names.get? locale = some text ∧ e ∈ textEntries ctx .name text) ∨
      (∃ text, c.comments.get? locale = some text ∧ e ∈ textEntries ctx .comment text) ∨
      (∃ markup, c.descriptions.get? locale = some markup ∧
        e ∈ textEntries ctx .description (stripMarkup markup)) ∨
      ∃ text ∈ c.keywordsIn (some locale), e ∈ textEntries ctx .keyword text := by
  simp only [localeEntries, List.mem_append, List.mem_flatMap, Option.mem_toList, or_assoc]

theorem mem_entriesOf {e : String × Nat} : e ∈ entriesOf ctx c ↔
    (∃ source text, SplitText ctx c source text ∧ e ∈ textEntries ctx source text) ∨
    ∃ source value, WholeValue c source value ∧ e ∈ wholeEntry ctx source value := by
  simp only [entriesOf, List.mem_append, List.mem_flatMap, Option.mem_toList, mem_localeEntries]
  constructor
  · rintro ((((⟨id, hid, he | he⟩ | ⟨locale, hlocale, he⟩) | ⟨value, hvalue, he⟩) |
      ⟨value, hvalue, he⟩) | ⟨value, hvalue, he⟩)
    · exact .inr ⟨_, _, .id hid, he⟩
    · exact .inl ⟨_, _, .id hid, he⟩
    · rcases he with ⟨text, h, he⟩ | ⟨text, h, he⟩ | ⟨markup, h, he⟩ | ⟨text, h, he⟩
      · exact .inl ⟨_, _, .name hlocale h, he⟩
      · exact .inl ⟨_, _, .comment hlocale h, he⟩
      · exact .inl ⟨_, _, .description hlocale h, he⟩
      · exact .inl ⟨_, _, .keyword hlocale h, he⟩
    · exact .inr ⟨_, _, .mimetype hvalue, he⟩
    · exact .inr ⟨_, _, .pkgname hvalue, he⟩
    · exact .inr ⟨_, _, .origin hvalue, he⟩
  · rintro (⟨source, text, htext, he⟩ | ⟨source, value, hvalue, he⟩)
    · cases htext with
      | id h => exact .inl (.inl (.inl (.inl ⟨_, h, .inr he⟩)))
      | name hlocale h => exact .inl (.inl (.inl (.inr ⟨_, hlocale, .inl ⟨_, h, he⟩⟩)))
      | comment hlocale h =>
        exact .inl (.inl (.inl (.inr ⟨_, hlocale, .inr (.inl ⟨_, h, he⟩)⟩)))
      | description hlocale h =>
        exact .inl (.inl (.inl (.inr ⟨_, hlocale, .inr (.inr (.inl ⟨_, h, he⟩))⟩)))
      | keyword hlocale h =>
        exact .inl (.inl (.inl (.inr ⟨_, hlocale, .inr (.inr (.inr ⟨_, h, he⟩))⟩)))
    · cases hvalue with
      | id h => exact .inl (.inl (.inl (.inl ⟨_, h, .inl he⟩)))
      | mimetype h => exact .inl (.inl (.inr ⟨_, h, he⟩))
      | pkgname h => exact .inl (.inr ⟨_, h, he⟩)
      | origin h => exact .inr ⟨_, h, he⟩

theorem entriesOf_weight_pos {e : String × Nat} (h : e ∈ entriesOf ctx c) : 0 < e.2 := by
  obtain ⟨source, text, -, he⟩ | ⟨source, value, -, he⟩ := mem_entriesOf.1 h
  · rw [(mem_textEntries.1 he).2]
    exact source.weight_pos
  · rw [(mem_wholeEntry.1 he).2]
    exact source.weight_pos

theorem splitToken_mem_entriesOf (htext : SplitText ctx c source text)
    (h : token ∈ ctx.splitTokens text) : (token, source.weight) ∈ entriesOf ctx c :=
  mem_entriesOf.2 (.inl ⟨source, text, htext, mem_textEntries.2 ⟨h, rfl⟩⟩)

theorem wholeToken_mem_entriesOf (hvalue : WholeValue c source text)
    (h : ctx.wholeToken text = some token) : (token, source.weight) ∈ entriesOf ctx c :=
  mem_entriesOf.2 (.inr ⟨source, text, hvalue, mem_wholeEntry.2 ⟨h, rfl⟩⟩)

/-- A token begins some token of a component. -/
def Begins (ctx : Context) (c : Component) (token : String) : Prop :=
  ∃ e ∈ entriesOf ctx c, startsWith e.1 token = true

instance : Decidable (Begins ctx c token) :=
  inferInstanceAs (Decidable (∃ e ∈ entriesOf ctx c, startsWith e.1 token = true))

theorem begins_of_mem {w : Nat} (h : (token, w) ∈ entriesOf ctx c) : Begins ctx c token :=
  ⟨_, h, by simp [startsWith]⟩

/-- A query finds a component where each of its tokens begins one of the component. -/
theorem scoreAll_build_pos_iff (hquery : ctx.queryTokens query ≠ []) :
    0 < (build ctx c []).scoreAll (ctx.queryTokens query) ↔
      (∀ token ∈ ctx.wholeTokens query, Begins ctx c token) ∧
      ∀ token ∈ ctx.splitTokens query, Begins ctx c token := by
  rw [build_alone, scoreAll_pos_iff, and_iff_right hquery]
  simp only [score_pos_iff fun e he => entriesOf_weight_pos he, Context.mem_queryTokens,
    or_imp, forall_and]
  rfl

theorem weight_shifted_pos (source : Source) : 0 < source.weight <<< 2 := by
  cases source <;> decide

/-- Searched for by a word of a text of its own, a component scores with the weight of that text,
and searched for by its ID with the weight of the ID. -/
theorem own_words_score (ctx : Context) (c : Component) :
    (∀ source text, SplitText ctx c source text → ∀ word ∈ splitWords text,
      (ctx.token word).isSome = true →
      (build ctx c []).scoreAll (ctx.queryTokens word) &&& source.weight <<< 2 =
        source.weight <<< 2 ∧
      (build ctx c []).scoreAll (ctx.queryTokens word) ≠ 0) ∧
    ∀ id, c.id = some id → (∀ ch ∈ id.toList, isBlank ch = false) →
      Trimmed isPunctuation id.toList → ctx.queryTokens id ≠ [] →
      (build ctx c []).scoreAll (ctx.queryTokens id) &&& Source.id.weight <<< 2 =
        Source.id.weight <<< 2 := by
  constructor
  · intro source text htext word hword htoken
    obtain ⟨token, htoken⟩ := Option.isSome_iff_exists.1 htoken
    have hasks : token ∈ ctx.queryTokens word :=
      (Context.mem_queryTokens_word hword).2
        (Context.mem_splitTokens.2 ⟨word, mem_splitWords_self hword, htoken⟩)
    have hscores : ∀ t ∈ ctx.queryTokens word,
        (build ctx c []).score t &&& source.weight <<< 2 = source.weight <<< 2 := by
      intro t ht
      obtain ⟨part, hpart, ht⟩ := Context.mem_splitTokens.1 ((Context.mem_queryTokens_word hword).1 ht)
      -- the parts of a word come from the text as the word does
      have hsplit : t ∈ ctx.splitTokens text :=
        Context.mem_splitTokens.2 ⟨part, splitWords_trans hword hpart, ht⟩
      exact score_contains (splitToken_mem_entriesOf htext hsplit)
    have hcontains :=
      scoreAll_contains (weight_shifted_pos source) (List.ne_nil_of_mem hasks) hscores
    refine ⟨hcontains, fun hzero => ?_⟩
    rw [hzero, Nat.zero_and] at hcontains
    exact Nat.ne_of_gt (weight_shifted_pos source) hcontains.symm
  · intro id hid hblank htrimmed hquery
    apply scoreAll_contains (weight_shifted_pos .id) hquery
    intro t ht
    rcases Context.mem_queryTokens.1 ht with hwhole | hsplit
    · have htoken := Context.wholeToken_of_mem_wholeTokens hblank htrimmed hwhole
      exact score_contains (wholeToken_mem_entriesOf (.id hid) htoken)
    · exact score_contains (splitToken_mem_entriesOf (.id hid) hsplit)

/-- Words of three characters and more as they stand, in English. -/
def englishWords : Context := ⟨["en"], 3, Stem.plain⟩

/-- What only has an ID. -/
def namedTool : Component := Component.ofId "org.example.Tool"

theorem namedTool_scores :
    (build englishWords namedTool []).scoreAll (englishWords.queryTokens "example") &&& 512 = 512 ∧
    (build englishWords namedTool []).scoreAll (englishWords.queryTokens "org.example.Tool") &&&
      512 = 512 := by
  have hid : namedTool.id = some "org.example.Tool" := by decide +kernel
  have hblank : ∀ ch ∈ "org.example.Tool".toList, isBlank ch = false := by
    have hall : ("org.example.Tool".toList.all fun ch => !isBlank ch) = true := by decide +kernel
    simpa using hall
  have hhead : "org.example.Tool".toList.head? = some 'o' := by decide +kernel
  have hlast : "org.example.Tool".toList.getLast? = some 'l' := by decide +kernel
  have htrimmed : Trimmed isPunctuation "org.example.Tool".toList := by
    constructor
    · rw [hhead]
      rintro c ⟨⟩
      decide
    · rw [hlast]
      rintro c ⟨⟩
      decide
  obtain ⟨hwords, hwhole⟩ := own_words_score englishWords namedTool
  constructor
  · exact (hwords .id _ (.id hid) "example" (by decide +kernel) (by decide +kernel)).1
  · exact hwhole _ hid hblank htrimmed (by decide +kernel)

/-- Searched for by a text that it has as words, a component is found where it also has what of
that text counts as a whole. Searched for by a value that it has as a whole, it is found where it
also has the words of that value, and what else of it counts as a whole. -/
theorem own_texts_found_iff (ctx : Context) (c : Component) (text : String)
    (hquery : ctx.queryTokens text ≠ []) :
    (∀ source, SplitText ctx c source text →
      (0 < (build ctx c []).scoreAll (ctx.queryTokens text) ↔
        ∀ token ∈ ctx.wholeTokens text, Begins ctx c token)) ∧
    ∀ source, WholeValue c source text →
      (0 < (build ctx c []).scoreAll (ctx.queryTokens text) ↔
        (∀ token ∈ ctx.splitTokens text, Begins ctx c token) ∧
        ∀ token ∈ ctx.wholeTokens text, ctx.wholeToken text ≠ some token → Begins ctx c token) := by
  rw [scoreAll_build_pos_iff hquery]
  constructor
  · intro source htext
    exact and_iff_left fun token htoken => begins_of_mem (splitToken_mem_entriesOf htext htoken)
  · intro source hvalue
    rw [and_comm]
    refine and_congr_right fun _ => forall₂_congr fun token _ => ?_
    refine ⟨fun h _ => h, fun h => ?_⟩
    by_cases hown : ctx.wholeToken text = some token
    · exact begins_of_mem (wholeToken_mem_entriesOf hvalue hown)
    · exact h hown

/-- An editor for a type of files that it also has in words. -/
def textEditor : Component :=
  ({ mimetypes := ["text/plain"] } : Component).addKeyword (some "en") "Plain text"

theorem textEditor_found :
    0 < (build englishWords textEditor []).scoreAll (englishWords.queryTokens "text/plain") := by
  have hfound := (own_texts_found_iff englishWords textEditor "text/plain" (by decide +kernel)).2
    .mimetype (.mimetype (by decide +kernel))
  exact hfound.2 ⟨by decide +kernel, by decide +kernel⟩

/-- The same editor without the words. -/
def plainEditor : Component := { mimetypes := ["x/plain"] }

/-- An editor with a name that counts as a whole. -/
def painter : Component := { names := TextMap.empty.insert "en" "Paint.NET" }

/-- A type of files is not found where its words are missing, a name not where it is missing as a
whole. -/
theorem own_texts_missed :
    (WholeValue plainEditor .mimetype "x/plain" ∧ englishWords.queryTokens "x/plain" ≠ [] ∧
      (build englishWords plainEditor []).scoreAll (englishWords.queryTokens "x/plain") = 0) ∧
    SplitText englishWords painter .name "Paint.NET" ∧ englishWords.queryTokens "Paint.NET" ≠ [] ∧
      (build englishWords painter []).scoreAll (englishWords.queryTokens "Paint.NET") = 0 := by
  refine ⟨⟨.mimetype (by decide +kernel), by decide +kernel, by decide +kernel⟩, ?_⟩
  have hlocale : "en" ∈ englishWords.locales := by decide
  exact ⟨.name hlocale (by decide +kernel), by decide +kernel, by decide +kernel⟩

end TokenCache

end SoftwareCatalog.Search
