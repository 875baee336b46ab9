import Mathlib.Data.List.Basic
import Mathlib.Tactic.Tauto
import SoftwareCatalog.Proofs.Component.Reconcile
import SoftwareCatalog.Proofs.Search.TokenCache
import SoftwareCatalog.Store.Add
import SoftwareCatalog.Store.Search

namespace SoftwareCatalog

open Text (blankFields isBlank)

namespace Search.Context

variable {ctx : Context} {query other token : String}

/-- Each field of a query asks for its tokens. -/
theorem mem_queryTokens_iff_field :
    token ∈ ctx.queryTokens query ↔ ∃ w ∈ blankFields query, token ∈ ctx.wordTokens w.toList := by
  unfold queryTokens
  rw [mem_foldl_addNew, List.mem_flatMap]
  simp

/-- Queries of the same words ask for the same tokens. -/
theorem queryTokens_congr (h : ∀ w, w ∈ blankFields query ↔ w ∈ blankFields other) :
    token ∈ ctx.queryTokens query ↔ token ∈ ctx.queryTokens other := by
  simp only [mem_queryTokens_iff_field, h]

theorem blankFields_append_blank (query more : String) :
    blankFields (query ++ " " ++ more) = blankFields query ++ blankFields more := by
  have hblank : isBlank ' ' = true := rfl
  have hlist : (query ++ " " ++ more).toList = query.toList ++ ' ' :: more.toList := by simp
  unfold Text.blankFields
  rw [hlist, List.splitOnP_append_cons _ _ hblank, List.filter_append, List.map_append]

/-- A query that goes on asks for no less. -/
theorem queryTokens_subset (ctx : Context) (query more : String) :
    ctx.queryTokens query ⊆ ctx.queryTokens (query ++ " " ++ more) := by
  intro token htoken
  obtain ⟨w, hw, htoken⟩ := mem_queryTokens_iff_field.1 htoken
  refine mem_queryTokens_iff_field.2 ⟨w, ?_, htoken⟩
  rw [blankFields_append_blank]
  exact List.mem_append_left _ hw

end Search.Context

namespace Store

open Search (Hit)

variable {s : Store} {r : Record} {tokens others : List String} {query other : String}

/-- What a query finds in a record. -/
def hitOf? (s : Store) (query : String) (r : Record) : Option Hit :=
  s.hit? (s.context.queryTokens query) r

theorem hit?_eq_some_iff {hit : Hit} : s.hit? tokens r = some hit ↔
    0 < (s.tokensOf r).scoreAll tokens ∧
      hit = ⟨(s.tokensOf r).scoreAll tokens, r.component.uniqueId⟩ := by
  unfold hit?
  simp only [Option.ite_none_left_eq_some, Option.some.injEq, Nat.pos_iff_ne_zero, ne_eq,
    eq_comm (b := hit)]

theorem hit?_congr (h : ∀ token, token ∈ tokens ↔ token ∈ others) :
    s.hit? tokens = s.hit? others := by
  funext r
  unfold hit?
  rw [Search.TokenCache.scoreAll_congr h]

theorem search_of_no_tokens (h : s.context.queryTokens query = []) :
    s.search query = ([], s) := by
  unfold search
  rw [h]

theorem search_of_tokens (h : s.context.queryTokens query ≠ []) :
    s.search query = (Hit.rank (s.records.filterMap (s.hitOf? query)), s.buildTokens) := by
  unfold search hitOf?
  split
  · rename_i hnone
    exact absurd hnone h
  · rfl

/-- The hits of a search are those of the records, ranked. -/
theorem search_eq (s : Store) (query : String) :
    (s.search query).1 = Hit.rank (s.records.filterMap (s.hitOf? query)) := by
  by_cases h : s.context.queryTokens query = []
  · have hmiss : ∀ r ∈ s.records, s.hitOf? query r = none := by
      intro r _
      unfold hitOf?
      rw [h]
      rfl
    rw [search_of_no_tokens h, List.filterMap_eq_nil_iff.2 hmiss, Hit.rank, List.mergeSort_nil]
  · rw [search_of_tokens h]

/-- Searches for the same tokens have the same outcome. -/
theorem search_congr (h : ∀ token, token ∈ s.context.queryTokens query ↔
    token ∈ s.context.queryTokens other) : s.search query = s.search other := by
  by_cases hnone : s.context.queryTokens query = []
  · have hother : s.context.queryTokens other = [] := by
      apply List.eq_nil_iff_forall_not_mem.2
      intro token htoken
      rw [← h, hnone] at htoken
      exact absurd htoken List.not_mem_nil
    rw [search_of_no_tokens hnone, search_of_no_tokens hother]
  · have hother : s.context.queryTokens other ≠ [] := by
      obtain ⟨token, htoken⟩ := List.exists_mem_of_ne_nil _ hnone
      exact List.ne_nil_of_mem ((h token).1 htoken)
    rw [search_of_tokens hnone, search_of_tokens hother]
    unfold hitOf?
    rw [hit?_congr h]

/-- The records that every token of a query scores for, each with its hit. -/
theorem filterMap_hitOf? (h : s.context.queryTokens query ≠ []) :
    s.records.filterMap (s.hitOf? query) =
      (s.records.filter fun r =>
        (s.context.queryTokens query).all fun token => (s.tokensOf r).score token ≠ 0).map
      fun r => ⟨(s.tokensOf r).scoreAll (s.context.queryTokens query), r.component.uniqueId⟩ := by
  rw [← List.filterMap_eq_filter, List.map_filterMap]
  apply List.filterMap_congr
  intro r _
  apply Option.ext
  intro hit
  have hscores : ((s.context.queryTokens query).all fun token => (s.tokensOf r).score token ≠ 0) =
      true ↔ 0 < (s.tokensOf r).scoreAll (s.context.queryTokens query) := by
    rw [Search.TokenCache.scoreAll_pos_iff, and_iff_right h]
    simp [Nat.pos_iff_ne_zero]
  unfold hitOf?
  rw [hit?_eq_some_iff, ← hscores, Option.map_eq_some_iff]
  simp only [Option.guard_eq_some_iff]
  constructor
  · rintro ⟨hall, rfl⟩
    exact ⟨r, ⟨rfl, hall⟩, rfl⟩
  · rintro ⟨_, ⟨rfl, hall⟩, rfl⟩
    exact ⟨hall, rfl⟩

/-- A search finds the records that every token of its query scores for, whatever the order of the
words in the query and their number. A query that goes on finds no other records, and what it finds
scores with all that the query scores with up to there. -/
theorem search_conjunctive (s : Store) :
    (∀ query, (s.search query).1 = Hit.rank (s.records.filterMap (s.hitOf? query))) ∧
    (∀ query more r long, s.context.queryTokens query ≠ [] →
      s.hitOf? (query ++ " " ++ more) r = some long →
      ∃ short, s.hitOf? query r = some short ∧ long.score &&& short.score = short.score) ∧
    (∀ query other, (∀ token, token ∈ s.context.queryTokens query ↔
      token ∈ s.context.queryTokens other) → s.search query = s.search other) ∧
    (∀ query other, (∀ word, word ∈ blankFields query ↔ word ∈ blankFields other) →
      s.search query = s.search other) ∧
    ∀ query, s.context.queryTokens query ≠ [] →
      (s.search query).1.Perm ((s.records.filter fun r =>
          (s.context.queryTokens query).all fun token => (s.tokensOf r).score token ≠ 0).map
        fun r => ⟨(s.tokensOf r).scoreAll (s.context.queryTokens query), r.component.uniqueId⟩) := by
  refine ⟨s.search_eq, ?_, fun query other => search_congr, ?_, ?_⟩
  · intro query more r long hquery hlong
    obtain ⟨hpos, rfl⟩ := hit?_eq_some_iff.1 hlong
    have hsubset := s.context.queryTokens_subset query more
    have hscores := (Search.TokenCache.scoreAll_pos_iff.1 hpos).2
    have hshort : 0 < (s.tokensOf r).scoreAll (s.context.queryTokens query) :=
      Search.TokenCache.scoreAll_pos_iff.2
        ⟨hquery, fun token htoken => hscores token (hsubset htoken)⟩
    have hcontains := Search.TokenCache.scoreAll_subset hsubset hpos
    refine ⟨_, hit?_eq_some_iff.2 ⟨hshort, rfl⟩, ?_⟩
    simpa only using hcontains
  · intro query other hwords
    exact search_congr fun token => Search.Context.queryTokens_congr hwords
  · intro query hquery
    rw [search_eq, ← filterMap_hitOf? hquery]
    exact List.mergeSort_perm _ _

/-- A map of the world. -/
def worldMap : Component where
  id := some "org.example.World"
  names := TextMap.empty.insert "en" "Maps of the world"

/-- A catalog with a map of the world. -/
def maps : Store := (new ⟨{}, {}, ⟨["en"], 4, false, 3⟩⟩ Reader.any).add worldMap

/-- What is found by two words is found by the first, and their order does not matter. -/
theorem maps_found :
    (∃ short, maps.hitOf? "maps" ⟨0, worldMap, none⟩ = some short ∧
      768 &&& short.score = short.score) ∧
    maps.search "maps world" = maps.search "world maps world" ∧
    (maps.search "maps world").1.Perm [⟨768, "*/*/*/*/org.example.World/*"⟩] := by
  have hsame : ∀ word, word ∈ ["maps", "world"] ↔ word ∈ ["world", "maps", "world"] := by
    intro word
    simp only [List.mem_cons, List.not_mem_nil, or_false]
    tauto
  have hcontext : maps.context = (new ⟨{}, {}, ⟨["en"], 4, false, 3⟩⟩ Reader.any).context := rfl
  have hshort : maps.context.queryTokens "maps" ≠ [] := by
    rw [hcontext]
    decide +kernel
  have hjoined : "maps" ++ " " ++ "world" = "maps world" := by decide +kernel
  have hlong : maps.hitOf? "maps world" ⟨0, worldMap, none⟩ =
      some ⟨768, "*/*/*/*/org.example.World/*"⟩ := by decide +kernel
  have htokens : maps.context.queryTokens "maps world" ≠ [] := by
    rw [hcontext]
    decide +kernel
  have hfields : blankFields "maps world" = ["maps", "world"] ∧
      blankFields "world maps world" = ["world", "maps", "world"] := by decide +kernel
  have hrecords : maps.records = [⟨0, worldMap, none⟩] := rfl
  obtain ⟨-, hlonger, -, hwords, hfound⟩ := search_conjunctive maps
  have hhits := hfound "maps world" htokens
  rw [← filterMap_hitOf? htokens, hrecords, List.filterMap_cons_some hlong,
    List.filterMap_nil] at hhits
  refine ⟨hlonger "maps" "world" _ _ hshort (hjoined ▸ hlong), hwords _ _ fun word => ?_, hhits⟩
  rw [hfields.1, hfields.2]
  exact hsame word

end Store

end SoftwareCatalog
