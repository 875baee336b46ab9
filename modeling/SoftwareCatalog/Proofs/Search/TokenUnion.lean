import SoftwareCatalog.Proofs.Search.ExactHits

namespace SoftwareCatalog.Search.TokenCache

variable {ctx : Context} {c : Component} {addons : List Component} {token : String}

theorem get?_ofEntries_eq_none {es : List (String × Nat)} :
    (ofEntries es).get? token = none ↔ ∀ e ∈ es, e.1 ≠ token := by
  have hsome := @isSome_ofEntries es token
  rw [← not_iff_not, ← ne_eq, ← Option.isSome_iff_ne_none, hsome]
  push Not
  rfl

theorem ofEntries_congr {es fs : List (String × Nat)} (h : ∀ e, e ∈ es ↔ e ∈ fs) :
    ofEntries es = ofEntries fs := by
  apply TokenCache.ext
  apply TextMap.ext_get?
  intro token
  change (ofEntries es).get? token = (ofEntries fs).get? token
  cases hes : (ofEntries es).get? token with
  | none =>
    rw [get?_ofEntries_eq_none] at hes
    exact (get?_ofEntries_eq_none.2 fun e he => hes e ((h e).2 he)).symm
  | some w =>
    obtain ⟨e, he, hkey⟩ := isSome_ofEntries.1 (Option.isSome_of_eq_some hes)
    obtain ⟨v, hfs⟩ := Option.isSome_iff_exists.1 (isSome_ofEntries.2 ⟨e, (h e).1 he, hkey⟩)
    rw [hfs, Option.some_inj]
    apply Nat.eq_of_testBit_eq
    intro i
    rw [Bool.eq_iff_iff, testBit_ofEntries hes, testBit_ofEntries hfs]
    simp only [h]

/-- Every token of `t` is one of `u`, with all its weights. -/
def Grows (t u : TokenCache) : Prop :=
  ∀ token w, t.get? token = some w → ∃ v, u.get? token = some v ∧ v &&& w = w

theorem grows_ofEntries {es fs : List (String × Nat)} (h : es ⊆ fs) :
    Grows (ofEntries es) (ofEntries fs) := by
  intro token w hes
  obtain ⟨e, he, hkey⟩ := isSome_ofEntries.1 (Option.isSome_of_eq_some hes)
  obtain ⟨v, hfs⟩ := Option.isSome_iff_exists.1 (isSome_ofEntries.2 ⟨e, h he, hkey⟩)
  refine ⟨v, hfs, and_eq_right_iff.2 fun i hi => ?_⟩
  obtain ⟨f, hf, hbit⟩ := (testBit_ofEntries hes).1 hi
  exact (testBit_ofEntries hfs).2 ⟨f, h hf, hbit⟩

theorem foldl_addComponent (t : TokenCache) (cs : List Component) :
    cs.foldl (addComponent ctx) t = (cs.flatMap (entriesOf ctx)).foldl insert t := by
  rw [List.foldl_flatMap]
  rfl

theorem build_eq_ofEntries (ctx : Context) (c : Component) (addons : List Component) :
    build ctx c addons = ofEntries ((c :: addons).flatMap (entriesOf ctx)) :=
  foldl_addComponent empty (c :: addons)

theorem get?_build_eq_none : (build ctx c addons).get? token = none ↔
    ∀ x ∈ c :: addons, (build ctx x []).get? token = none := by
  simp only [build_eq_ofEntries ctx c addons, build_alone, get?_ofEntries_eq_none, List.mem_flatMap]
  constructor
  · exact fun h x hx e he => h e ⟨x, hx, he⟩
  · rintro h e ⟨x, hx, he⟩
    exact h x hx e he

/-- A token has a weight if it has it in one of the parts. -/
theorem testBit_build {w i : Nat} (h : (build ctx c addons).get? token = some w) :
    w.testBit i = true ↔
      ∃ x ∈ c :: addons, ∃ v, (build ctx x []).get? token = some v ∧ v.testBit i = true := by
  rw [build_eq_ofEntries] at h
  simp only [testBit_ofEntries h, List.mem_flatMap]
  constructor
  · rintro ⟨e, ⟨x, hx, he⟩, hkey, hbit⟩
    obtain ⟨v, hv⟩ := Option.isSome_iff_exists.1 (isSome_ofEntries.2 ⟨e, he, hkey⟩)
    exact ⟨x, hx, v, hv, (testBit_ofEntries hv).2 ⟨e, he, hkey, hbit⟩⟩
  · rintro ⟨x, hx, v, hv, hbit⟩
    obtain ⟨e, he, hkey, hbit⟩ := (testBit_ofEntries hv).1 hbit
    exact ⟨e, ⟨x, hx, he⟩, hkey, hbit⟩

/-- The weights of a token in the parts that have it, together. -/
def unitedWeight (ctx : Context) (cs : List Component) (token : String) : Nat :=
  (cs.filterMap fun x => (build ctx x []).get? token).foldl (fun w v => w ||| v) 0

theorem get?_build {w : Nat} (h : (build ctx c addons).get? token = some w) :
    w = unitedWeight ctx (c :: addons) token := by
  apply Nat.eq_of_testBit_eq
  intro i
  rw [Bool.eq_iff_iff, testBit_build h, unitedWeight, testBit_foldl_or, Nat.zero_testBit,
    Bool.false_or, List.any_eq_true]
  simp only [List.mem_filterMap]
  constructor
  · rintro ⟨x, hx, v, hv, hbit⟩
    exact ⟨v, ⟨x, hx, hv⟩, hbit⟩
  · rintro ⟨v, ⟨x, hx, hv⟩, hbit⟩
    exact ⟨x, hx, v, hv, hbit⟩

theorem subset_flatMap_entriesOf {cs ds : List Component} (h : cs ⊆ ds) :
    cs.flatMap (entriesOf ctx) ⊆ ds.flatMap (entriesOf ctx) := by
  intro e he
  obtain ⟨x, hx, he⟩ := List.mem_flatMap.1 he
  exact List.mem_flatMap.2 ⟨x, h hx, he⟩

/-- A component with addons has the tokens of each of them and no others, a token with all the
weights that it has in them. So the order of the addons and their repetition do not matter, and with
more addons no token and no weight goes. -/
theorem build_union (ctx : Context) (c : Component) (addons : List Component) :
    (∀ token, ((build ctx c addons).get? token = none ↔
        ∀ x ∈ c :: addons, (build ctx x []).get? token = none) ∧
      ∀ w, (build ctx c addons).get? token = some w →
        w = unitedWeight ctx (c :: addons) token) ∧
    (∀ others, (∀ x, x ∈ addons ↔ x ∈ others) → build ctx c addons = build ctx c others) ∧
    ∀ more, addons ⊆ more → Grows (build ctx c addons) (build ctx c more) := by
  refine ⟨fun token => ⟨get?_build_eq_none, fun w => get?_build⟩, ?_, ?_⟩
  · intro others hsame
    rw [build_eq_ofEntries, build_eq_ofEntries]
    have hforth : c :: addons ⊆ c :: others := List.cons_subset_cons c fun x => (hsame x).1
    have hback : c :: others ⊆ c :: addons := List.cons_subset_cons c fun x => (hsame x).2
    exact ofEntries_congr fun e =>
      ⟨fun he => subset_flatMap_entriesOf hforth he, fun he => subset_flatMap_entriesOf hback he⟩
  · intro more hmore
    rw [build_eq_ofEntries, build_eq_ofEntries]
    exact grows_ofEntries (subset_flatMap_entriesOf (List.cons_subset_cons c hmore))

/-- A plugin for routes on a map. -/
def routePlugin : Component := { names := TextMap.empty.insert "en" "Map routes" }

/-- What the plugin comes with. -/
def routeData : Component := { comments := TextMap.empty.insert "en" "Routes" }

/-- A word from the name of one plugin and the comment of the other. -/
theorem routes_united :
    build unstemmed mappingMap [routePlugin, routeData, routePlugin] =
      build unstemmed mappingMap [routeData, routePlugin] ∧
    (build unstemmed mappingMap [routePlugin, routeData, routePlugin]).get? "routes" = some 96 ∧
    Grows (build unstemmed mappingMap [routeData])
      (build unstemmed mappingMap [routeData, routePlugin]) := by
  have hsame : ∀ x, x ∈ [routePlugin, routeData, routePlugin] ↔ x ∈ [routeData, routePlugin] := by
    intro x
    simp only [List.mem_cons, List.not_mem_nil, or_false]
    tauto
  have hequal := (build_union unstemmed mappingMap [routePlugin, routeData, routePlugin]).2.1
    [routeData, routePlugin] hsame
  have hmore : [routeData] ⊆ [routeData, routePlugin] := by simp
  refine ⟨hequal, ?_, (build_union unstemmed mappingMap [routeData]).2.2 _ hmore⟩
  rw [hequal]
  decide +kernel

end SoftwareCatalog.Search.TokenCache
