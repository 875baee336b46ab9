import SoftwareCatalog.Component.Basic
import SoftwareCatalog.Proofs.Text.Fields

namespace SoftwareCatalog

namespace UniqueId

/-- A unique ID that has six segments tells the attributes that it was made of. -/
theorem fields_render {u : UniqueId} (h : valid u.render = true) :
    Text.fields '/' u.render = u.segments := by
  apply Text.fields_intercalate
  · simp [segments]
  · exact beq_iff_eq.1 h

theorem segment_id_eq {u v : UniqueId} (h : valid u.render = true) (heq : u.render = v.render) :
    segment u.id = segment v.id := by
  have hsegments : u.segments = v.segments := by
    rw [← fields_render h, heq, fields_render (heq ▸ h)]
  simp only [segments, List.cons.injEq] at hsegments
  exact hsegments.2.2.2.2.1

theorem segment_some {x : String} (h : x ≠ "") : segment (some x) = x := by
  simp [segment, Text.nonEmpty?, h]

/-- An attribute that is set has a text of one segment, which is no wildcard. -/
def PlainText (s : Option String) : Prop := ∀ x ∈ s, x ≠ "" ∧ x ≠ wildcard ∧ '/' ∉ x.toList

instance (s : Option String) : Decidable (PlainText s) := by
  unfold PlainText
  infer_instance

/-- All texts of an identity are plain; none is empty, since an empty text leaves its attribute
unset. -/
structure Plain (u : UniqueId) : Prop where
  origin : PlainText u.origin
  id : PlainText u.id
  branch : PlainText u.branch

instance (u : UniqueId) : Decidable u.Plain :=
  decidable_of_iff (PlainText u.origin ∧ PlainText u.id ∧ PlainText u.branch)
    ⟨fun h => ⟨h.1, h.2.1, h.2.2⟩, fun h => ⟨h.origin, h.id, h.branch⟩⟩

theorem segmentMatches_text {a b : Option String} (ha : PlainText a) (hb : PlainText b) :
    segmentMatches (segment a) (segment b) = Component.agree? a b := by
  cases a with
  | none => simp [segmentMatches, segment, Component.agree?, Component.agree]
  | some x =>
    cases b with
    | none => simp [segmentMatches, segment, Component.agree?, Component.agree]
    | some y =>
      obtain ⟨hx, hxw, -⟩ := ha x rfl
      obtain ⟨hy, hyw, -⟩ := hb y rfl
      rw [segment_some hx, segment_some hy]
      unfold segmentMatches
      rw [beq_eq_false_iff_ne.2 hxw, beq_eq_false_iff_ne.2 hyw]
      simp [Component.agree?, Component.agree]
      rfl

/-- Words that can be read back are told apart by their spelling. -/
theorem segmentMatches_word {κ : Type} [DecidableEq κ] {unset : κ} {name : κ → String}
    {ofName? : String → Option κ} (hread : ∀ {k}, k ≠ unset → ofName? (name k) = some k)
    (hwild : ofName? wildcard = none) (k l : κ) :
    segmentMatches (if k = unset then wildcard else name k)
      (if l = unset then wildcard else name l) = Component.agree unset k l := by
  have hname {m : κ} (hm : m ≠ unset) : name m ≠ wildcard := by
    intro heq
    have hsome := hread hm
    rw [heq, hwild] at hsome
    cases hsome
  by_cases hk : k = unset
  · simp [segmentMatches, Component.agree, hk]
  · by_cases hl : l = unset
    · simp [segmentMatches, Component.agree, hl]
    · have hinj : name k = name l ↔ k = l := by
        constructor
        · intro heq
          exact Option.some.inj ((hread hk).symm.trans (heq ▸ hread hl))
        · exact fun heq => heq ▸ rfl
      rw [if_neg hk, if_neg hl]
      unfold segmentMatches
      rw [beq_eq_false_iff_ne.2 (hname hk), beq_eq_false_iff_ne.2 (hname hl)]
      simp [Component.agree, hk, hl, ← hinj]
      rfl

/-- No text of an identity is written as more than one segment. -/
structure Unbroken (u : UniqueId) : Prop where
  origin : ∀ x ∈ u.origin, '/' ∉ x.toList
  id : ∀ x ∈ u.id, '/' ∉ x.toList
  branch : ∀ x ∈ u.branch, '/' ∉ x.toList

instance (u : UniqueId) : Decidable u.Unbroken :=
  decidable_of_iff ((∀ x ∈ u.origin, '/' ∉ x.toList) ∧ (∀ x ∈ u.id, '/' ∉ x.toList) ∧
      ∀ x ∈ u.branch, '/' ∉ x.toList)
    ⟨fun h => ⟨h.1, h.2.1, h.2.2⟩, fun h => ⟨h.origin, h.id, h.branch⟩⟩

theorem Plain.unbroken {u : UniqueId} (h : u.Plain) : u.Unbroken where
  origin x hx := (h.origin x hx).2.2
  id x hx := (h.id x hx).2.2
  branch x hx := (h.branch x hx).2.2

theorem separator_not_mem_segment {s : Option String} (h : ∀ x ∈ s, '/' ∉ x.toList) :
    '/' ∉ (segment s).toList := by
  cases s with
  | none => decide
  | some x =>
    by_cases hx : x = ""
    · rw [hx]
      decide
    · rw [segment_some hx]
      exact h x rfl

theorem separator_not_mem_segments {u : UniqueId} (h : u.Unbroken) :
    ∀ s ∈ u.segments, '/' ∉ s.toList := by
  have hscope : ∀ k : Scope, '/' ∉ (if k = .unset then wildcard else k.name).toList := by
    intro k
    cases k <;> decide
  have hbundle : ∀ k : BundleKind, '/' ∉ (if k = .unset then wildcard else k.name).toList := by
    intro k
    cases k <;> decide
  have hkind : ∀ k : ComponentKind, '/' ∉ (if k = .unset then wildcard else k.name).toList := by
    intro k
    cases k <;> decide
  simp only [segments, List.forall_mem_cons, List.not_mem_nil, false_imp_iff, implies_true,
    and_true]
  exact ⟨hscope _, hbundle _, separator_not_mem_segment h.origin, hkind _,
    separator_not_mem_segment h.id, separator_not_mem_segment h.branch⟩

/-- Unique IDs of such texts have the segments that they were made of. -/
theorem Unbroken.fields_render {u : UniqueId} (h : u.Unbroken) :
    Text.fields '/' u.render = u.segments :=
  Text.fields_intercalate_of_not_mem (by simp [segments]) (separator_not_mem_segments h)

theorem Unbroken.valid_render {u : UniqueId} (h : u.Unbroken) : valid u.render = true := by
  unfold valid
  rw [h.fields_render]
  rfl

theorem ofSegment_segment {x : String} (hx : x ≠ "") (hw : x ≠ wildcard) :
    ofSegment (segment (some x)) = some x := by
  rw [segment_some hx]
  simp [ofSegment, hw, Text.nonEmpty?, hx]

/-- Such a unique ID is read back with the ID that it was made of. -/
theorem Unbroken.parse_id {u : UniqueId} (h : u.Unbroken) {x : String} (hid : u.id = some x)
    (hx : x ≠ "") (hw : x ≠ wildcard) : (parse u.render).toOption.bind (·.id) = some x := by
  have hread : (parse u.render).toOption.bind (·.id) = ofSegment (segment u.id) := by
    unfold parse
    rw [h.fields_render]
    rfl
  rw [hread, hid, ofSegment_segment hx hw]

/-- The segments agree where the attributes do. -/
theorem Plain.all_segmentMatches {u v : UniqueId} (hu : u.Plain) (hv : v.Plain) :
    ((u.segments.zip v.segments).all fun p => segmentMatches p.1 p.2) =
      (Component.agree .unset u.scope v.scope &&
        Component.agree .unset u.bundleKind v.bundleKind &&
        Component.agree? u.origin v.origin && Component.agree .unset u.kind v.kind &&
        Component.agree? u.id v.id && Component.agree? u.branch v.branch) := by
  rw [← segmentMatches_word Scope.ofName?_name rfl, ← segmentMatches_word BundleKind.ofName?_name rfl,
    ← segmentMatches_word ComponentKind.ofName?_name rfl,
    ← segmentMatches_text hu.origin hv.origin, ← segmentMatches_text hu.id hv.id,
    ← segmentMatches_text hu.branch hv.branch]
  simp [segments, Bool.and_assoc]

theorem segmentMatches_self (x : String) : segmentMatches x x = true := by
  simp [segmentMatches]

/-- Texts of six segments agree where their segments do one by one. -/
theorem agrees_iff_of_valid {a b : String} (ha : valid a = true) (hb : valid b = true) :
    agrees a b = true ↔ ((Text.fields '/' a).zip (Text.fields '/' b)).all
      (fun p => segmentMatches p.1 p.2) = true := by
  unfold agrees
  rw [ha, hb, Bool.true_and, Bool.true_and, Bool.or_eq_true, or_iff_right_iff_imp]
  intro heq
  rw [beq_iff_eq.1 heq, List.all_eq_true]
  intro p hp
  obtain ⟨i, hi, rfl⟩ := List.mem_iff_getElem.1 hp
  rw [List.getElem_zip]
  exact segmentMatches_self _

/-- Other texts agree with themselves only. -/
theorem valid_of_agrees {a b : String} (h : agrees a b = true) (hb : valid b = true) :
    valid a = true := by
  by_cases heq : a = b
  · rw [heq, hb]
  · simp_all [agrees]

theorem Unbroken.agrees_iff {u v : UniqueId} (hu : u.Unbroken) (hv : v.Unbroken) :
    agrees u.render v.render = true ↔
      ((u.segments.zip v.segments).all fun p => segmentMatches p.1 p.2) = true := by
  rw [agrees_iff_of_valid hu.valid_render hv.valid_render, hu.fields_render, hv.fields_render]

end UniqueId

/-- Components with one unique ID of six segments have one ID. -/
theorem Component.id_eq_of_uniqueId {c d : Component} {x y : String} (hc : c.id = some x)
    (hx : x ≠ "") (hd : d.id = some y) (hy : y ≠ "") (heq : c.uniqueId = d.uniqueId)
    (h : UniqueId.valid c.uniqueId = true) : x = y := by
  have hsegment : UniqueId.segment c.id = UniqueId.segment d.id := UniqueId.segment_id_eq h heq
  rw [hc, hd, UniqueId.segment_some hx, UniqueId.segment_some hy] at hsegment
  exact hsegment

/-- Two records can describe the same component if and only if their unique IDs agree and so do
their first architectures, where each side has one. -/
theorem Component.sameIdentity_iff_agrees {c d : Component} (hc : c.identity.Plain)
    (hd : d.identity.Plain) : c.sameIdentity d = true ↔
      UniqueId.agrees c.uniqueId d.uniqueId = true ∧
        (c.architectures = [] ∨ d.architectures = [] ∨
          c.architectures.head? = d.architectures.head?) := by
  have harchitecture : agree? c.architectures.head? d.architectures.head? = true ↔
      c.architectures = [] ∨ d.architectures = [] ∨
        c.architectures.head? = d.architectures.head? := by
    simp [agree?, agree, or_assoc]
  have hagrees : UniqueId.agrees c.uniqueId d.uniqueId = true ↔
      ((c.identity.segments.zip d.identity.segments).all fun p =>
        UniqueId.segmentMatches p.1 p.2) = true := hc.unbroken.agrees_iff hd.unbroken
  rw [hagrees, hc.all_segmentMatches hd, ← harchitecture, ← Bool.and_eq_true]
  rfl

/-- A map that a repository offers as a bundle. -/
def Component.offeredMaps : Component :=
  { id := some "org.example.Maps", kind := .desktop, origin := some "flathub"
    bundles := [⟨.flatpak, "app/org.example.Maps", none, none⟩], architectures := ["x86_64"] }

/-- The same map as a user has it installed. -/
def Component.installedMaps : Component :=
  { id := some "org.example.Maps", scope := .user, branch := some "stable"
    architectures := ["x86_64", "aarch64"] }

theorem Component.sameIdentity_maps : offeredMaps.identity.Plain ∧ installedMaps.identity.Plain ∧
    offeredMaps.sameIdentity installedMaps = true := by
  have hoffered : offeredMaps.identity.Plain := by decide +kernel
  have hinstalled : installedMaps.identity.Plain := by decide +kernel
  refine ⟨hoffered, hinstalled, (sameIdentity_iff_agrees hoffered hinstalled).2 ⟨?_, ?_⟩⟩
  · decide +kernel
  · exact .inr (.inr rfl)

end SoftwareCatalog
