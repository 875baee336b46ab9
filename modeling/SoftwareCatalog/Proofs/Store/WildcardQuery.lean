import SoftwareCatalog.Proofs.Component.CanonicalId
import SoftwareCatalog.Proofs.Store.PrimaryIndex

namespace SoftwareCatalog

/-- A unique ID that tells an ID is met only by what has this ID, or a wildcard in its place. What
it is made of may have separators in its texts: it then has too many segments to be met. -/
theorem UniqueId.id_eq_of_agrees {u v : UniqueId} {s x y : String} (hparse : parse s = .ok v)
    (hv : v.id = some x) (hu : u.id = some y) (hy : y ≠ "") (hw : y ≠ wildcard)
    (h : agrees u.render s = true) : y = x := by
  obtain ⟨scope, bundleKind, origin, kind, id, branch, hfields, -, hid, -⟩ :=
    exists_fields_of_parse hparse
  obtain ⟨rfl, -, hx⟩ := ofSegment_eq_some (hid.symm.trans hv)
  have hvalid : valid s = true := valid_iff_parse.2 ⟨v, hparse⟩
  have hrender := valid_of_agrees h hvalid
  have hsegment : segmentMatches (segment u.id) id = true := by
    rw [agrees_iff_of_valid hrender hvalid, fields_render hrender, hfields] at h
    simp only [segments, List.zip_cons_cons, List.zip_nil_right, List.all_cons, List.all_nil,
      Bool.and_eq_true] at h
    exact h.2.2.2.2.1
  rw [hu, segment_some hy] at hsegment
  simpa [segmentMatches, hw, hx] using hsegment

namespace Store

variable {s : Store} {u : String}

/-- A query that is narrowed to the records of one ID leaves nothing out. -/
theorem WellIndexed.agreeing_eq (h : s.WellIndexed)
    (hwild : ∀ c ∈ s.components, c.id ≠ some UniqueId.wildcard) :
    s.agreeing u = s.components.filter fun c => UniqueId.agrees c.uniqueId u := by
  unfold agreeing
  cases hparse : UniqueId.parse u with
  | error e => rfl
  | ok v =>
    cases hid : v.id with
    | none => simp [Except.toOption, hid]
    | some x =>
      have hnarrowed : ∀ c ∈ s.components,
          UniqueId.agrees c.uniqueId u = true → (c.id == some x) = true := by
        intro c hc hagrees
        obtain ⟨y, hy, hne⟩ := h.named_component hc
        have hset : y ≠ UniqueId.wildcard := fun heq => hwild c hc (heq ▸ hy)
        have hsame : y = x := UniqueId.id_eq_of_agrees hparse hid hy hne hset hagrees
        rw [hy, hsame, beq_self_eq_true]
      simp only [Except.toOption, Option.bind_some, hid]
      rw [h.byId_eq, List.filter_filter]
      apply List.filter_congr
      intro c hc
      cases hagrees : UniqueId.agrees c.uniqueId u with
      | false => rfl
      | true => rw [hnarrowed c hc hagrees, Bool.and_self]

/-- In every catalog that operations lead to, a query by unique ID with wildcards answers all
components with a unique ID that agrees, in their order, whatever text is asked for. No ID may be a
wildcard itself: such a component agrees with more than its own ID. -/
theorem agreeing_exact {settings : Settings} {reader : Reader} (hr : reader.Proper) {s : Store}
    (h : Reachable settings reader s)
    (hwild : ∀ c ∈ s.components, c.id ≠ some UniqueId.wildcard) (u : String) :
    s.agreeing u = s.components.filter fun c => UniqueId.agrees c.uniqueId u :=
  (h.wellIndexed hr).agreeing_eq hwild

/-- A tool as one of several sources offers it. -/
def offeredBy (origin : String) : Component :=
  { Component.ofId "org.example.Tool" with origin := some origin }

/-- The name of one source has a separator: the unique ID has seven segments and does not agree. -/
theorem agreeing_two_offers :
    Reader.any.Proper ∧
    (((new ⟨⟨true, false, false⟩, {}, ⟨["en"], 4, true, 3⟩⟩ Reader.any).run
      [.add (offeredBy "testing/daily"), .add (offeredBy "stable")]).agreeing
        "*/*/*/*/org.example.Tool/*") = [offeredBy "stable"] := by
  refine ⟨Reader.proper_any, ?_⟩
  have hproper : ∀ op ∈ [Operation.add (offeredBy "testing/daily"), .add (offeredBy "stable")],
      op.Proper := by
    have hid (origin : String) : (offeredBy origin).Proper :=
      Component.proper_setId {} "org.example.Tool"
    simp [Operation.Proper, hid]
  have hreach : Reachable ⟨⟨true, false, false⟩, {}, ⟨["en"], 4, true, 3⟩⟩ Reader.any _ :=
    ⟨_, hproper, rfl⟩
  rw [agreeing_exact Reader.proper_any hreach (by decide +kernel)]
  decide +kernel

end Store

end SoftwareCatalog
