import SoftwareCatalog.Proofs.Component.UniqueId

namespace SoftwareCatalog

/-- A word is read back from its spelling, and the default one from a wildcard. -/
theorem Word.read_spelling {α : Type} [Word α] [Inhabited α] [DecidableEq α]
    (hread : ∀ {k : α}, k ≠ default → ofName? (name k) = some k)
    (hwild : (ofName? UniqueId.wildcard : Option α) = none) (k : α) :
    read (some (if k = default then UniqueId.wildcard else name k)) = k := by
  by_cases hk : k = default
  · simp [read, hk, hwild]
  · simp [read, hk, hread hk]

namespace UniqueId

theorem ofSegment_eq_some {s x : String} (h : ofSegment s = some x) :
    s = x ∧ x ≠ "" ∧ x ≠ wildcard := by
  unfold ofSegment Text.nonEmpty? at h
  by_cases hw : s = wildcard
  · simp [hw] at h
  · by_cases hs : s = ""
    · simp [hs] at h
    · have hx : s = x := by simpa [hw, hs] using h
      exact ⟨hx, hx ▸ hs, hx ▸ hw⟩

/-- The text of a piece is plain, whatever the piece is. -/
theorem plainText_ofSegment {piece : String} (h : '/' ∉ piece.toList) :
    PlainText (ofSegment piece) := by
  intro x hx
  obtain ⟨rfl, hne, hw⟩ := ofSegment_eq_some hx
  exact ⟨hne, hw, h⟩

/-- Six segments are read one by one. -/
theorem exists_fields_of_parse {s : String} {u : UniqueId} (h : parse s = .ok u) :
    ∃ scope bundleKind origin kind id branch,
      Text.fields '/' s = [scope, bundleKind, origin, kind, id, branch] ∧
      u.origin = ofSegment origin ∧ u.id = ofSegment id ∧ u.branch = ofSegment branch := by
  unfold parse at h
  split at h
  · rename_i scope bundleKind origin kind id branch hfields
    cases h
    exact ⟨scope, bundleKind, origin, kind, id, branch, hfields, rfl, rfl, rfl⟩
  · cases h

theorem valid_iff_parse {s : String} : valid s = true ↔ ∃ u, parse s = .ok u := by
  constructor
  · intro h
    have hlength : (Text.fields '/' s).length = 6 := by simpa [valid] using h
    obtain ⟨scope, bundleKind, origin, kind, id, branch, hfields⟩ :
        ∃ scope bundleKind origin kind id branch,
          Text.fields '/' s = [scope, bundleKind, origin, kind, id, branch] := by
      match hs : Text.fields '/' s, hlength with
      | [a, b, c, d, e, f], _ => exact ⟨a, b, c, d, e, f, rfl⟩
    exact ⟨_, by rw [parse, hfields]⟩
  · rintro ⟨u, h⟩
    obtain ⟨scope, bundleKind, origin, kind, id, branch, hfields, -⟩ := exists_fields_of_parse h
    simp [valid, hfields]

/-- What is read has plain texts: a piece has no separators in it, and wildcards and empty pieces
leave their attributes unset. -/
theorem plain_of_parse {s : String} {u : UniqueId} (h : parse s = .ok u) : u.Plain := by
  obtain ⟨scope, bundleKind, origin, kind, id, branch, hfields, horigin, hid, hbranch⟩ :=
    exists_fields_of_parse h
  have hpieces : ∀ piece ∈ [scope, bundleKind, origin, kind, id, branch], '/' ∉ piece.toList :=
    fun piece hpiece => Text.separator_not_mem_field (hfields ▸ hpiece)
  simp only [List.forall_mem_cons] at hpieces
  obtain ⟨-, -, hsepOrigin, -, hsepId, hsepBranch, -⟩ := hpieces
  exact {
    origin := horigin ▸ plainText_ofSegment hsepOrigin
    id := hid ▸ plainText_ofSegment hsepId
    branch := hbranch ▸ plainText_ofSegment hsepBranch }

theorem PlainText.ofSegment_segment {s : Option String} (h : PlainText s) :
    ofSegment (segment s) = s := by
  cases s with
  | none => simp [segment, ofSegment]
  | some x => exact UniqueId.ofSegment_segment (h x rfl).1 (h x rfl).2.1

theorem Plain.parse_render {u : UniqueId} (h : u.Plain) : parse u.render = .ok u := by
  have hscope := Word.read_spelling Scope.ofName?_name rfl u.scope
  have hbundleKind := Word.read_spelling BundleKind.ofName?_name rfl u.bundleKind
  have hkind := Word.read_spelling ComponentKind.ofName?_name rfl u.kind
  have horigin := h.origin.ofSegment_segment
  have hid := h.id.ofSegment_segment
  have hbranch := h.branch.ofSegment_segment
  rw [parse, h.unbroken.fields_render]
  exact congrArg Except.ok (UniqueId.ext hscope hbundleKind horigin hkind hid hbranch)

end UniqueId

namespace Component

/-- The kind of the bundle of a query object is the one that was asked for. -/
theorem bundleKind_ofIdentity (u : UniqueId) : (ofIdentity u).bundleKind = u.bundleKind := by
  by_cases hkind : u.bundleKind = .unset
  · simp [bundleKind, ofIdentity, hkind]
  · simp [bundleKind, ofIdentity, hkind]

theorem identity_ofIdentity (u : UniqueId) : (ofIdentity u).identity = u := by
  simp only [identity, bundleKind_ofIdentity]
  rfl

theorem uniqueId_ofIdentity (u : UniqueId) : (ofIdentity u).uniqueId = u.render := by
  rw [uniqueId, identity_ofIdentity]

end Component

namespace UniqueId

/-- Unique IDs are the texts of six segments. Writing what was read yields a text that is read in
the same way, which is also the unique ID of the query object; a text that is refused is refused
for the query object too. -/
theorem parse_canonical (s : String) :
    ((∃ u, parse s = .ok u) ↔ valid s = true) ∧
      (∀ u, parse s = .ok u → parse u.render = .ok u ∧
        ∃ c, Component.ofUniqueId s = .ok c ∧ c.uniqueId = u.render) ∧
      ∀ e, parse s = .error e → Component.ofUniqueId s = .error e := by
  refine ⟨valid_iff_parse.symm, ?_, ?_⟩
  · intro u hu
    have hquery : Component.ofUniqueId s = .ok (Component.ofIdentity u) := by
      rw [Component.ofUniqueId, hu]
      rfl
    exact ⟨(plain_of_parse hu).parse_render, _, hquery, Component.uniqueId_ofIdentity u⟩
  · intro e he
    rw [Component.ofUniqueId, he]
    rfl

/-- Unknown words, other spellings and empty segments are not written again. -/
theorem parse_canonical_spellings :
    (∃ c, Component.ofUniqueId "shared/flatpak/*/desktop-app/org.example.Tool/" = .ok c ∧
      c.uniqueId = "*/flatpak/*/desktop/org.example.Tool/*") ∧
    Component.ofUniqueId "system/desktop/foo" =
      .error (.invalidUniqueId "system/desktop/foo") := by
  have hread : parse "shared/flatpak/*/desktop-app/org.example.Tool/" = .ok
      ⟨.unset, .flatpak, none, .desktop, some "org.example.Tool", none⟩ := by cbv
  have hfailed : parse "system/desktop/foo" = .error (.invalidUniqueId "system/desktop/foo") := by
    cbv
  obtain ⟨-, hok, -⟩ := parse_canonical "shared/flatpak/*/desktop-app/org.example.Tool/"
  obtain ⟨-, c, hc, huniqueId⟩ := hok _ hread
  refine ⟨⟨c, hc, huniqueId.trans (by cbv)⟩, ?_⟩
  exact (parse_canonical "system/desktop/foo").2.2 _ hfailed

end UniqueId

end SoftwareCatalog
