import SoftwareCatalog.Proofs.Store.SameCatalog

namespace SoftwareCatalog.Store

/-- A component in a new record, which only its ID leads to. -/
def placed (s : Store) (c : Component) : Store :=
  { s with
    nextKey := s.nextKey + 1
    records := s.records ++ [.ofComponent s.nextKey c]
    keysById := c.id.toList.foldl (fun m id => m.modifyD id [] (· ++ [s.nextKey])) s.keysById }

/-- A record gone, and its ID no longer leads to it. -/
def dropped (s : Store) (key : Nat) (c : Component) : Store :=
  { s with
    records := s.records.filter (·.key ≠ key)
    keysById := c.id.toList.foldl (fun m id => dropKey m id key) s.keysById }

/-- A component attached, if it is an addon. -/
def linked (s : Store) (c : Component) : Store := if c.kind = .addon then s.link c else s

/-- A component detached under a unique ID, if it is an addon. -/
def unlinked (s : Store) (c : Component) (u : String) : Store :=
  if c.kind = .addon then s.unlink c.extendedIds u else s

/-- The unique ID that a component had is free, if it is no longer the component's. -/
def renamed (s : Store) (key : Nat) (c : Component) (previous : String) : Store :=
  if previous ≠ c.uniqueId then s.unindex key c.id previous else s

/-- Package names no longer lead to a record. -/
def unnamed (s : Store) (key : Nat) (c : Component) : Store :=
  { s with keyByPkgname := s.keyByPkgname.filter fun p k => !(k == key && c.pkgnames.contains p) }

theorem insert_eq (s : Store) (c : Component) : s.insert c =
    (((s.placed c).index s.nextKey c).linked c).announce (.added c.uniqueId) := rfl

variable {s : Store} {key : Nat} {c : Component}

theorem refresh_of_none (hc : s.find? key = none) (previous : String) :
    s.refresh key previous = s := by
  unfold refresh
  rw [hc]

theorem refresh_eq (hc : s.find? key = some c) (previous : String) : s.refresh key previous =
    (((((s.unlinked c previous).linked c).renamed key c previous).index key c).announce
      (.modified c.uniqueId)) := by
  have hlinked : (s.unlinked c previous).linked c =
      if c.kind = .addon then (s.unlink c.extendedIds previous).link c else s := by
    unfold linked unlinked
    split <;> rfl
  unfold refresh
  rw [hc, hlinked]
  rfl

theorem removeKey_of_none (hc : s.find? key = none) : s.removeKey key = s := by
  unfold removeKey
  rw [hc]

theorem removeKey_eq (hc : s.find? key = some c) : s.removeKey key =
    (((((s.dropped key c).unindex key c.id c.uniqueId).unlinked c c.uniqueId).unnamed key
      c).announce (.removed c.uniqueId)) := by
  unfold removeKey
  rw [hc]
  rfl

theorem update_of_none (hc : s.find? key = none) (f : Component → Component) :
    s.update key f = s := by
  unfold update
  rw [hc]

theorem update_eq (hc : s.find? key = some c) (f : Component → Component) : s.update key f =
    (s.modify key fun r => r.replace (f c)).refresh key c.uniqueId := by
  unfold update
  rw [hc]

theorem exists_linked (s : Store) (c : Component) : ∃ records, s.linked c = { s with records } := by
  unfold linked
  split
  · exact ⟨_, rfl⟩
  · exact ⟨s.records, rfl⟩

theorem exists_unlinked (s : Store) (c : Component) (u : String) :
    ∃ records, s.unlinked c u = { s with records } := by
  unfold unlinked
  split
  · exact ⟨_, rfl⟩
  · exact ⟨s.records, rfl⟩

theorem exists_unindex (s : Store) (key : Nat) (id : Option String) (u : String) :
    ∃ keyByUniqueId, s.unindex key id u = { s with keyByUniqueId } := by
  unfold unindex reindex
  split
  · split <;> exact ⟨_, rfl⟩
  · exact ⟨s.keyByUniqueId, rfl⟩

theorem exists_renamed (s : Store) (key : Nat) (c : Component) (previous : String) :
    ∃ keyByUniqueId, s.renamed key c previous = { s with keyByUniqueId } := by
  unfold renamed
  split
  · exact s.exists_unindex key c.id previous
  · exact ⟨s.keyByUniqueId, rfl⟩

theorem exists_attachAddons (s : Store) : ∃ records, s.attachAddons.2 = { s with records } := by
  have hfold (links : List (Nat × String)) (t : Store) : ∃ records,
      links.foldl (fun t l => t.modify l.1 (Record.attach l.2)) t = { t with records } := by
    induction links generalizing t with
    | nil => exact ⟨t.records, rfl⟩
    | cons l links ih => exact ih (t.modify l.1 (Record.attach l.2))
  exact hfold _ { s with records := s.records.map Record.detachAll }

theorem exists_insert (s : Store) (c : Component) : ∃ records, s.insert c =
    ({ (s.placed c).index s.nextKey c with records } : Store).announce (.added c.uniqueId) := by
  obtain ⟨records, hlinked⟩ := ((s.placed c).index s.nextKey c).exists_linked c
  rw [insert_eq, hlinked]
  exact ⟨records, rfl⟩

theorem exists_refresh (hc : s.find? key = some c) (previous : String) :
    ∃ records keyByUniqueId, s.refresh key previous =
      (({ s with records, keyByUniqueId } : Store).index key c).announce (.modified c.uniqueId) := by
  obtain ⟨_, hunlinked⟩ := s.exists_unlinked c previous
  obtain ⟨records, hlinked⟩ := (s.unlinked c previous).exists_linked c
  obtain ⟨keyByUniqueId, hrenamed⟩ :=
    ((s.unlinked c previous).linked c).exists_renamed key c previous
  rw [refresh_eq hc, hrenamed, hlinked, hunlinked]
  exact ⟨records, keyByUniqueId, rfl⟩

theorem exists_removeKey (hc : s.find? key = some c) :
    ∃ records keyByUniqueId, s.removeKey key =
      (({ s.dropped key c with records, keyByUniqueId } : Store).unnamed key c).announce
        (.removed c.uniqueId) := by
  obtain ⟨keyByUniqueId, hfreed⟩ := (s.dropped key c).exists_unindex key c.id c.uniqueId
  obtain ⟨records, hunlinked⟩ :=
    ((s.dropped key c).unindex key c.id c.uniqueId).exists_unlinked c c.uniqueId
  rw [removeKey_eq hc, hunlinked, hfreed]
  exact ⟨records, keyByUniqueId, rfl⟩

theorem sameCatalog_linked (s : Store) (c : Component) : SameCatalog s (s.linked c) := by
  unfold linked
  split
  · exact s.sameCatalog_link c
  · exact .refl s

theorem sameCatalog_unlinked (s : Store) (c : Component) (u : String) :
    SameCatalog s (s.unlinked c u) := by
  unfold unlinked
  split
  · exact s.sameCatalog_unlink _ u
  · exact .refl s

end SoftwareCatalog.Store
