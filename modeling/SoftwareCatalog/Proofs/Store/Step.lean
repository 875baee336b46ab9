import Mathlib.Logic.Relation
import SoftwareCatalog.Proofs.Store.Encounter

namespace SoftwareCatalog

open Relation

/-- The ID of a component is not the empty text. -/
def Component.Proper (c : Component) : Prop := c.id ≠ some ""

instance (c : Component) : Decidable c.Proper := inferInstanceAs (Decidable (c.id ≠ some ""))

theorem Component.proper_setId (c : Component) (id : String) : (c.setId id).Proper := by
  unfold Proper setId Text.nonEmpty?
  by_cases h : id = "" <;> simp [h]

theorem Component.proper_of_id {c : Component} (h : ∃ x, c.id = some x ∧ x ≠ "") : c.Proper := by
  obtain ⟨x, hid, hx⟩ := h
  intro hempty
  exact hx (Option.some.inj (hid.symm.trans hempty))

namespace Store

/-- Two catalogs with the same records and the same ways to them. -/
structure SameIndices (s t : Store) : Prop where
  settings : t.settings = s.settings
  reader : t.reader = s.reader
  entries : t.entries = s.entries
  nextKey : t.nextKey = s.nextKey
  keysById : t.keysById = s.keysById
  keyByUniqueId : t.keyByUniqueId = s.keyByUniqueId

theorem SameCatalog.sameIndices {s t : Store} (h : SameCatalog s t) : SameIndices s t :=
  ⟨h.settings, h.reader, h.entries, h.nextKey, h.keysById, h.keyByUniqueId⟩

/-- One such change. -/
inductive Edit (s : Store) : Store → Prop
  | same {t : Store} (h : SameIndices s t) : Edit s t
  | altered {t : Store} {key : Nat} {g : Component → Component} {old : Component}
      (hold : (key, old) ∈ s.entries) (hid : (g old).id = old.id) (h : Altered key g old s t) :
      Edit s t
  | removed {t : Store} {key : Nat} {old c : Component} (hold : (key, old) ∈ s.entries)
      (hid : c.id = old.id) (huid : c.uniqueId = old.uniqueId) (h : Removed key c s t) : Edit s t

abbrev Edits : Store → Store → Prop := ReflTransGen Edit

theorem SameCatalog.edits {s t : Store} (h : SameCatalog s t) : Edits s t :=
  .single (.same h.sameIndices)

theorem edits_update (s : Store) (key : Nat) {f : Component → Component}
    (hid : ∀ c, (f c).id = c.id) : Edits s (s.update key f) := by
  cases hc : s.find? key with
  | none =>
    rw [update_of_none hc]
  | some c =>
    have hold := mem_entries_of_find? hc
    exact .single (.altered hold (hid c) (altered_update hc f))

theorem edits_removeKey (s : Store) (key : Nat) : Edits s (s.removeKey key) := by
  cases hc : s.find? key with
  | none => rw [removeKey_of_none hc]
  | some c =>
    have hremoved : Removed key c s (s.removeKey key) := removed_removeKey hc
    exact .single (.removed (mem_entries_of_find? hc) c.bare_id.symm c.bare_uniqueId.symm hremoved)

theorem patches_removeKey (s : Store) (key : Nat) : (s.removeKey key).patches = s.patches := by
  cases hc : s.find? key with
  | none => rw [removeKey_of_none hc]
  | some c => exact (removed_removeKey hc).rules.patches

theorem sameIndices_patches (s : Store) (patches : TextMap (List Component)) :
    SameIndices s { s with patches } :=
  ⟨rfl, rfl, rfl, rfl, rfl, rfl⟩

theorem edits_patches (s : Store) (patches : TextMap (List Component)) :
    Edits s { s with patches } :=
  .single (.same (sameIndices_patches s patches))

theorem find?_withoutFile {s : Store} {key : Nat} {c : Component} (hc : s.find? key = some c)
    (filename : String) : (s.modify key (Record.withoutFile filename)).find? key =
      some (c.removeFormatsOf filename) :=
  find?_modify_self hc (fun _ => rfl) fun _ hr => hr ▸ rfl

/-- Stripping a record of a file removes it where no format is left, and else changes it. -/
theorem stripKey_cases (filename : String) (r : Nat × Store) (key : Nat) :
    (r.2.find? key = none ∧ (stripKey filename r key).2 = r.2) ∨
    ∃ c, r.2.find? key = some c ∧
      (((c.removeFormatsOf filename).formats = [] ∧
        Removed key (c.removeFormatsOf filename) r.2 (stripKey filename r key).2) ∨
      ((c.removeFormatsOf filename).formats ≠ [] ∧
        Altered key (·.removeFormatsOf filename) c.bare r.2 (stripKey filename r key).2)) := by
  unfold stripKey
  cases hc : r.2.find? key with
  | none => exact .inl ⟨rfl, rfl⟩
  | some c =>
    have hstripped := find?_withoutFile hc filename
    refine .inr ⟨c, rfl, ?_⟩
    simp only
    split
    · rename_i hempty
      exact .inl ⟨hempty, removed_modify_removeKey hstripped fun _ => rfl⟩
    · rename_i hleft
      exact .inr ⟨hleft, altered_refresh hstripped (fun _ => rfl) (fun _ => rfl) rfl⟩

theorem edits_stripKey (filename : String) (r : Nat × Store) (key : Nat) :
    Edits r.2 (stripKey filename r key).2 := by
  rcases stripKey_cases filename r key with ⟨-, hsame⟩ | ⟨c, hc, ⟨-, h⟩ | ⟨-, h⟩⟩
  · rw [hsame]
  · have hid : (c.removeFormatsOf filename).id = c.bare.id := rfl
    have huid : (c.removeFormatsOf filename).uniqueId = c.bare.uniqueId := rfl
    exact .single (.removed (mem_entries_of_find? hc) hid huid h)
  · exact .single (.altered (mem_entries_of_find? hc) rfl h)

theorem patches_stripKey (filename : String) (r : Nat × Store) (key : Nat) :
    (stripKey filename r key).2.patches = r.2.patches := by
  rcases stripKey_cases filename r key with ⟨-, hsame⟩ | ⟨c, -, ⟨-, h⟩ | ⟨-, h⟩⟩
  · rw [hsame]
  · exact h.rules.patches
  · exact h.rules.patches

/-- A component as the patches that wait for its ID leave it. -/
def patched (s : Store) (id : String) (c : Component) : Component :=
  (s.patchesFor id).foldl applyPatch c

theorem patched_of_none {s : Store} {id : String} (h : s.patchesFor id = []) (c : Component) :
    s.patched id c = c := by
  rw [patched, h, List.foldl_nil]

/-- The catalog after a patch was given to some records. -/
def given (s : Store) (patch : Component) (keys : List Nat) : Store :=
  keys.foldl (fun s k => s.update k fun c => c.subsume (patchFlags patch) patch) s

theorem edits_given (s : Store) (patch : Component) (keys : List Nat) :
    Edits s (s.given patch keys) := by
  induction keys generalizing s with
  | nil => exact .refl
  | cons key keys ih =>
    have hupdate : Edits s (s.update key fun c => c.subsume (patchFlags patch) patch) :=
      edits_update s key fun _ => rfl
    exact hupdate.trans (ih _)

theorem edits_addPatch (s : Store) (id : String) (patch : Component) :
    Edits s (s.addPatch id patch) :=
  (s.edits_given patch _).trans (edits_patches _ _)

/-- What comes of a component that describes software, as far as records and what leads to them
go. -/
inductive Met (c : Component) (s t : Store) : Prop
  | inserted (hnew : s.existing? c = none) (h : Inserted c s t)
  | lost {key : Nat} (hkey : s.existing? c = some key) (hgone : s.find? key = none)
      (h : Inserted c s t)
  | merged {key : Nat} {old : Component} (hkey : s.existing? c = some key)
      (hold : s.find? key = some old)
      (hstays : (reconcile s.settings.add.preferLocal old c).survivor = .stored)
      (h : Altered key (fun _ => (reconcile s.settings.add.preferLocal old c).stored.bare)
        old.bare s t)
  | replaced {key : Nat} {old : Component} {rest : Store} (hkey : s.existing? c = some key)
      (hold : s.find? key = some old)
      (hgoes : (reconcile s.settings.add.preferLocal old c).survivor = .incoming)
      (hrest : Removed key (reconcile s.settings.add.preferLocal old c).stored s rest)
      (h : Inserted (reconcile s.settings.add.preferLocal old c).incoming rest t)

theorem Encounter.met {s t : Store} {c : Component} (h : Encounter s c t) : Met c s t := by
  cases h with
  | inserted h =>
    cases hkey : s.existing? c with
    | none => exact .inserted hkey (inserted_insert s c)
    | some key =>
      rw [hkey, Option.bind_some] at h
      exact .lost hkey h (inserted_insert s c)
  | @merged key old h =>
    exact .merged h.existing h.found h.survivor
      (altered_update h.found fun _ => (s.verdict old c).stored)
  | @replaced key old h =>
    exact .replaced h.existing h.found h.survivor
      (removed_modify_removeKey (find?_replaced h.found _) fun _ => rfl) (inserted_insert _ _)

theorem add_of_no_id {s : Store} {c : Component} (hid : c.id = none) : s.add c = s := by
  unfold add
  rw [hid]

theorem add_patch_eq (s : Store) {c : Component} {id : String} (hid : c.id = some id)
    (h : c.mergeKind.isPatch = true) :
    s.add c = addPatch { s with pool := s.pool.internAll c.pooledTexts } id c := by
  unfold add
  rw [hid]
  simp only [h, if_true]

theorem edits_add_patch {s : Store} {c : Component} (h : c.mergeKind.isPatch = true) :
    Edits s (s.add c) := by
  unfold add
  split
  · exact .refl
  · simp only [h, if_true]
    exact (s.sameCatalog_internAll c.pooledTexts).edits.trans (edits_addPatch _ _ c)

theorem Inserted.of_pool {c : Component} {s t : Store} {pool : Pool}
    (h : Inserted c { s with pool } t) : Inserted c s t where
  rules := ⟨h.rules.settings, h.rules.reader, h.rules.patches⟩
  entries := h.entries
  nextKey := h.nextKey
  keysById := h.keysById
  keyByUniqueId := h.keyByUniqueId

/-- Pooled texts have no part in what comes of a component. -/
theorem Met.of_pool {c : Component} {s t : Store} {pool : Pool} (h : Met c { s with pool } t) :
    Met c s t := by
  cases h with
  | inserted hnew h => exact .inserted hnew h.of_pool
  | lost hkey hgone h => exact .lost hkey hgone h.of_pool
  | merged hkey hold hstays h =>
    refine .merged hkey hold hstays ?_
    exact {
      rules := ⟨h.rules.settings, h.rules.reader, h.rules.patches⟩
      entries := h.entries
      nextKey := h.nextKey
      keysById := h.keysById
      keyByUniqueId := h.keyByUniqueId }
  | replaced hkey hold hgoes hrest h =>
    refine .replaced hkey hold hgoes ?_ h
    exact {
      rules := ⟨hrest.rules.settings, hrest.rules.reader, hrest.rules.patches⟩
      entries := hrest.entries
      nextKey := hrest.nextKey
      keysById := hrest.keysById
      keyByUniqueId := hrest.keyByUniqueId }

/-- Adding a component that describes software lets it meet the catalog as patches leave it. -/
theorem encounter_add (s : Store) {c : Component} {id : String} (hid : c.id = some id)
    (h : c.mergeKind.isPatch = false) :
    ∃ pool, Encounter { s with pool } (s.patched id c) (s.add c) := by
  refine ⟨s.pool.internAll c.pooledTexts, ?_⟩
  unfold add
  rw [hid]
  simp only [h]
  exact encounter_addRecord _ _

theorem met_add (s : Store) {c : Component} {id : String} (hid : c.id = some id)
    (h : c.mergeKind.isPatch = false) : Met (s.patched id c) s (s.add c) := by
  obtain ⟨pool, hencounter⟩ := s.encounter_add hid h
  exact hencounter.met.of_pool

theorem Met.rules {c : Component} {s t : Store} (h : Met c s t) : SameRules s t := by
  cases h with
  | inserted _ h => exact h.rules
  | lost _ _ h => exact h.rules
  | merged _ _ _ h => exact h.rules
  | replaced _ _ _ hrest h => exact hrest.rules.trans h.rules

theorem patches_update (s : Store) (key : Nat) (f : Component → Component) :
    (s.update key f).patches = s.patches := by
  cases hc : s.find? key with
  | none => rw [update_of_none hc]
  | some c => exact (altered_update hc f).rules.patches

theorem patches_given (s : Store) (patch : Component) (keys : List Nat) :
    (s.given patch keys).patches = s.patches := by
  induction keys generalizing s with
  | nil => rfl
  | cons key keys ih => exact (ih _).trans (s.patches_update key _)

/-- A patch joins those that are filed under its ID, behind them. -/
theorem patches_add_patch (s : Store) {c : Component} {id : String} (hid : c.id = some id)
    (h : c.mergeKind.isPatch = true) :
    (s.add c).patches = s.patches.modifyD id [] (· ++ [c]) := by
  rw [s.add_patch_eq hid h]
  exact congrArg (fun m => TextMap.modifyD m id [] (· ++ [c])) (patches_given _ c _)

/-- No other component touches the patches. -/
theorem patches_add_of_not (s : Store) {c : Component} (h : c.mergeKind.isPatch = false) :
    (s.add c).patches = s.patches := by
  cases hid : c.id with
  | none => rw [add_of_no_id hid]
  | some id => exact (s.met_add hid h).rules.patches

theorem get?_patches_add (s : Store) (c : Component) (id : String) :
    (s.add c).patches.get? id = if c.mergeKind.isPatch ∧ c.id = some id
      then some (s.patchesFor id ++ [c]) else s.patches.get? id := by
  cases hkind : c.mergeKind.isPatch with
  | false => simp [s.patches_add_of_not hkind]
  | true =>
    cases hid : c.id with
    | none => simp [add_of_no_id hid]
    | some x =>
      rw [s.patches_add_patch hid hkind, TextMap.get?_modifyD]
      by_cases hx : id = x
      · simp [hx, patchesFor]
      · simp [hx, Ne.symm hx]

theorem patchesFor_add (s : Store) (c : Component) (id : String) :
    (s.add c).patchesFor id = if c.mergeKind.isPatch ∧ c.id = some id
      then s.patchesFor id ++ [c] else s.patchesFor id := by
  rw [patchesFor, TextMap.getD, get?_patches_add]
  split
  · rfl
  · rw [patchesFor, TextMap.getD]

inductive Step (s : Store) : Store → Prop
  | edit {t : Store} (h : Edit s t) : Step s t
  | add {c : Component} (hc : c.Proper) : Step s (s.add c)

abbrev Steps : Store → Store → Prop := ReflTransGen Step

theorem Edits.steps {s t : Store} (h : Edits s t) : Steps s t :=
  h.lift id fun _ _ k => .edit k

theorem SameCatalog.steps {s t : Store} (h : SameCatalog s t) : Steps s t := Edits.steps h.edits

/-- Nothing changes how a catalog was set up. -/
structure SameSetup (s t : Store) : Prop where
  settings : t.settings = s.settings
  reader : t.reader = s.reader

theorem SameRules.setup {s t : Store} (h : SameRules s t) : SameSetup s t :=
  ⟨h.settings, h.reader⟩

theorem SameSetup.trans {s t u : Store} (h : SameSetup s t) (k : SameSetup t u) : SameSetup s u :=
  ⟨k.settings.trans h.settings, k.reader.trans h.reader⟩

theorem Edit.setup {s t : Store} (h : Edit s t) : SameSetup s t := by
  cases h with
  | same h => exact ⟨h.settings, h.reader⟩
  | altered _ _ h => exact h.rules.setup
  | removed _ _ _ h => exact h.rules.setup

theorem Edits.setup {s t : Store} (h : Edits s t) : SameSetup s t := by
  induction h with
  | refl => exact ⟨rfl, rfl⟩
  | tail _ h ih => exact ih.trans h.setup

/-- What adding a component comes to: edits, or an encounter with the catalog. -/
theorem add_cases (s : Store) (c : Component) :
    Edits s (s.add c) ∨ ∃ id, c.id = some id ∧ c.mergeKind.isPatch = false ∧
      Met (s.patched id c) s (s.add c) := by
  cases hid : c.id with
  | none =>
    rw [add_of_no_id hid]
    exact .inl .refl
  | some id =>
    cases hpatch : c.mergeKind.isPatch with
    | true => exact .inl (edits_add_patch hpatch)
    | false => exact .inr ⟨id, rfl, rfl, met_add s hid hpatch⟩

theorem setup_add (s : Store) (c : Component) : SameSetup s (s.add c) := by
  rcases s.add_cases c with h | ⟨id, -, -, h⟩
  · exact h.setup
  · exact h.rules.setup

theorem Edits.nextKey {s t : Store} (h : Edits s t) : t.nextKey = s.nextKey := by
  induction h with
  | refl => rfl
  | tail _ h ih =>
    rw [← ih]
    cases h with
    | same h => exact h.nextKey
    | altered _ _ h => exact h.nextKey
    | removed _ _ _ h => exact h.nextKey

theorem nextKey_le_add (s : Store) (c : Component) : s.nextKey ≤ (s.add c).nextKey := by
  rcases s.add_cases c with h | ⟨id, -, -, h⟩
  · exact Nat.le_of_eq h.nextKey.symm
  · cases h with
    | inserted _ h => exact h.nextKey ▸ Nat.le_succ _
    | lost _ _ h => exact h.nextKey ▸ Nat.le_succ _
    | merged _ _ _ h => exact Nat.le_of_eq h.nextKey.symm
    | replaced _ _ _ hrest h => exact h.nextKey ▸ hrest.nextKey ▸ Nat.le_succ _

theorem Steps.setup {s t : Store} (h : Steps s t) : SameSetup s t := by
  induction h with
  | refl => exact ⟨rfl, rfl⟩
  | @tail t u _ h ih =>
    cases h with
    | edit h => exact ih.trans h.setup
    | @add c _ => exact ih.trans (t.setup_add c)

end Store

end SoftwareCatalog
