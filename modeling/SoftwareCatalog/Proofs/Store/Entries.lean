import Mathlib.Data.List.Nodup
import SoftwareCatalog.Proofs.TextMap
import SoftwareCatalog.Store.Load
import SoftwareCatalog.Store.Query
import SoftwareCatalog.Store.Search

namespace SoftwareCatalog

namespace Component

/-- A component without its attachments and tokens. -/
def bare (c : Component) : Component := { c with addons := [], tokens := none }

@[simp] theorem bare_id (c : Component) : c.bare.id = c.id := rfl

@[simp] theorem bare_formats (c : Component) : c.bare.formats = c.formats := rfl

@[simp] theorem bare_releases (c : Component) : c.bare.releases = c.releases := rfl

@[simp] theorem bare_uniqueId (c : Component) : c.bare.uniqueId = c.uniqueId := rfl

theorem eq_attach_of_bare {c d : Component} (h : d.bare = c.bare) :
    d = { c with addons := d.addons, tokens := d.tokens } := by
  have hback := congrArg
    (fun e : Component => { e with addons := d.addons, tokens := d.tokens }) h
  exact hback

end Component

namespace Record

theorem bare_attach (addon : String) (r : Record) :
    (r.attach addon).component.bare = r.component.bare := by
  unfold attach replace
  split <;> rfl

theorem key_attach (addon : String) (r : Record) : (r.attach addon).key = r.key := by
  unfold attach replace
  split <;> rfl

theorem bare_detach (addon : String) (r : Record) :
    (r.detach addon).component.bare = r.component.bare := by
  unfold detach replace
  split <;> rfl

theorem key_detach (addon : String) (r : Record) : (r.detach addon).key = r.key := by
  unfold detach replace
  split <;> rfl

theorem bare_detachAll (r : Record) : r.detachAll.component.bare = r.component.bare := by
  unfold detachAll replace
  split <;> rfl

theorem key_detachAll (r : Record) : r.detachAll.key = r.key := by
  unfold detachAll replace
  split <;> rfl

end Record

namespace Store

/-- The records in their order, each with its key, without attachments and tokens. -/
def entries (s : Store) : List (Nat × Component) :=
  s.records.map fun r => (r.key, r.component.bare)

theorem entries_mapRecords (s : Store) {g : Record → Record} (hkey : ∀ r, (g r).key = r.key)
    (hbare : ∀ r, (g r).component.bare = r.component.bare) :
    { s with records := s.records.map g : Store }.entries = s.entries := by
  unfold entries
  rw [List.map_map]
  apply List.map_congr_left
  intro r _
  simp [hkey r, hbare r]

/-- Applies a change to the component of one key. -/
def alter (key : Nat) (g : Component → Component) (e : Nat × Component) : Nat × Component :=
  if e.1 = key then (e.1, g e.2) else e

theorem alter_key (key : Nat) (g : Component → Component) (e : Nat × Component) :
    (alter key g e).1 = e.1 := by
  unfold alter
  split <;> rfl

theorem entries_modify (s : Store) (key : Nat) {f : Record → Record} {g : Component → Component}
    (hkey : ∀ r, (f r).key = r.key) (hbare : ∀ r, (f r).component.bare = g r.component.bare) :
    (s.modify key f).entries = s.entries.map (alter key g) := by
  unfold entries modify
  rw [List.map_map, List.map_map]
  apply List.map_congr_left
  intro r _
  by_cases h : r.key = key
  · simp [alter, h, hkey r, hbare r]
  · simp [alter, h]

theorem find?_bare (s : Store) (key : Nat) :
    (s.find? key).map Component.bare = (s.entries.find? (·.1 == key)).map (·.2) := by
  unfold find? entries
  rw [List.find?_map, Option.map_map, Option.map_map]
  rfl

/-- A property of components that does not depend on attachments. -/
def Unattached (p : Component → Bool) : Prop := ∀ c : Component, p c.bare = p c

theorem any_find? {p : Component → Bool} (hp : Unattached p) (s : Store) (key : Nat) :
    (s.find? key).any p = ((s.entries.find? (·.1 == key)).map (·.2)).any p := by
  rw [← find?_bare]
  cases s.find? key with
  | none => rfl
  | some c => exact (hp c).symm

theorem find?_eq_none_iff {s : Store} {key : Nat} :
    s.find? key = none ↔ ∀ e ∈ s.entries, e.1 ≠ key := by
  simp [find?, entries]

theorem mem_entries_of_find? {s : Store} {key : Nat} {c : Component} (h : s.find? key = some c) :
    (key, c.bare) ∈ s.entries := by
  obtain ⟨r, hr, rfl⟩ := Option.map_eq_some_iff.1 h
  have hkey : r.key = key := by simpa using List.find?_some hr
  exact List.mem_map.2 ⟨r, List.mem_of_find?_eq_some hr, by rw [hkey]⟩

/-- The keys of a catalog rise in the order of insertion and lie below the next one. -/
structure Keyed (s : Store) : Prop where
  ascending : (s.entries.map Prod.fst).Pairwise (· < ·)
  fresh : ∀ e ∈ s.entries, e.1 < s.nextKey

theorem Keyed.eq_of_key {s : Store} (h : s.Keyed) {d e : Nat × Component} (hd : d ∈ s.entries)
    (he : e ∈ s.entries) (hk : d.1 = e.1) : d = e :=
  List.inj_on_of_nodup_map (h.ascending.imp Nat.ne_of_lt) hd he hk

theorem Keyed.component_eq {s : Store} (h : s.Keyed) {key : Nat} {c d : Component}
    (hc : (key, c) ∈ s.entries) (hd : (key, d) ∈ s.entries) : c = d :=
  congrArg Prod.snd (h.eq_of_key hc hd rfl)

theorem Keyed.nodup_keys {s : Store} (h : s.Keyed) : (s.records.map Record.key).Nodup := by
  have hmap : s.entries.map Prod.fst = s.records.map Record.key := by
    simp [entries]
  rw [← hmap]
  exact h.ascending.imp Nat.ne_of_lt

theorem Keyed.find?_record {s : Store} (h : s.Keyed) {r : Record} (hr : r ∈ s.records) :
    s.find? r.key = some r.component := by
  unfold find?
  cases hf : s.records.find? (·.key == r.key) with
  | none => simp [List.find?_eq_none] at hf; exact absurd rfl (hf r hr)
  | some r' =>
    have hkey : r'.key = r.key := by simpa using List.find?_some hf
    have heq := List.inj_on_of_nodup_map h.nodup_keys (List.mem_of_find?_eq_some hf) hr hkey
    rw [heq]
    rfl

/-- What holds of a record and of what the record under a key is changed to holds of what becomes of
the record. -/
theorem Keyed.of_changed {s : Store} (h : s.Keyed) {key : Nat} {old : Component}
    (hold : s.find? key = some old) {p : Record → Prop} {f : Record → Record} {q : Record}
    (hq : q ∈ s.records) (hsame : p q) (hchanged : q.component = old → p (f q)) :
    p (if q.key = key then f q else q) := by
  split
  · rename_i hkey
    have hfound := h.find?_record hq
    rw [hkey, hold] at hfound
    exact hchanged (Option.some.inj hfound).symm
  · exact hsame

theorem Keyed.find?_of_mem {s : Store} (h : s.Keyed) {key : Nat} {b : Component}
    (hm : (key, b) ∈ s.entries) : ∃ c, s.find? key = some c ∧ c.bare = b := by
  obtain ⟨r, hr, heq⟩ := List.mem_map.1 hm
  obtain ⟨rfl, rfl⟩ := Prod.mk.inj heq
  exact ⟨r.component, h.find?_record hr, rfl⟩

/-- Before and after the entry with a key there are others only. -/
theorem Keyed.split {s : Store} (h : s.Keyed) {key : Nat} {old : Component}
    (hold : (key, old) ∈ s.entries) :
    ∃ front rear, s.entries = front ++ (key, old) :: rear ∧
      (∀ e ∈ front, e.1 ≠ key) ∧ ∀ e ∈ rear, e.1 ≠ key := by
  obtain ⟨front, rear, hsplit⟩ := List.append_of_mem hold
  have hkeys := h.ascending
  rw [hsplit, List.map_append, List.map_cons, List.pairwise_append, List.pairwise_cons] at hkeys
  obtain ⟨-, ⟨hrear, -⟩, hfront⟩ := hkeys
  refine ⟨front, rear, hsplit, ?_, ?_⟩
  · intro e he
    exact Nat.ne_of_lt (hfront e.1 (List.mem_map_of_mem he) key List.mem_cons_self)
  · intro e he
    exact Nat.ne_of_gt (hrear e.1 (List.mem_map_of_mem he))

/-- The entries with other keys are all but one. -/
theorem Keyed.split_filter {s : Store} (h : s.Keyed) {key : Nat} {old : Component}
    (hold : (key, old) ∈ s.entries) :
    ∃ front rear, s.entries = front ++ (key, old) :: rear ∧
      s.entries.filter (·.1 ≠ key) = front ++ rear := by
  obtain ⟨front, rear, hsplit, hfront, hrear⟩ := h.split hold
  have hothers {es : List (Nat × Component)} (hes : ∀ e ∈ es, e.1 ≠ key) :
      es.filter (·.1 ≠ key) = es :=
    List.filter_eq_self.2 fun e he => decide_eq_true (hes e he)
  refine ⟨front, rear, hsplit, ?_⟩
  rw [hsplit, List.filter_append, hothers hfront, List.filter_cons_of_neg (by simp),
    hothers hrear]

theorem Keyed.length_filter_ne {s : Store} (h : s.Keyed) {key : Nat} {old : Component}
    (hold : (key, old) ∈ s.entries) :
    (s.entries.filter (·.1 ≠ key)).length + 1 = s.entries.length := by
  obtain ⟨front, rear, hsplit, hleft⟩ := h.split_filter hold
  rw [hleft, hsplit, List.length_append, List.length_append, List.length_cons]
  omega

/-- The keys of some records lead to their components. -/
theorem Keyed.resolve_filter {s : Store} (h : s.Keyed) (q : Record → Bool) :
    s.resolve ((s.records.filter q).map Record.key) =
      (s.records.filter q).map (·.component) := by
  have hfind : ∀ r ∈ s.records.filter q, s.find? r.key = some r.component := by
    intro r hr
    exact h.find?_record (List.mem_of_mem_filter hr)
  unfold resolve
  rw [List.filterMap_map, ← List.filterMap_eq_map]
  exact List.filterMap_congr hfind

theorem mem_components {s : Store} {p : Component → Prop} (hp : ∀ c : Component, p c.bare ↔ p c) :
    (∃ c ∈ s.components, p c) ↔ ∃ e ∈ s.entries, p e.2 := by
  unfold components entries
  constructor
  · intro hsome
    obtain ⟨c, hc, h⟩ := hsome
    obtain ⟨r, hr, rfl⟩ := List.mem_map.1 hc
    exact ⟨_, List.mem_map_of_mem hr, (hp _).2 h⟩
  · intro hsome
    obtain ⟨e, he, h⟩ := hsome
    obtain ⟨r, hr, rfl⟩ := List.mem_map.1 he
    exact ⟨_, List.mem_map_of_mem hr, (hp _).1 h⟩

end Store

end SoftwareCatalog
