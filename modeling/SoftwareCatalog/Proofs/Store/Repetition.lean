import SoftwareCatalog.Proofs.Component.Repetition
import SoftwareCatalog.Proofs.Component.Tidy
import SoftwareCatalog.Proofs.Store.Sole

namespace SoftwareCatalog

/-- Attachments and tokens of the stored description have no part in a comparison. -/
theorem reconcile_congr_bare (preferLocal : Bool) {c e : Component} (h : e.bare = c.bare)
    (d : Component) :
    (reconcile preferLocal e d).survivor = (reconcile preferLocal c d).survivor ∧
    (reconcile preferLocal e d).stored.bare = (reconcile preferLocal c d).stored.bare ∧
    (reconcile preferLocal e d).incoming = (reconcile preferLocal c d).incoming := by
  rw [Component.eq_attach_of_bare h]
  generalize e.addons = addons, e.tokens = tokens
  have hkind : ({ c with addons, tokens } : Component).formatKind = c.formatKind := rfl
  rw [reconcile_eq_outcome, reconcile_eq_outcome, hkind]
  cases ruling preferLocal c.formatKind d.formatKind c.priority d.priority <;>
    exact ⟨rfl, rfl, rfl⟩

namespace Store

variable {s t : Store} {x : String} {key : Nat} {c d : Component}

/-- Patches release no version twice. -/
theorem nodup_versions_patched (h : (versions c.releases).Nodup) (s : Store) (x : String) :
    (versions (s.patched x c).releases).Nodup := by
  have hstep (c patch : Component) (h : (versions c.releases).Nodup) :
      (versions (applyPatch c patch).releases).Nodup := by
    unfold applyPatch
    split
    · rw [Component.releases_subsume (patchFlags_has patch rfl (by decide))]
      exact nodup_versions_mergeEntries h _ _
    · exact h
  unfold patched
  generalize s.patchesFor x = patches
  induction patches generalizing c with
  | nil => exact h
  | cons patch patches ih => exact ih (hstep c patch h)

/-- Without unique IDs the first record with the ID describes the same. -/
theorem existing?_of_keysOf (hplain : s.settings.add.useUniqueId = false) (hid : c.id = some x)
    {keys : List Nat} (hkeys : s.keysOf x = key :: keys) : s.existing? c = some key := by
  unfold existing? firstWithId
  rw [hid, Option.bind_some, if_neg (by simp [hplain]), hkeys]
  rfl

theorem existing?_congr (hplain : s.settings.add.useUniqueId = false)
    (hsettings : t.settings = s.settings) (hkeys : t.keysById = s.keysById) (c : Component) :
    t.existing? c = s.existing? c := by
  unfold existing? firstWithId keysOf
  simp [hsettings, hplain, hkeys]

/-- The record under a key describes the same as `d`, and stands in for it. -/
structure EndsIn (s : Store) (d : Component) (key : Nat) (c : Component) : Prop where
  existing : s.existing? d = some key
  found : s.find? key = some c
  standsIn : ∃ k, StandsIn s.settings.add.preferLocal d k ∧ c.bare = k.bare

/-- A component that has met the catalog ends in a record, in place or under a new key. -/
theorem WellIndexed.endsIn (hs : s.WellIndexed) (hplain : s.settings.add.useUniqueId = false)
    (hid : d.id = some x) (hx : x ≠ "") (k : Met d s t) : ∃ key c, EndsIn t d key c := by
  have ht := hs.met hid hx k
  have hsettings := k.rules.settings
  have hplain' : t.settings.add.useUniqueId = false := by rw [hsettings, hplain]
  have hfind {key : Nat} {b : Component} (hin : (key, b.bare) ∈ t.entries) :
      ∃ c, t.find? key = some c ∧ c.bare = b.bare := ht.keyed.find?_of_mem hin
  cases k with
  | inserted hnew k =>
    obtain ⟨c, hc, hbare⟩ := hfind (k.mem_iff.2 (.inr ⟨rfl, rfl⟩))
    have hnone : s.keysOf x = [] := by
      unfold Store.existing? at hnew
      rw [hid, Option.bind_some, Option.or_eq_none_iff] at hnew
      exact keysOf_of_firstWithId_none hplain hnew.1
    have hkeys : t.keysOf x = [s.nextKey] := by
      rw [Store.keysOf, TextMap.getD, k.keysById, if_pos hid, hnone]
      rfl
    exact ⟨_, c, existing?_of_keysOf hplain' hid hkeys, hc, d, .self, hbare⟩
  | lost hkey hgone _ =>
    obtain ⟨e, he⟩ := hs.find?_of_existing? hid hkey
    rw [hgone] at he
    cases he
  | @merged key old hkey hold hstays k =>
    have hin := (k.mem_iff hs.keyed (mem_entries_of_find? hold)).2 (.inl ⟨rfl, rfl⟩)
    obtain ⟨c, hc, hbare⟩ := hfind hin
    refine ⟨key, c, ?_, hc, _, .met old, ?_⟩
    · rw [existing?_congr hplain hsettings k.keysById, hkey]
    · rw [hbare, hsettings, Reconciled.kept_of_stored hstays]
  | @replaced key old rest hkey hold hgoes hrest k =>
    obtain ⟨c, hc, hbare⟩ := hfind (k.mem_iff.2 (.inr ⟨rfl, rfl⟩))
    have hincoming := (id_reconcile_incoming s.settings.add.preferLocal old d).trans hid
    have hstored := id_reconcile_stored s.settings.add.preferLocal old d
    have hrested := hs.removed (mem_entries_of_find? hold) hstored hrest
    have hnone : rest.keysOf x = [] := by
      rw [hrested.keysOf_eq]
      exact hs.keysNamed_of_removed hplain hid hkey hrest
    have hkeys : t.keysOf x = [rest.nextKey] := by
      rw [Store.keysOf, TextMap.getD, k.keysById, if_pos hincoming, hnone]
      rfl
    refine ⟨_, c, existing?_of_keysOf hplain' hid hkeys, hc, _, .met old, ?_⟩
    rw [hbare, hsettings, Reconciled.kept_of_incoming hgoes]

/-- What stands in for a component takes in no more of it than releases without a version. -/
theorem EndsIn.met (h : EndsIn s d key c) (hs : s.Keyed) (honce : (versions d.releases).Nodup)
    (k : Met d s t) : t.entries = s.entries.map (alter key fun e =>
      { e with releases := e.releases ++ unversioned d.releases }) := by
  obtain ⟨e, he, hbare⟩ := h.standsIn
  obtain ⟨hstays, hstored⟩ := he.reconcile_again honce
  obtain ⟨hsurvivor, hattached, -⟩ := reconcile_congr_bare s.settings.add.preferLocal hbare d
  cases k with
  | inserted hnone _ => rw [h.existing] at hnone; cases hnone
  | lost hkey hgone _ =>
    obtain rfl := Option.some.inj (h.existing.symm.trans hkey)
    rw [h.found] at hgone
    cases hgone
  | @merged key' old hkey hold _ k =>
    obtain rfl := Option.some.inj (h.existing.symm.trans hkey)
    obtain rfl := Option.some.inj (h.found.symm.trans hold)
    rw [k.entries]
    apply List.map_congr_left
    intro f hf
    unfold alter
    split
    · rename_i hkey'
      have hown : f = (key, c.bare) :=
        hs.eq_of_key hf (mem_entries_of_find? h.found) hkey'
      rw [hown, hattached, hstored, hbare]
      rfl
    · rfl
  | replaced hkey hold hgoes _ _ =>
    obtain rfl := Option.some.inj (h.existing.symm.trans hkey)
    obtain rfl := Option.some.inj (h.found.symm.trans hold)
    rw [hsurvivor, hstays] at hgoes
    cases hgoes

/-- Adding a component once more changes nothing but the record that the component ended in, and
this only in that its releases without a version, as patches leave them, are listed again. So the
records stay as they are if and only if every release has a version. -/
theorem add_again {settings : Settings} {reader : Reader} (hr : reader.Proper)
    (h : Reachable settings reader s) (hplain : settings.add.useUniqueId = false) (hx : x ≠ "")
    (hc : Describes x c) (honce : (versions c.releases).Nodup) :
    ∃ key, (s.add c).existing? (s.patched x c) = some key ∧
      ((s.add c).add c).entries = (s.add c).entries.map (alter key fun e =>
        { e with releases := e.releases ++ unversioned (s.patched x c).releases }) ∧
      (((s.add c).add c).entries = (s.add c).entries ↔
        unversioned (s.patched x c).releases = []) := by
  have hs := h.wellIndexed hr
  have hplain' : s.settings.add.useUniqueId = false := by rw [h.settings_eq hr, hplain]
  have hid := hc.id_patched s
  have hfirst := s.met_add hc.id hc.isPatch
  have hnext := hs.met hid hx hfirst
  obtain ⟨key, d, hends⟩ := hs.endsIn hplain' hid hx hfirst
  have hsecond : Met (s.patched x c) (s.add c) ((s.add c).add c) := by
    have hsame : (s.add c).patched x c = s.patched x c := by
      unfold patched
      rw [s.patchesFor_add_standalone hc x]
    exact hsame ▸ (s.add c).met_add hc.id hc.isPatch
  have hentries := hends.met hnext.keyed (nodup_versions_patched honce s x) hsecond
  refine ⟨key, hends.existing, hentries, ?_⟩
  constructor
  · intro hsame
    have hin := mem_entries_of_find? hends.found
    have hgrown : (key, { d.bare with
        releases := d.releases ++ unversioned (s.patched x c).releases }) ∈
        ((s.add c).add c).entries := by
      rw [hentries]
      exact List.mem_map.2 ⟨_, hin, by simp [alter]⟩
    rw [hsame] at hgrown
    have heq := hnext.keyed.component_eq hgrown hin
    have hreleases := congrArg Component.releases heq
    simpa using hreleases
  · intro hnone
    rw [hentries, hnone]
    conv_rhs => rw [← List.map_id (s.add c).entries]
    apply List.map_congr_left
    intro e _
    unfold alter
    split
    · simp
    · rfl

/-- A tool with one release. -/
def toolWithRelease (version : Option String) : Component :=
  (Component.ofId "org.example.Tool").addRelease ⟨version, .stable, 1, .unset, .empty, []⟩

/-- A tool that is known already and comes twice with a release that has a version. -/
theorem add_again_versioned :
    Reader.any.Proper ∧ Describes "org.example.Tool" (toolWithRelease "1.0") ∧
    ((((new ⟨{}, {}, ⟨["en"], 4, true, 3⟩⟩ Reader.any).run [.add (toolWithRelease "2.0")]).add
      (toolWithRelease "1.0")).add (toolWithRelease "1.0")).entries =
    (((new ⟨{}, {}, ⟨["en"], 4, true, 3⟩⟩ Reader.any).run [.add (toolWithRelease "2.0")]).add
      (toolWithRelease "1.0")).entries := by
  have hknown : ∀ op ∈ [Operation.add (toolWithRelease "2.0")], op.Proper := by
    intro op hop
    rw [List.mem_singleton.1 hop]
    exact Component.proper_setId {} "org.example.Tool"
  have hreach : Reachable ⟨{}, {}, ⟨["en"], 4, true, 3⟩⟩ Reader.any
      ((new ⟨{}, {}, ⟨["en"], 4, true, 3⟩⟩ Reader.any).run [.add (toolWithRelease "2.0")]) :=
    ⟨_, hknown, rfl⟩
  have htool : Describes "org.example.Tool" (toolWithRelease "1.0") := ⟨rfl, rfl⟩
  obtain ⟨_, -, -, hsame⟩ := add_again Reader.proper_any hreach rfl (by decide) htool
    (by decide +kernel)
  exact ⟨Reader.proper_any, htool, hsame.2 (by decide +kernel)⟩

/-- A release without a version comes to be listed twice. -/
theorem releases_of_add_twice :
    Describes "org.example.Tool" (toolWithRelease none) ∧
    ((new ⟨{}, {}, ⟨["en"], 4, true, 3⟩⟩ Reader.any).run
      [.add (toolWithRelease none)]).components.map (·.releases.length) = [1] ∧
    ((new ⟨{}, {}, ⟨["en"], 4, true, 3⟩⟩ Reader.any).run
      [.add (toolWithRelease none), .add (toolWithRelease none)]).components.map
        (·.releases.length) = [2] := by
  refine ⟨⟨rfl, rfl⟩, ?_, ?_⟩
  · decide +kernel
  · decide +kernel

end Store

end SoftwareCatalog
