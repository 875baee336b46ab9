import SoftwareCatalog.Proofs.Store.Sole

namespace SoftwareCatalog.Store

/-- A patch for the components with the ID `x`. -/
structure PatchFor (x : String) (p : Component) : Prop where
  id : p.id = some x
  isPatch : p.mergeKind.isPatch = true

variable {s t : Store} {x : String} {key : Nat} {c p : Component}
  {others : List (Nat × Component)} {ps : List Component}

theorem Vacant.same (h : s.Vacant x) (k : SameIndices s t) : t.Vacant x where
  wellIndexed := h.wellIndexed.same k
  free := by rw [keysOf, k.keysById, ← keysOf, h.free]

theorem Sole.same (h : Sole s x key c others) (k : SameIndices s t) : Sole t x key c others where
  wellIndexed := h.wellIndexed.same k
  named := h.named
  split := k.entries ▸ h.split
  apart := h.apart
  leads := k.keyByUniqueId ▸ h.leads

/-- A patch goes to the records that it matches, and then waits for others. -/
theorem sameIndices_addPatch (s : Store) (x : String) (p : Component) :
    SameIndices (((s.keysOf x).filter fun k => (s.find? k).any (patchMatches p)).foldl
      (fun s k => s.update k fun c => c.subsume (patchFlags p) p) s) (s.addPatch x p) :=
  sameIndices_patches _ _

theorem Vacant.add_patch (h : s.Vacant x) (hp : PatchFor x p) : (s.add p).Vacant x := by
  have hpooled := h.same (s.sameCatalog_internAll p.pooledTexts).sameIndices
  rw [s.add_patch_eq hp.id hp.isPatch]
  generalize { s with pool := s.pool.internAll p.pooledTexts } = pooled at hpooled
  have hwaits := pooled.sameIndices_addPatch x p
  rw [hpooled.free] at hwaits
  exact hpooled.same hwaits

theorem Sole.add_patch (h : Sole s x key c others) (hp : PatchFor x p) :
    Sole (s.add p) x key (applyPatch c p) others := by
  have hpooled := h.same (s.sameCatalog_internAll p.pooledTexts).sameIndices
  rw [s.add_patch_eq hp.id hp.isPatch]
  generalize { s with pool := s.pool.internAll p.pooledTexts } = pooled at hpooled
  have hwaits := pooled.sameIndices_addPatch x p
  obtain ⟨old, hold, hbare⟩ := hpooled.find?
  have hmatches : patchMatches p old = patchMatches p c := by
    change patchMatches p old.bare = patchMatches p c.bare
    rw [hbare]
  rw [hpooled.keysOf, List.filter_singleton, hold, Option.any_some, hmatches] at hwaits
  refine Sole.same ?_ hwaits
  by_cases hm : patchMatches p c
  · have hnew : (old.subsume (patchFlags p) p).bare = (applyPatch c p).bare := by
      rw [← applyPatch_bare, ← hbare, applyPatch_bare, applyPatch, if_pos (hmatches.trans hm)]
    have hid := (sameSource_applyPatch c p).id.trans h.named
    have haltered := altered_update hold fun c => c.subsume (patchFlags p) p
    rw [hbare] at haltered
    simpa [hm] using hpooled.altered hid hnew haltered
  · have hsame : applyPatch c p = c := if_neg hm
    simpa [hm, hsame] using hpooled

theorem Vacant.add_patches (h : s.Vacant x) (hps : ∀ p ∈ ps, PatchFor x p) :
    (ps.foldl Store.add s).Vacant x := by
  induction ps generalizing s with
  | nil => exact h
  | cons p ps ih =>
    exact ih (h.add_patch (hps p List.mem_cons_self)) fun q hq => hps q (List.mem_cons_of_mem p hq)

theorem Sole.add_patches (h : Sole s x key c others) (hps : ∀ p ∈ ps, PatchFor x p) :
    Sole (ps.foldl Store.add s) x key (ps.foldl applyPatch c) others := by
  induction ps generalizing s c with
  | nil => exact h
  | cons p ps ih =>
    exact ih (h.add_patch (hps p List.mem_cons_self)) fun q hq => hps q (List.mem_cons_of_mem p hq)

theorem patchesFor_adds (hps : ∀ p ∈ ps, PatchFor x p) (y : String) :
    (ps.foldl add s).patchesFor y = if y = x then s.patchesFor y ++ ps else s.patchesFor y := by
  induction ps generalizing s with
  | nil => simp
  | cons p ps ih =>
    have hp := hps p List.mem_cons_self
    rw [List.foldl_cons, ih fun q hq => hps q (List.mem_cons_of_mem p hq), patchesFor_add]
    by_cases hy : y = x
    · simp [hy, hp.id, hp.isPatch]
    · simp [hy, Ne.symm hy, hp.id]

/-- Patches of which the first `k` come before a component and the others after it. -/
def addAmong (s : Store) (r : Component) (ps : List Component) (k : Nat) : Store :=
  (ps.drop k).foldl add (((ps.take k).foldl add s).add r)

/-- It does not matter when patches arrive. In every catalog that has no component with an ID, a
component that comes in between patches for it ends up as all patches in their order make it,
those first that waited already; it is found by its ID and by its unique ID, and the patches wait
for later components. -/
theorem patches_in_any_order {settings : Settings} {reader : Reader} (hr : reader.Proper)
    (hs : Reachable settings reader s) (hplain : settings.add.useMergeHeuristic = false)
    (hx : x ≠ "") (hnone : s.byId x = []) {r : Component} (hdescribes : Describes x r)
    (hps : ∀ p ∈ ps, PatchFor x p) (k : Nat) :
    (∃ d, (s.addAmong r ps k).byId x = [d] ∧
      d.bare = ((s.patchesFor x ++ ps).foldl applyPatch r).bare ∧
      (s.addAmong r ps k).byUniqueId d.uniqueId = some d) ∧
    ∀ y, (s.addAmong r ps k).patchesFor y =
      if y = x then s.patchesFor y ++ ps else s.patchesFor y := by
  have hearly : ∀ p ∈ ps.take k, PatchFor x p := fun p hp => hps p (List.mem_of_mem_take hp)
  have hlate : ∀ p ∈ ps.drop k, PatchFor x p := fun p hp => hps p (List.mem_of_mem_drop hp)
  have hwell := hs.wellIndexed hr
  have hbefore := (hwell.vacant hnone).add_patches hearly
  have hwaiting := patchesFor_adds (s := s) hearly
  have hproper : ∀ p ∈ ps.take k, p.Proper := by
    intro p hp
    exact Component.proper_of_id ⟨x, (hearly p hp).id, hx⟩
  have hsettings := (steps_adds hproper s).setup.settings.trans (hs.settings_eq hr)
  unfold addAmong
  generalize (ps.take k).foldl add s = u at hbefore hwaiting hsettings ⊢
  have hpatched : u.patched x r = (s.patchesFor x ++ ps.take k).foldl applyPatch r := by
    rw [patched, hwaiting, if_pos rfl]
  have hfree : u.existing? (u.patched x r) = none :=
    hbefore.existing? (hsettings ▸ hplain) (hdescribes.id_patched u)
  have harrived := hbefore.add hx hdescribes hfree
  have hafter := harrived.add_patches hlate
  rw [hpatched, ← List.foldl_append, List.append_assoc, List.take_append_drop] at hafter
  refine ⟨hafter.found, ?_⟩
  intro y
  rw [patchesFor_adds hlate, u.patchesFor_add_standalone hdescribes, hwaiting]
  by_cases hy : y = x
  · simp [hy]
  · simp [hy]

/-- A patch that files a tool under a category. -/
def filing (kind : MergeKind) (category : String) : Component :=
  { (Component.ofId "org.example.Tool").addCategory category with mergeKind := kind }

/-- A tool that comes in between a patch that adds to its categories and one that replaces them,
into a catalog with a patch that waits for it. -/
theorem tool_between_patches :
    Reader.any.Proper ∧
    ((new ⟨{}, {}, ⟨["en"], 4, true, 3⟩⟩ Reader.any).run
      [.add (filing .append "Utility")]).byId "org.example.Tool" = [] ∧
    ∃ d, (((new ⟨{}, {}, ⟨["en"], 4, true, 3⟩⟩ Reader.any).run
      [.add (filing .append "Utility")]).addAmong (describedBy .metaInfo "tool.metainfo.xml")
        [filing .append "Science", filing .replace "Education"] 1).byId "org.example.Tool" = [d] ∧
      d.categories = ["Education"] := by
  have hproper : ∀ op ∈ [Operation.add (filing .append "Utility")], op.Proper := by
    intro op hop
    rw [List.mem_singleton.1 hop]
    exact Component.proper_setId {} "org.example.Tool"
  have hreach : Reachable ⟨{}, {}, ⟨["en"], 4, true, 3⟩⟩ Reader.any _ :=
    ⟨[.add (filing .append "Utility")], hproper, rfl⟩
  have hnone : ((new ⟨{}, {}, ⟨["en"], 4, true, 3⟩⟩ Reader.any).run
      [.add (filing .append "Utility")]).byId "org.example.Tool" = [] := by
    decide +kernel
  have hpatches : ∀ p ∈ [filing .append "Science", filing .replace "Education"],
      PatchFor "org.example.Tool" p := by
    intro p hp
    simp only [List.mem_cons, List.not_mem_nil, or_false] at hp
    rcases hp with rfl | rfl <;> exact ⟨rfl, rfl⟩
  have hdescribes : Describes "org.example.Tool" (describedBy .metaInfo "tool.metainfo.xml") :=
    ⟨rfl, rfl⟩
  obtain ⟨⟨d, hd, hbare, -⟩, -⟩ :=
    patches_in_any_order Reader.proper_any hreach rfl (by decide) hnone hdescribes hpatches 1
  refine ⟨Reader.proper_any, hnone, d, hd, ?_⟩
  have hcategories := congrArg (·.categories) hbare
  exact hcategories.trans (by decide +kernel)

end SoftwareCatalog.Store
