import SoftwareCatalog.Proofs.Store.Step

namespace SoftwareCatalog

open Relation

/-- All components of a reader have a property. -/
def Reader.Yields (p : Component → Prop) (r : Reader) : Prop :=
  ∀ bytes source cs, r bytes source = .ok cs → ∀ c ∈ cs, p c

/-- Narrowing texts to some locales keeps a property. -/
def Component.Untranslated (p : Component → Prop) : Prop :=
  ∀ keep c, p c → p (Component.retainLocales keep c)

namespace Store

/-- The patches that satisfy `keep` are left. -/
def keepPatches (s : Store) (keep : Component → Bool) : Store :=
  { s with patches := (s.patches.map (·.filter keep)).filter fun _ ps => ps ≠ [] }

/-- The smallest changes that operations consist of, with all that they do. The components that
come in have the property `p`. -/
inductive Move (p : Component → Prop) (s : Store) : Store → Prop
  | aside {pool : Pool} {watches : WatchTable} : Move p s { s with pool, watches }
  | inhibit : Move p s s.inhibit.2
  | release (guard : Nat) : Move p s (s.release guard)
  | add {c : Component} (hc : p c) : Move p s (s.add c)
  | remove (key : Nat) : Move p s (s.removeKey key)
  | strip (filename : String) (count key : Nat) : Move p s (stripKey filename (count, s) key).2
  | forget (keep : Component → Bool) : Move p s (s.keepPatches keep)
  | attachAddons : Move p s s.attachAddons.2
  | buildTokens : Move p s s.buildTokens
  | queryMetadata (key value : String) : Move p s (s.byMetadata key value).2

abbrev Moves (p : Component → Prop) : Store → Store → Prop := ReflTransGen (Move p)

variable {p : Component → Prop} {s t : Store}

theorem Move.edits_or_add (h : Move p s t) : Edits s t ∨ ∃ c, p c ∧ t = s.add c := by
  cases h with
  | aside => exact .inl (SameCatalog.edits ⟨rfl, rfl, rfl, rfl, rfl, rfl, rfl, rfl⟩)
  | inhibit => exact .inl s.sameCatalog_inhibit.edits
  | release guard => exact .inl (s.sameCatalog_release guard).edits
  | @add c hc => exact .inr ⟨c, hc, rfl⟩
  | remove key => exact .inl (edits_removeKey s key)
  | strip filename count key => exact .inl (edits_stripKey filename (count, s) key)
  | forget keep => exact .inl (edits_patches s _)
  | attachAddons => exact .inl s.sameCatalog_attachAddons.edits
  | buildTokens => exact .inl s.sameCatalog_buildTokens.edits
  | queryMetadata key value => exact .inl (s.sameCatalog_byMetadata key value).edits

theorem Move.setup (h : Move p s t) : SameSetup s t := by
  rcases h.edits_or_add with hedits | ⟨c, -, rfl⟩
  · exact hedits.setup
  · exact s.setup_add c

theorem get?_keepPatches (s : Store) (keep : Component → Bool) (id : String) :
    (s.keepPatches keep).patches.get? id =
      ((s.patches.get? id).map (·.filter keep)).filter (· ≠ []) := by
  unfold keepPatches
  rw [TextMap.get?_filter, TextMap.get?_map]

theorem patchesFor_keepPatches (s : Store) (keep : Component → Bool) (id : String) :
    (s.keepPatches keep).patchesFor id = (s.patchesFor id).filter keep := by
  unfold patchesFor TextMap.getD
  rw [get?_keepPatches]
  cases s.patches.get? id with
  | none => rfl
  | some ps => by_cases hnone : ps.filter keep = [] <;> simp [hnone, Option.filter]

theorem keepPatches_none (s : Store) :
    s.keepPatches (fun _ => false) = { s with patches := .empty } := by
  have hempty : (s.keepPatches fun _ => false).patches = .empty := by
    apply TextMap.ext_get?
    intro id
    rw [get?_keepPatches]
    cases s.patches.get? id <;> simp [Option.filter]
  exact congrArg (fun patches => { s with patches }) hempty

/-- Where nothing comes in, all that happens to patches is that some are forgotten. -/
theorem Move.patches (h : Move (fun _ => False) s t) :
    t.patches = s.patches ∨ ∃ keep, t = s.keepPatches keep := by
  cases h with
  | aside | inhibit | release => exact .inl rfl
  | add hno => exact hno.elim
  | remove key => exact .inl (s.patches_removeKey key)
  | strip filename count key => exact .inl (patches_stripKey filename (count, s) key)
  | forget keep => exact .inr ⟨keep, rfl⟩
  | attachAddons => exact .inl s.sameCatalog_attachAddons.patches
  | buildTokens => exact .inl s.sameCatalog_buildTokens.patches
  | queryMetadata key value => exact .inl (s.sameCatalog_byMetadata key value).patches

theorem Moves.setup (h : Moves p s t) : SameSetup s t := by
  induction h with
  | refl => exact ⟨rfl, rfl⟩
  | tail _ h ih => exact ih.trans h.setup

/-- Where nothing comes in, moves are edits. -/
theorem Moves.edits (h : Moves (fun _ => False) s t) : Edits s t := by
  induction h with
  | refl => exact .refl
  | tail _ h ih =>
    rcases h.edits_or_add with hedits | ⟨c, hno, -⟩
    · exact ih.trans hedits
    · exact hno.elim

theorem Moves.steps (h : Moves Component.Proper s t) : Steps s t := by
  induction h with
  | refl => exact .refl
  | tail _ h ih =>
    rcases h.edits_or_add with hedits | ⟨c, hc, rfl⟩
    · exact ih.trans hedits.steps
    · exact ih.tail (.add hc)

theorem moves_inhibit (s : Store) : Moves p s s.inhibit.2 := .single .inhibit

theorem moves_release (s : Store) (guard : Nat) : Moves p s (s.release guard) :=
  .single (.release guard)

theorem moves_watch (s : Store) (path : String) (w : Watch) : Moves p s (s.watch path w) :=
  .single .aside

theorem moves_unwatch (s : Store) (path : String) : Moves p s (s.unwatch path) := .single .aside

theorem moves_settle (s : Store) : Moves p s s.settle := by
  unfold settle
  split
  · exact .refl
  · exact .single .aside

theorem moves_search (s : Store) (query : String) : Moves p s (s.search query).2 := by
  unfold search
  split
  · exact .refl
  · exact .single .buildTokens

theorem moves_foldl {α β : Type} {f : β × Store → α → β × Store}
    (h : ∀ r a, Moves p r.2 (f r a).2) (as : List α) (r : β × Store) :
    Moves p r.2 (as.foldl f r).2 := by
  induction as generalizing r with
  | nil => exact .refl
  | cons a as ih => exact (h r a).trans (ih (f r a))

theorem moves_batch {α : Type} {f : Store → α × Store}
    (h : Moves p s.inhibit.2 (f s.inhibit.2).2) : Moves p s (s.batch f).2 :=
  (s.moves_inhibit.trans h).trans (moves_release _ _)

theorem moves_removeKeys (s : Store) (keys : List Nat) : Moves p s (s.removeKeys keys).2 := by
  have hbatch : Moves p s (s.batch fun s => s.removeEach keys).2 := by
    apply moves_batch
    exact moves_foldl (fun r k => .single (.remove k)) keys (0, s.inhibit.2)
  exact hbatch.trans (moves_settle _)

theorem moves_remove (s : Store) (c : Component) : Moves p s (s.remove c).2 := by
  unfold remove
  split
  · exact .refl
  · exact .single (.remove _)

theorem moves_removeAll (s : Store) : Moves p s s.removeAll := by
  have hforget (t : Store) : Moves p t { t with patches := .empty } := by
    rw [← t.keepPatches_none]
    exact .single (.forget _)
  exact ((s.moves_removeKeys _).trans (hforget _)).trans (moves_settle _)

/-- The patches that stay without a file. -/
theorem patchesFor_dropPatchesOf (s : Store) (filename id : String) :
    (s.dropPatchesOf filename).patchesFor id =
      (s.patchesFor id).filter (!·.hasSourceFile filename) :=
  s.patchesFor_keepPatches _ id

theorem moves_dropPatchesOf (s : Store) (filename : String) :
    Moves p s (s.dropPatchesOf filename) :=
  .single (.forget fun patch => !patch.hasSourceFile filename)

theorem moves_removeBySourceFile (s : Store) (filename : String) :
    Moves p s (s.removeBySourceFile filename).2 := by
  refine ReflTransGen.trans ?_ (moves_settle _)
  apply moves_batch
  have hstrip : Moves p s.inhibit.2 ((s.inhibit.2.keysWhere (·.hasSourceFile filename)).foldl
      (stripKey filename) (0, s.inhibit.2)).2 :=
    moves_foldl (fun r k => .single (.strip filename r.1 k)) _ (0, s.inhibit.2)
  exact hstrip.trans (moves_dropPatchesOf _ filename)

theorem edits_removeBySourceFile (s : Store) (filename : String) :
    Edits s (s.removeBySourceFile filename).2 :=
  Moves.edits (s.moves_removeBySourceFile filename)

theorem moves_dropPath (s : Store) (path : String) : Moves p s (s.dropPath path).2 := by
  refine ReflTransGen.trans ?_ (moves_unwatch _ path)
  refine moves_foldl (fun r nested => ?_) _ (0, s)
  exact (r.2.moves_removeBySourceFile nested).trans (moves_unwatch _ nested)

end Store

end SoftwareCatalog
