import SoftwareCatalog.Proofs.Store.Operation

namespace SoftwareCatalog

namespace Component

variable {p : Component → Prop}

/-- A property that no change of a stored description takes away: it does not depend on what is
attached, and what a description takes over from another one leaves it, as does forgetting a file. -/
structure Lasting (p : Component → Prop) : Prop where
  bare : ∀ c, p (bare c) ↔ p c
  subsume : ∀ flags c d, p c → p (subsume flags c d)
  strip : ∀ filename c, p c → p (removeFormatsOf c filename)

theorem Lasting.patched (hp : Lasting p) {c : Component} (h : p c) (patches : List Component) :
    p (patches.foldl applyPatch c) := by
  refine List.foldlRecOn patches applyPatch h fun d hd patch _ => ?_
  unfold applyPatch
  split
  · exact hp.subsume _ _ _ hd
  · exact hd

/-- The two descriptions of a merge keep what each of them had. -/
theorem Lasting.mergeBoth (hp : Lasting p) {old c : Component} (survivor : Survivor) :
    (p old → p (mergeBoth survivor old c).stored) ∧ (p c → p (mergeBoth survivor old c).incoming) :=
  ⟨hp.subsume _ _ _, hp.subsume _ _ _⟩

theorem Lasting.reconcile (hp : Lasting p) {old c : Component} (preferLocal : Bool) :
    (p old → p (reconcile preferLocal old c).stored) ∧
      (p c → p (reconcile preferLocal old c).incoming) := by
  rcases reconcile_cases preferLocal old c with h | h | h | ⟨-, h⟩ <;> rw [h]
  · exact ⟨hp.subsume _ _ _, fun hc => hc⟩
  · exact ⟨fun hold => hold, hp.subsume _ _ _⟩
  · exact hp.mergeBoth .stored
  · exact hp.mergeBoth .incoming

end Component

namespace Store

open Component (Lasting)

variable {p q : Component → Prop} {s t : Store} {key : Nat} {c old : Component}

/-- Every record has a property. -/
def Consists (p : Component → Prop) (s : Store) : Prop := ∀ e ∈ s.entries, p e.2

theorem Consists.components (hp : Lasting p) (h : s.Consists p) : ∀ c ∈ s.components, p c := by
  intro c hc
  obtain ⟨r, hr, rfl⟩ := List.mem_map.1 hc
  exact (hp.bare _).1 (h _ (List.mem_map_of_mem hr))

theorem Consists.of_entries (h : s.Consists p) (heq : t.entries = s.entries) : t.Consists p := by
  unfold Consists
  rw [heq]
  exact h

theorem Consists.find? (hp : Lasting p) (h : s.Consists p) (hc : s.find? key = some c) : p c :=
  (hp.bare c).1 (h _ (mem_entries_of_find? hc))

theorem Consists.inserted (hp : Lasting p) (h : s.Consists p) (hc : p c) (k : Inserted c s t) :
    t.Consists p := by
  intro e he
  rcases k.mem_iff.1 he with hin | ⟨-, heq⟩
  · exact h e hin
  · rw [heq]
    exact (hp.bare c).2 hc

theorem Consists.altered (h : s.Consists p) {g : Component → Component}
    (hg : ∀ d, p d → p (g d)) (k : Altered key g old s t) : t.Consists p := by
  intro e he
  rw [k.entries] at he
  obtain ⟨d, hd, rfl⟩ := List.mem_map.1 he
  unfold alter
  split
  · exact hg _ (h d hd)
  · exact h d hd

theorem Consists.removed (h : s.Consists p) (k : Removed key c s t) : t.Consists p :=
  fun e he => h e (k.mem_iff.1 he).2

theorem Consists.update (hp : Lasting p) (h : s.Consists p) (key : Nat)
    {f : Component → Component} (hf : ∀ c, p c → p (f c)) : (s.update key f).Consists p := by
  cases hc : s.find? key with
  | none =>
    rw [update_of_none hc]
    exact h
  | some c =>
    have hnew : p (f c).bare := (hp.bare _).2 (hf c (h.find? hp hc))
    exact h.altered (fun _ _ => hnew) (altered_update hc f)

theorem Consists.given (hp : Lasting p) (h : s.Consists p) (patch : Component)
    (keys : List Nat) : (s.given patch keys).Consists p := by
  induction keys generalizing s with
  | nil => exact h
  | cons key keys ih => exact ih (h.update hp key fun c => hp.subsume _ c patch)

theorem Consists.met (hp : Lasting p) (h : s.Consists p) (hc : p c) (k : Met c s t) :
    t.Consists p := by
  cases k with
  | inserted _ k => exact h.inserted hp hc k
  | lost _ _ k => exact h.inserted hp hc k
  | @merged key old _ hold _ k =>
    have hnew : p (reconcile s.settings.add.preferLocal old c).stored :=
      (hp.reconcile _).1 (h.find? hp hold)
    exact h.altered (fun _ _ => (hp.bare _).2 hnew) k
  | @replaced key old rest _ _ _ hrest k =>
    have hnew : p (reconcile s.settings.add.preferLocal old c).incoming := (hp.reconcile _).2 hc
    exact (h.removed hrest).inserted hp hnew k

/-- Of what is added, only what describes software comes to be a record. -/
theorem Consists.add (hp : Lasting p) (h : s.Consists p)
    (hc : c.mergeKind.isPatch = false → p c) : (s.add c).Consists p := by
  cases hid : c.id with
  | none =>
    rw [add_of_no_id hid]
    exact h
  | some id =>
    cases hkind : c.mergeKind.isPatch with
    | true =>
      rw [s.add_patch_eq hid hkind]
      have hpooled := h.of_entries (s.sameCatalog_internAll c.pooledTexts).entries
      exact (hpooled.given hp c _).of_entries rfl
    | false => exact h.met hp (hp.patched (hc hkind) _) (s.met_add hid hkind)

theorem Consists.move (hp : Lasting p) (h : s.Consists p)
    (hq : ∀ c, q c → c.mergeKind.isPatch = false → p c) (k : Move q s t) : t.Consists p := by
  cases k with
  | aside | inhibit | release | forget => exact h
  | add hc => exact h.add hp (hq _ hc)
  | remove key =>
    cases hc : s.find? key with
    | none =>
      rw [removeKey_of_none hc]
      exact h
    | some c => exact h.removed (removed_removeKey hc)
  | strip filename count key =>
    rcases stripKey_cases filename (count, s) key with ⟨-, hsame⟩ | ⟨c, -, ⟨-, k⟩ | ⟨-, k⟩⟩
    · rw [hsame]
      exact h
    · exact h.removed k
    · exact h.altered (hp.strip filename) k
  | attachAddons => exact h.of_entries s.sameCatalog_attachAddons.entries
  | buildTokens => exact h.of_entries s.sameCatalog_buildTokens.entries
  | queryMetadata key value => exact h.of_entries (s.sameCatalog_byMetadata key value).entries

theorem consists_new (settings : Settings) (reader : Reader) :
    (new settings reader).Consists p := fun _ he => absurd he List.not_mem_nil

/-- A lasting property of all that comes in is one of all records. -/
theorem consists_run (hp : Lasting p) (hkeep : Component.Untranslated p) {settings : Settings}
    {reader : Reader} (hr : reader.Yields p) {ops : List Operation}
    (hops : ∀ op ∈ ops, Operation.Brings p op) : ((new settings reader).run ops).Consists p := by
  refine run_induction hkeep (fun s t k h => h.move hp (fun _ hc _ => hc) k) hr hops ?_
    (consists_new settings reader)
  intro done stem later _ h
  exact h.of_entries (sameCatalog_withStemmer _ stem).entries

end Store

end SoftwareCatalog
