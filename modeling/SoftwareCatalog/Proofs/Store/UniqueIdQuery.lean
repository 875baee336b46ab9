import SoftwareCatalog.Proofs.Store.UniqueIdIndex

namespace SoftwareCatalog.Store

/-- A stored component that has the unique ID is answered, or else the first one that the unique ID
agrees with if it has a wildcard. -/
structure Answers (s : Store) (u : String) : Prop where
  carried : (∃ c ∈ s.components, c.uniqueId = u) →
    ∃ c ∈ s.components, s.byUniqueId u = some c ∧ c.uniqueId = u
  otherwise : (∀ c ∈ s.components, c.uniqueId ≠ u) →
    s.byUniqueId u = if UniqueId.hasWildcard u then (s.agreeing u).head? else none

/-- What is indexed for a unique ID is a stored record that has it. -/
def LeadsRight (s : Store) (u : String) : Prop :=
  ∀ k, s.keyByUniqueId.get? u = some k → ∃ c, s.find? k = some c ∧ c.uniqueId = u

variable {s : Store} {u : String}

theorem mem_components_of_find? {k : Nat} {c : Component} (h : s.find? k = some c) :
    c ∈ s.components := by
  obtain ⟨r, hr, rfl⟩ := Option.map_eq_some_iff.1 h
  exact List.mem_map_of_mem (List.mem_of_find?_eq_some hr)

theorem UniquelyIndexed.leadsRight_iff (h : s.UniquelyIndexed) : s.LeadsRight u ↔ s.Leads u := by
  constructor
  · intro hright k hk
    obtain ⟨c, hc, -⟩ := hright k hk
    exact ⟨c.bare, mem_entries_of_find? hc⟩
  · intro hleads k hk
    obtain ⟨b, hb⟩ := hleads k hk
    obtain ⟨c, hc, rfl⟩ := h.wellIndexed.keyed.find?_of_mem hb
    exact ⟨c, hc, h.right u k c.bare hk hb⟩

theorem UniquelyIndexed.not_carried_of_none (h : s.UniquelyIndexed)
    (hu : UniqueId.valid u = true) (hnone : s.keyByUniqueId.get? u = none) :
    ∀ c ∈ s.components, c.uniqueId ≠ u := by
  intro c hc heq
  obtain rfl := heq
  obtain ⟨r, hr, rfl⟩ := List.mem_map.1 hc
  have hsome := h.covered r.key r.component.bare (List.mem_map_of_mem hr) hu
  rw [r.component.bare_uniqueId, hnone] at hsome
  cases hsome

/-- A query answers as it should where what is indexed is there. -/
theorem UniquelyIndexed.answers (h : s.UniquelyIndexed) (hu : UniqueId.valid u = true)
    (hleads : s.Leads u) : s.Answers u := by
  cases hk : s.keyByUniqueId.get? u with
  | none =>
    have hno := h.not_carried_of_none hu hk
    refine ⟨?_, ?_⟩
    · intro hsome
      obtain ⟨c, hc, hcu⟩ := hsome
      exact absurd hcu (hno c hc)
    · intro _
      unfold byUniqueId
      rw [hk]
  | some k =>
    obtain ⟨c, hc, hcu⟩ := (h.leadsRight_iff.2 hleads) k hk
    have hin := mem_components_of_find? hc
    refine ⟨?_, ?_⟩
    · intro _
      refine ⟨c, hin, ?_, hcu⟩
      unfold byUniqueId
      rw [hk]
      exact hc
    · intro hno
      exact absurd hcu (hno c hin)

/-- Where what is indexed is gone, a query finds nothing. -/
theorem byUniqueId_of_not_leads (h : ¬ s.Leads u) : s.byUniqueId u = none := by
  unfold Leads at h
  push Not at h
  obtain ⟨k, hk, hgone⟩ := h
  unfold byUniqueId
  rw [hk]
  exact find?_eq_none_iff.2 fun e he hek => hgone e.2 (hek ▸ he)

/-- A unique ID that nothing has can only be answered as a wildcard. -/
theorem UniquelyIndexed.byUniqueId_of_not_carried (h : s.UniquelyIndexed)
    (hno : ∀ c ∈ s.components, c.uniqueId ≠ u) :
    s.byUniqueId u = none ∨
      s.byUniqueId u = if UniqueId.hasWildcard u then (s.agreeing u).head? else none := by
  unfold byUniqueId
  split
  · rename_i k hk
    left
    cases hc : s.find? k with
    | none => rfl
    | some c =>
      have hcu := h.right u k c.bare hk (mem_entries_of_find? hc)
      exact absurd hcu (hno c (mem_components_of_find? hc))
  · exact .inr rfl

/-- Where what is indexed is gone, a query still answers as it should if there is nothing to
answer. -/
theorem UniquelyIndexed.answers_iff (h : s.UniquelyIndexed) (hu : UniqueId.valid u = true) :
    s.Answers u ↔ s.Leads u ∨ ((∀ c ∈ s.components, c.uniqueId ≠ u) ∧
      (UniqueId.hasWildcard u = true → s.agreeing u = [])) := by
  constructor
  · intro hanswers
    by_cases hleads : s.Leads u
    · exact .inl hleads
    · have hnone := byUniqueId_of_not_leads hleads
      have hno : ∀ c ∈ s.components, c.uniqueId ≠ u := by
        intro c hc hcu
        obtain ⟨d, -, hd, -⟩ := hanswers.carried ⟨c, hc, hcu⟩
        rw [hnone] at hd
        cases hd
      refine .inr ⟨hno, ?_⟩
      intro hwild
      have hhead := hanswers.otherwise hno
      rw [hnone, if_pos hwild] at hhead
      exact List.head?_eq_none_iff.1 hhead.symm
  · intro heither
    rcases heither with hleads | ⟨hno, hempty⟩
    · exact h.answers hu hleads
    · have hnothing : (if UniqueId.hasWildcard u then (s.agreeing u).head? else none) = none := by
        split
        · rename_i hwild
          rw [hempty hwild]
          rfl
        · rfl
      refine ⟨?_, ?_⟩
      · intro hsome
        obtain ⟨c, hc, hcu⟩ := hsome
        exact absurd hcu (hno c hc)
      · intro _
        rcases h.byUniqueId_of_not_carried hno with hnone | hfallback
        · rw [hnone, hnothing]
        · exact hfallback

/-- An operation that brings in at most one component. -/
inductive Operation.Atomic : Operation → Prop
  | add {c : Component} (hc : c.Proper) : Atomic (.add c)
  | edit {op : Operation} (h : op.adds = false) : Atomic op

/-- Whether an operation leaves files alone. -/
def Operation.inMemory : Operation → Bool
  | .loadPath .. | .loadUserLocations .. | .fileChange .. => false
  | _ => true

def unrollMany (s : Store) (cs : List Component) : List Operation :=
  .inhibit :: cs.map .add ++ [.release s.inhibit.1]

/-- The single operations that an operation in memory consists of. -/
def unroll (s : Store) : Operation → List Operation
  | .addMany cs => s.unrollMany cs
  | .loadBytes bytes name w =>
    match s.reader bytes { filename := some name, scope := w.scope, arch := w.arch } with
    | .error _ => [.inhibit, .release s.inhibit.1]
    | .ok cs =>
      .inhibit :: s.inhibit.2.unrollMany (s.admitted cs) ++
        [.attachAddons, .release s.inhibit.1]
  | op => [op]

def unrollAll : Store → List Operation → List Operation
  | _, [] => []
  | s, op :: ops => s.unroll op ++ unrollAll (s.apply op) ops

theorem run_adds (s : Store) (cs : List Component) : s.run (cs.map .add) = cs.foldl add s := by
  unfold run
  rw [List.foldl_map]
  rfl

theorem run_unrollMany (s : Store) (cs : List Component) :
    s.run (s.unrollMany cs) = s.addMany cs := by
  have hadds : s.inhibit.2.run (cs.map .add) = cs.foldl add s.inhibit.2 := run_adds _ cs
  change (s.inhibit.2.run (cs.map .add ++ [.release s.inhibit.1])) = _
  rw [run_append, hadds]
  rfl

theorem run_unroll (s : Store) (op : Operation) : s.run (s.unroll op) = s.apply op := by
  cases op with
  | addMany cs => exact s.run_unrollMany cs
  | loadBytes bytes name w =>
    unfold unroll
    simp only
    cases hread : s.reader bytes { filename := some name, scope := w.scope, arch := w.arch } with
    | error e =>
      have hload := loadBytes_of_error hread
      simp only [apply, hload]
      rfl
    | ok cs =>
      have hload := loadBytes_of_ok hread
      simp only [apply, hload]
      change s.inhibit.2.run (s.inhibit.2.unrollMany (s.admitted cs) ++ _) = _
      rw [run_append, run_unrollMany]
      rfl
  | _ => rfl

theorem run_unrollAll (s : Store) (ops : List Operation) : s.run (s.unrollAll ops) = s.run ops := by
  induction ops generalizing s with
  | nil => rfl
  | cons op ops ih =>
    rw [unrollAll, run_append, run_unroll, ih]
    rfl

theorem atomic_unrollMany {cs : List Component} (h : ∀ c ∈ cs, c.Proper) (s : Store) :
    ∀ op ∈ s.unrollMany cs, op.Atomic := by
  intro op hop
  simp only [unrollMany, List.cons_append, List.mem_cons, List.mem_append, List.mem_map,
    List.not_mem_nil, or_false] at hop
  rcases hop with rfl | ⟨c, hc, rfl⟩ | rfl
  · exact .edit rfl
  · exact .add (h c hc)
  · exact .edit rfl

theorem atomic_unroll {s : Store} (hr : s.reader.Proper) {op : Operation} (hop : op.Proper)
    (hmemory : op.inMemory = true) : ∀ a ∈ s.unroll op, a.Atomic := by
  cases op with
  | add c =>
    intro a ha
    rw [List.mem_singleton.1 ha]
    exact .add hop
  | addMany cs => exact atomic_unrollMany hop s
  | loadBytes bytes name w =>
    unfold unroll
    simp only
    split
    · intro a ha
      simp only [List.mem_cons, List.not_mem_nil, or_false] at ha
      rcases ha with rfl | rfl <;> exact .edit rfl
    · rename_i cs hread
      have hcs := proper_admitted (s := s) (hr _ _ cs hread)
      intro a ha
      rw [List.cons_append, List.mem_cons, List.mem_append] at ha
      rcases ha with rfl | ha | ha
      · exact .edit rfl
      · exact atomic_unrollMany hcs _ a ha
      · simp only [List.mem_cons, List.not_mem_nil, or_false] at ha
        rcases ha with rfl | rfl <;> exact .edit rfl
  | loadPath files w cancel path => cases hmemory
  | loadUserLocations files cancelled dataHome home => cases hmemory
  | fileChange files change path => cases hmemory
  | _ =>
    intro a ha
    rw [List.mem_singleton.1 ha]
    exact .edit rfl

theorem atomic_unrollAll {s : Store} (hr : s.reader.Proper) {ops : List Operation}
    (hops : ∀ op ∈ ops, Operation.Proper op ∧ op.inMemory = true) :
    ∀ a ∈ s.unrollAll ops, a.Atomic := by
  induction ops generalizing s with
  | nil => simp [unrollAll]
  | cons op ops ih =>
    obtain ⟨hop, hmemory⟩ := hops op List.mem_cons_self
    have hnext : (s.apply op).reader.Proper := (steps_apply hr hop).setup.reader ▸ hr
    have hrest : ∀ op' ∈ ops, Operation.Proper op' ∧ op'.inMemory = true :=
      fun op' h => hops op' (List.mem_cons_of_mem op h)
    intro a ha
    rcases List.mem_append.1 ha with ha | ha
    · exact atomic_unroll hr hop hmemory a ha
    · exact ih hnext hrest a ha

theorem UniquelyIndexed.apply (h : s.UniquelyIndexed) {op : Operation} (hop : op.Atomic) :
    (s.apply op).UniquelyIndexed := by
  cases hop with
  | add hc => exact h.add hc
  | edit hadds => exact h.edits (edits_apply s hadds)

theorem UniquelyIndexed.run (h : s.UniquelyIndexed) {ops : List Operation}
    (hops : ∀ op ∈ ops, Operation.Atomic op) : (s.run ops).UniquelyIndexed := by
  induction ops generalizing s with
  | nil => exact h
  | cons op ops ih =>
    have hnext := h.apply (hops op List.mem_cons_self)
    exact ih hnext fun op' h' => hops op' (List.mem_cons_of_mem op h')

/-- Along a run, a unique ID leads to what is there until an addition strands it. -/
theorem leads_run_iff (h : s.UniquelyIndexed) (hu : s.Leads u) {ops : List Operation}
    (hops : ∀ op ∈ ops, Operation.Atomic op) :
    (∀ done later, ops = done ++ later → (s.run done).Leads u) ↔
      ∀ done c later, ops = done ++ .add c :: later → ¬ Strands (s.run done) c u := by
  have hinv (s : Store) (op : Operation) (hop : op.Atomic) (hs : s.UniquelyIndexed) :
      (s.apply op).UniquelyIndexed := hs.apply hop
  have hadd (s : Store) (c : Component) (_ : (Operation.add c).Atomic) (hs : s.UniquelyIndexed)
      (hleads : s.Leads u) : (s.add c).Leads u ↔ ¬ Strands s c u := leads_add_iff hs hleads c
  have hedit (s : Store) (op : Operation) (hop : op.Atomic) (hno : ∀ c, op ≠ .add c)
      (hs : s.UniquelyIndexed) (hleads : s.Leads u) : (s.apply op).Leads u := by
    cases hop with
    | @add c _ => exact absurd rfl (hno c)
    | edit hadds => exact hleads.edits hs (edits_apply s hadds)
  exact run_throughout_iff hinv hadd hedit h hu hops

/-- Throughout a run, a query by a unique ID of six segments answers as it should, and nothing
indexed for the unique ID is gone or has another one, if and only if no addition of the run strands
the unique ID. A query that goes to what is gone is right only if there is nothing to answer. -/
theorem byUniqueId_right_iff {settings : Settings} {reader : Reader} (hr : reader.Proper)
    {ops : List Operation} (hops : ∀ op ∈ ops, Operation.Proper op ∧ op.inMemory = true)
    {u : String} (hu : UniqueId.valid u = true) :
    (new settings reader).run (unrollAll (new settings reader) ops) =
      (new settings reader).run ops ∧
    ((∀ done later, unrollAll (new settings reader) ops = done ++ later →
        ((new settings reader).run done).Answers u ∧
        ((new settings reader).run done).LeadsRight u) ↔
      ∀ done c later, unrollAll (new settings reader) ops = done ++ .add c :: later →
        ¬ Strands ((new settings reader).run done) c u) ∧
    ∀ done later, unrollAll (new settings reader) ops = done ++ later →
      (((new settings reader).run done).Answers u ↔
        ((new settings reader).run done).LeadsRight u ∨
        ((∀ c ∈ ((new settings reader).run done).components, c.uniqueId ≠ u) ∧
          (UniqueId.hasWildcard u = true →
            ((new settings reader).run done).agreeing u = []))) := by
  have hstart := uniquelyIndexed_new settings reader
  have hatomic := atomic_unrollAll (s := new settings reader) hr hops
  have hindexed : ∀ done later, unrollAll (new settings reader) ops = done ++ later →
      ((new settings reader).run done).UniquelyIndexed := by
    intro done later hsplit
    apply hstart.run
    intro op hop
    exact hatomic op (hsplit ▸ List.mem_append_left later hop)
  refine ⟨run_unrollAll _ ops, ?_, ?_⟩
  · rw [← leads_run_iff hstart (leads_new settings reader u) hatomic]
    constructor
    · intro hall done later hsplit
      exact (hindexed done later hsplit).leadsRight_iff.1 (hall done later hsplit).2
    · intro hall done later hsplit
      have hs := hindexed done later hsplit
      have hleads := hall done later hsplit
      exact ⟨hs.answers hu hleads, hs.leadsRight_iff.2 hleads⟩
  · intro done later hsplit
    have hs := hindexed done later hsplit
    rw [hs.leadsRight_iff]
    exact hs.answers_iff hu

/-- A launcher that says nothing but its ID, and metadata that says the kind as well. -/
def launcher : Component := (Component.ofId "a").addFormat (.ofKind .desktop)

def metadata : Component :=
  { (Component.ofId "a").addFormat (.ofKind .metaInfo) with kind := .desktop }

/-- Metadata that comes after its launcher strands the unique ID that the launcher came with. -/
theorem exists_strands :
    Reader.any.Proper ∧ UniqueId.valid "*/*/*/*/a/*" = true ∧
    ∃ done c later,
      unrollAll (new ⟨{}, {}, ⟨["en"], 4, true, 3⟩⟩ Reader.any) [.addMany [launcher, metadata]] =
        done ++ .add c :: later ∧
      Strands ((new ⟨{}, {}, ⟨["en"], 4, true, 3⟩⟩ Reader.any).run done) c "*/*/*/*/a/*" := by
  have hvalid : UniqueId.valid "*/*/*/*/a/*" = true := by decide +kernel
  refine ⟨Reader.proper_any, hvalid, ?_⟩
  by_contra hno
  push Not at hno
  have hops : ∀ op ∈ [Operation.addMany [launcher, metadata]],
      Operation.Proper op ∧ op.inMemory = true := by
    intro op hop
    rw [List.mem_singleton.1 hop]
    refine ⟨?_, rfl⟩
    intro c hc
    simp only [List.mem_cons, List.not_mem_nil, or_false] at hc
    rcases hc with rfl | rfl <;> decide +kernel
  have hright := (@byUniqueId_right_iff ⟨{}, {}, ⟨["en"], 4, true, 3⟩⟩ _
    Reader.proper_any _ hops _ hvalid).2.1.2 hno
  have hend := (hright _ [] (List.append_nil _).symm).1.otherwise (by decide +kernel)
  exact absurd hend (by decide +kernel)

/-- So the query for it finds nothing, although the metadata agrees with it. -/
theorem not_answers_after_metadata :
    launcher.Proper ∧ metadata.Proper ∧ UniqueId.valid "*/*/*/*/a/*" = true ∧
    ¬ ((new ⟨{}, {}, ⟨["en"], 4, true, 3⟩⟩ Reader.any).run
      [.add launcher, .add metadata]).Answers "*/*/*/*/a/*" := by
  refine ⟨by decide +kernel, by decide +kernel, by decide +kernel, ?_⟩
  intro hanswers
  have hfallback := hanswers.otherwise (by decide +kernel)
  exact absurd hfallback (by decide +kernel)

end SoftwareCatalog.Store
