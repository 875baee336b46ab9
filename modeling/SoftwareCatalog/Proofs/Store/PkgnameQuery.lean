import SoftwareCatalog.Proofs.Store.PkgnameSteps
import SoftwareCatalog.Proofs.Store.UniqueIdQuery

namespace SoftwareCatalog.Store

variable {s : Store} {p : String}

/-- What is answered is stored and lists the package name, and something is answered if any
component lists it. -/
structure AnswersName (s : Store) (p : String) : Prop where
  right : ∀ c, s.byPkgname p = some c → c ∈ s.components ∧ p ∈ c.pkgnames
  covered : (∃ c ∈ s.components, p ∈ c.pkgnames) → (s.byPkgname p).isSome = true

theorem byPkgname_of_get? {k : Nat} (h : s.keyByPkgname.get? p = some k) :
    s.byPkgname p = s.find? k := by
  unfold byPkgname
  rw [h, Option.bind_some]

theorem byPkgname_of_none (h : s.keyByPkgname.get? p = none) : s.byPkgname p = none := by
  unfold byPkgname
  rw [h, Option.bind_none]

/-- Where the name leads to a record, a query answers as it should if the index is right. -/
theorem LeadsName.answers_iff (h : s.LeadsName p) (hs : s.Keyed) :
    s.AnswersName p ↔ s.Named p := by
  have hlisted : (∃ c ∈ s.components, p ∈ c.pkgnames) ↔ ∃ e ∈ s.entries, p ∈ e.2.pkgnames :=
    mem_components fun _ => Iff.rfl
  constructor
  · intro hanswers
    refine ⟨?_, ?_⟩
    · intro k hk
      obtain ⟨b, hb⟩ := h k hk
      obtain ⟨c, hc, rfl⟩ := hs.find?_of_mem hb
      exact ⟨c.bare, hb, (hanswers.right c ((byPkgname_of_get? hk).trans hc)).2⟩
    · intro hnone e he hp
      have hsome := hanswers.covered (hlisted.2 ⟨e, he, hp⟩)
      rw [byPkgname_of_none hnone] at hsome
      cases hsome
  · intro hnamed
    refine ⟨?_, ?_⟩
    · intro c hc
      cases hk : s.keyByPkgname.get? p with
      | none =>
        rw [byPkgname_of_none hk] at hc
        cases hc
      | some k =>
        rw [byPkgname_of_get? hk] at hc
        obtain ⟨b, hb, hp⟩ := hnamed.right k hk
        obtain rfl := hs.component_eq (mem_entries_of_find? hc) hb
        exact ⟨mem_components_of_find? hc, hp⟩
    · intro hsome
      cases hk : s.keyByPkgname.get? p with
      | none =>
        obtain ⟨e, he, hp⟩ := hlisted.1 hsome
        exact absurd hp (hnamed.covered hk e he)
      | some k =>
        obtain ⟨b, hb, -⟩ := hnamed.right k hk
        obtain ⟨c, hc, -⟩ := hs.find?_of_mem hb
        rw [byPkgname_of_get? hk, hc]
        rfl

/-- Throughout a run, a query by package name answers as it should if and only if no operation of
the run misleads the name. -/
theorem byPkgname_right_iff {settings : Settings} {reader : Reader} (hr : reader.Proper)
    {ops : List Operation} (hops : ∀ op ∈ ops, Operation.Proper op ∧ op.inMemory = true)
    (p : String) :
    (new settings reader).run (unrollAll (new settings reader) ops) =
      (new settings reader).run ops ∧
    ((∀ done later, unrollAll (new settings reader) ops = done ++ later →
        ((new settings reader).run done).AnswersName p) ↔
      ∀ done op later, unrollAll (new settings reader) ops = done ++ op :: later →
        ¬ Misleads ((new settings reader).run done) op p) := by
  refine ⟨run_unrollAll _ ops, ?_⟩
  have hstart := named_new settings reader p
  have hindexed := wellIndexed_new settings reader
  have happly (s : Store) (op : Operation) (hop : op.Atomic) (hs : s.WellIndexed)
      (hnamed : s.Named p) : (s.apply op).WellIndexed ∧ (s.apply op).LeadsName p ∧
        ((s.apply op).Named p ↔ ¬ Misleads s op p) := by
    cases hop with
    | @add c hc => exact ⟨hs.step (.add hc), named_add_iff hs hnamed c⟩
    | edit hadds => exact ⟨hs.edits (edits_apply s hadds), named_apply_iff hs hnamed hadds⟩
  have hinv (s : Store) (op : Operation) (hop : op.Atomic) (hs : s.WellIndexed ∧ s.LeadsName p)
      (hanswers : s.AnswersName p) :
      (s.apply op).WellIndexed ∧ (s.apply op).LeadsName p := by
    obtain ⟨hindexed, hleads, -⟩ :=
      happly s op hop hs.1 ((hs.2.answers_iff hs.1.keyed).1 hanswers)
    exact ⟨hindexed, hleads⟩
  have hstep (s : Store) (op : Operation) (hop : op.Atomic) (hs : s.WellIndexed ∧ s.LeadsName p)
      (hanswers : s.AnswersName p) : (s.apply op).AnswersName p ↔ ¬ Misleads s op p := by
    obtain ⟨hindexed, hleads, hiff⟩ :=
      happly s op hop hs.1 ((hs.2.answers_iff hs.1.keyed).1 hanswers)
    rw [hleads.answers_iff hindexed.keyed, hiff]
  have hatomic := atomic_unrollAll (s := new settings reader) hr hops
  exact run_holds_iff hinv hstep ⟨hindexed, hstart.leads⟩
    ((hstart.leads.answers_iff hindexed.keyed).2 hstart) hatomic

/-- Two programs of one package. -/
def packaged (id : String) : Component := (Component.ofId id).addPkgname "p"

/-- Removing the program that a package name leads to misleads the name while another program is in
the package. -/
theorem exists_misleads :
    Reader.any.Proper ∧ ∃ done op later,
      unrollAll (new ⟨{}, {}, ⟨["en"], 4, true, 3⟩⟩ Reader.any)
        [.add (packaged "a"), .add (packaged "b"), .removeById "b"] = done ++ op :: later ∧
      Misleads ((new ⟨{}, {}, ⟨["en"], 4, true, 3⟩⟩ Reader.any).run done) op "p" := by
  refine ⟨Reader.proper_any, ?_⟩
  -- if no operation misled the name, the query would find the other program at the end
  by_contra hno
  push Not at hno
  have ha : (packaged "a").Proper := by decide +kernel
  have hb : (packaged "b").Proper := by decide +kernel
  have hops : ∀ op ∈ [Operation.add (packaged "a"), .add (packaged "b"), .removeById "b"],
      Operation.Proper op ∧ op.inMemory = true := by
    intro op hop
    simp only [List.mem_cons, List.not_mem_nil, or_false] at hop
    rcases hop with rfl | rfl | rfl
    · exact ⟨ha, rfl⟩
    · exact ⟨hb, rfl⟩
    · exact ⟨trivial, rfl⟩
  have hright := (@byPkgname_right_iff ⟨{}, {}, ⟨["en"], 4, true, 3⟩⟩ _ Reader.proper_any _ hops
    "p").2.2 hno
  have hend := (hright _ [] (List.append_nil _).symm).covered (by decide +kernel)
  exact absurd hend (by decide +kernel)

/-- So a query by the package name finds nothing, although the other program is still there. -/
theorem not_answers_after_removal :
    (packaged "a").Proper ∧ (packaged "b").Proper ∧
    ¬ ((new ⟨{}, {}, ⟨["en"], 4, true, 3⟩⟩ Reader.any).run
      [.add (packaged "a"), .add (packaged "b"), .removeById "b"]).AnswersName "p" := by
  refine ⟨by decide +kernel, by decide +kernel, ?_⟩
  intro hanswers
  have hsome := hanswers.covered (by decide +kernel)
  exact absurd hsome (by decide +kernel)

end SoftwareCatalog.Store
