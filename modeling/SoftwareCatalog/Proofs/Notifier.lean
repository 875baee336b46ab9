import Mathlib.Data.List.Induction
import Mathlib.Tactic.ByContra
import SoftwareCatalog.Notifier

namespace SoftwareCatalog.Notifier

variable {n m o : Notifier} {guard : Nat} {e : ChangeEvent} {es fs : List ChangeEvent}

theorem isInhibited_iff : n.isInhibited = true ↔ n.guards ≠ [] := by
  unfold isInhibited
  cases n.guards <;> simp

theorem markChanged_of_guards (h : n.guards ≠ []) : n.markChanged = { n with dirty := true } := by
  have hinhibited : ({ n with dirty := true } : Notifier).isInhibited = true :=
    isInhibited_iff.2 h
  unfold markChanged
  rw [if_pos hinhibited]

theorem markChanged_of_none (h : n.guards = []) :
    n.markChanged = { n.emit .changed with dirty := false } := by
  have hfree : ¬ ({ n with dirty := true } : Notifier).isInhibited = true :=
    fun hinhibited => isInhibited_iff.1 hinhibited h
  unfold markChanged
  rw [if_neg hfree]
  rfl

theorem guards_markChanged (n : Notifier) : n.markChanged.guards = n.guards := by
  by_cases h : n.guards = []
  · rw [markChanged_of_none h]
    rfl
  · rw [markChanged_of_guards h]

theorem release_of_not_mem (h : guard ∉ n.guards) : n.release guard = n := if_neg h

theorem release_of_others (h : n.guards.erase guard ≠ []) :
    n.release guard = { n with guards := n.guards.erase guard } := by
  by_cases hmem : guard ∈ n.guards
  · have hinhibited : ({ n with guards := n.guards.erase guard } : Notifier).isInhibited = true :=
      isInhibited_iff.2 h
    unfold release
    rw [if_pos hmem]
    exact if_pos hinhibited
  · rw [release_of_not_mem hmem, List.erase_of_not_mem hmem]

theorem release_of_last (hmem : guard ∈ n.guards) (h : n.guards.erase guard = []) :
    n.release guard = flush { n with guards := [] } := by
  have hfree : ¬ ({ n with guards := n.guards.erase guard } : Notifier).isInhibited = true :=
    fun hinhibited => isInhibited_iff.1 hinhibited h
  unfold release
  rw [if_pos hmem]
  simp only [if_neg hfree]
  rw [h]

theorem guards_flush (n : Notifier) : n.flush.guards = n.guards := by
  unfold flush
  split <;> rfl

theorem dirty_flush (n : Notifier) : n.flush.dirty = false := by
  unfold flush
  split
  · rfl
  · rename_i hclean
    exact Bool.eq_false_iff.2 hclean

theorem sent_flush (n : Notifier) :
    n.flush.sent = n.sent ++ if n.dirty then [.changed] else [] := by
  unfold flush
  cases n.dirty <;> simp [emit]

theorem erase_inhibit (n : Notifier) : n.inhibit.2.guards.erase n.inhibit.1 = n.guards := by
  simp [inhibit]

theorem guards_release (n : Notifier) (guard : Nat) :
    (n.release guard).guards = n.guards.erase guard := by
  by_cases hmem : guard ∈ n.guards
  · by_cases hlast : n.guards.erase guard = []
    · rw [release_of_last hmem hlast, guards_flush, hlast]
    · rw [release_of_others hlast]
  · rw [release_of_not_mem hmem, List.erase_of_not_mem hmem]

def Quiet (n : Notifier) : Prop := n.guards = [] → n.dirty = false

theorem quiet_new : Quiet {} := fun _ => rfl

theorem Quiet.inhibit (n : Notifier) : n.inhibit.2.Quiet := nofun

theorem Quiet.markChanged (n : Notifier) : n.markChanged.Quiet := by
  intro hnone
  rw [guards_markChanged] at hnone
  rw [markChanged_of_none hnone]

theorem Quiet.release (h : n.Quiet) (guard : Nat) : (n.release guard).Quiet := by
  by_cases hmem : guard ∈ n.guards
  · by_cases hlast : n.guards.erase guard = []
    · rw [release_of_last hmem hlast]
      intro _
      exact dirty_flush _
    · intro hnone
      rw [guards_release] at hnone
      exact absurd hnone hlast
  · rw [release_of_not_mem hmem]
    exact h

inductive Call where
  | inhibit
  | release (guard : Nat)
  | mark
deriving DecidableEq

def call (n : Notifier) : Call → Notifier
  | .inhibit => n.inhibit.2
  | .release guard => n.release guard
  | .mark => n.markChanged

def run (n : Notifier) (calls : List Call) : Notifier := calls.foldl call n

theorem run_append (n : Notifier) (done later : List Call) :
    n.run (done ++ later) = (n.run done).run later :=
  List.foldl_append

theorem run_concat (n : Notifier) (done : List Call) (c : Call) :
    n.run (done ++ [c]) = (n.run done).call c := run_append n done [c]

theorem Quiet.call (h : n.Quiet) (c : Call) : (n.call c).Quiet := by
  cases c with
  | inhibit => exact .inhibit n
  | release guard => exact h.release guard
  | mark => exact .markChanged n

theorem Quiet.run (h : n.Quiet) (calls : List Call) : (n.run calls).Quiet := by
  induction calls generalizing n with
  | nil => exact h
  | cons c calls ih => exact ih (h.call c)

/-- While a guard is alive no call sends anything. -/
theorem sent_call_of_guards (c : Call) (h : (n.call c).guards ≠ []) :
    (n.call c).sent = n.sent := by
  cases c with
  | inhibit => rfl
  | release guard =>
    have hothers : n.guards.erase guard ≠ [] := by
      rw [← guards_release]
      exact h
    change (n.release guard).sent = n.sent
    rw [release_of_others hothers]
  | mark =>
    have halive : n.guards ≠ [] := by
      rw [← guards_markChanged]
      exact h
    change n.markChanged.sent = n.sent
    rw [markChanged_of_guards halive]

theorem sent_mark_of_none (h : n.guards = []) :
    (n.call .mark).sent = n.sent ++ [.changed] := by
  change n.markChanged.sent = _
  rw [markChanged_of_none h]
  rfl

/-- No call sends anything but the general event. -/
theorem sent_call (n : Notifier) (c : Call) :
    ∃ es, (n.call c).sent = n.sent ++ es ∧ ∀ e ∈ es, e = .changed := by
  cases c with
  | inhibit => exact ⟨[], (List.append_nil _).symm, nofun⟩
  | release guard =>
    change ∃ es, (n.release guard).sent = _ ∧ _
    by_cases hmem : guard ∈ n.guards
    · by_cases hlast : n.guards.erase guard = []
      · rw [release_of_last hmem hlast, sent_flush]
        refine ⟨_, rfl, ?_⟩
        split <;> simp
      · rw [release_of_others hlast]
        exact ⟨[], (List.append_nil _).symm, nofun⟩
    · rw [release_of_not_mem hmem]
      exact ⟨[], (List.append_nil _).symm, nofun⟩
  | mark =>
    by_cases hnone : n.guards = []
    · exact ⟨[.changed], sent_mark_of_none hnone, by simp⟩
    · have hsame := sent_call_of_guards (n := n) .mark (by rwa [call, guards_markChanged])
      rw [hsame]
      exact ⟨[], (List.append_nil _).symm, nofun⟩

/-- The last of `calls` that found no guard alive opened a guard, and `batch` was called after it. -/
def Since (calls batch : List Call) : Prop :=
  ∃ before, calls = before ++ .inhibit :: batch ∧ (run {} before).guards = [] ∧
    ∀ part rest, batch = part ++ rest → (run {} (before ++ .inhibit :: part)).guards ≠ []

theorem Since.concat {calls batch : List Call} (h : Since calls batch) {c : Call}
    (halive : (run {} (calls ++ [c])).guards ≠ []) : Since (calls ++ [c]) (batch ++ [c]) := by
  obtain ⟨before, rfl, hnone, hthroughout⟩ := h
  refine ⟨before, by simp, hnone, ?_⟩
  intro part rest hsplit
  rcases List.eq_nil_or_concat rest with rfl | ⟨rest, d, rfl⟩
  · rw [List.append_nil] at hsplit
    rw [← hsplit]
    simpa using halive
  · rw [List.concat_eq_append, ← List.append_assoc] at hsplit
    exact hthroughout part rest (List.append_inj_left' hsplit rfl)

/-- What was called since a first guard was opened tells whether a change is pending. -/
theorem exists_since (calls : List Call) (h : (run {} calls).guards ≠ []) :
    ∃ batch, Since calls batch ∧ (run {} calls).dirty = decide (.mark ∈ batch) := by
  induction calls using List.reverseRecOn with
  | nil => exact absurd rfl h
  | append_singleton calls c ih =>
    rw [run_concat] at h ⊢
    by_cases hnone : (run {} calls).guards = []
    · -- only a guard that is opened leads from none alive to one alive, and nothing waits there
      have hclean := quiet_new.run calls hnone
      cases c with
      | inhibit =>
        refine ⟨[], ⟨calls, rfl, hnone, ?_⟩, hclean⟩
        intro part rest hsplit
        rw [(List.append_eq_nil_iff.1 hsplit.symm).1, run_concat]
        exact h
      | release guard =>
        have hstill : (run {} calls).guards.erase guard = [] := by simp [hnone]
        exact absurd ((guards_release _ guard).trans hstill) h
      | mark => exact absurd ((guards_markChanged _).trans hnone) h
    · obtain ⟨batch, hsince, hdirty⟩ := ih hnone
      refine ⟨batch ++ [c], hsince.concat (by rwa [run_concat]), ?_⟩
      cases c with
      | inhibit =>
        change (run {} calls).dirty = _
        simp [hdirty]
      | release guard =>
        have hothers : (run {} calls).guards.erase guard ≠ [] := by
          rw [← guards_release]
          exact h
        change ((run {} calls).release guard).dirty = _
        rw [release_of_others hothers]
        simp [hdirty]
      | mark =>
        change (run {} calls).markChanged.dirty = _
        rw [markChanged_of_guards hnone]
        simp

/-- The last guard that ends announces what was marked since a first one was opened. -/
theorem sent_release_of_last (calls : List Call) (h : (run {} calls).guards = [guard]) :
    ∃ batch, Since calls batch ∧ ((run {} calls).release guard).sent =
      (run {} calls).sent ++ if .mark ∈ batch then [.changed] else [] := by
  have halive : (run {} calls).guards ≠ [] := by simp [h]
  obtain ⟨batch, hsince, hdirty⟩ := exists_since calls halive
  refine ⟨batch, hsince, ?_⟩
  have hmem : guard ∈ (run {} calls).guards := by simp [h]
  have hlast : (run {} calls).guards.erase guard = [] := by simp [h]
  rw [release_of_last hmem hlast, sent_flush, hdirty]
  simp

/-- Tells of a change. -/
def tell (n : Notifier) (e : ChangeEvent) : Notifier := (n.emit e).markChanged

/-- What is told is sent at once, and at most the general event follows. -/
theorem sent_tell (n : Notifier) (e : ChangeEvent) :
    ∃ es, (n.tell e).sent = n.sent ++ e :: es ∧ ∀ f ∈ es, f = .changed := by
  obtain ⟨es, hsent, hes⟩ := (n.emit e).sent_call .mark
  refine ⟨es, ?_, hes⟩
  change ((n.emit e).call .mark).sent = _
  rw [hsent]
  exact List.append_assoc _ _ _

/-- `m` is `n` after a guard held back the general event while `es` were told. -/
structure Told (n : Notifier) (es : List ChangeEvent) (m : Notifier) : Prop where
  guards : m.guards = n.guards
  sent : m.sent = n.sent ++ es
  dirty : m.dirty = (n.dirty || !es.isEmpty)
  single : .changed ∉ es

namespace Told

theorem refl (n : Notifier) : n.Told [] n := ⟨rfl, by simp, by simp, by simp⟩

theorem trans (h : n.Told es m) (k : m.Told fs o) : n.Told (es ++ fs) o := by
  refine ⟨k.guards.trans h.guards, ?_, ?_, ?_⟩
  · rw [k.sent, h.sent, List.append_assoc]
  · rw [k.dirty, h.dirty, Bool.or_assoc]
    cases es <;> simp
  · simpa using ⟨h.single, k.single⟩

theorem tell (h : n.guards ≠ []) (he : e ≠ .changed) : n.Told [e] (n.tell e) := by
  have hguards : (n.emit e).guards ≠ [] := h
  have hmarked : n.tell e = { n.emit e with dirty := true } := markChanged_of_guards hguards
  rw [hmarked]
  exact ⟨rfl, rfl, by simp, by simpa using he.symm⟩

/-- A batch in a batch announces nothing by itself. -/
theorem nested (h : n.inhibit.2.Told es m) (hguards : n.guards ≠ []) :
    n.Told es (m.release n.inhibit.1) := by
  have hrest : m.guards.erase n.inhibit.1 = n.guards := by
    rw [h.guards, erase_inhibit]
  rw [release_of_others (hrest.symm ▸ hguards)]
  exact ⟨hrest, h.sent, h.dirty, h.single⟩

end Told

/-- `m` is `n` after `es` were told, and the general event after them if there were any. -/
structure Announced (n : Notifier) (es : List ChangeEvent) (m : Notifier) : Prop where
  guards : m.guards = []
  sent : m.sent = n.sent ++ es ++ if es = [] then [] else [.changed]
  clean : m.dirty = false
  single : .changed ∉ es

/-- A batch announces at its end what was told in it. -/
theorem Told.announced (h : n.inhibit.2.Told es m) (hguards : n.guards = [])
    (hclean : n.dirty = false) : n.Announced es (m.release n.inhibit.1) := by
  have hmem : n.inhibit.1 ∈ m.guards := by
    rw [h.guards]
    exact List.mem_cons_self
  have hlast : m.guards.erase n.inhibit.1 = [] := by
    rw [h.guards, erase_inhibit, hguards]
  have hdirty : m.dirty = !es.isEmpty := by
    rw [h.dirty]
    change (n.dirty || !es.isEmpty) = _
    rw [hclean, Bool.false_or]
  rw [release_of_last hmem hlast]
  refine ⟨guards_flush _, ?_, dirty_flush _, h.single⟩
  rw [sent_flush]
  change m.sent ++ (if m.dirty then _ else _) = _
  rw [h.sent, hdirty]
  cases es <;> rfl

theorem Quiet.tell (n : Notifier) (e : ChangeEvent) : (n.tell e).Quiet := .markChanged _

/-- A subscriber that misses nothing receives all that it has not seen. -/
theorem deliveries_of_not_lagged {seen : Nat} (h : ∀ missed, .lagged missed ∉ n.deliveries seen) :
    n.deliveries seen = (n.sent.drop seen).map .event := by
  have hnone : (n.sent.drop seen).length - capacity = 0 := by
    by_contra hmissed
    apply h ((n.sent.drop seen).length - capacity)
    unfold deliveries
    simp only [if_neg hmissed]
    exact List.mem_cons_self
  unfold deliveries
  simp only [hnone, if_true, List.nil_append, List.drop_zero]

end SoftwareCatalog.Notifier
