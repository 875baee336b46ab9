import Mathlib.Data.List.Nodup
import Mathlib.Data.List.Perm.Subperm
import SoftwareCatalog.Proofs.Component.Collection
import SoftwareCatalog.Proofs.Component.Reconcile

namespace SoftwareCatalog

open Component

namespace Component

/-- All that a description says besides its formats, releases and attachments. -/
def own (c : Component) : Component :=
  { c with formats := [], releases := [], addons := [], tokens := none }

theorem own_subsume_salvage (c d : Component) : (c.subsume salvage d).own = c.own := rfl

theorem priority_of_own {c d : Component} (h : c.own = d.own) : c.priority = d.priority := by
  have hpriority := congrArg (·.priority) h
  exact hpriority

/-- The first format stays the first one. -/
theorem formatKind_subsume {flags : SubsumeFlags} (h : flags.has .formats = true)
    (hadd : flags.has .replace = false) (c d : Component) :
    (c.subsume flags d).formatKind = if c.formats = [] then d.formatKind else c.formatKind := by
  have hformats : (c.subsume flags d).formats = d.formats.foldl addNew c.formats := by
    rw [← mergeEntries_eq_foldl hadd]
    exact if_pos h
  unfold formatKind
  rw [hformats]
  split
  · rename_i hnone
    rw [hnone]
    cases d.formats with
    | nil => rfl
    | cons f fs =>
      obtain ⟨gs, happend, -⟩ := foldl_addUnlessSame_eq_append
        (fun f g : Format => decide (f = g)) [f] fs
      have hfirst : (f :: fs).foldl addNew [] = [f] ++ gs := happend
      rw [hfirst]
      rfl
  · rename_i hsome
    obtain ⟨fs, happend, -⟩ := foldl_addUnlessSame_eq_append
      (fun f g : Format => decide (f = g)) c.formats d.formats
    have hfirst : d.formats.foldl addNew c.formats = c.formats ++ fs := happend
    rw [hfirst, List.head?_append_of_ne_nil _ hsome]

theorem formatKind_subsume_salvage {c : Component} (h : c.formats ≠ []) (d : Component) :
    (c.subsume salvage d).formatKind = c.formatKind := by
  rw [formatKind_subsume rfl rfl, if_neg h]

end Component

/-- Where local metadata is preferred it goes before that of catalogs; else the higher priority
does. -/
def Outranks (preferLocal : Bool) (c d : Component) : Prop :=
  if preferLocal = true ∧ c.formatKind.isLocal ≠ d.formatKind.isLocal then
    c.formatKind.isLocal = true
  else d.priority < c.priority

/-- Descriptions of which any two can be told apart by local metadata and priority alone. -/
structure Rankable (preferLocal : Bool) (cs : List Component) : Prop where
  sourced : ∀ c ∈ cs, c.formats ≠ []
  distinct : (cs.map (·.priority)).Nodup
  apart : preferLocal = false → (∃ c ∈ cs, c.formatKind = .appStream) →
    ¬ ∃ c ∈ cs, c.formatKind.isLocalMetadata = true
  known : preferLocal = true → ∀ c ∈ cs, c.formatKind.isLocal = true ∨ c.formatKind = .appStream

/-- Local metadata alone where it is preferred and there is any, else all. -/
def contenders (preferLocal : Bool) (cs : List Component) : List Component :=
  if preferLocal && cs.any (·.formatKind.isLocal) then cs.filter (·.formatKind.isLocal) else cs

/-- The contender with the highest priority. -/
structure Prevails (preferLocal : Bool) (cs : List Component) (w : Component) : Prop where
  mem : w ∈ contenders preferLocal cs
  highest : ∀ c ∈ contenders preferLocal cs, c.priority ≤ w.priority

section Outranks

variable {preferLocal : Bool} {c d e : Component}

theorem Outranks.trans (h : Outranks preferLocal c d) (k : Outranks preferLocal d e) :
    Outranks preferLocal c e := by
  unfold Outranks at *
  cases preferLocal <;> cases hc : c.formatKind.isLocal <;> cases hd : d.formatKind.isLocal <;>
    cases he : e.formatKind.isLocal <;> simp_all <;> omega

theorem Outranks.congr {c' d' : Component} (h : Outranks preferLocal c d)
    (hc : c'.formatKind = c.formatKind) (hc' : c'.priority = c.priority)
    (hd : d'.formatKind = d.formatKind) (hd' : d'.priority = d.priority) :
    Outranks preferLocal c' d' := by
  unfold Outranks at *
  rwa [hc, hc', hd, hd']

theorem Outranks.priority_lt (h : Outranks preferLocal c d)
    (hsame : preferLocal = true → c.formatKind.isLocal = d.formatKind.isLocal) :
    d.priority < c.priority := by
  unfold Outranks at h
  rwa [if_neg fun hne => hne.2 (hsame hne.1)] at h

theorem Outranks.isLocal (h : Outranks preferLocal c d) (hp : preferLocal = true)
    (hd : d.formatKind.isLocal = true) : c.formatKind.isLocal = true := by
  unfold Outranks at h
  cases hc : c.formatKind.isLocal with
  | true => rfl
  | false => simp [hp, hc, hd] at h

theorem outranks_or (h : c.priority ≠ d.priority) :
    Outranks preferLocal c d ∨ Outranks preferLocal d c := by
  unfold Outranks
  cases preferLocal <;> cases hc : c.formatKind.isLocal <;> cases hd : d.formatKind.isLocal <;>
    simp <;> omega

/-- Neither of two dialects is that of catalogs where the other is that of metadata, and where local
metadata is preferred none is unknown. -/
structure Comparable (preferLocal : Bool) (k l : FormatKind) : Prop where
  apart : preferLocal = false → ¬ (k = .appStream ∧ l.isLocalMetadata = true)
  apart' : preferLocal = false → ¬ (k.isLocalMetadata = true ∧ l = .appStream)
  known : preferLocal = true → k.isLocal = true ∨ k = .appStream
  known' : preferLocal = true → l.isLocal = true ∨ l = .appStream

/-- The one that goes before the other stays. -/
theorem reconcile_of_comparable (h : Comparable preferLocal c.formatKind d.formatKind) :
    (Outranks preferLocal c d → reconcile preferLocal c d = keepStored c d) ∧
      (Outranks preferLocal d c → reconcile preferLocal c d = keepIncoming c d) := by
  have hstored (hlt : d.priority < c.priority) : reconcileByPriority c d = keepStored c d := by
    simp [reconcileByPriority, hlt]
  have hincoming (hlt : c.priority < d.priority) :
      reconcileByPriority c d = keepIncoming c d := by
    simp [reconcileByPriority, hlt, Int.not_lt.2 (Int.le_of_lt hlt)]
  obtain ⟨hapart, hapart', hknown, hknown'⟩ := h
  unfold Outranks reconcile
  cases preferLocal <;> cases hc : c.formatKind <;> cases hd : d.formatKind <;>
    simp_all [FormatKind.isLocal, FormatKind.isLocalMetadata, FormatKind.isRemote]

end Outranks

variable {preferLocal : Bool} {cs : List Component} {c d v w : Component}

theorem Rankable.comparable (h : Rankable preferLocal cs) (hc : c ∈ cs) (hd : d ∈ cs) :
    Comparable preferLocal c.formatKind d.formatKind where
  apart hplain hboth := h.apart hplain ⟨c, hc, hboth.1⟩ ⟨d, hd, hboth.2⟩
  apart' hplain hboth := h.apart hplain ⟨d, hd, hboth.2⟩ ⟨c, hc, hboth.1⟩
  known hlocal := h.known hlocal c hc
  known' hlocal := h.known hlocal d hd

/-- Neither the order matters nor whether descriptions are left out. -/
theorem Rankable.subperm {ds : List Component} (h : Rankable preferLocal cs) (hs : ds.Subperm cs) :
    Rankable preferLocal ds where
  sourced c hc := h.sourced c (hs.subset hc)
  distinct := by
    obtain ⟨es, hperm, hsub⟩ := hs
    exact (hperm.map (·.priority)).nodup_iff.1 (h.distinct.sublist (hsub.map (·.priority)))
  apart hplain hsome hother := by
    obtain ⟨c, hc, hstream⟩ := hsome
    obtain ⟨d, hd, hmeta⟩ := hother
    exact h.apart hplain ⟨c, hs.subset hc, hstream⟩ ⟨d, hs.subset hd, hmeta⟩
  known hlocal c hc := h.known hlocal c (hs.subset hc)

theorem mem_of_mem_contenders (h : c ∈ contenders preferLocal cs) : c ∈ cs := by
  unfold contenders at h
  split at h
  · exact List.mem_of_mem_filter h
  · exact h

theorem Rankable.eq_of_prevails (h : Rankable preferLocal cs) (hv : Prevails preferLocal cs v)
    (hw : Prevails preferLocal cs w) : v = w := by
  apply List.inj_on_of_nodup_map h.distinct (mem_of_mem_contenders hv.mem)
    (mem_of_mem_contenders hw.mem)
  exact Int.le_antisymm (hw.highest v hv.mem) (hv.highest w hw.mem)

/-- `d` says what `w` says, which goes before all others of `cs`, and has the sources of all. -/
structure StandsFor (preferLocal : Bool) (cs : List Component) (w d : Component) : Prop where
  mem : w ∈ cs
  first : ∀ c ∈ cs, c = w ∨ Outranks preferLocal w c
  own : d.own = w.own
  formatKind : d.formatKind = w.formatKind
  formats : ∀ f, f ∈ d.formats ↔ ∃ c ∈ cs, f ∈ c.formats
  versions : ∀ v, v ∈ versions d.releases ↔ ∃ c ∈ cs, v ∈ versions c.releases

namespace StandsFor

theorem single (c : Component) : StandsFor preferLocal [c] c c where
  mem := List.mem_cons_self
  first e he := .inl (List.mem_singleton.1 he)
  own := rfl
  formatKind := rfl
  formats f := by simp
  versions v := by simp

theorem congr {ds : List Component} (h : StandsFor preferLocal cs w d)
    (hmem : ∀ c, c ∈ ds ↔ c ∈ cs) : StandsFor preferLocal ds w d where
  mem := (hmem w).2 h.mem
  first c hc := h.first c ((hmem c).1 hc)
  own := h.own
  formatKind := h.formatKind
  formats f := by simp only [h.formats, hmem]
  versions v := by simp only [h.versions, hmem]

theorem prevails (h : StandsFor preferLocal cs w d) : Prevails preferLocal cs w := by
  have hlocal (hp : preferLocal = true) (hany : ∃ c ∈ cs, c.formatKind.isLocal = true) :
      w.formatKind.isLocal = true := by
    obtain ⟨c, hc, hcl⟩ := hany
    rcases h.first c hc with rfl | hout
    · exact hcl
    · exact hout.isLocal hp hcl
  have hle {c : Component} (hc : c ∈ cs)
      (hsame : preferLocal = true → w.formatKind.isLocal = c.formatKind.isLocal) :
      c.priority ≤ w.priority := by
    rcases h.first c hc with rfl | hout
    · exact Int.le_refl _
    · exact Int.le_of_lt (hout.priority_lt hsame)
  by_cases hp : (preferLocal && cs.any (·.formatKind.isLocal)) = true
  · obtain ⟨hprefer, hany⟩ := Bool.and_eq_true_iff.1 hp
    have hw := hlocal hprefer (List.any_eq_true.1 hany)
    have heq : contenders preferLocal cs = cs.filter (·.formatKind.isLocal) := if_pos hp
    refine ⟨heq.symm ▸ List.mem_filter.2 ⟨h.mem, hw⟩, ?_⟩
    intro c hc
    obtain ⟨hc, hcl⟩ := List.mem_filter.1 (heq ▸ hc)
    exact hle hc fun _ => hw.trans hcl.symm
  · have heq : contenders preferLocal cs = cs := if_neg hp
    refine ⟨heq.symm ▸ h.mem, ?_⟩
    intro c hc
    rw [heq] at hc
    apply hle hc
    intro hprefer
    have hnone (e : Component) (he : e ∈ cs) : e.formatKind.isLocal = false := by
      rw [hprefer, Bool.true_and] at hp
      exact Bool.eq_false_iff.2 fun hel => hp (List.any_eq_true.2 ⟨e, he, hel⟩)
    rw [hnone w h.mem, hnone c hc]

/-- Whichever of two stays, it has the sources of all that came so far. -/
theorem sources_kept (h : StandsFor preferLocal cs w d) (c : Component) :
    (∀ f, f ∈ (reconcile preferLocal d c).kept.formats ↔ ∃ e ∈ cs ++ [c], f ∈ e.formats) ∧
    ∀ v, v ∈ SoftwareCatalog.versions (reconcile preferLocal d c).kept.releases ↔
      ∃ e ∈ cs ++ [c], v ∈ SoftwareCatalog.versions e.releases := by
  constructor
  · intro f
    rw [kept_iff (additive_format f), h.formats]
    simp [or_and_right, exists_or]
  · intro v
    rw [kept_iff (additive_version v), h.versions]
    simp [or_and_right, exists_or]

theorem reconcile_eq (h : StandsFor preferLocal cs w d) (hcs : Rankable preferLocal (cs ++ [c])) :
    (Outranks preferLocal w c → reconcile preferLocal d c = keepStored d c) ∧
      (Outranks preferLocal c w → reconcile preferLocal d c = keepIncoming d c) := by
  have hpriority : d.priority = w.priority := priority_of_own h.own
  have hcomparable := hcs.comparable (List.mem_append_left _ h.mem)
    (List.mem_append_right _ List.mem_cons_self)
  rw [← h.formatKind] at hcomparable
  obtain ⟨hstays, hgoes⟩ := reconcile_of_comparable hcomparable
  constructor
  · intro hout
    exact hstays (hout.congr h.formatKind hpriority rfl rfl)
  · intro hout
    exact hgoes (hout.congr rfl rfl h.formatKind hpriority)

theorem stays (h : StandsFor preferLocal cs w d) (hcs : Rankable preferLocal (cs ++ [c]))
    (hout : Outranks preferLocal w c) :
    StandsFor preferLocal (cs ++ [c]) w (reconcile preferLocal d c).kept := by
  have hw : w ∈ cs ++ [c] := List.mem_append_left _ h.mem
  obtain ⟨hformats, hversions⟩ := h.sources_kept c
  rw [(h.reconcile_eq hcs).1 hout] at hformats hversions ⊢
  have hsome : d.formats ≠ [] := by
    obtain ⟨f, hf⟩ := List.exists_mem_of_ne_nil _ (hcs.sourced w hw)
    exact List.ne_nil_of_mem ((h.formats f).2 ⟨w, h.mem, hf⟩)
  refine ⟨hw, ?_, (own_subsume_salvage d c).trans h.own,
    (formatKind_subsume_salvage hsome c).trans h.formatKind, hformats, hversions⟩
  intro e he
  rcases List.mem_append.1 he with he | he
  · exact h.first e he
  · rw [List.mem_singleton.1 he]
    exact .inr hout

theorem gives_way (h : StandsFor preferLocal cs w d) (hcs : Rankable preferLocal (cs ++ [c]))
    (hout : Outranks preferLocal c w) :
    StandsFor preferLocal (cs ++ [c]) c (reconcile preferLocal d c).kept := by
  have hc : c ∈ cs ++ [c] := List.mem_append_right _ List.mem_cons_self
  obtain ⟨hformats, hversions⟩ := h.sources_kept c
  rw [(h.reconcile_eq hcs).2 hout] at hformats hversions ⊢
  refine ⟨hc, ?_, own_subsume_salvage c d, formatKind_subsume_salvage (hcs.sourced c hc) d,
    hformats, hversions⟩
  intro e he
  rcases List.mem_append.1 he with he | he
  · rcases h.first e he with rfl | hfirst
    · exact .inr hout
    · exact .inr (hout.trans hfirst)
  · exact .inl (List.mem_singleton.1 he)

/-- One more description: either it goes before the others, or the one that did still does. -/
theorem step (h : StandsFor preferLocal cs w d) (hcs : Rankable preferLocal (cs ++ [c])) :
    ∃ v, StandsFor preferLocal (cs ++ [c]) v (reconcile preferLocal d c).kept := by
  have hne : w.priority ≠ c.priority := by
    intro heq
    have hapart := hcs.distinct
    rw [List.map_append, List.nodup_append] at hapart
    exact hapart.2.2 _ (List.mem_map_of_mem h.mem) _ (List.mem_map_of_mem List.mem_cons_self) heq
  rcases outranks_or hne with hout | hout
  · exact ⟨w, h.stays hcs hout⟩
  · exact ⟨c, h.gives_way hcs hout⟩

/-- A run of comparisons leaves one that stands for all. -/
theorem foldl {rest : List Component} (h : StandsFor preferLocal cs w d)
    (hcs : Rankable preferLocal (cs ++ rest)) :
    ∃ v, StandsFor preferLocal (cs ++ rest) v
      (rest.foldl (fun d c => (reconcile preferLocal d c).kept) d) := by
  induction rest generalizing cs w d with
  | nil => exact ⟨w, by simpa using h⟩
  | cons c rest ih =>
    have hall : cs ++ c :: rest = (cs ++ [c]) ++ rest := by simp
    rw [hall] at hcs ⊢
    obtain ⟨v, hv⟩ := h.step (hcs.subperm (List.sublist_append_left _ _).subperm)
    exact ih hv hcs

end StandsFor

end SoftwareCatalog
