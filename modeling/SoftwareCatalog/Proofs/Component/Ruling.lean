import SoftwareCatalog.Proofs.Component.Precedence

namespace SoftwareCatalog

/-- The outcomes that a comparison can have. -/
inductive Ruling where
  | keepStored | keepIncoming | merge (survivor : Survivor)

/-- Decides by the dialects `old` and `new` and the priorities `p` and `q` of two descriptions. -/
def ruling (preferLocal : Bool) (old new : FormatKind) (p q : Int) : Ruling :=
  let byPriority : Ruling :=
    if q < p then .keepStored
    else if p < q then .keepIncoming
    else if old = .desktop && new.isLocalMetadata then .merge .incoming
    else .merge .stored
  if preferLocal then
    if new.isRemote && old.isLocal then .keepStored
    else if new.isLocal && old.isRemote then .keepIncoming
    else byPriority
  else if old = .appStream && new.isLocalMetadata then .keepIncoming
  else if old.isLocalMetadata && new = .appStream then .merge .stored
  else byPriority

def Ruling.outcome (stored incoming : Component) : Ruling → Reconciled
  | .keepStored => SoftwareCatalog.keepStored stored incoming
  | .keepIncoming => SoftwareCatalog.keepIncoming stored incoming
  | .merge survivor => mergeBoth survivor stored incoming

theorem reconcile_eq_outcome (preferLocal : Bool) (c d : Component) :
    reconcile preferLocal c d =
      (ruling preferLocal c.formatKind d.formatKind c.priority d.priority).outcome c d := by
  unfold reconcile reconcileByPriority ruling
  simp only
  split_ifs <;> rfl

/-- Where the dialects do not differ the priorities decide. -/
theorem ruling_of_alike {old new : FormatKind} (h : old = .unset ∨ new = .unset ∨ old = new)
    (preferLocal : Bool) (p q : Int) : ruling preferLocal old new p q =
      if q < p then .keepStored else if p < q then .keepIncoming else .merge .stored := by
  cases preferLocal <;> cases old <;> cases new <;> simp_all [ruling, FormatKind.isLocal,
    FormatKind.isRemote, FormatKind.isLocalMetadata]

theorem formatKind_of_no_formats {c : Component} (h : c.formats = []) : c.formatKind = .unset := by
  unfold Component.formatKind
  rw [h]
  rfl

/-- A stored description is ruled on as before it took formats over. -/
theorem ruling_subsume (preferLocal : Bool) {flags : SubsumeFlags} (h : flags.has .formats = true)
    (hadd : flags.has .replace = false) (c d : Component) (p q : Int) :
    ruling preferLocal (c.subsume flags d).formatKind d.formatKind p q =
      ruling preferLocal c.formatKind d.formatKind p q := by
  rw [Component.formatKind_subsume h hadd]
  split
  · rename_i hnone
    rw [ruling_of_alike (.inr (.inr rfl)), ruling_of_alike (.inl (formatKind_of_no_formats hnone))]
  · rfl

/-- A description that stayed for itself is merged when it comes in once more. -/
theorem ruling_subsume_self (preferLocal : Bool) {flags : SubsumeFlags}
    (h : flags.has .formats = true) (hadd : flags.has .replace = false) (c d : Component)
    (p : Int) :
    ruling preferLocal (d.subsume flags c).formatKind d.formatKind p p = .merge .stored := by
  have halike : (d.subsume flags c).formatKind = .unset ∨ d.formatKind = .unset ∨
      (d.subsume flags c).formatKind = d.formatKind := by
    rw [Component.formatKind_subsume h hadd]
    split
    · rename_i hnone
      exact .inr (.inl (formatKind_of_no_formats hnone))
    · exact .inr (.inr rfl)
  rw [ruling_of_alike halike]
  simp

end SoftwareCatalog
