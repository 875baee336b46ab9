namespace SoftwareCatalog

/-- A type with finitely many flags, each of which has a label. -/
class Flag (ι : Type) where
  all : List ι
  mem_all : ∀ i : ι, i ∈ all
  label : ι → String

/-- The flag that a label stands for. -/
def Flag.ofLabel? {ι : Type} [Flag ι] (s : String) : Option ι :=
  (Flag.all : List ι).find? fun i => Flag.label i == s

@[ext] structure FlagSet (ι : Type) where
  has : ι → Bool

namespace FlagSet

variable {ι : Type}

def empty : FlagSet ι := ⟨fun _ => false⟩

instance : Inhabited (FlagSet ι) := ⟨empty⟩

def union (a b : FlagSet ι) : FlagSet ι := ⟨fun i => a.has i || b.has i⟩

def single [DecidableEq ι] (i : ι) : FlagSet ι := ⟨fun j => j = i⟩

def insert [DecidableEq ι] (a : FlagSet ι) (i : ι) : FlagSet ι := a.union (single i)

def erase [DecidableEq ι] (a : FlagSet ι) (i : ι) : FlagSet ι := ⟨fun j => a.has j && j ≠ i⟩

def ofList [DecidableEq ι] (is : List ι) : FlagSet ι := ⟨fun j => is.contains j⟩

/-- The flags of a set in the order of their type. -/
def members [Flag ι] (a : FlagSet ι) : List ι := Flag.all.filter a.has

instance [Flag ι] : DecidableEq (FlagSet ι) := fun a b =>
  decidable_of_iff (∀ i ∈ (Flag.all : List ι), a.has i = b.has i)
    ⟨fun h => FlagSet.ext (funext fun i => h i (Flag.mem_all i)), fun h _ _ => h ▸ rfl⟩

@[simp] theorem has_insert [DecidableEq ι] (a : FlagSet ι) (i j : ι) :
    (a.insert i).has j = (a.has j || decide (j = i)) := rfl

@[simp] theorem has_erase [DecidableEq ι] (a : FlagSet ι) (i j : ι) :
    (a.erase i).has j = (a.has j && decide (j ≠ i)) := rfl

@[simp] theorem has_union (a b : FlagSet ι) (j : ι) : (a.union b).has j = (a.has j || b.has j) := rfl

@[simp] theorem mem_members [Flag ι] {a : FlagSet ι} {i : ι} : i ∈ a.members ↔ a.has i = true := by
  simp [members, Flag.mem_all]

end FlagSet

end SoftwareCatalog
