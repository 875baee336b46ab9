namespace SoftwareCatalog

/-- A finite map from texts, listed by key in the order of code points. -/
@[ext] structure TextMap (α : Type) where
  entries : List (String × α)
  sorted : entries.Pairwise fun a b => a.1 < b.1
deriving DecidableEq

namespace TextMap

variable {α β : Type}

def empty : TextMap α := ⟨[], .nil⟩

instance : Inhabited (TextMap α) := ⟨empty⟩

instance : EmptyCollection (TextMap α) := ⟨empty⟩

def isEmpty (m : TextMap α) : Bool := m.entries.isEmpty

def size (m : TextMap α) : Nat := m.entries.length

def keys (m : TextMap α) : List String := m.entries.map (·.1)

def values (m : TextMap α) : List α := m.entries.map (·.2)

def get? (m : TextMap α) (k : String) : Option α := m.entries.lookup k

def contains (m : TextMap α) (k : String) : Bool := (m.get? k).isSome

def getD (m : TextMap α) (k : String) (d : α) : α := (m.get? k).getD d

/-- Puts `v` at `k`, in place of an earlier value. -/
def insertEntry (k : String) (v : α) : List (String × α) → List (String × α)
  | [] => [(k, v)]
  | e :: es =>
    if k < e.1 then (k, v) :: e :: es
    else if k = e.1 then (k, v) :: es
    else e :: insertEntry k v es

theorem mem_insertEntry {k : String} {v : α} {e : String × α} {es : List (String × α)}
    (h : e ∈ insertEntry k v es) : e = (k, v) ∨ e ∈ es := by
  induction es with
  | nil => simpa [insertEntry] using h
  | cons e' es ih =>
    simp only [insertEntry] at h
    split at h
    · simpa using h
    · split at h
      · rcases List.mem_cons.1 h with h | h
        · exact .inl h
        · exact .inr (List.mem_cons_of_mem _ h)
      · rcases List.mem_cons.1 h with rfl | h
        · exact .inr List.mem_cons_self
        · exact (ih h).imp id (List.mem_cons_of_mem _)

theorem sorted_insertEntry {k : String} {v : α} {es : List (String × α)}
    (h : es.Pairwise fun a b => a.1 < b.1) :
    (insertEntry k v es).Pairwise fun a b => a.1 < b.1 := by
  induction es with
  | nil => simp [insertEntry]
  | cons e es ih =>
    have ht := (List.pairwise_cons.1 h).1
    have hr := (List.pairwise_cons.1 h).2
    simp only [insertEntry]
    split
    · rename_i hlt
      refine List.pairwise_cons.2 ⟨fun a ha => ?_, h⟩
      rcases List.mem_cons.1 ha with rfl | ha
      · exact hlt
      · exact String.lt_trans hlt (ht a ha)
    · split
      · rename_i _ heq
        exact List.pairwise_cons.2 ⟨fun a ha => heq ▸ ht a ha, hr⟩
      · rename_i hnlt hne
        refine List.pairwise_cons.2 ⟨fun a ha => ?_, ih hr⟩
        rcases mem_insertEntry ha with rfl | ha
        · rcases Std.lt_trichotomy k e.1 with hl | he | hg
          · exact absurd hl hnlt
          · exact absurd he hne
          · exact hg
        · exact ht a ha

def insert (m : TextMap α) (k : String) (v : α) : TextMap α :=
  ⟨insertEntry k v m.entries, sorted_insertEntry m.sorted⟩

def filter (p : String → α → Bool) (m : TextMap α) : TextMap α :=
  ⟨m.entries.filter fun e => p e.1 e.2, m.sorted.filter _⟩

def erase (m : TextMap α) (k : String) : TextMap α :=
  m.filter fun k' _ => k' ≠ k

def map (f : α → β) (m : TextMap α) : TextMap β :=
  ⟨m.entries.map fun e => (e.1, f e.2), List.pairwise_map.2 m.sorted⟩

/-- Replaces the value at `k`, where a missing value counts as `d`. -/
def modifyD (m : TextMap α) (k : String) (d : α) (f : α → α) : TextMap α :=
  m.insert k (f (m.getD k d))

def ofList (es : List (String × α)) : TextMap α :=
  es.foldl (fun m e => m.insert e.1 e.2) empty

theorem lookup_cons_ite (k : String) (e : String × α) (es : List (String × α)) :
    (e :: es).lookup k = if k = e.1 then some e.2 else es.lookup k := by
  rw [List.lookup_cons]
  by_cases h : k = e.1
  · have hb : (k == e.1) = true := by simpa using h
    rw [hb, if_pos h]
  · have hb : (k == e.1) = false := by simpa using h
    rw [hb, if_neg h]

theorem lookup_insertEntry {k k' : String} {v : α} {es : List (String × α)} :
    (insertEntry k v es).lookup k' = if k' = k then some v else es.lookup k' := by
  induction es with
  | nil => simp [insertEntry, lookup_cons_ite]
  | cons e es ih =>
    simp only [insertEntry]
    split
    · simp [lookup_cons_ite]
    · split
      · rename_i _ heq
        by_cases h : k' = k <;> simp [lookup_cons_ite, heq, heq ▸ h]
      · rename_i _ hne
        simp only [lookup_cons_ite, ih]
        by_cases h : k' = k
        · simp [h, hne]
        · simp [h]

@[simp] theorem get?_insert (m : TextMap α) (k k' : String) (v : α) :
    (m.insert k v).get? k' = if k' = k then some v else m.get? k' :=
  lookup_insertEntry

@[simp] theorem get?_empty (k : String) : (empty : TextMap α).get? k = none := rfl

theorem lookup_filter_key {p : String → Bool} {k : String} {es : List (String × α)} :
    (es.filter fun e => p e.1).lookup k = if p k then es.lookup k else none := by
  induction es with
  | nil => simp
  | cons e es ih =>
    by_cases hp : p e.1
    · simp only [List.filter_cons, hp, if_true, lookup_cons_ite, ih]
      by_cases h : k = e.1
      · simp [h, hp]
      · simp [h]
    · simp only [List.filter_cons, hp, Bool.false_eq_true, if_false, lookup_cons_ite, ih]
      by_cases h : k = e.1
      · simp [h, hp]
      · simp [h]

@[simp] theorem get?_erase (m : TextMap α) (k k' : String) :
    (m.erase k).get? k' = if k' = k then none else m.get? k' := by
  have h := @lookup_filter_key α (fun x => decide (x ≠ k)) k' m.entries
  simp only [get?, erase, filter]
  rw [h]
  by_cases hk : k' = k <;> simp [hk]

end TextMap

end SoftwareCatalog
