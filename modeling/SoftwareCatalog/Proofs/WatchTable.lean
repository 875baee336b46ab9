import SoftwareCatalog.WatchTable

namespace SoftwareCatalog

namespace Path

variable {a b : String}

theorem same_iff : same a b = true ↔ parts a = parts b := beq_iff_eq

theorem same_refl (a : String) : same a a = true := same_iff.2 rfl

theorem same_comm (a b : String) : same a b = same b a := BEq.comm

/-- The path under which something is written matters no more than its steps. -/
theorem isWithin_congr {c : String} (h : same b c = true) : isWithin a b = isWithin a c := by
  unfold isWithin
  rw [same_iff.1 h]

end Path

namespace WatchTable

variable {t : WatchTable} {path p : String} {w : Watch}

theorem mem_paths : p ∈ t.paths ↔ ∃ w, (p, w) ∈ t.entries := by
  have hsorted : p ∈ t.paths ↔ p ∈ t.entries.map (·.1) := (List.mergeSort_perm _ _).mem_iff
  rw [hsorted, List.mem_map]
  constructor
  · rintro ⟨⟨q, w⟩, he, rfl⟩
    exact ⟨w, he⟩
  · rintro ⟨w, he⟩
    exact ⟨_, he, rfl⟩

/-- A path is watched where some way of writing it is in the table. -/
theorem contains_iff : t.contains p = true ↔ ∃ q ∈ t.paths, Path.same q p = true := by
  unfold contains get? find?
  rw [Option.isSome_map, List.find?_isSome]
  constructor
  · rintro ⟨⟨q, w⟩, he, hsame⟩
    exact ⟨q, mem_paths.2 ⟨w, he⟩, hsame⟩
  · rintro ⟨q, hq, hsame⟩
    obtain ⟨w, he⟩ := mem_paths.1 hq
    exact ⟨(q, w), he, hsame⟩

theorem mem_paths_erase : p ∈ (t.erase path).paths ↔ p ∈ t.paths ∧ Path.same p path = false := by
  rw [mem_paths, mem_paths]
  unfold erase
  simp only [List.mem_filter, Bool.not_eq_true', exists_and_right]

theorem mem_paths_foldl_erase (paths : List String) (t : WatchTable) :
    p ∈ (paths.foldl erase t).paths ↔ p ∈ t.paths ∧ ∀ q ∈ paths, Path.same p q = false := by
  induction paths generalizing t with
  | nil => simp
  | cons q paths ih => rw [List.foldl_cons, ih, mem_paths_erase, and_assoc, List.forall_mem_cons]

/-- Watching a path anew leaves the order of the table. -/
theorem find?_renewed (t : WatchTable) (path : String) (w : Watch) (parts : List PathPart) :
    (t.entries.map fun e => if Path.same e.1 path then (e.1, w) else e).find?
        (fun e => Path.parts e.1 == parts) =
      (t.entries.find? fun e => Path.parts e.1 == parts).map
        fun e => if Path.same e.1 path then (e.1, w) else e := by
  have hkey : ((fun e : String × Watch => Path.parts e.1 == parts) ∘
      fun e : String × Watch => if Path.same e.1 path then (e.1, w) else e) =
      fun e => Path.parts e.1 == parts := by
    funext e
    simp only [Function.comp_apply]
    split <;> rfl
  rw [List.find?_map, hkey]

theorem get?_insert_self (t : WatchTable) (path : String) (w : Watch) :
    (t.insert path w).get? path = some w := by
  unfold insert
  split
  · rename_i hthere
    rw [contains, get?, find?, Option.isSome_map] at hthere
    obtain ⟨e, he⟩ := Option.isSome_iff_exists.1 hthere
    have hsame : Path.same e.1 path = true := by simpa [Path.same] using List.find?_some he
    rw [get?, find?, find?_renewed, he, Option.map_some, if_pos hsame]
    rfl
  · rename_i hthere
    rw [contains, Bool.not_eq_true, Option.isSome_eq_false_iff, Option.isNone_iff_eq_none, get?,
      find?, Option.map_eq_none_iff] at hthere
    simp [get?, find?, List.find?_append, hthere]

/-- What was loaded as some scope and architecture is so still when more is loaded as these. -/
theorem get?_insert (h : t.get? p = some w) (path : String) : (t.insert path w).get? p = some w := by
  obtain ⟨e, he, hw⟩ := Option.map_eq_some_iff.1 h
  unfold insert
  split
  · rw [get?, find?, find?_renewed, he, Option.map_some, Option.map_some]
    split
    · rfl
    · rw [hw]
  · simp [get?, find?, List.find?_append, he, hw]

theorem lookup_of_get? (h : t.get? p = some w) : t.lookup p = some w := by
  unfold lookup
  rw [h]
  rfl

end WatchTable

end SoftwareCatalog
