import SoftwareCatalog.Store.Load

namespace SoftwareCatalog.FileTree

variable {t u : FileTree} {path dir : String} {place : List String}

/-- No path leads to a file and to a directory. -/
theorem isDirectory_of_isFile (h : t.isFile path = true) : t.isDirectory path = false := by
  unfold isFile at h
  unfold isDirectory
  split at h
  · rename_i bytes hnode
    rw [hnode]
  · cases h

theorem mem_sourcesIn : path ∈ sourcesIn t dir ↔
    path ∈ t.walk (searchDepth dir) dir ∧ t.isFile path = true ∧ isLoadable path = true := by
  unfold sourcesIn
  rw [List.mem_filter, Bool.and_eq_true]

/-- A directory is not among the sources in it. -/
theorem not_mem_sourcesIn (h : t.isDirectory path = true) : path ∉ sourcesIn t dir := by
  intro hin
  have hfile := isDirectory_of_isFile (mem_sourcesIn.1 hin).2.1
  rw [h] at hfile
  cases hfile

def directories (t : FileTree) : FileTree :=
  ⟨t.nodes.filter fun e => match e.2 with
    | .directory => true
    | .file _ => false⟩

theorem get?_directories (h : t.get? place = some .directory) :
    t.directories.get? place = some .directory := by
  unfold get? at h ⊢
  split
  · rfl
  · rename_i hplace
    rw [if_neg hplace] at h
    obtain ⟨before, after, hnodes, hbefore⟩ := List.lookup_eq_some_iff.1 h
    unfold directories
    rw [hnodes, List.filter_append, List.filter_cons_of_pos rfl]
    refine List.lookup_eq_some_iff.2 ⟨_, _, rfl, fun e he => ?_⟩
    exact hbefore e (List.mem_filter.1 he).1

theorem eq_directory_of_get? {node : FileNode} (h : t.directories.get? place = some node) :
    node = .directory := by
  unfold get? at h
  split at h
  · exact (Option.some.inj h).symm
  · obtain ⟨before, after, hnodes, -⟩ := List.lookup_eq_some_iff.1 h
    have hin : (place, node) ∈ t.directories.nodes := by
      rw [hnodes]
      simp
    cases node with
    | directory => rfl
    | file bytes => cases (List.mem_filter.1 hin).2

theorem isFile_directories (t : FileTree) (path : String) : t.directories.isFile path = false := by
  unfold isFile
  split
  · rename_i bytes hnode
    simp only [node, bind, Except.bind] at hnode
    split at hnode
    · cases hnode
    · split at hnode
      · cases hnode
      · cases hnode
      · rename_i hget
        cases eq_directory_of_get? hget
  · rfl

theorem sourcesIn_directories (t : FileTree) (dir : String) :
    sourcesIn t.directories dir = [] := by
  unfold sourcesIn
  simp [isFile_directories]

theorem step_directories {place' : List String} {part : PathPart}
    (h : t.step place part = .ok place') : t.directories.step place part = .ok place' := by
  unfold step at h ⊢
  split at h
  · cases h
  · cases h
  · rename_i hget
    rw [get?_directories hget]
    exact h

theorem foldlM_step_directories {parts : List PathPart} {place' : List String}
    (h : parts.foldlM t.step place = .ok place') :
    parts.foldlM t.directories.step place = .ok place' := by
  induction parts generalizing place with
  | nil => exact h
  | cons part parts ih =>
    rw [List.foldlM_cons] at h ⊢
    cases hstep : t.step place part with
    | error e =>
      rw [hstep] at h
      cases h
    | ok next =>
      rw [hstep] at h
      rw [step_directories hstep]
      exact ih h

/-- Without the files all directories are there still. -/
theorem isDirectory_directories (h : t.isDirectory path = true) :
    t.directories.isDirectory path = true := by
  have hnode : t.node path = .ok .directory := by
    unfold isDirectory at h
    split at h
    · assumption
    · cases h
  have hthere : t.directories.node path = .ok .directory := by
    simp only [node, locate, bind, Except.bind] at hnode ⊢
    cases hparts : relative path with
    | none =>
      rw [hparts] at hnode
      cases hnode
    | some parts =>
      rw [hparts] at hnode
      simp only at hnode ⊢
      cases hplace : parts.foldlM t.step [] with
      | error e =>
        rw [hplace] at hnode
        cases hnode
      | ok place =>
        rw [hplace] at hnode
        rw [foldlM_step_directories hplace]
        simp only at hnode ⊢
        split at hnode
        · cases hnode
        · rename_i hget
          rw [get?_directories hget]
        · split at hnode <;> cases hnode
  unfold isDirectory
  rw [hthere]

end SoftwareCatalog.FileTree
