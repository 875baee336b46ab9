import SoftwareCatalog.Proofs.Text.Lines
import SoftwareCatalog.Proofs.Text.Trim
import SoftwareCatalog.Source.DesktopEntry

namespace SoftwareCatalog

def EntryError.unplaced : EntryError → EntryError
  | .notPair _ => .notPair 0
  | .noGroup => .noGroup

def SourceError.unplaced : SourceError → SourceError
  | .entry e => .entry e.unplaced
  | e => e

namespace DesktopEntry

/-- The line opens a group. -/
def Opens (l name : List Char) : Prop := Text.trimList Text.isBlank l = '[' :: (name ++ [']'])

def IsComment (l : List Char) : Prop := ∃ rest, Text.trimList Text.isBlank l = '#' :: rest

/-- Whether the main group is open after a line, given whether it was open before. -/
inductive Leaves (before : Bool) (l : List Char) : Bool → Prop
  | main (h : Opens l "Desktop Entry".toList) : Leaves before l true
  | other {name : List Char} (h : Opens l name) (hname : name ≠ "Desktop Entry".toList) :
    Leaves before l false
  | stays (h : ∀ name, ¬Opens l name) : Leaves before l before

/-- Lines with others put in: anywhere blank ones and comments, and where the main group is not open
any that open no group. -/
inductive Padded : Bool → List (List Char) → List (List Char) → Prop
  | nil (inMain : Bool) : Padded inMain [] []
  | line {inMain next : Bool} {l : List Char} {ls ls' : List (List Char)} (h : Leaves inMain l next)
    (rest : Padded next ls ls') : Padded inMain (l :: ls) (l :: ls')
  | blank {inMain : Bool} {l : List Char} {ls ls' : List (List Char)}
    (h : ∀ c ∈ l, Text.isBlank c = true) (rest : Padded inMain ls ls') : Padded inMain ls (l :: ls')
  | comment {inMain : Bool} {l : List Char} {ls ls' : List (List Char)} (h : IsComment l)
    (rest : Padded inMain ls ls') : Padded inMain ls (l :: ls')
  | foreign {l : List Char} {ls ls' : List (List Char)} (h : ∀ name, ¬Opens l name)
    (rest : Padded false ls ls') : Padded false ls (l :: ls')

/-- A text with lines put in, where no group is open before the first line. -/
def Pads (t t' : String) : Prop :=
  ∃ ls ls', Text.HasLines t ls ∧ Text.HasLines t' ls' ∧ Padded false ls ls'

variable {l name : List Char} {ls ls' : List (List Char)} {inMain now : Bool} {s : Reading}

theorem groupName?_eq_some_iff {cs : List Char} :
    groupName? cs = some name ↔ cs = '[' :: (name ++ [']']) := by
  unfold groupName?
  split
  · rw [List.isSuffixOf?_eq_some_iff_append_eq, List.cons.injEq, and_iff_right rfl, eq_comm]
  · rename_i hother
    simp only [reduceCtorEq, false_iff]
    exact hother _

theorem ofChars_of_opens (h : Opens l name) : Line.ofChars l = .group name := by
  have hname : groupName? ('[' :: (name ++ [']'])) = some name := groupName?_eq_some_iff.2 rfl
  unfold Line.ofChars
  simp only
  rw [h, if_neg (by simp), hname]

theorem not_opens_iff :
    (∀ name, ¬Opens l name) ↔ groupName? (Text.trimList Text.isBlank l) = none := by
  simp only [Opens, ← groupName?_eq_some_iff, Option.eq_none_iff_forall_ne_some, ne_eq]

theorem ofChars_ne_group (h : ∀ name, ¬Opens l name) (name : List Char) :
    Line.ofChars l ≠ .group name := by
  unfold Line.ofChars
  simp only
  rw [not_opens_iff.1 h]
  split
  · nofun
  · dsimp only
    split <;> nofun

theorem ofChars_of_blank (h : ∀ c ∈ l, Text.isBlank c = true) : Line.ofChars l = .skipped := by
  have hnil : Text.trimList Text.isBlank l = [] := by
    cases htrim : Text.trimList Text.isBlank l with
    | nil => rfl
    | cons c cs =>
      have hblank := h c (Text.mem_of_mem_trimList (htrim ▸ List.mem_cons_self))
      have hstop := (Text.trimmed_trimList Text.isBlank l).head c (by simp [htrim])
      rw [hblank] at hstop
      cases hstop
  simp [Line.ofChars, hnil]

theorem ofChars_of_comment (h : IsComment l) : Line.ofChars l = .skipped := by
  obtain ⟨rest, htrim⟩ := h
  simp [Line.ofChars, htrim]

/-- Outside the main group a line that opens no group says nothing. -/
theorem step_foreign (hs : s.inGroup = false) (h : ∀ name, ¬Opens l name) (n : Nat) :
    step n s (Line.ofChars l) = .going s := by
  cases hl : Line.ofChars l with
  | group name => exact absurd hl (ofChars_ne_group h name)
  | skipped => rfl
  | pair key value => simp [step, hs]
  | other => simp [step, hs]

/-- Only a line that opens a group changes which group is open. -/
theorem inGroup_step {line : Line} {next : Reading} {n : Nat} (hline : ∀ name, line ≠ .group name)
    (h : step n s line = .going next) : next.inGroup = s.inGroup := by
  cases line with
  | group name => exact absurd rfl (hline name)
  | skipped => rw [← Outcome.going.inj h]
  | pair key value =>
    simp only [step] at h
    split at h
    · split at h
      · cases h
      · rw [← Outcome.going.inj h]
    · rw [← Outcome.going.inj h]
  | other =>
    simp only [step] at h
    split at h
    · cases h
    · rw [← Outcome.going.inj h]

theorem inGroup_of_leaves {next : Reading} {n : Nat} (h : Leaves s.inGroup l now)
    (hstep : step n s (Line.ofChars l) = .going next) : next.inGroup = now := by
  cases h with
  | main h =>
    rw [ofChars_of_opens h] at hstep
    rw [← Outcome.going.inj hstep]
    rfl
  | other h hname =>
    rw [ofChars_of_opens h] at hstep
    rw [← Outcome.going.inj hstep, beq_eq_false_iff_ne]
    intro heq
    have hlist := congrArg String.toList heq
    rw [String.toList_ofList] at hlist
    exact hname hlist
  | stays h => exact inGroup_step (ofChars_ne_group h) hstep

/-- The number of a line is told in errors only. -/
def Outcome.unplaced : Outcome → Outcome
  | .failed e => .failed e.unplaced
  | o => o

theorem unplaced_step (m n : Nat) (s : Reading) (line : Line) :
    (step m s line).unplaced = (step n s line).unplaced := by
  cases line with
  | skipped => rfl
  | group name => rfl
  | pair key value => simp only [step]
  | other =>
    simp only [step]
    split <;> rfl

/-- Two runs that agree from the next line on agree from this one on, wherever they count it. -/
theorem readLines_cons_congr {m n : Nat}
    (h : ∀ next, step m s (Line.ofChars l) = .going next →
      (readLines (m + 1) next ls').mapError EntryError.unplaced =
        (readLines (n + 1) next ls).mapError EntryError.unplaced) :
    (readLines m s (l :: ls')).mapError EntryError.unplaced =
      (readLines n s (l :: ls)).mapError EntryError.unplaced := by
  have hstep := unplaced_step m n s (Line.ofChars l)
  unfold readLines
  cases hm : step m s (Line.ofChars l) <;> cases hn : step n s (Line.ofChars l) <;>
    rw [hm, hn] at hstep
  case going.going next next' =>
    obtain rfl := Outcome.going.inj hstep
    exact h next hm
  case failed.failed e f => exact congrArg Except.error (Outcome.failed.inj hstep)
  all_goals cases hstep

theorem readLines_of_going {n : Nat} (h : step n s (Line.ofChars l) = .going s)
    (ls : List (List Char)) : readLines n s (l :: ls) = readLines (n + 1) s ls := by
  rw [readLines, h]

theorem readLines_padded (h : Padded inMain ls ls') (m n : Nat) (hs : s.inGroup = inMain) :
    (readLines m s ls').mapError EntryError.unplaced =
      (readLines n s ls).mapError EntryError.unplaced := by
  induction h generalizing m n s with
  | nil => rfl
  | line h _ ih =>
    refine readLines_cons_congr fun next hstep => ih (m + 1) (n + 1) ?_
    exact inGroup_of_leaves (hs ▸ h) hstep
  | blank h _ ih =>
    rw [readLines_of_going (by rw [ofChars_of_blank h]; rfl)]
    exact ih (m + 1) n hs
  | comment h _ ih =>
    rw [readLines_of_going (by rw [ofChars_of_comment h]; rfl)]
    exact ih (m + 1) n hs
  | foreign h _ ih =>
    rw [readLines_of_going (step_foreign hs h m)]
    exact ih (m + 1) n hs

theorem exists_leaves (inMain : Bool) (l : List Char) : ∃ now, Leaves inMain l now := by
  by_cases h : ∃ name, Opens l name
  · obtain ⟨name, h⟩ := h
    by_cases hname : name = "Desktop Entry".toList
    · exact ⟨true, .main (hname ▸ h)⟩
    · exact ⟨false, .other h hname⟩
  · exact ⟨inMain, .stays (not_exists.1 h)⟩

theorem padded_blank_end (inMain : Bool) (ls : List (List Char)) :
    Padded inMain ls (ls ++ [[]]) := by
  induction ls generalizing inMain with
  | nil => exact .blank (by simp) (.nil inMain)
  | cons l ls ih =>
    obtain ⟨now, h⟩ := exists_leaves inMain l
    exact .line h (ih now)

theorem readLines_of_hasLines {t : String} (h : Text.HasLines t ls) (n : Nat) (s : Reading) :
    (readLines n s (Text.lines t)).mapError EntryError.unplaced =
      (readLines n s ls).mapError EntryError.unplaced := by
  rcases Text.lines_cases h with heq | heq
  · rw [heq]
  · rw [heq]
    exact (readLines_padded (padded_blank_end s.inGroup _) n n rfl).symm

/-- The components of a launcher of which all lines are read, if it is the one of an application. -/
def componentsOf (source : SourceInfo) (id : String) (read : Option Component) : List Component :=
  read.elim [] fun c => [source.stamp .desktop (c.addLaunchable ⟨.desktopId, id⟩)]

/-- What is known of an application before any line of its launcher is read. -/
def opening (basename : String) : Reading where
  component := { Component.ofId (idOf basename) with kind := .desktop }

theorem read_text (t : String) (source : SourceInfo) :
    read t.toUTF8 source = source.basename.elim (.error .missingId) fun basename =>
      ((readLines 1 (opening basename) (Text.lines t)).mapError .entry).map
        (componentsOf source (idOf basename)) := by
  have hvalid : String.fromUTF8? t.toUTF8 = some t := dif_pos t.isValidUTF8
  have hdecode : decodeText t.toUTF8 = .ok t := by rw [decodeText, hvalid]
  rw [read, hdecode]
  cases source.basename with
  | none => rfl
  | some basename =>
    rw [Option.elim_some]
    change ((readLines 1 (opening basename) (Text.lines t)).mapError SourceError.entry).bind _ = _
    cases readLines 1 (opening basename) (Text.lines t) with
    | error e => rfl
    | ok found => cases found <;> rfl

/-- What a launcher says outside of its main group makes no difference to what is read of it, and
neither do blank lines and comments; an error is the same but for the number of its line. -/
theorem padding_ignored {t t' : String} (h : Pads t t') (source : SourceInfo) :
    (read t'.toUTF8 source).mapError SourceError.unplaced =
      (read t.toUTF8 source).mapError SourceError.unplaced := by
  obtain ⟨ls, ls', ht, ht', hpadded⟩ := h
  rw [read_text, read_text]
  cases source.basename with
  | none => rfl
  | some basename =>
    have hcongr {α : Type} (f : Option Component → α) (r : Except EntryError (Option Component)) :
        ((r.mapError SourceError.entry).map f).mapError SourceError.unplaced =
          ((r.mapError EntryError.unplaced).mapError SourceError.entry).map f := by
      cases r <;> rfl
    rw [Option.elim_some, Option.elim_some, hcongr, hcongr, readLines_of_hasLines ht',
      readLines_of_hasLines ht, readLines_padded hpadded 1 1 rfl]

/-- A launcher that leaves its main group and comes back to it. -/
def filesLauncher : List (List Char) :=
  ["[Desktop Entry]".toList, "Name=Files".toList, "[Desktop Action new]".toList, "Name=New".toList,
    "[Desktop Entry]".toList, "Comment=Browse".toList]

/-- The same with comments, a blank line, and lines that the main group would not bear. -/
def filesPadded : List (List Char) :=
  ["Type=Link".toList, "[Desktop Entry]".toList, "  # shown".toList, "Name=Files".toList,
    "\t".toList, "[Desktop Action new]".toList, "no pair".toList, "Type=Link".toList,
    "Name=New".toList, "#[Desktop Entry]".toList, "[Desktop Entry]".toList,
    "Comment=Browse".toList]

theorem files_padded :
    let source : SourceInfo := .ofFilename "files.desktop"
    let text := String.ofList (Text.unlines filesLauncher)
    let padded := String.ofList (Text.unlines filesPadded)
    Pads text padded ∧
      (read padded.toUTF8 source).mapError SourceError.unplaced =
        (read text.toUTF8 source).mapError SourceError.unplaced ∧
      (read text.toUTF8 source).toOption.map (·.map (·.comments.localized none)) =
        some [some "Browse"] := by
  intro source text padded
  have hpads : Pads text padded := by
    refine ⟨filesLauncher, filesPadded, Text.hasLines_unlines (by decide),
      Text.hasLines_unlines (by decide), ?_⟩
    refine .foreign (not_opens_iff.2 (by decide)) ?_
    refine .line (.main (by unfold Opens; decide)) ?_
    refine .comment ⟨" shown".toList, by decide⟩ ?_
    refine .line (.stays (not_opens_iff.2 (by decide))) ?_
    refine .blank (List.all_eq_true.1 (by decide)) ?_
    refine .line (@Leaves.other _ _ "Desktop Action new".toList (by unfold Opens; decide)
      (by decide)) ?_
    refine .foreign (not_opens_iff.2 (by decide)) ?_
    refine .foreign (not_opens_iff.2 (by decide)) ?_
    refine .line (.stays (not_opens_iff.2 (by decide))) ?_
    refine .comment ⟨"[Desktop Entry]".toList, by decide⟩ ?_
    refine .line (.main (by unfold Opens; decide)) ?_
    refine .line (.stays (not_opens_iff.2 (by decide))) ?_
    exact .nil true
  refine ⟨hpads, padding_ignored hpads source, ?_⟩
  rw [read_text]
  decide +kernel

end DesktopEntry

end SoftwareCatalog
