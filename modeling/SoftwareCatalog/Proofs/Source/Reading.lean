import SoftwareCatalog.Source.Reader

namespace SoftwareCatalog

variable {bytes : ByteArray} {source : SourceInfo} {cs : List Component} {c : Component}

theorem eq_ok_of_mapError {ε ε' α : Type} {f : ε → ε'} {r : Except ε α} {a : α}
    (h : r.mapError f = .ok a) : r = .ok a := by
  cases r with
  | error e => nomatch h
  | ok b => rw [Except.ok.inj h]

theorem exists_of_bind {ε α β : Type} {r : Except ε α} {f : α → Except ε β} {b : β}
    (h : (r >>= f) = .ok b) : ∃ a, r = .ok a ∧ f a = .ok b := by
  cases r with
  | error e => nomatch h
  | ok a => exact ⟨a, rfl, h⟩

namespace Metainfo

/-- The outermost element of a document in XML. -/
def IsRoot (bytes : ByteArray) (root : Xml.Node) : Prop :=
  ∃ text d, decodeText bytes = .ok text ∧ Xml.Document.parse text = .ok d ∧ d.root? = some root

/-- The kind that a document in XML has by its outermost element. A single component is metainfo
unless the name of the file says that it is application data. -/
inductive RootKind (source : SourceInfo) (root : Xml.Node) : FormatKind → Prop
  | collection (h : root.name = "components") : RootKind source root .appStream
  | appData (h : root.name = "component" ∨ root.name = "application")
    (hkind : source.formatKind = .appData) : RootKind source root .appData
  | metaInfo (h : root.name = "component" ∨ root.name = "application")
    (hkind : source.formatKind ≠ .appData) : RootKind source root .metaInfo

theorem rootKind_single {root : Xml.Node}
    (h : root.name = "component" ∨ root.name = "application") :
    RootKind source root (singleKind source.formatKind) := by
  unfold singleKind
  split
  · exact .appData h ‹_›
  · exact .metaInfo h ‹_›

/-- A component is what an element with an ID describes, with the origin of its collection and the
mark of its source. -/
def MadeOf (source : SourceInfo) (declared : Bool) (root : Xml.Node) (c : Component) : Prop :=
  ∃ n kind d, RootKind source root kind ∧
    (d = component n ∨ ∃ origin, d = withOrigin origin (component n)) ∧
    (component n).id.isSome = true ∧ c = source.stamp kind (noteHeader declared d)

variable {declared : Bool} {root : Xml.Node}

theorem madeOf_single (hname : root.name = "component" ∨ root.name = "application")
    (h : components source declared (.single (component root)) = .ok cs) (hc : c ∈ cs) :
    MadeOf source declared root c := by
  simp only [components] at h
  split at h
  · cases h
  · rename_i hsome
    cases h
    obtain rfl := List.mem_singleton.1 hc
    refine ⟨root, _, _, rootKind_single hname, .inl rfl, ?_, rfl⟩
    rw [Option.isSome_iff_ne_none]
    simpa using hsome

theorem madeOf_components {described : Contents} (hroot : contents root = .ok described)
    (h : components source declared described = .ok cs) (hc : c ∈ cs) :
    MadeOf source declared root c := by
  unfold contents at hroot
  split at hroot
  · rename_i hname
    cases hroot
    cases h
    obtain ⟨d, hd, rfl⟩ := List.mem_map.1 hc
    obtain ⟨hd, hsome⟩ := List.mem_filter.1 hd
    obtain ⟨n, -, rfl⟩ := List.mem_map.1 hd
    exact ⟨n, .appStream, _, .collection hname, .inr ⟨_, rfl⟩, hsome, rfl⟩
  · rename_i hname
    cases hroot
    exact madeOf_single (.inl hname) h hc
  · rename_i hname
    cases hroot
    exact madeOf_single (.inr hname) h hc
  · cases hroot

theorem exists_of_read (h : read bytes source = .ok cs) (hc : c ∈ cs) :
    ∃ declared root, IsRoot bytes root ∧ MadeOf source declared root c := by
  obtain ⟨text, htext, h⟩ := exists_of_bind h
  obtain ⟨document, hparse, h⟩ := exists_of_bind h
  split at h
  · cases h
  · rename_i root hroot
    obtain ⟨described, hcontents, h⟩ := exists_of_bind h
    exact ⟨document.declared, root, ⟨text, document, htext, eq_ok_of_mapError hparse, hroot⟩,
      madeOf_components (eq_ok_of_mapError hcontents) h hc⟩

end Metainfo

namespace DesktopEntry

variable {p : Component → Prop}

/-- What a line with a key keeps, every line keeps. -/
theorem step_keeps (hpair : ∀ c key locale value, p c → p (addPair c key locale value))
    {number : Nat} {s next : Reading} {l : Line} (hs : p s.component)
    (h : step number s l = .going next) : p next.component := by
  cases l with
  | skipped | group =>
    obtain rfl := Outcome.going.inj h
    exact hs
  | pair key value =>
    unfold step at h
    by_cases hin : s.inGroup
    · simp only [hin, if_true] at h
      split at h
      · nomatch h
      · have hnext := congrArg Reading.component (Outcome.going.inj h)
        simp only at hnext
        rw [← hnext]
        exact hpair _ _ _ _ hs
    · simp only [hin] at h
      obtain rfl := Outcome.going.inj h
      exact hs
  | other =>
    unfold step at h
    by_cases hin : s.inGroup
    · simp only [hin, if_true] at h
      cases h
    · simp only [hin] at h
      obtain rfl := Outcome.going.inj h
      exact hs

/-- So does a whole launcher. -/
theorem readLines_keeps (hpair : ∀ c key locale value, p c → p (addPair c key locale value))
    {lines : List (List Char)} {number : Nat} {s : Reading} (hs : p s.component)
    (h : readLines number s lines = .ok (some c)) : p c := by
  induction lines generalizing number s with
  | nil =>
    unfold readLines at h
    split at h
    · cases h
      exact hs
    · cases h
  | cons l ls ih =>
    unfold readLines at h
    split at h
    · rename_i next hstep
      exact ih (step_keeps hpair hs hstep) h
    · cases h
    · cases h

theorem exists_of_read (h : read bytes source = .ok cs) (hc : c ∈ cs) :
    ∃ basename lines d, source.basename = some basename ∧
      readLines 1 ⟨{ Component.ofId (idOf basename) with kind := .desktop }, false, false⟩ lines =
        .ok (some d) ∧
      c = source.stamp .desktop (d.addLaunchable ⟨.desktopId, idOf basename⟩) := by
  obtain ⟨text, -, h⟩ := exists_of_bind h
  split at h
  · cases h
  · rename_i basename hbasename
    obtain ⟨found, hread, h⟩ := exists_of_bind h
    cases found with
    | none =>
      cases h
      exact absurd hc List.not_mem_nil
    | some d =>
      cases h
      exact ⟨basename, _, d, hbasename, eq_ok_of_mapError hread, List.mem_singleton.1 hc⟩

end DesktopEntry

namespace Dep11

theorem exists_of_read (h : read bytes source = .ok cs) (hc : c ∈ cs) :
    ∃ header v d, component? header v = some d ∧ c = source.stamp .appStream d := by
  obtain ⟨text, -, h⟩ := exists_of_bind h
  obtain ⟨found, hfound, h⟩ := exists_of_bind h
  have hdocs := eq_ok_of_mapError hfound
  have hsame : found = cs := by
    split at h
    · exact Except.ok.inj h
    · cases h
  subst hsame
  unfold componentsOf at hdocs
  split at hdocs
  · cases hdocs
    exact absurd hc List.not_mem_nil
  · split at hdocs
    · cases hdocs
    · cases hdocs
      obtain ⟨d, hd, rfl⟩ := List.mem_map.1 hc
      obtain ⟨v, -, hv⟩ := List.mem_filterMap.1 hd
      exact ⟨_, v, d, hv, rfl⟩

end Dep11

/-- A catalog in YAML is told by the name of its file. -/
def SourceInfo.isCatalog (source : SourceInfo) : Bool :=
  Text.endsWith (source.filename.getD "") ".yml" || Text.endsWith (source.filename.getD "") ".yaml"

/-- The kind of a document: by the name of its file or, if that does not tell a catalog in YAML or a
launcher, by the outermost element. -/
inductive SourceInfo.DocumentKind (source : SourceInfo) (bytes : ByteArray) : FormatKind → Prop
  | catalog (hname : source.isCatalog = true) : DocumentKind source bytes .appStream
  | launcher (hname : source.isCatalog = false) (hkind : source.formatKind = .desktop) :
    DocumentKind source bytes .desktop
  | markup {root : Xml.Node} {kind : FormatKind} (hname : source.isCatalog = false)
    (hkind : source.formatKind ≠ .desktop) (hroot : Metainfo.IsRoot bytes root)
    (h : Metainfo.RootKind source root kind) : DocumentKind source bytes kind

theorem SourceInfo.DocumentKind.ne_unset {kind : FormatKind} (h : source.DocumentKind bytes kind) :
    kind ≠ .unset := by
  cases h with
  | catalog => nofun
  | launcher => nofun
  | markup _ _ _ h => cases h <;> nofun

theorem Reader.any_cases (h : Reader.any bytes source = .ok cs) :
    source.isCatalog = true ∧ Dep11.read bytes source = .ok cs ∨
    (source.isCatalog = false ∧ source.formatKind = .desktop) ∧
      DesktopEntry.read bytes source = .ok cs ∨
    (source.isCatalog = false ∧ source.formatKind ≠ .desktop) ∧
      Metainfo.read bytes source = .ok cs := by
  unfold Reader.any at h
  simp only at h
  split at h
  · rename_i read hchoose
    unfold Reader.choose at hchoose
    split at hchoose
    · rename_i hname
      cases hchoose
      exact .inl ⟨hname, h⟩
    · rename_i hname
      have hother : source.isCatalog = false := Bool.eq_false_iff.2 hname
      split at hchoose
      · rename_i hkind
        cases hchoose
        exact .inr (.inl ⟨⟨hother, hkind⟩, h⟩)
      all_goals
        rename_i hkind
        have hne : source.formatKind ≠ .desktop := by
          rw [hkind]
          nofun
        split at hchoose
        · cases hchoose
          try exact .inr (.inr ⟨⟨hother, hne⟩, h⟩)
        · cases hchoose
          try exact .inr (.inr ⟨⟨hother, hne⟩, h⟩)
  · cases h

end SoftwareCatalog
