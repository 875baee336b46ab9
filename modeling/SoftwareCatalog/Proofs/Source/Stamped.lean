import SoftwareCatalog.Proofs.Source.Reading
import SoftwareCatalog.Proofs.Store.Operation
import SoftwareCatalog.Proofs.Text.Fields

namespace SoftwareCatalog

namespace Component

/-- Two components with one ID, the same formats and one scope. -/
structure SameMark (c d : Component) : Prop where
  id : d.id = c.id
  formats : d.formats = c.formats
  scope : d.scope = c.scope

namespace SameMark

variable {c d e : Component}

theorem refl (c : Component) : SameMark c c := ⟨rfl, rfl, rfl⟩

theorem trans (h : SameMark c d) (k : SameMark d e) : SameMark c e :=
  ⟨k.id.trans h.id, k.formats.trans h.formats, k.scope.trans h.scope⟩

theorem elim {α : Type} {f : α → Component} (hf : ∀ a, SameMark c (f a)) (o : Option α) :
    SameMark c (o.elim c f) := by
  cases o with
  | none => exact refl c
  | some a => exact hf a

theorem foldl {α : Type} {f : Component → α → Component} (hf : ∀ c a, SameMark c (f c a))
    (c : Component) (as : List α) : SameMark c (as.foldl f c) := by
  induction as generalizing c with
  | nil => exact refl c
  | cons a as ih => exact (hf c a).trans (ih (f c a))

end SameMark

theorem sameMark_addSourceRelease (c : Component) (r : Release) :
    SameMark c (c.addSourceRelease r) := by
  unfold addSourceRelease
  split <;> exact ⟨rfl, rfl, rfl⟩

theorem sameMark_addSourceScreenshot (c : Component) (s : Screenshot) :
    SameMark c (c.addSourceScreenshot s) := by
  unfold addSourceScreenshot
  split <;> exact ⟨rfl, rfl, rfl⟩

theorem sameMark_addSourceContentRating (c : Component) (r : ContentRating) :
    SameMark c (c.addSourceContentRating r) := by
  unfold addSourceContentRating
  split <;> exact ⟨rfl, rfl, rfl⟩

/-- A component under construction: no source has marked it, and its ID is proper. -/
structure Unmarked (c : Component) : Prop where
  formats : c.formats = []
  scope : c.scope = .unset
  proper : c.Proper

theorem Unmarked.of_sameMark {c d : Component} (h : c.Unmarked) (k : SameMark c d) : d.Unmarked :=
  ⟨k.formats.trans h.formats, k.scope.trans h.scope, fun hd => h.proper (k.id.symm.trans hd)⟩

end Component

open Component (SameMark Unmarked)

/-- A component that a source has marked as its own, with a proper ID. -/
structure SourceInfo.Marks (source : SourceInfo) (c : Component) : Prop where
  formats : ∃ kind, c.formats = [source.format kind]
  id : ∃ x, c.id = some x ∧ x ≠ ""

/-- What a source leaves on a component that it describes in a document of a kind. -/
structure SourceInfo.Stamps (source : SourceInfo) (kind : FormatKind) (c : Component) : Prop where
  id : ∃ x, c.id = some x ∧ x ≠ ""
  formats : c.formats = [source.format kind]
  scope : c.scope = source.scope
  arch : ∀ a, source.arch = some a → a ∈ c.architectures

theorem SourceInfo.Stamps.marks {source : SourceInfo} {kind : FormatKind} {c : Component}
    (h : source.Stamps kind c) : source.Marks c := ⟨⟨kind, h.formats⟩, h.id⟩

theorem stamps_stamp (source : SourceInfo) (kind : FormatKind) {c : Component} (h : c.Unmarked)
    (hid : c.id.isSome = true) : source.Stamps kind (source.stamp kind c) := by
  obtain ⟨x, hx⟩ := Option.isSome_iff_exists.1 hid
  have hproper : x ≠ "" := by
    rintro rfl
    exact h.proper hx
  have hformats : (c.addFormat (source.format kind)).formats = [source.format kind] := by
    simp [Component.addFormat, h.formats, addNew, addUnlessSame]
  have hunset : (c.addFormat (source.format kind)).scope = .unset := h.scope
  have hscoped : ∃ d, source.stamp kind c = source.arch.elim d d.addArchitecture ∧ d.id = c.id ∧
      d.formats = [source.format kind] ∧ d.scope = source.scope := by
    by_cases hscope : source.scope = .unset
    · refine ⟨c.addFormat (source.format kind), ?_, rfl, hformats, hunset.trans hscope.symm⟩
      unfold SourceInfo.stamp
      simp only [hscope, if_true]
      cases source.arch <;> rfl
    · refine ⟨{ c.addFormat (source.format kind) with scope := source.scope }, ?_, rfl, hformats,
        rfl⟩
      unfold SourceInfo.stamp
      simp only [hscope, if_false]
      cases source.arch <;> rfl
  obtain ⟨d, hstamp, hsame, hmark, hscope⟩ := hscoped
  rw [hstamp]
  cases harch : source.arch with
  | none => exact ⟨⟨x, hsame.trans hx, hproper⟩, hmark, hscope, by simp [harch]⟩
  | some a =>
    refine ⟨⟨x, hsame.trans hx, hproper⟩, hmark, hscope, ?_⟩
    intro b hb
    rw [harch] at hb
    exact mem_addNew.2 (.inr (Option.some.inj hb).symm)

variable {bytes : ByteArray} {source : SourceInfo} {cs : List Component}

namespace Metainfo

/-- Only the child that names the ID changes it, and no child brings formats. -/
theorem addChild_cases (c : Component) (n : Xml.Node) :
    SameMark c (addChild c n) ∨ ∃ id, addChild c n = c.setId id := by
  unfold addChild
  simp only
  split
  case h_1 =>
    split
    · exact .inl ⟨rfl, rfl, rfl⟩
    · split
      · exact .inr ⟨_, rfl⟩
      · exact .inl (.refl c)
  all_goals left
  case h_5 => split <;> exact ⟨rfl, rfl, rfl⟩
  all_goals first
    | exact ⟨rfl, rfl, rfl⟩
    | exact Component.sameMark_addSourceContentRating c _
    | exact SameMark.foldl Component.sameMark_addSourceRelease c _
    | exact SameMark.foldl Component.sameMark_addSourceScreenshot c _
    | refine SameMark.elim (fun a => ?_) _ <;> exact ⟨rfl, rfl, rfl⟩
    | (refine SameMark.foldl (fun d a => ?_) c _; (try split) <;> exact ⟨rfl, rfl, rfl⟩)

theorem unmarked_component (n : Xml.Node) : (component n).Unmarked := by
  have hfold (children : List Xml.Node) {c : Component} (h : c.Unmarked) :
      (children.foldl addChild c).Unmarked := by
    induction children generalizing c with
    | nil => exact h
    | cons child children ih =>
      apply ih
      rcases addChild_cases c child with hsame | ⟨id, hset⟩
      · exact h.of_sameMark hsame
      · rw [hset]
        exact ⟨h.formats, h.scope, c.proper_setId id⟩
  apply hfold
  exact ⟨rfl, rfl, nofun⟩

theorem stamps_read (h : read bytes source = .ok cs) : ∀ c ∈ cs, ∃ root kind,
    IsRoot bytes root ∧ RootKind source root kind ∧ source.Stamps kind c := by
  intro c hc
  obtain ⟨declared, root, hroot, n, kind, d, hkind, hd, hsome, rfl⟩ := exists_of_read h hc
  have hheader : SameMark d (noteHeader declared d) := by
    unfold noteHeader
    split <;> exact ⟨rfl, rfl, rfl⟩
  have horigin : SameMark (component n) d := by
    rcases hd with rfl | ⟨origin, rfl⟩
    · exact .refl _
    · exact ⟨rfl, rfl, rfl⟩
  have hsame := horigin.trans hheader
  refine ⟨root, kind, hroot, hkind,
    stamps_stamp source kind ((unmarked_component n).of_sameMark hsame) ?_⟩
  rw [hsame.id]
  exact hsome

end Metainfo

namespace DesktopEntry

theorem sameMark_addCategory (c : Component) (category : String) :
    SameMark c (addCategory c category) := by
  unfold addCategory
  simp only
  split <;> split <;> exact ⟨rfl, rfl, rfl⟩

theorem sameMark_onlyShownIn (c : Component) (desktops : List String) :
    SameMark c (onlyShownIn c desktops) := by
  unfold onlyShownIn
  split <;> exact ⟨rfl, rfl, rfl⟩

theorem sameMark_addPair (c : Component) (key : String) (locale : Option String) (value : String) :
    SameMark c (addPair c key locale value) := by
  unfold addPair
  split
  case h_7 => exact SameMark.foldl sameMark_addCategory c _
  case h_9 => exact sameMark_onlyShownIn c _
  case h_11 => (repeat' split) <;> exact ⟨rfl, rfl, rfl⟩
  case h_6 | h_8 | h_10 => exact SameMark.foldl (fun _ _ => by exact ⟨rfl, rfl, rfl⟩) c _
  all_goals exact ⟨rfl, rfl, rfl⟩

theorem sameMark_readLines {lines : List (List Char)} {number : Nat} {s : Reading}
    {c : Component} (h : readLines number s lines = .ok (some c)) : SameMark s.component c :=
  readLines_keeps (fun _ _ _ _ hsame => hsame.trans (sameMark_addPair _ _ _ _)) (.refl _) h

/-- A name that ends like a launcher leaves an ID. -/
theorem idOf_ne_empty {basename : String} (h : 3 < basename.toList.length) : idOf basename ≠ "" := by
  unfold idOf Text.dropEnding?
  intro hempty
  cases hdrop : List.isSuffixOf? ".in".toList basename.toList with
  | none =>
    rw [hdrop] at hempty
    have hnil : basename.toList = [] := by simpa using hempty
    simp [hnil] at h
  | some rest =>
    rw [hdrop] at hempty
    have hrest : rest = [] := by simpa using hempty
    have hwhole := List.append_eq_of_isSuffixOf?_eq_some hdrop
    rw [← hwhole, hrest] at h
    simp at h

theorem stamps_read
    (hname : ∀ basename, source.basename = some basename → 3 < basename.toList.length)
    (h : read bytes source = .ok cs) : ∀ c ∈ cs, source.Stamps .desktop c := by
  intro c hc
  obtain ⟨basename, lines, d, hbasename, hread, rfl⟩ := exists_of_read h hc
  have hid : idOf basename ≠ "" := idOf_ne_empty (hname basename hbasename)
  have hstart : (Component.ofId (idOf basename)).id = some (idOf basename) := by
    simp [Component.ofId, Component.setId, Text.nonEmpty?, hid]
  have hlaunch : SameMark d (d.addLaunchable ⟨.desktopId, idOf basename⟩) :=
    ⟨rfl, rfl, rfl⟩
  have hmark := (sameMark_readLines hread).trans hlaunch
  have hsome := hmark.id.trans hstart
  apply stamps_stamp source .desktop
  · refine ⟨hmark.formats, hmark.scope, ?_⟩
    intro hempty
    exact hid (Option.some.inj (hsome.symm.trans hempty))
  · rw [hsome]
    rfl

end DesktopEntry

namespace Dep11

theorem sameMark_addProvide (c : Component) (p : Provide) : SameMark c (addProvide c p) := by
  unfold addProvide
  simp only
  split <;> exact ⟨rfl, rfl, rfl⟩

theorem sameMark_addKeywords (c : Component) (e : String × Yaml.Value) :
    SameMark c (addKeywords c e.1 e.2) := by
  refine SameMark.foldl (fun d word => ?_) c _
  exact ⟨rfl, rfl, rfl⟩

theorem sameMark_component? {h : Header} {v : Yaml.Value} {c : Component}
    (hc : component? h v = some c) : ∃ id, id ≠ "" ∧ SameMark (basic h v id) c := by
  obtain ⟨id, hid, rfl⟩ := Option.map_eq_some_iff.1 hc
  refine ⟨id, ?_, ?_⟩
  · obtain ⟨text, -, htext⟩ := Option.bind_eq_some_iff.1 hid
    unfold Text.nonEmpty? at htext
    split at htext
    · cases htext
    · cases htext
      assumption
  · have hfold {α : Type} {f : Component → α → Component} {d : Component} (as : List α)
        (hd : SameMark (basic h v id) d) (hf : ∀ c a, SameMark c (f c a)) :
        SameMark (basic h v id) (as.foldl f d) := hd.trans (SameMark.foldl hf d as)
    refine hfold _ ?_ fun _ _ => ⟨rfl, rfl, rfl⟩
    refine hfold _ ?_ fun _ _ => ⟨rfl, rfl, rfl⟩
    refine hfold _ ?_ Component.sameMark_addSourceContentRating
    refine hfold _ ?_ Component.sameMark_addSourceScreenshot
    refine hfold _ ?_ Component.sameMark_addSourceRelease
    refine hfold _ ?_ sameMark_addProvide
    refine hfold _ ?_ fun _ _ => ⟨rfl, rfl, rfl⟩
    refine hfold _ ?_ fun _ _ => ⟨rfl, rfl, rfl⟩
    refine hfold _ ?_ fun _ _ => ⟨rfl, rfl, rfl⟩
    refine hfold _ ?_ fun _ _ => ⟨rfl, rfl, rfl⟩
    exact hfold _ (.refl _) sameMark_addKeywords

theorem stamps_read (h : read bytes source = .ok cs) : ∀ c ∈ cs, source.Stamps .appStream c := by
  intro c hc
  obtain ⟨header, v, d, hd, rfl⟩ := exists_of_read h hc
  obtain ⟨id, hid, hsame⟩ := sameMark_component? hd
  apply stamps_stamp source .appStream
  · refine ⟨hsame.formats, hsame.scope, ?_⟩
    intro hempty
    exact hid (Option.some.inj (hsame.id.symm.trans hempty))
  · rw [hsame.id]
    rfl

end Dep11

/-- Of a launcher that is read by its name, the name leaves an ID. -/
theorem basename_of_desktop {source : SourceInfo} (h : source.formatKind = .desktop)
    {basename : String} (hbasename : source.basename = some basename) :
    3 < basename.toList.length := by
  unfold SourceInfo.formatKind at h
  unfold SourceInfo.basename at hbasename
  cases hname : source.filename with
  | none =>
    rw [hname] at h
    nomatch h
  | some name =>
    have hkind : FormatKind.ofFilename name = .desktop := by simpa [hname] using h
    obtain ⟨ending, hending, hlong, hsep⟩ : ∃ ending, Text.endsWith name ending = true ∧
        3 < ending.toList.length ∧ '/' ∉ ending.toList := by
      unfold FormatKind.ofFilename at hkind
      cases hfind : FormatKind.endings.find? fun e => Text.endsWith name e.1 with
      | none =>
        rw [hfind] at hkind
        nomatch hkind
      | some e =>
        rw [hfind] at hkind
        have hends : Text.endsWith name e.1 = true := by simpa using List.find?_some hfind
        have hshape : ∀ e ∈ FormatKind.endings, e.2 = .desktop →
            3 < e.1.toList.length ∧ '/' ∉ e.1.toList := by decide
        exact ⟨e.1, hends, hshape e (List.mem_of_find?_eq_some hfind) hkind⟩
    obtain ⟨last, hlast, hends⟩ := Text.last_field_endsWith hending hsep
    have hbase : basename = last := by
      simp only [hname, Option.bind_some, hlast, Text.nonEmpty?] at hbasename
      split at hbasename
      · cases hbasename
      · exact (Option.some.inj hbasename).symm
    have hlength := (Text.endsWith_iff.1 hends).length_le
    rw [hbase]
    omega

/-- Whatever a source yields, it stamps with the kind of its document. -/
theorem Reader.stamps_any (h : Reader.any bytes source = .ok cs) :
    ∀ c ∈ cs, ∃ kind, source.DocumentKind bytes kind ∧ source.Stamps kind c := by
  intro c hc
  rcases Reader.any_cases h with ⟨hname, h⟩ | ⟨⟨hname, hkind⟩, h⟩ | ⟨⟨hname, hkind⟩, h⟩
  · exact ⟨.appStream, .catalog hname, Dep11.stamps_read h c hc⟩
  · exact ⟨.desktop, .launcher hname hkind,
      DesktopEntry.stamps_read (fun _ => basename_of_desktop hkind) h c hc⟩
  · obtain ⟨root, kind, hroot, hrootKind, hc⟩ := Metainfo.stamps_read h c hc
    exact ⟨kind, .markup hname hkind hroot hrootKind, hc⟩

/-- So it has marked it as its own. -/
theorem Reader.marks_any (h : Reader.any bytes source = .ok cs) : ∀ c ∈ cs, source.Marks c := by
  intro c hc
  obtain ⟨kind, -, hstamps⟩ := Reader.stamps_any h c hc
  exact hstamps.marks

theorem Reader.proper_any : Reader.Proper Reader.any := by
  intro bytes source cs h c hc
  exact Component.proper_of_id (Reader.marks_any h c hc).id

end SoftwareCatalog
