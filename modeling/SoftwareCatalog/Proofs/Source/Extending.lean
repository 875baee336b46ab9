import SoftwareCatalog.Proofs.Component.Addon
import SoftwareCatalog.Proofs.Component.Unrepeated
import SoftwareCatalog.Proofs.Source.Reading
import SoftwareCatalog.Proofs.Store.Move

namespace SoftwareCatalog

namespace Component

variable {c : Component}

/-- No ID is listed twice among those that a component extends. -/
def ExtendsOnce (c : Component) : Prop := c.extendedIds.Nodup

theorem extendsOnce_of_nil (h : c.extendedIds = []) : c.ExtendsOnce := by
  rw [ExtendsOnce, h]
  exact List.nodup_nil

theorem ExtendsOnce.subsume (h : c.ExtendsOnce) (flags : SubsumeFlags) (d : Component) :
    (c.subsume flags d).ExtendsOnce := by
  rw [ExtendsOnce, extendedIds_subsume]
  split
  · exact nodup_mergeList h flags _
  · exact h

theorem ExtendsOnce.addExtends (h : c.ExtendsOnce) (id : String) :
    (c.addExtends id).ExtendsOnce := nodup_addNew h id

/-- What each part of a description keeps, all parts keep. -/
theorem ExtendsOnce.foldl {α : Type} {f : Component → α → Component} (h : c.ExtendsOnce)
    (hf : ∀ d a, d.ExtendsOnce → (f d a).ExtendsOnce) (as : List α) :
    (as.foldl f c).ExtendsOnce :=
  List.foldlRecOn as f h fun d hd a _ => hf d a hd

end Component

open Component (ExtendsOnce)

variable {c : Component}

theorem extendsOnce_stamp (source : SourceInfo) (kind : FormatKind) (h : c.ExtendsOnce) :
    (source.stamp kind c).ExtendsOnce := by
  unfold SourceInfo.stamp
  cases source.arch <;> by_cases hscope : source.scope = .unset <;> simp only [hscope] <;> exact h

theorem extendsOnce_addSourceRelease (c : Component) (r : Release) (h : c.ExtendsOnce) :
    (c.addSourceRelease r).ExtendsOnce := by
  unfold Component.addSourceRelease
  split <;> exact h

theorem extendsOnce_addSourceScreenshot (c : Component) (s : Screenshot) (h : c.ExtendsOnce) :
    (c.addSourceScreenshot s).ExtendsOnce := by
  unfold Component.addSourceScreenshot
  split <;> exact h

theorem extendsOnce_addSourceContentRating (c : Component) (r : ContentRating)
    (h : c.ExtendsOnce) : (c.addSourceContentRating r).ExtendsOnce := by
  unfold Component.addSourceContentRating
  split <;> exact h

namespace Metainfo

/-- Only the child that names an ID to extend adds to these. -/
theorem extendsOnce_addChild (c : Component) (n : Xml.Node) (h : c.ExtendsOnce) :
    (addChild c n).ExtendsOnce := by
  unfold addChild
  simp only
  split
  case h_1 =>
    split
    · exact h
    · split <;> exact h
  case h_5 => split <;> exact h
  all_goals first
    | exact h.foldl extendsOnce_addSourceRelease _
    | exact h.foldl extendsOnce_addSourceScreenshot _
    | (refine h.foldl (fun d a hd => ?_) _; (try split) <;> exact hd)
    | exact h
    | exact extendsOnce_addSourceContentRating c _ h
    | (cases icon n <;> exact h)
    | (cases n.text? <;> first | exact h | exact h.addExtends _)

theorem extendsOnce_read {bytes : ByteArray} {source : SourceInfo} {cs : List Component}
    (h : read bytes source = .ok cs) : ∀ c ∈ cs, c.ExtendsOnce := by
  intro c hc
  obtain ⟨declared, root, -, n, kind, d, -, hd, -, rfl⟩ := exists_of_read h hc
  have hcomponent : (component n).ExtendsOnce :=
    (Component.extendsOnce_of_nil rfl).foldl extendsOnce_addChild n.children
  have horigin : d.ExtendsOnce := by
    rcases hd with rfl | ⟨origin, rfl⟩ <;> exact hcomponent
  apply extendsOnce_stamp
  unfold noteHeader
  split <;> exact horigin

end Metainfo

namespace DesktopEntry

theorem extendsOnce_addCategory (c : Component) (category : String) (h : c.ExtendsOnce) :
    (addCategory c category).ExtendsOnce := by
  unfold addCategory
  simp only
  split <;> split <;> exact h

/-- Launchers do not tell what they extend. -/
theorem extendsOnce_addPair (c : Component) (key : String) (locale : Option String)
    (value : String) (h : c.ExtendsOnce) : (addPair c key locale value).ExtendsOnce := by
  unfold addPair
  split
  case h_7 => exact h.foldl extendsOnce_addCategory _
  case h_9 =>
    unfold onlyShownIn
    split <;> exact h
  case h_11 => (repeat' split) <;> exact h
  case h_6 | h_8 | h_10 => exact h.foldl (fun _ _ hd => by exact hd) _
  all_goals exact h

theorem extendsOnce_read {bytes : ByteArray} {source : SourceInfo} {cs : List Component}
    (h : read bytes source = .ok cs) : ∀ c ∈ cs, c.ExtendsOnce := by
  intro c hc
  obtain ⟨basename, lines, d, -, hread, rfl⟩ := exists_of_read h hc
  have hlines : d.ExtendsOnce :=
    readLines_keeps extendsOnce_addPair (Component.extendsOnce_of_nil rfl) hread
  exact extendsOnce_stamp source .desktop hlines

end DesktopEntry

namespace Dep11

theorem extendsOnce_addProvide (c : Component) (p : Provide) (h : c.ExtendsOnce) :
    (addProvide c p).ExtendsOnce := by
  unfold addProvide
  simp only
  split <;> exact h

theorem extendsOnce_component? {header : Header} {v : Yaml.Value}
    (h : component? header v = some c) : c.ExtendsOnce := by
  obtain ⟨id, -, rfl⟩ := Option.map_eq_some_iff.1 h
  have hbasic : (basic header v id).ExtendsOnce := Component.extendsOnce_of_nil rfl
  refine ExtendsOnce.foldl ?_ (fun _ _ hd => by exact hd) _
  refine ExtendsOnce.foldl ?_ (fun _ _ hd => by exact hd) _
  refine ExtendsOnce.foldl ?_ extendsOnce_addSourceContentRating _
  refine ExtendsOnce.foldl ?_ extendsOnce_addSourceScreenshot _
  refine ExtendsOnce.foldl ?_ extendsOnce_addSourceRelease _
  refine ExtendsOnce.foldl ?_ extendsOnce_addProvide _
  refine ExtendsOnce.foldl ?_ (fun _ _ hd => by exact hd) _
  refine ExtendsOnce.foldl ?_ (fun _ _ hd => by exact hd) _
  refine ExtendsOnce.foldl ?_ (fun _ id hd => hd.addExtends id) _
  refine ExtendsOnce.foldl ?_ (fun _ _ hd => by exact hd) _
  refine hbasic.foldl (fun d e hd => ?_) _
  refine hd.foldl (fun d word hd => ?_) _
  exact hd

theorem extendsOnce_read {bytes : ByteArray} {source : SourceInfo} {cs : List Component}
    (h : read bytes source = .ok cs) : ∀ c ∈ cs, c.ExtendsOnce := by
  intro c hc
  obtain ⟨header, v, d, hd, rfl⟩ := exists_of_read h hc
  exact extendsOnce_stamp source .appStream (extendsOnce_component? hd)

end Dep11

/-- Whatever a source yields, it lists what it extends once. -/
theorem Reader.extendsOnce_any : Reader.any.Yields ExtendsOnce := by
  intro bytes source cs h
  rcases Reader.any_cases h with ⟨-, h⟩ | ⟨-, h⟩ | ⟨-, h⟩
  · exact Dep11.extendsOnce_read h
  · exact DesktopEntry.extendsOnce_read h
  · exact Metainfo.extendsOnce_read h

end SoftwareCatalog
