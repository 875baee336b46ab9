import SoftwareCatalog.Proofs.Store.PatchQueue
import SoftwareCatalog.Proofs.Store.Survival

namespace SoftwareCatalog

namespace Component

theorem removeFormatsOf_idem (c : Component) (filename : String) :
    (c.removeFormatsOf filename).removeFormatsOf filename = c.removeFormatsOf filename := by
  simp [removeFormatsOf]

theorem removeFormatsOf_of_not {c : Component} {filename : String}
    (h : c.hasSourceFile filename = false) : c.removeFormatsOf filename = c := by
  have hall : c.formats.filter (fun f => f.filename != some filename) = c.formats := by
    rw [List.filter_eq_self]
    intro f hf
    have hnot : ¬ (f.filename == some filename) = true := List.any_eq_false.1 h f hf
    simpa [bne] using hnot
  unfold removeFormatsOf
  rw [hall]

/-- A component stays without a file if the file told nothing of it, or another source did. -/
def outlasts (filename : String) (c : Component) : Bool :=
  !c.hasSourceFile filename || c.formats.any fun f => f.filename != some filename

theorem outlasts_iff {c : Component} {filename : String} : c.outlasts filename = true ↔
    (c.hasSourceFile filename = true → (c.removeFormatsOf filename).formats ≠ []) := by
  have hleft : (c.formats.any fun f => f.filename != some filename) = true ↔
      (c.removeFormatsOf filename).formats ≠ [] := by
    unfold removeFormatsOf
    rw [Ne, List.filter_eq_nil_iff, List.any_eq_true]
    push Not
    rfl
  unfold outlasts
  rw [Bool.or_eq_true, hleft, Bool.not_eq_true', ← Bool.not_eq_true]
  exact imp_iff_not_or.symm

end Component

namespace Store

variable {s : Store} {filename : String} {k : Nat} {c : Component}

/-- What becomes of an entry when some keys are stripped of a file. -/
def strippedEntry (filename : String) (keys : List Nat) (e : Nat × Component) :
    Option (Nat × Component) :=
  if e.1 ∉ keys then some e
  else if (e.2.removeFormatsOf filename).formats = [] then none
  else some (e.1, e.2.removeFormatsOf filename)

/-- What one step of the removal leaves of the records. -/
theorem entries_stripKey (hs : s.Keyed) (filename : String) (count key : Nat) :
    (stripKey filename (count, s) key).2.entries =
      s.entries.filterMap (strippedEntry filename [key]) := by
  have hother {e : Nat × Component} (he : e.1 ≠ key) :
      strippedEntry filename [key] e = some e := if_pos (by simpa using he)
  rcases stripKey_cases filename (count, s) key with ⟨hnone, hsame⟩ | ⟨old, hold, hcases⟩
  · have hall : ∀ e ∈ s.entries, strippedEntry filename [key] e = some e :=
      fun e he => hother (find?_eq_none_iff.1 hnone e he)
    rw [hsame, List.filterMap_congr hall, List.filterMap_some]
  · have hself {e : Nat × Component} (he : e ∈ s.entries) (hkey : e.1 = key) : e.2 = old.bare :=
      hs.component_eq (hkey ▸ he) (mem_entries_of_find? hold)
    rcases hcases with ⟨hempty, hremoved⟩ | ⟨hleft, haltered⟩
    · rw [hremoved.entries, ← List.filterMap_eq_filter]
      refine List.filterMap_congr fun e he => ?_
      by_cases hkey : e.1 = key
      · have hgone : (e.2.removeFormatsOf filename).formats = [] := hself he hkey ▸ hempty
        simp [strippedEntry, hkey, hgone]
      · simp [hother hkey, hkey]
    · rw [haltered.entries, ← List.filterMap_eq_map]
      refine List.filterMap_congr fun e he => ?_
      by_cases hkey : e.1 = key
      · have hsome : (e.2.removeFormatsOf filename).formats ≠ [] := hself he hkey ▸ hleft
        simp [strippedEntry, alter, hkey, hsome]
      · simp [hother hkey, alter, hkey]

/-- Stripping several records strips each of them once. -/
theorem entries_foldl_stripKey (filename : String) (keys : List Nat) {r : Nat × Store}
    (hr : r.2.WellIndexed) : (keys.foldl (stripKey filename) r).2.entries =
      r.2.entries.filterMap (strippedEntry filename keys) := by
  induction keys generalizing r with
  | nil =>
    have hall : strippedEntry filename [] = some := by
      funext e
      exact if_pos List.not_mem_nil
    rw [hall, List.filterMap_some]
    rfl
  | cons key keys ih =>
    rw [List.foldl_cons, ih (hr.edits (edits_stripKey filename r key)),
      entries_stripKey hr.keyed, List.filterMap_filterMap]
    refine List.filterMap_congr fun e _ => ?_
    by_cases hkey : e.1 = key
    · by_cases hleft : (e.2.removeFormatsOf filename).formats = []
      · simp [strippedEntry, hkey, hleft]
      · simp [strippedEntry, hkey, hleft, Component.removeFormatsOf_idem]
    · simp [strippedEntry, hkey]

/-- Records without the formats of a file, except for those that only the file described. -/
theorem entries_removeBySourceFile (hs : s.WellIndexed) (filename : String) :
    (s.removeBySourceFile filename).2.entries =
      (s.entries.filter fun e => e.2.outlasts filename).map
        fun e => (e.1, e.2.removeFormatsOf filename) := by
  have hstripped : (s.removeBySourceFile filename).2.entries =
      s.entries.filterMap (strippedEntry filename (s.keysWhere (·.hasSourceFile filename))) :=
    (sameCatalog_settle _).entries.trans
      (entries_foldl_stripKey filename _ (r := (0, s.inhibit.2)) hs.inhibit)
  rw [hstripped, ← List.filterMap_eq_map, List.filterMap_filter]
  refine List.filterMap_congr fun e he => ?_
  have hkey := hs.keyed.mem_keysWhere_iff (p := (·.hasSourceFile filename)) (fun _ => rfl) he
  cases hfile : e.2.hasSourceFile filename with
  | false =>
    have houtlasts : e.2.outlasts filename = true := Component.outlasts_iff.2 (by simp [hfile])
    have hsame := Component.removeFormatsOf_of_not hfile
    simp [strippedEntry, hkey, hfile, houtlasts, hsame]
  | true =>
    have houtlasts : e.2.outlasts filename = true ↔ (e.2.removeFormatsOf filename).formats ≠ [] :=
      Component.outlasts_iff.trans (by simp [hfile])
    by_cases hleft : (e.2.removeFormatsOf filename).formats = []
    · simp [strippedEntry, hkey, hfile, hleft, houtlasts]
    · simp [strippedEntry, hkey, hfile, hleft, houtlasts]

/-- What taking back a file leaves: all records without the file's formats, except for those that
only the file described. -/
theorem mem_removeBySourceFile_iff (hs : s.WellIndexed) (filename : String) :
    (k, c) ∈ (s.removeBySourceFile filename).2.entries ↔
      ∃ d, (k, d) ∈ s.entries ∧ c = d.removeFormatsOf filename ∧
        (d.hasSourceFile filename = true → c.formats ≠ []) := by
  rw [entries_removeBySourceFile hs, List.mem_map]
  constructor
  · intro hsome
    obtain ⟨⟨n, d⟩, hd, heq⟩ := hsome
    obtain ⟨rfl, rfl⟩ := Prod.mk.inj heq
    obtain ⟨hd, hstays⟩ := List.mem_filter.1 hd
    exact ⟨d, hd, rfl, Component.outlasts_iff.1 hstays⟩
  · intro hsome
    obtain ⟨d, hd, rfl, hleft⟩ := hsome
    exact ⟨(k, d), List.mem_filter.2 ⟨hd, Component.outlasts_iff.2 hleft⟩, rfl⟩

/-- Where every record has formats, those that are left are left with some. -/
theorem mem_removeBySourceFile (hs : s.WellIndexed)
    (hformats : ∀ e ∈ s.entries, e.2.formats ≠ []) (filename : String) :
    (k, c) ∈ (s.removeBySourceFile filename).2.entries ↔
      c.formats ≠ [] ∧ ∃ d, (k, d) ∈ s.entries ∧ c = d.removeFormatsOf filename := by
  rw [mem_removeBySourceFile_iff hs]
  constructor
  · intro hsome
    obtain ⟨d, hd, rfl, hleft⟩ := hsome
    refine ⟨?_, d, hd, rfl⟩
    cases hfile : d.hasSourceFile filename with
    | true => exact hleft hfile
    | false =>
      rw [Component.removeFormatsOf_of_not hfile]
      exact hformats _ hd
  · intro hboth
    obtain ⟨hleft, d, hd, heq⟩ := hboth
    exact ⟨d, hd, heq, fun _ => hleft⟩

theorem Keyed.counted_stripKey {r : Nat × Store} (hr : r.2.Keyed) (filename : String) (key : Nat) :
    (stripKey filename r key).1 + (stripKey filename r key).2.entries.length =
      r.1 + r.2.entries.length := by
  unfold stripKey
  cases hold : r.2.find? key with
  | none => rfl
  | some old =>
    have hstripped := find?_withoutFile hold filename
    simp only
    split
    · have hremoved := removed_modify_removeKey hstripped fun _ => rfl
      rw [hremoved.entries, ← hr.length_filter_ne (mem_entries_of_find? hold)]
      omega
    · have haltered : Altered key (·.removeFormatsOf filename) old.bare r.2
          ((r.2.modify key (Record.withoutFile filename)).refresh key old.uniqueId) :=
        altered_refresh hstripped (fun _ => rfl) (fun _ => rfl) rfl
      rw [haltered.entries, List.length_map]

theorem WellIndexed.length_removeBySourceFile (hs : s.WellIndexed) (filename : String) :
    (s.removeBySourceFile filename).1 + (s.removeBySourceFile filename).2.entries.length =
      s.entries.length := by
  have hcounted := counted_foldl (edits_stripKey filename)
    (fun _ key hr => hr.keyed.counted_stripKey filename key)
    (s.keysWhere (·.hasSourceFile filename)) (r := (0, s.inhibit.2)) hs.inhibit
  have hentries : (s.removeBySourceFile filename).2.entries = _ := (sameCatalog_settle _).entries
  rw [hentries]
  exact hcounted.trans (Nat.zero_add _)

theorem patches_foldl_stripKey (filename : String) (keys : List Nat) (r : Nat × Store) :
    (keys.foldl (stripKey filename) r).2.patches = r.2.patches := by
  induction keys generalizing r with
  | nil => rfl
  | cons key keys ih => exact (ih _).trans (patches_stripKey filename r key)

theorem patchesFor_removeBySourceFile (s : Store) (filename id : String) :
    (s.removeBySourceFile filename).2.patchesFor id =
      (s.patchesFor id).filter (!·.hasSourceFile filename) := by
  have hstripped (t : Store) (ht : t.patches = s.patches) :
      (t.dropPatchesOf filename).patchesFor id =
        (s.patchesFor id).filter (!·.hasSourceFile filename) := by
    rw [patchesFor_dropPatchesOf, patchesFor, ht, ← patchesFor]
  have hsettled : (s.removeBySourceFile filename).2.patchesFor id = _ :=
    (sameCatalog_settle _).patchesFor id
  rw [hsettled]
  exact hstripped _ (patches_foldl_stripKey filename _ (0, s.inhibit.2))

theorem WellIndexed.survived_removeBySourceFile (hs : s.WellIndexed) (filename : String) :
    Survived (s.Follows (·.hasSourceFile filename)) s (s.removeBySourceFile filename).2 := by
  have hinhibited : Survived (s.Follows (·.hasSourceFile filename)) s s.inhibit.2 := .refl s
  have hstripped : Survived (s.Follows (·.hasSourceFile filename)) s
      ((s.keysWhere (·.hasSourceFile filename)).foldl (stripKey filename) (0, s.inhibit.2)).2 :=
    survived_foldl (edits_stripKey filename)
      (fun r key hr hmoved => survived_stripKey filename r key hmoved hr) hs.keyed (fun _ => id)
      hs.inhibit hinhibited
  exact hstripped.same (records_settle _)

/-- A record that is left has lost the formats of the file and nothing else, unless the file told of
an addon that extends its component. Then its tokens may be void. -/
theorem WellIndexed.records_removeBySourceFile (hs : s.WellIndexed) (filename : String) :
    ∀ r ∈ (s.removeBySourceFile filename).2.records, ∃ q ∈ s.records,
      r = q.withoutFile filename ∨ (r.key = q.key ∧ r.tokens = none ∧ ∃ a ∈ s.components,
        a.kind = .addon ∧ a.hasSourceFile filename = true ∧ a.Extends q.component) := by
  intro r hr
  obtain ⟨q, hq, hsurvives⟩ := hs.survived_removeBySourceFile filename r hr
  refine ⟨q, hq, ?_⟩
  rcases hsurvives.tokens with ⟨formats, rfl⟩ | ⟨hnone, a, hfollows, hextends⟩
  · have hentry : (q.key, Component.bare { q.component with formats }) ∈
        (s.removeBySourceFile filename).2.entries := List.mem_map_of_mem hr
    obtain ⟨d, hd, heq, -⟩ := (mem_removeBySourceFile_iff hs filename).1 hentry
    obtain rfl := hs.keyed.component_eq hd (List.mem_map_of_mem hq)
    have hformats : formats = (q.component.removeFormatsOf filename).formats :=
      congrArg Component.formats heq
    exact .inl (hformats ▸ rfl)
  · exact .inr ⟨hsurvives.key, hnone, hfollows.extends hextends⟩

/-- What should be left of a catalog that takes a file back, and the count of what goes. Attachments
of what stays may go with it, and tokens with attachments. -/
structure TakenBack (filename : String) (s : Store) (r : Nat × Store) : Prop where
  components : r.2.components.map Component.bare =
    ((s.components.filter (·.outlasts filename)).map (·.removeFormatsOf filename)).map Component.bare
  count : r.1 = s.components.countP fun c => !c.outlasts filename
  gone : r.1 + r.2.components.length = s.components.length
  patches : ∀ id, r.2.patchesFor id = (s.patchesFor id).filter (!·.hasSourceFile filename)
  patchedIds : ∀ id, id ∈ r.2.patchedIds ↔ r.2.patchesFor id ≠ []
  records : ∀ record ∈ r.2.records, ∃ old ∈ s.records, record = old.withoutFile filename ∨
    (record.key = old.key ∧ record.tokens = none ∧ ∃ a ∈ s.components,
      a.kind = .addon ∧ a.hasSourceFile filename = true ∧ a.Extends old.component)

/-- A file that is taken back goes from all components, and with it those that only it described;
these are counted. The others stay in their order, and so do the patches that are not its own.
Tokens stay as well, but for those of components that an addon extends which the file told of. -/
theorem takenBack_removeBySourceFile {settings : Settings} {reader : Reader} (hr : reader.Proper)
    (h : Reachable settings reader s) (filename : String) :
    TakenBack filename s (s.removeBySourceFile filename) := by
  have hs := h.wellIndexed hr
  have hleft : (s.removeBySourceFile filename).2.components.map Component.bare =
      ((s.components.filter (·.outlasts filename)).map
        (·.removeFormatsOf filename)).map Component.bare := by
    rw [bare_components, entries_removeBySourceFile hs, List.map_map, List.map_map]
    have houtlasting := s.map_snd_filter_entries (p := (·.outlasts filename)) fun _ => rfl
    have hstripped := congrArg (List.map (·.removeFormatsOf filename)) houtlasting
    rw [List.map_map, List.map_map] at hstripped
    exact hstripped
  have hgone : (s.removeBySourceFile filename).1 +
      (s.removeBySourceFile filename).2.components.length = s.components.length := by
    rw [← length_entries, ← length_entries]
    exact hs.length_removeBySourceFile filename
  have hstays := congrArg List.length hleft
  simp only [List.length_map] at hstays
  have hafter : Reachable settings reader (s.removeBySourceFile filename).2 :=
    h.apply (.removeBySourceFile filename) trivial
  exact
    { components := hleft
      count := count_of_left (hstays ▸ hgone)
      gone := hgone
      patches := s.patchesFor_removeBySourceFile filename
      patchedIds := fun id => hafter.occupied.mem_patchedIds
      records := hs.records_removeBySourceFile filename }

/-- A component as some files describe it. -/
def listedIn (id : String) (files : List String) : Component :=
  files.foldl (fun c name => c.addFormat ⟨.metaInfo, some name⟩) (Component.ofId id)

/-- Three components, of which two files describe one, one file another and none the last. -/
def sharedCatalog : Store :=
  (new ⟨{}, {}, ⟨["en"], 4, true, 3⟩⟩ Reader.any).run
    [.addMany [listedIn "a" ["x.xml"], listedIn "b" ["x.xml", "y.xml"], listedIn "c" []]]

theorem sharedCatalog_reachable :
    Reachable ⟨{}, {}, ⟨["en"], 4, true, 3⟩⟩ Reader.any sharedCatalog := by
  have hproper : ∀ c ∈ [listedIn "a" ["x.xml"], listedIn "b" ["x.xml", "y.xml"],
      listedIn "c" []], c.Proper := by decide +kernel
  refine ⟨_, ?_, rfl⟩
  intro op hop
  rw [List.mem_singleton.1 hop]
  exact hproper

theorem takenBack_shared :
    Reader.any.Proper ∧ (sharedCatalog.removeBySourceFile "x.xml").1 = 1 ∧
    (sharedCatalog.removeBySourceFile "x.xml").2.components.map Component.bare =
      [listedIn "b" ["y.xml"], listedIn "c" []] := by
  have htaken := takenBack_removeBySourceFile Reader.proper_any sharedCatalog_reachable "x.xml"
  refine ⟨Reader.proper_any, ?_, ?_⟩
  · rw [htaken.count]
    decide +kernel
  · rw [htaken.components]
    decide +kernel

end Store

end SoftwareCatalog
