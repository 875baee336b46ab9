import SoftwareCatalog.Proofs.Store.Covering
import SoftwareCatalog.Proofs.Store.SourceCalls
import SoftwareCatalog.Proofs.WatchTable

namespace SoftwareCatalog

/-- Some format of a component names a file, however it writes the path. -/
def Component.Names (c : Component) (path : String) : Prop :=
  ∃ f ∈ c.formats, ∃ n, f.filename = some n ∧ Path.same n path = true

namespace Store

variable {s t : Store} {path p name n : String}

theorem covers_watches : Covers fun s t => t.watches = s.watches where
  refl _ := rfl
  trans h k := k.trans h
  pooled _ _ := rfl
  patched _ _ := rfl
  insert s c := by
    obtain ⟨records, hinsert⟩ := s.exists_insert c
    rw [hinsert]
    rfl
  refresh h previous := by
    obtain ⟨records, keyByUniqueId, hrefresh⟩ := exists_refresh h previous
    rw [hrefresh]
    rfl
  removeKey h := by
    obtain ⟨records, keyByUniqueId, hremove⟩ := exists_removeKey h
    rw [hremove]
    rfl

theorem watches_attachAddons (s : Store) : s.attachAddons.2.watches = s.watches := by
  obtain ⟨records, hattach⟩ := s.exists_attachAddons
  rw [hattach]

theorem watches_settle (s : Store) : s.settle.watches = s.watches := by
  unfold settle
  split <;> rfl

theorem watches_removeBySourceFile (s : Store) (name : String) :
    (s.removeBySourceFile name).2.watches = s.watches := by
  have hstrip (keys : List Nat) (r : Nat × Store) :
      (keys.foldl (stripKey name) r).2.watches = r.2.watches := by
    induction keys generalizing r with
    | nil => rfl
    | cons key keys ih => exact (ih _).trans (covers_watches.strip name r key)
  exact (watches_settle _).trans (hstrip _ _)

def takeBack (s : Store) (names : List String) : Store :=
  names.foldl (fun s name => (s.removeBySourceFile name).2.unwatch name) s

/-- The watched paths that lie in a directory. -/
def nested (s : Store) (path : String) : List String :=
  s.watches.paths.filter fun p => Path.isWithin path p && !Path.same path p

theorem dropPath_eq (s : Store) (path : String) :
    (s.dropPath path).2 = (s.takeBack (s.nested path)).unwatch path := by
  have hfold (names : List String) (r : Nat × Store) :
      (names.foldl (fun (r : Nat × Store) p =>
        (r.1 + (r.2.removeBySourceFile p).1, (r.2.removeBySourceFile p).2.unwatch p)) r).2 =
      r.2.takeBack names := by
    induction names generalizing r with
    | nil => rfl
    | cons name names ih => exact ih _
  exact congrArg (fun t => unwatch t path) (hfold (s.nested path) (0, s))

theorem WellIndexed.removeBySourceFile (h : s.WellIndexed) (name : String) :
    (s.removeBySourceFile name).2.WellIndexed :=
  h.edits (s.edits_removeBySourceFile name)

theorem watches_takeBack (s : Store) (names : List String) :
    (s.takeBack names).watches = names.foldl WatchTable.erase s.watches := by
  induction names generalizing s with
  | nil => rfl
  | cons name names ih =>
    have hfirst : ((s.removeBySourceFile name).2.unwatch name).watches = s.watches.erase name :=
      congrArg (WatchTable.erase · name) (s.watches_removeBySourceFile name)
    exact (ih _).trans (congrArg (names.foldl WatchTable.erase) hfirst)

theorem holds_takeBack (hs : s.WellIndexed) (names : List String) :
    (s.takeBack names).Holds n ↔ s.Holds n ∧ n ∉ names := by
  induction names generalizing s with
  | nil => simp [takeBack]
  | cons name names ih =>
    have hunwatched := sameCatalog_unwatch (s.removeBySourceFile name).2 name
    have hrest := ih ((hs.removeBySourceFile name).same hunwatched.sameIndices)
    rw [hunwatched.holds_iff, holds_removeBySourceFile hs, and_assoc, ← not_or,
      ← List.mem_cons] at hrest
    exact hrest

theorem patchesFor_takeBack (s : Store) (names : List String) (id : String) :
    (s.takeBack names).patchesFor id =
      (s.patchesFor id).filter fun patch => !names.any patch.hasSourceFile := by
  induction names generalizing s with
  | nil => simp [takeBack]
  | cons name names ih =>
    have hrest := ih ((s.removeBySourceFile name).2.unwatch name)
    rw [(sameCatalog_unwatch _ name).patchesFor, patchesFor_removeBySourceFile,
      List.filter_filter] at hrest
    refine hrest.trans (List.filter_congr fun patch _ => ?_)
    rw [List.any_cons, Bool.not_or, Bool.and_comm]

/-- A change that says a path is gone takes back what is written as that path, and the watched
paths in it as they are written in the table. -/
def TakesBack (s : Store) (path name : String) : Prop :=
  name = path ∨ name ∈ s.watches.paths ∧ Path.isWithin path name = true ∧
    Path.same path name = false

theorem mem_nested : n ∈ s.nested path ↔ n ∈ s.watches.paths ∧ Path.isWithin path n = true ∧
    Path.same path n = false := by
  simp [nested]

theorem takesBack_iff : s.TakesBack path n ↔ n ∈ path :: s.nested path := by
  rw [List.mem_cons, mem_nested]
  rfl

theorem onFileChange_removed {w : Watch} (files : FileTree)
    (h : s.watches.lookup path = some w) : (s.onFileChange files .removed path).2 =
      (((s.inhibit.2.removeBySourceFile path).2.dropPath path).2.attachAddons.2.release
        s.inhibit.1).settle := by
  unfold onFileChange
  rw [h]
  rfl

theorem dropPath_removeBySourceFile (s : Store) (path : String) :
    ((s.inhibit.2.removeBySourceFile path).2.dropPath path).2 =
      ((s.inhibit.2.removeBySourceFile path).2.takeBack (s.nested path)).unwatch path := by
  have hnested : (s.inhibit.2.removeBySourceFile path).2.nested path = s.nested path := by
    unfold nested
    rw [watches_removeBySourceFile]
    rfl
  rw [dropPath_eq, hnested]

theorem sameCatalog_removed {w : Watch} (files : FileTree) (h : s.watches.lookup path = some w) :
    SameCatalog ((s.inhibit.2.removeBySourceFile path).2.takeBack (s.nested path))
      (s.onFileChange files .removed path).2 := by
  rw [onFileChange_removed files h, dropPath_removeBySourceFile]
  refine ((SameCatalog.trans ?_ (sameCatalog_attachAddons _)).trans
    (sameCatalog_release _ _)).trans (sameCatalog_settle _)
  exact sameCatalog_unwatch _ path

theorem holds_removed (hs : s.WellIndexed) {w : Watch} (files : FileTree)
    (h : s.watches.lookup path = some w) :
    (s.onFileChange files .removed path).2.Holds n ↔ s.Holds n ∧ ¬ s.TakesBack path n := by
  rw [(sameCatalog_removed files h).holds_iff,
    holds_takeBack (hs.inhibit.removeBySourceFile path), holds_removeBySourceFile hs.inhibit,
    s.sameCatalog_inhibit.holds_iff, takesBack_iff, List.mem_cons, not_or, and_assoc]

theorem patchesFor_removed {w : Watch} (files : FileTree) (h : s.watches.lookup path = some w)
    (id : String) : (s.onFileChange files .removed path).2.patchesFor id =
      (s.patchesFor id).filter fun patch => !(path :: s.nested path).any patch.hasSourceFile := by
  rw [(sameCatalog_removed files h).patchesFor, patchesFor_takeBack, patchesFor_removeBySourceFile,
    s.sameCatalog_inhibit.patchesFor, List.filter_filter]
  refine List.filter_congr fun patch _ => ?_
  rw [List.any_cons, Bool.not_or, Bool.and_comm]

theorem mem_paths_removed {w : Watch} (files : FileTree) (h : s.watches.lookup path = some w) :
    p ∈ (s.onFileChange files .removed path).2.watches.paths ↔
      p ∈ s.watches.paths ∧ (∀ q ∈ s.nested path, Path.same p q = false) ∧
      Path.same p path = false := by
  have hwatches : (s.onFileChange files .removed path).2.watches =
      ((s.nested path).foldl WatchTable.erase s.watches).erase path := by
    rw [onFileChange_removed files h, dropPath_removeBySourceFile, watches_settle]
    refine (watches_attachAddons _).trans ?_
    have htaken := watches_takeBack (s.inhibit.2.removeBySourceFile path).2 (s.nested path)
    rw [watches_removeBySourceFile] at htaken
    exact congrArg (WatchTable.erase · path) htaken
  rw [hwatches, WatchTable.mem_paths_erase, WatchTable.mem_paths_foldl_erase, and_assoc]

theorem any_hasSourceFile_iff {patch : Component} :
    (path :: s.nested path).any patch.hasSourceFile = true ↔
      ∃ f ∈ patch.formats, ∃ n, f.filename = some n ∧ s.TakesBack path n := by
  unfold Component.hasSourceFile
  simp only [List.any_eq_true, beq_iff_eq, takesBack_iff]
  constructor
  · rintro ⟨n, hn, f, hf, hname⟩
    exact ⟨f, hf, n, hname, hn⟩
  · rintro ⟨f, hf, n, hname, hn⟩
    exact ⟨n, hn, f, hf, hname⟩

/-- A path that is gone, or lies in one that is gone, is watched no longer. Nothing names it any
longer exactly where all stored components name it as it is taken back, and no patch names it that
does not go with some file. -/
theorem removed_path_gone_iff {settings : Settings} {reader : Reader} (hr : reader.Proper)
    (hs : Reachable settings reader s) (files : FileTree) (hwithin : Path.isWithin path p = true)
    (hlookup : (s.watches.lookup path).isSome = true) :
    (s.onFileChange files .removed path).2.watches.contains p = false ∧
    (((∀ c ∈ (s.onFileChange files .removed path).2.components, ¬ c.Names p) ∧
      ∀ id, ∀ patch ∈ (s.onFileChange files .removed path).2.patchesFor id, ¬ patch.Names p) ↔
      (∀ n, Path.same n p = true → s.Holds n → s.TakesBack path n) ∧
      ∀ id, ∀ patch ∈ s.patchesFor id, patch.Names p →
        ∃ f ∈ patch.formats, ∃ n, f.filename = some n ∧ s.TakesBack path n) := by
  have hindexed := hs.wellIndexed hr
  obtain ⟨w, hw⟩ := Option.isSome_iff_exists.1 hlookup
  constructor
  · rw [Bool.eq_false_iff, Ne, WatchTable.contains_iff]
    rintro ⟨q, hq, hqp⟩
    obtain ⟨hq, hnested, hpath⟩ := (mem_paths_removed files hw).1 hq
    -- the way in which the table writes the path is among what is taken back
    have hqnested : q ∈ s.nested path := by
      have hpath' : Path.same path q = false := by rwa [Path.same_comm]
      exact mem_nested.2 ⟨hq, (Path.isWithin_congr hqp).trans hwithin, hpath'⟩
    have hself := hnested q hqnested
    rw [Path.same_refl] at hself
    cases hself
  · have hstored : (∀ c ∈ (s.onFileChange files .removed path).2.components, ¬ c.Names p) ↔
        ∀ n, Path.same n p = true → s.Holds n → s.TakesBack path n := by
      constructor
      · intro hnone n hn hholds
        by_contra htaken
        obtain ⟨c, hc, f, hf, hname⟩ := (holds_removed hindexed files hw).2 ⟨hholds, htaken⟩
        exact hnone c hc ⟨f, hf, n, hname, hn⟩
      · rintro hall c hc ⟨f, hf, n, hname, hn⟩
        obtain ⟨hholds, htaken⟩ := (holds_removed hindexed files hw).1 ⟨c, hc, f, hf, hname⟩
        exact htaken (hall n hn hholds)
    rw [hstored]
    refine and_congr_right fun _ => forall_congr' fun id => ?_
    rw [patchesFor_removed files hw]
    simp only [List.mem_filter, Bool.not_eq_true', and_imp]
    refine forall₂_congr fun patch _ => ?_
    rw [← any_hasSourceFile_iff, imp_not_comm, Bool.not_eq_false]

/-- A directory with one file in it. -/
def oneFile : FileTree :=
  ⟨[(["d"], .directory), (["d", "a.xml"], .file "<component><id>a</id></component>".toUTF8)]⟩

/-- The catalog of a path of that tree. -/
def catalogOf (path : String) : Store :=
  (new ⟨{}, {}, ⟨["en"], 4, true, 3⟩⟩ Reader.any).run
    [.loadPath oneFile ⟨.unset, none⟩ .never path]

theorem catalogOf_reachable (path : String) :
    Reachable ⟨{}, {}, ⟨["en"], 4, true, 3⟩⟩ Reader.any (catalogOf path) :=
  ⟨_, by simp [Operation.Proper], rfl⟩

theorem directory_gone :
    (∀ c ∈ ((catalogOf "d").onFileChange oneFile .removed "d").2.components, ¬ c.Names "d/a.xml") ∧
    ((catalogOf "d").onFileChange oneFile .removed "d").2.watches.contains "d/a.xml" = false := by
  have hformats : (catalogOf "d").components.map (·.formats) = [[⟨.metaInfo, some "d/a.xml"⟩]] := by
    decide +kernel
  have hpatches : (catalogOf "d").patches = .empty := by decide +kernel
  have hwithin : Path.isWithin "d" "d/a.xml" = true := by decide +kernel
  have hlookup : ((catalogOf "d").watches.lookup "d").isSome = true := by decide +kernel
  have htaken : (catalogOf "d").TakesBack "d" "d/a.xml" :=
    .inr ⟨WatchTable.mem_paths.2 ⟨⟨.unset, none⟩, by decide +kernel⟩, hwithin, by decide +kernel⟩
  obtain ⟨hunwatched, hgone⟩ := removed_path_gone_iff Reader.proper_any (catalogOf_reachable "d")
    oneFile hwithin hlookup
  refine ⟨(hgone.2 ⟨?_, ?_⟩).1, hunwatched⟩
  · rintro n - ⟨c, hc, f, hf, hname⟩
    have hlist : c.formats ∈ [[⟨.metaInfo, some "d/a.xml"⟩]] := hformats ▸ List.mem_map_of_mem hc
    rw [List.mem_singleton.1 hlist, List.mem_singleton] at hf
    rw [hf] at hname
    exact Option.some.inj hname ▸ htaken
  · intro id patch hpatch
    unfold patchesFor TextMap.getD at hpatch
    rw [hpatches] at hpatch
    cases hpatch

/-- A file that was loaded as `d//a.xml` is watched as `d/a.xml` too, but when the latter is gone
its component stays. -/
theorem spelling_left :
    (catalogOf "d//a.xml").watches.contains "d/a.xml" = true ∧
    Path.isWithin "d/a.xml" "d/a.xml" = true ∧
    ((catalogOf "d//a.xml").watches.lookup "d/a.xml").isSome = true ∧
    ∃ c ∈ ((catalogOf "d//a.xml").onFileChange oneFile .removed "d/a.xml").2.components,
      c.Names "d/a.xml" := by
  refine ⟨by decide +kernel, by decide +kernel, by decide +kernel, ?_⟩
  have hformats : (((catalogOf "d//a.xml").onFileChange oneFile .removed "d/a.xml").2.components.map
      (·.formats)) = [[⟨.metaInfo, some "d//a.xml"⟩]] := by decide +kernel
  have hlist := List.mem_singleton_self [(⟨.metaInfo, some "d//a.xml"⟩ : Format)]
  rw [← hformats] at hlist
  obtain ⟨c, hc, heq⟩ := List.mem_map.1 hlist
  exact ⟨c, hc, _, heq ▸ List.mem_cons_self, _, rfl, by decide +kernel⟩

end Store

end SoftwareCatalog
