import SoftwareCatalog.Proofs.Store.Gathering
import SoftwareCatalog.Proofs.Store.Inheritance
import SoftwareCatalog.Proofs.Store.Shift

namespace SoftwareCatalog.Store

variable {n : Nat} {s t : Store} {files before after : FileTree} {w : Watch} {dir name path : String}

theorem watches_addMany (s : Store) (cs : List Component) : (s.addMany cs).watches = s.watches :=
  covers_watches.foldl covers_watches.add cs s.inhibit.2

theorem watches_ingest (s : Store) (bytes : ByteArray) (source : SourceInfo) :
    (s.ingest bytes source).2.watches = s.watches := by
  cases hread : s.reader bytes source with
  | error e => rw [ingest_of_error hread]
  | ok cs =>
    rw [ingest_of_ok hread]
    exact s.watches_addMany _

theorem watches_loadFile (s : Store) (files : FileTree) (w : Watch) (path : String) :
    (s.loadFile files w path).2.watches = s.watches := by
  unfold loadFile
  split
  · rfl
  · simp only [loadSource]
    split <;> exact s.watches_ingest _ _

theorem get?_watches_loadWatched (h : s.watches.get? dir = some w) (files : FileTree)
    (path : String) : (s.loadWatched files w path).2.watches.get? dir = some w := by
  have hfile := s.watches_loadFile files w path
  unfold loadWatched
  split
  · rename_i count t heq
    rw [heq] at hfile
    have hbefore : t.watches.get? dir = some w := hfile ▸ h
    exact WatchTable.get?_insert hbefore path
  · rw [hfile]
    exact h

theorem get?_watches_loadEach (h : s.watches.get? dir = some w) (files : FileTree)
    (cancel : Cancellation) (done : Nat) (paths : List String) :
    (loadEach files w cancel done s paths).2.watches.get? dir = some w := by
  induction paths generalizing s done with
  | nil => exact h
  | cons path paths ih =>
    have hfirst := get?_watches_loadWatched h files path
    unfold loadEach
    split
    · exact h
    · generalize s.loadWatched files w path = r at hfirst
      obtain ⟨outcome, t⟩ := r
      cases outcome with
      | error e => exact hfirst
      | ok count => exact ih hfirst (done + 1)

theorem watches_completed (r : Outcome × Store) : (completed r).2.watches = r.2.watches := by
  unfold completed
  split
  · exact watches_attachAddons _
  · rfl

theorem watches_batch {α : Type} (s : Store) (f : Store → α × Store) :
    (s.batch f).2.watches = (f s.inhibit.2).2.watches := rfl

theorem loadPath_of_isDirectory (s : Store) (w : Watch) {cancel : Cancellation}
    (hcancel : cancel 0 = false) (hdir : files.isDirectory dir = true) :
    s.loadPath files w cancel dir =
      s.batch fun s => completed (s.loadDirectory files w cancel dir) := by
  unfold loadPath
  simp only [hcancel, Bool.false_eq_true, if_false, hdir, if_true]

/-- A directory whose load was begun is watched as it was loaded. -/
theorem get?_watches_loadPath (s : Store) (w : Watch) {cancel : Cancellation}
    (hcancel : cancel 0 = false) (hdir : files.isDirectory dir = true) :
    (s.loadPath files w cancel dir).2.watches.get? dir = some w := by
  have hstart : (s.inhibit.2.watch dir w).watches.get? dir = some w :=
    WatchTable.get?_insert_self _ _ _
  have hloaded : (s.inhibit.2.loadDirectory files w cancel dir).2.watches.get? dir = some w :=
    get?_watches_loadEach hstart files cancel 0 _
  rw [loadPath_of_isDirectory s w hcancel hdir, watches_batch, watches_completed]
  exact hloaded

/-- All that a catalog has of files comes from those that were in a directory when it was loaded. -/
structure SourcedFrom (s : Store) (before : FileTree) (dir : String) (w : Watch) : Prop where
  directory : before.isDirectory dir = true
  watched : s.watches.lookup dir = some w
  stored : ∀ name, s.Holds name → name ∈ sourcesIn before dir
  pending : ∀ name, s.HoldsPatch name → name ∈ sourcesIn before dir

/-- What a first load leaves, also where it was called off or failed on the way. -/
theorem sourcedFrom_loadPath (settings : Settings) {reader : Reader} (hr : reader.Marked)
    (w : Watch) {cancel : Cancellation} (hcancel : cancel 0 = false)
    (hdir : before.isDirectory dir = true) :
    SourcedFrom ((new settings reader).loadPath before w cancel dir).2 before dir w := by
  have hgathers : Gathers (· ∈ sourcesIn before dir) (new settings reader)
      ((new settings reader).loadPath before w cancel dir).2 :=
    .loadPath (wellIndexed_new settings reader) hr hdir
  refine ⟨hdir, ?_, ?_, ?_⟩
  · exact WatchTable.lookup_of_get? (get?_watches_loadPath _ w hcancel hdir)
  · intro name hname
    refine (hgathers.come name hname).resolve_left ?_
    rintro ⟨c, hc, -⟩
    cases hc
  · intro name hname
    refine (hgathers.patchCome name hname).resolve_left ?_
    rintro ⟨id, p, hp, -⟩
    cases hp

theorem SourcedFrom.not_holds (h : SourcedFrom s before dir w) : ¬ s.Holds dir :=
  fun hholds => FileTree.not_mem_sourcesIn h.directory (h.stored dir hholds)

theorem SourcedFrom.not_holdsPatch (h : SourcedFrom s before dir w) : ¬ s.HoldsPatch dir :=
  fun hholds => FileTree.not_mem_sourcesIn h.directory (h.pending dir hholds)

/-- Two catalogs list the same components, and the same patches wait in them. -/
structure SameContents (s t : Store) : Prop where
  components : t.components = s.components
  patches : ∀ id, t.patchesFor id = s.patchesFor id

/-- To take back a file that nothing names changes no contents. -/
theorem shifted_removeBySourceFile (hholds : ¬ s.Holds name)
    (hpatch : ¬ s.HoldsPatch name) : Shifted 0 s (s.removeBySourceFile name).2 := by
  have hnone : s.inhibit.2.keysWhere (·.hasSourceFile name) = [] := by
    rw [List.eq_nil_iff_forall_not_mem]
    intro k hk
    obtain ⟨c, hc, hfile⟩ := (mem_keysWhere fun _ => rfl).1 hk
    obtain ⟨f, hf, hname⟩ := List.any_eq_true.1 hfile
    exact hholds (holds_iff.2 ⟨_, hc, f, hf, eq_of_beq hname⟩)
  have hremoved : SameCatalog (s.inhibit.2.dropPatchesOf name) (s.removeBySourceFile name).2 := by
    unfold removeBySourceFile batch
    simp only [hnone]
    exact (sameCatalog_release _ _).trans (sameCatalog_settle _)
  have hpatches (id : String) : (s.removeBySourceFile name).2.patchesFor id = s.patchesFor id := by
    rw [patchesFor_removeBySourceFile, List.filter_eq_self]
    intro patch hin
    rw [Bool.not_eq_true']
    by_contra hfile
    obtain ⟨f, hf, hname⟩ := List.any_eq_true.1 (Bool.not_eq_false _ ▸ hfile)
    exact hpatch ⟨id, patch, hin, f, hf, eq_of_beq hname⟩
  have hid : lift 0 = id := rfl
  refine ⟨hremoved.settings, hremoved.reader, ?_, hremoved.nextKey, hpatches⟩
  rw [hid, List.map_id]
  exact hremoved.entries

/-- A directory that changed is loaded once more, over all that is not named like itself. -/
theorem onFileChange_changed (hw : s.watches.lookup dir = some w)
    (hdir : after.isDirectory dir = true) :
    (s.onFileChange after .changed dir).1 =
      ((s.inhibit.2.removeBySourceFile dir).2.loadDirectory after w .never dir).1 ∧
    ∀ m, (s.onFileChange after .changed dir).1 = .ok m →
      (s.onFileChange after .changed dir).2 =
        (((s.inhibit.2.removeBySourceFile dir).2.loadDirectory after w
          .never dir).2.attachAddons.2.release s.inhibit.1).settle := by
  have hreload : (s.inhibit.2.removeBySourceFile dir).2.reload after w dir =
      some ((s.inhibit.2.removeBySourceFile dir).2.loadDirectory after w .never dir) := by
    unfold reload
    rw [if_pos hdir]
  unfold onFileChange
  simp only [hw, hreload, reduceCtorEq, if_false]
  generalize (s.inhibit.2.removeBySourceFile dir).2.loadDirectory after w .never dir = r
  obtain ⟨outcome, t⟩ := r
  cases outcome with
  | error e => exact ⟨rfl, fun m hok => by cases hok⟩
  | ok count => exact ⟨rfl, fun m hok => rfl⟩

theorem loadDirectory_of_empty (hsources : sourcesIn files dir = []) (s : Store) (w : Watch)
    (cancel : Cancellation) :
    s.loadDirectory files w cancel dir = (.ok 0, s.watch dir w) := by
  unfold loadDirectory
  rw [hsources]
  rfl

theorem loadPath_of_ok (hdir : files.isDirectory dir = true) {m : Nat}
    (hok : (s.inhibit.2.loadDirectory files w .never dir).1 = .ok m) :
    (s.loadPath files w .never dir).2 =
      (s.inhibit.2.loadDirectory files w .never dir).2.attachAddons.2.release s.inhibit.1 := by
  have hcompleted : completed (s.inhibit.2.loadDirectory files w .never dir) =
      (.ok m, (s.inhibit.2.loadDirectory files w .never dir).2.attachAddons.2) := by
    unfold completed
    rw [hok]
  rw [loadPath_of_isDirectory s w rfl hdir]
  simp only [batch, hcompleted]

theorem components_release (s : Store) (guard : Nat) :
    (s.release guard).components = s.components := rfl

theorem components_settle (s : Store) : s.settle.components = s.components := by
  unfold settle
  split <;> rfl

/-- The change of a directory does the same as to load it into a catalog with other keys. -/
theorem sameContents_changed (h : Alike n s t) (hs : s.TokensApart) (ht : t.TokensApart)
    (hr : s.reader.Proper) (hholds : ¬ t.Holds dir) (hpatch : ¬ t.HoldsPatch dir) (hw : t.watches.lookup dir = some w)
    (hdir : after.isDirectory dir = true) {m : Nat}
    (hok : (t.onFileChange after .changed dir).1 = .ok m) :
    SameContents (s.loadPath after w .never dir).2 (t.onFileChange after .changed dir).2 := by
  have hinhibited : Alike n s.inhibit.2 t.inhibit.2 :=
    h.congr s.sameCatalog_inhibit t.sameCatalog_inhibit
  have hstripped : Alike n s.inhibit.2 (t.inhibit.2.removeBySourceFile dir).2 :=
    ⟨hinhibited.shifted.trans (shifted_removeBySourceFile hholds hpatch),
      hinhibited.left, hinhibited.right.removeBySourceFile dir⟩
  obtain ⟨hloaded, hchanged⟩ := onFileChange_changed hw hdir
  obtain ⟨hresult, halike⟩ := hstripped.loadDirectory hr after w .never dir
  rw [hloaded, hresult] at hok
  rw [hchanged m (hloaded.trans (hresult.trans hok)), loadPath_of_ok hdir hok]
  constructor
  · rw [components_settle, components_release, components_release]
    have htaken : Moves (fun _ => False) t (t.inhibit.2.removeBySourceFile dir).2 :=
      t.moves_inhibit.trans (moves_removeBySourceFile _ dir)
    have hstays := ht.moves htaken
    have hfirst : s.inhibit.2.TokensApart := hs
    exact halike.components_attachAddons (hfirst.course (course_loadDirectory _ after w .never dir))
      (hstays.course (course_loadDirectory _ after w .never dir))
  · intro id
    rw [(sameCatalog_settle _).patchesFor, (sameCatalog_release _ _).patchesFor,
      (sameCatalog_release _ _).patchesFor]
    have hattached := halike.congr (sameCatalog_attachAddons _) (sameCatalog_attachAddons _)
    exact hattached.shifted.patches id

/-- A directory without sources adds nothing. -/
theorem sameCatalog_loadPath_of_empty (hdir : files.isDirectory dir = true)
    (hsources : sourcesIn files dir = []) (s : Store) (w : Watch) :
    SameCatalog s (s.loadPath files w .never dir).2 := by
  have hloaded := loadDirectory_of_empty hsources s.inhibit.2 w .never
  rw [loadPath_of_ok hdir (congrArg (·.1) hloaded), hloaded]
  have hwatched : SameCatalog s (s.inhibit.2.watch dir w) :=
    s.sameCatalog_inhibit.trans (sameCatalog_watch _ dir w)
  exact (hwatched.trans (sameCatalog_attachAddons _)).trans (sameCatalog_release _ _)

theorem Gathers.all_named_iff {names : String → Prop} (h : Gathers names s t) :
    (∀ name, t.Holds name → names name) ↔ ∀ name, s.Holds name → names name := by
  constructor
  · intro hall name hname
    exact hall name (h.kept name hname)
  · intro hall name hname
    exact (h.come name hname).elim (hall name) id

theorem SameContents.holds_iff (h : SameContents s t) : t.Holds name ↔ s.Holds name := by
  unfold Holds
  rw [h.components]

theorem components_eq_nil_iff : s.components = [] ↔ s.entries = [] := by
  unfold components entries
  rw [List.map_eq_nil_iff, List.map_eq_nil_iff]

/-- All contents stay when the files of the directory are gone. -/
theorem SourcedFrom.changed_without_files (h : SourcedFrom s before dir w) (hs : s.WellIndexed)
    (hapart : s.TokensApart) (hr : s.reader.Proper) :
    (s.onFileChange before.directories .changed dir).1 = .ok 0 ∧
    ((s.onFileChange before.directories .changed dir).2.components = [] ↔ s.components = []) ∧
    ∀ id, (s.onFileChange before.directories .changed dir).2.patchesFor id = s.patchesFor id := by
  have hdir : before.directories.isDirectory dir = true :=
    FileTree.isDirectory_directories h.directory
  have hsources := FileTree.sourcesIn_directories before dir
  have hok : (s.onFileChange before.directories .changed dir).1 = .ok 0 := by
    rw [(onFileChange_changed h.watched hdir).1, loadDirectory_of_empty hsources]
  have hsame := sameContents_changed (Alike.refl hs) hapart hapart hr h.not_holds h.not_holdsPatch
    h.watched hdir hok
  have hleft := sameCatalog_loadPath_of_empty hdir hsources s w
  refine ⟨hok, ?_, ?_⟩
  · rw [hsame.components, components_eq_nil_iff, components_eq_nil_iff, hleft.entries]
  · intro id
    rw [hsame.patches, hleft.patchesFor]

/-- The change of a directory loads it over all that was there: the files behind the components are
files of the directory exactly where those of the old ones are still. The contents come to those of
a first load, whatever the directory has by then, exactly where there were none. -/
theorem changed_directory_iff {settings : Settings} {reader : Reader} (hr : reader.Marked)
    (hs : Reachable settings reader s) (hfrom : SourcedFrom s before dir w) :
    (∀ (after : FileTree) (m : Nat), after.isDirectory dir = true →
      (s.onFileChange after .changed dir).1 = .ok m →
      SameContents (s.loadPath after w .never dir).2 (s.onFileChange after .changed dir).2 ∧
      ((∀ name, (s.onFileChange after .changed dir).2.Holds name → name ∈ sourcesIn after dir) ↔
        ∀ name, s.Holds name → name ∈ sourcesIn after dir)) ∧
    ((∀ (after : FileTree) (m : Nat), after.isDirectory dir = true →
      (s.onFileChange after .changed dir).1 = .ok m →
      SameContents ((new settings reader).loadPath after w .never dir).2
        (s.onFileChange after .changed dir).2) ↔
      s.components = [] ∧ ∀ id, s.patchesFor id = []) := by
  have hindexed : s.WellIndexed := hs.wellIndexed hr.proper
  have hapart : s.TokensApart := hs.tokensApart
  have hreader : s.reader = reader := hs.reader_eq hr.proper
  have hmarked : s.reader.Marked := hreader ▸ hr
  refine ⟨?_, ?_, ?_⟩
  · intro after m hdir hok
    have hsame := sameContents_changed (Alike.refl hindexed) hapart hapart hmarked.proper
      hfrom.not_holds hfrom.not_holdsPatch hfrom.watched hdir hok
    have hgathers : Gathers (· ∈ sourcesIn after dir) s (s.loadPath after w .never dir).2 :=
      .loadPath hindexed hmarked hdir
    refine ⟨hsame, ?_⟩
    simp only [hsame.holds_iff]
    exact hgathers.all_named_iff
  · -- when all files of the directory are gone, a first load finds nothing
    intro hfresh
    have hdir : before.directories.isDirectory dir = true :=
      FileTree.isDirectory_directories hfrom.directory
    have hempty := sameCatalog_loadPath_of_empty hdir (FileTree.sourcesIn_directories before dir)
      (new settings reader) w
    obtain ⟨hok, hcomponents, hpatches⟩ := hfrom.changed_without_files hindexed hapart hmarked.proper
    have hgone := hfresh before.directories 0 hdir hok
    constructor
    · rw [← hcomponents, hgone.components, components_eq_nil_iff]
      exact hempty.entries
    · intro id
      rw [← hpatches, hgone.patches, hempty.patchesFor]
      rfl
  · rintro ⟨hcomponents, hpatches⟩ after m hdir hok
    have hshifted : Shifted s.nextKey (new settings reader) s :=
      shifted_of_empty settings reader (hs.settings_eq hr.proper) hreader
        (components_eq_nil_iff.1 hcomponents) hpatches
    exact sameContents_changed ⟨hshifted, wellIndexed_new settings reader, hindexed⟩
      (tokensApart_new settings reader) hapart hr.proper
      hfrom.not_holds hfrom.not_holdsPatch hfrom.watched hdir hok

/-- A directory that changes while its file stays. -/
theorem oneFile_read_again :
    SameContents ((catalogOf "d").loadPath oneFile ⟨.unset, none⟩ .never "d").2
      ((catalogOf "d").onFileChange oneFile .changed "d").2 ∧
    ∀ name, ((catalogOf "d").onFileChange oneFile .changed "d").2.Holds name →
      name ∈ sourcesIn oneFile "d" := by
  have hdir : oneFile.isDirectory "d" = true := by decide +kernel
  have hfrom : SourcedFrom (catalogOf "d") oneFile "d" ⟨.unset, none⟩ :=
    sourcedFrom_loadPath _ Reader.marked_any _ rfl hdir
  have hok : ((catalogOf "d").onFileChange oneFile .changed "d").1 = .ok 1 := by decide +kernel
  obtain ⟨hchanges, -⟩ := changed_directory_iff Reader.marked_any (catalogOf_reachable "d") hfrom
  obtain ⟨hsame, hsources⟩ := hchanges oneFile 1 hdir hok
  exact ⟨hsame, hsources.2 hfrom.stored⟩

/-- When the only file of a directory is gone and the directory changes, its component stays. -/
theorem contents_left :
    ((catalogOf "d").onFileChange oneFile.directories .changed "d").1 = .ok 0 ∧
    ((catalogOf "d").onFileChange oneFile.directories .changed "d").2.Holds "d/a.xml" ∧
    "d/a.xml" ∉ sourcesIn oneFile.directories "d" ∧
    ¬ SameContents ((new ⟨{}, {}, ⟨["en"], 4, true, 3⟩⟩ Reader.any).loadPath oneFile.directories
      ⟨.unset, none⟩ .never "d").2
      ((catalogOf "d").onFileChange oneFile.directories .changed "d").2 := by
  have hformats : ((catalogOf "d").onFileChange oneFile.directories .changed
      "d").2.formatLists = [[⟨.metaInfo, some "d/a.xml"⟩]] := by decide +kernel
  have hnone : ((new ⟨{}, {}, ⟨["en"], 4, true, 3⟩⟩ Reader.any).loadPath oneFile.directories
      ⟨.unset, none⟩ .never "d").2.components = [] := by decide +kernel
  have hholds : ((catalogOf "d").onFileChange oneFile.directories .changed
      "d").2.Holds "d/a.xml" := by
    rw [holds_iff_formatLists, hformats]
    exact ⟨_, List.mem_singleton_self _, _, List.mem_singleton_self _, rfl⟩
  refine ⟨by decide +kernel, hholds, by decide +kernel, ?_⟩
  intro hsame
  obtain ⟨c, hc, -⟩ := hsame.holds_iff.1 hholds
  rw [hnone] at hc
  cases hc

end SoftwareCatalog.Store
