import SoftwareCatalog.Proofs.Store.Move

namespace SoftwareCatalog

namespace Store

open Relation

/-- A component together with the catalog that it comes to. -/
abbrev Addition := Store × Component

/-- From one catalog to another one, with the additions on the way in their order. -/
inductive Course (s : Store) : List Addition → Store → Prop
  | refl : Course s [] s
  | move {adds : List Addition} {t u : Store} (h : Course s adds t)
    (k : Move (fun _ => False) t u) : Course s adds u
  | add {adds : List Addition} {t : Store} (h : Course s adds t) (c : Component) :
    Course s (adds ++ [(t, c)]) (t.add c)

variable {p : Component → Prop} {s t u : Store} {adds more : List Addition}

theorem Course.trans (h : Course s adds t) (k : Course t more u) : Course s (adds ++ more) u := by
  induction k with
  | refl =>
    rw [List.append_nil]
    exact h
  | move _ k ih => exact ih.move k
  | add _ c ih =>
    rw [← List.append_assoc]
    exact ih.add c

theorem Moves.course (h : Moves (fun _ => False) s t) : Course s [] t := by
  induction h with
  | refl => exact .refl
  | tail _ k ih => exact ih.move k

/-- A course between moves that bring nothing in. -/
theorem Course.between {a b : Store} (ha : Moves (fun _ => False) s a) (h : Course a adds b)
    (hb : Moves (fun _ => False) b t) : Course s adds t := by
  have hall := (ha.course.trans h).trans hb.course
  rw [List.nil_append, List.append_nil] at hall
  exact hall

theorem Move.mono (h : Move (fun _ => False) s t) : Move p s t := by
  cases h with
  | aside => exact .aside
  | inhibit => exact .inhibit
  | release guard => exact .release guard
  | add hno => exact hno.elim
  | remove key => exact .remove key
  | strip filename count key => exact .strip filename count key
  | forget keep => exact .forget keep
  | attachAddons => exact .attachAddons
  | buildTokens => exact .buildTokens
  | queryMetadata key value => exact .queryMetadata key value

theorem Course.moves (h : Course s adds t) (hp : ∀ a ∈ adds, p a.2) : Moves p s t := by
  induction h with
  | refl => exact .refl
  | move _ k ih => exact (ih hp).tail k.mono
  | @add adds t _ c ih =>
    have hbefore := ih fun a ha => hp a (List.mem_append_left _ ha)
    exact hbefore.tail (.add (hp (t, c) (List.mem_append_right _ List.mem_cons_self)))

/-- Keys are given out in order and never again. -/
theorem Course.nextKey_le (h : Course s adds t) : s.nextKey ≤ t.nextKey := by
  induction h with
  | refl => exact Nat.le_refl _
  | move _ k ih => exact (Moves.edits (.single k)).nextKey ▸ ih
  | @add adds t _ c ih => exact Nat.le_trans ih (t.nextKey_le_add c)

theorem Course.setup (h : Course s adds t) : SameSetup s t := by
  have hmoves : Moves (fun _ => True) s t := h.moves fun _ _ => trivial
  exact hmoves.setup

/-- What components come to that are added one by one. -/
def additions : Store → List Component → List Addition
  | _, [] => []
  | s, c :: cs => (s, c) :: additions (s.add c) cs

theorem course_adds (s : Store) (cs : List Component) :
    Course s (s.additions cs) (cs.foldl add s) := by
  induction cs generalizing s with
  | nil => exact .refl
  | cons c cs ih =>
    have hfirst : Course s [(s, c)] (s.add c) := Course.add .refl c
    exact hfirst.trans (ih (s.add c))

theorem all_additions {cs : List Component} (h : ∀ c ∈ cs, p c) (s : Store) :
    ∀ a ∈ s.additions cs, p a.2 := by
  induction cs generalizing s with
  | nil => simp [additions]
  | cons c cs ih =>
    intro a ha
    rcases List.mem_cons.1 ha with rfl | ha
    · exact h c List.mem_cons_self
    · exact ih (fun d hd => h d (List.mem_cons_of_mem c hd)) _ a ha

theorem steps_adds {cs : List Component} (h : ∀ c ∈ cs, c.Proper) (s : Store) :
    Steps s (cs.foldl add s) :=
  Moves.steps ((s.course_adds cs).moves (all_additions h s))

/-- A course under a guard. -/
theorem Course.batch {α : Type} {f : Store → α × Store}
    (h : Course s.inhibit.2 adds (f s.inhibit.2).2) : Course s adds (s.batch f).2 :=
  .between s.moves_inhibit h (moves_release _ _)

theorem course_addMany (s : Store) (cs : List Component) :
    Course s (s.inhibit.2.additions cs) (s.addMany cs) :=
  Course.batch (f := fun s => ((), cs.foldl add s)) (course_adds _ cs)

/-- The components of a source as they are added. -/
def admitted (s : Store) (cs : List Component) : List Component :=
  if s.settings.load.onlyNativeLanguages then
    cs.map (Component.retainLocales s.settings.isNativeLocale)
  else cs

theorem mem_admitted {s : Store} {cs : List Component} {c : Component} (h : c ∈ s.admitted cs) :
    ∃ d ∈ cs, c.id = d.id ∧ c.formats = d.formats ∧ c.mergeKind = d.mergeKind := by
  unfold admitted at h
  split at h
  · obtain ⟨d, hd, rfl⟩ := List.mem_map.1 h
    exact ⟨d, hd, rfl, rfl, rfl⟩
  · exact ⟨c, h, rfl, rfl, rfl⟩

theorem all_admitted (hp : Component.Untranslated p) {cs : List Component} (h : ∀ c ∈ cs, p c) :
    ∀ c ∈ s.admitted cs, p c := by
  unfold admitted
  split
  · intro c hc
    obtain ⟨d, hd, rfl⟩ := List.mem_map.1 hc
    exact hp _ d (h d hd)
  · exact h

theorem untranslated_proper : Component.Untranslated Component.Proper := fun _ _ h => h

theorem proper_admitted {s : Store} {cs : List Component} (h : ∀ c ∈ cs, c.Proper) :
    ∀ c ∈ s.admitted cs, c.Proper :=
  all_admitted untranslated_proper h

theorem ingest_of_ok {s : Store} {bytes : ByteArray} {source : SourceInfo} {cs : List Component}
    (h : s.reader bytes source = .ok cs) :
    s.ingest bytes source = (.ok (s.admitted cs).length, s.addMany (s.admitted cs)) := by
  unfold ingest
  rw [h]
  rfl

theorem ingest_of_error {s : Store} {bytes : ByteArray} {source : SourceInfo} {e : SourceError}
    (h : s.reader bytes source = .error e) : s.ingest bytes source = (.error e, s) := by
  unfold ingest
  rw [h]

theorem loadBytes_of_ok {s : Store} {bytes : ByteArray} {name : String} {w : Watch}
    {cs : List Component}
    (h : s.reader bytes { filename := some name, scope := w.scope, arch := w.arch } = .ok cs) :
    s.loadBytes bytes name w = (.ok (s.admitted cs).length,
      (s.inhibit.2.addMany (s.admitted cs)).attachAddons.2.release s.inhibit.1) := by
  have hread : s.inhibit.2.reader bytes
      { filename := some name, scope := w.scope, arch := w.arch } = .ok cs := h
  simp only [loadBytes, batch, loadSource, ingest_of_ok hread, completed, Except.mapError]
  rfl

theorem loadBytes_of_error {s : Store} {bytes : ByteArray} {name : String} {w : Watch}
    {e : SourceError}
    (h : s.reader bytes { filename := some name, scope := w.scope, arch := w.arch } = .error e) :
    s.loadBytes bytes name w = (.error (.source name e), s.inhibit.2.release s.inhibit.1) := by
  have hread : s.inhibit.2.reader bytes
      { filename := some name, scope := w.scope, arch := w.arch } = .error e := h
  simp only [loadBytes, batch, loadSource, ingest_of_error hread, completed, Except.mapError]

/-- What the components of a source come to. -/
def sourceAdditions (s : Store) (bytes : ByteArray) (source : SourceInfo) : List Addition :=
  match s.reader bytes source with
  | .error _ => []
  | .ok cs => s.inhibit.2.additions (s.admitted cs)

def fileAdditions (s : Store) (files : FileTree) (w : Watch) (path : String) : List Addition :=
  match files.read path with
  | .error _ => []
  | .ok bytes => s.sourceAdditions bytes { filename := some path, scope := w.scope, arch := w.arch }

def filesAdditions (files : FileTree) (w : Watch) (cancel : Cancellation) :
    Nat → Store → List String → List Addition
  | _, _, [] => []
  | done, s, path :: paths =>
    if cancel done then []
    else s.fileAdditions files w path ++
      match s.loadWatched files w path with
      | (.error _, _) => []
      | (.ok _, s) => filesAdditions files w cancel (done + 1) s paths

def directoryAdditions (s : Store) (files : FileTree) (w : Watch) (cancel : Cancellation)
    (dir : String) : List Addition :=
  filesAdditions files w cancel 0 (s.watch dir w) (sourcesIn files dir)

def pathAdditions (s : Store) (files : FileTree) (w : Watch) (cancel : Cancellation)
    (path : String) : List Addition :=
  if cancel 0 then []
  else if files.isDirectory path then s.inhibit.2.directoryAdditions files w cancel path
  else s.inhibit.2.fileAdditions files w path

def directoriesAdditions (files : FileTree) (w : Watch) (cancelled : Bool) :
    Store → List String → List Addition
  | _, [] => []
  | s, dir :: dirs =>
    s.pathAdditions files w (fun _ => cancelled) dir ++
      match s.loadPath files w (fun _ => cancelled) dir with
      | (.error _, _) => []
      | (.ok _, s) => directoriesAdditions files w cancelled s dirs

def reloadAdditions (s : Store) (files : FileTree) (w : Watch) (path : String) : List Addition :=
  if files.isDirectory path then s.directoryAdditions files w .never path
  else if isLoadable path then s.fileAdditions files w path
  else []

def changeAdditions (s : Store) (files : FileTree) (change : FileChange) (path : String) :
    List Addition :=
  match s.watches.lookup path with
  | none => []
  | some w =>
    if change = .removed then []
    else (s.inhibit.2.removeBySourceFile path).2.reloadAdditions files w path

theorem course_ingest (s : Store) (bytes : ByteArray) (source : SourceInfo) :
    Course s (s.sourceAdditions bytes source) (s.ingest bytes source).2 := by
  unfold sourceAdditions
  cases hread : s.reader bytes source with
  | error e =>
    rw [ingest_of_error hread]
    exact .refl
  | ok cs =>
    rw [ingest_of_ok hread]
    exact s.course_addMany _

theorem Course.completed {r : Outcome × Store} (h : Course s adds r.2) :
    Course s adds (completed r).2 := by
  unfold Store.completed
  split
  · exact h.move .attachAddons
  · exact h

theorem course_loadBytes (s : Store) (bytes : ByteArray) (name : String) (w : Watch) :
    Course s (s.inhibit.2.sourceAdditions bytes
      { filename := some name, scope := w.scope, arch := w.arch }) (s.loadBytes bytes name w).2 :=
  Course.batch (Course.completed (course_ingest _ _ _))

theorem course_loadWatched (s : Store) (files : FileTree) (w : Watch) (path : String) :
    Course s (s.fileAdditions files w path) (s.loadWatched files w path).2 := by
  have hfile : Course s (s.fileAdditions files w path) (s.loadFile files w path).2 := by
    unfold fileAdditions loadFile
    cases files.read path with
    | error e => exact .refl
    | ok bytes =>
      simp only
      split <;> exact s.course_ingest _ _
  unfold loadWatched
  split
  · rename_i n t heq
    rw [heq] at hfile
    exact hfile.move .aside
  · exact hfile

theorem course_loadEach (files : FileTree) (w : Watch) (cancel : Cancellation)
    (paths : List String) (s : Store) (done : Nat) :
    Course s (filesAdditions files w cancel done s paths)
      (loadEach files w cancel done s paths).2 := by
  induction paths generalizing s done with
  | nil => exact .refl
  | cons path paths ih =>
    have hfirst := s.course_loadWatched files w path
    unfold filesAdditions loadEach
    split
    · exact .refl
    · generalize s.loadWatched files w path = r at hfirst
      obtain ⟨outcome, t⟩ := r
      cases outcome with
      | error e =>
        rw [List.append_nil]
        exact hfirst
      | ok n => exact hfirst.trans (ih t (done + 1))

theorem course_loadDirectory (s : Store) (files : FileTree) (w : Watch) (cancel : Cancellation)
    (dir : String) : Course s (s.directoryAdditions files w cancel dir)
      (s.loadDirectory files w cancel dir).2 :=
  .between (s.moves_watch dir w) (course_loadEach files w cancel _ _ 0) .refl

theorem course_loadPath (s : Store) (files : FileTree) (w : Watch) (cancel : Cancellation)
    (path : String) : Course s (s.pathAdditions files w cancel path)
      (s.loadPath files w cancel path).2 := by
  unfold pathAdditions loadPath
  split
  · exact .refl
  · apply Course.batch
    apply Course.completed
    split
    · exact course_loadDirectory _ files w cancel path
    · exact course_loadWatched _ files w path

theorem course_loadAll (files : FileTree) (w : Watch) (cancelled : Bool) (dirs : List String)
    (s : Store) : Course s (directoriesAdditions files w cancelled s dirs)
      (loadAll files w cancelled s dirs).2 := by
  induction dirs generalizing s with
  | nil => exact .refl
  | cons dir dirs ih =>
    have hfirst := s.course_loadPath files w (fun _ => cancelled) dir
    unfold directoriesAdditions loadAll
    generalize s.loadPath files w (fun _ => cancelled) dir = r at hfirst
    obtain ⟨outcome, t⟩ := r
    cases outcome with
    | error e =>
      rw [List.append_nil]
      exact hfirst
    | ok n => exact hfirst.trans (ih t)

theorem course_loadUserLocations (s : Store) (files : FileTree) (cancelled : Bool)
    (dataHome home : Option String) :
    Course s (directoriesAdditions files ⟨.user, none⟩ cancelled s.inhibit.2
      ((Locations.user dataHome home).filter files.isDirectory))
      (s.loadUserLocations files cancelled dataHome home).2 :=
  Course.batch (course_loadAll files _ cancelled _ _)

theorem course_reload {files : FileTree} {w : Watch} {path : String} {r : Outcome × Store}
    (h : s.reload files w path = some r) : Course s (s.reloadAdditions files w path) r.2 := by
  unfold reload at h
  unfold reloadAdditions
  split at h
  · rename_i hdirectory
    rw [if_pos hdirectory, ← Option.some.inj h]
    exact s.course_loadDirectory files w _ path
  · rename_i hdirectory
    rw [if_neg hdirectory]
    split at h
    · rename_i hloadable
      rw [if_pos hloadable, ← Option.some.inj h]
      exact s.course_loadWatched files w path
    · cases h

theorem reloadAdditions_of_none {files : FileTree} {w : Watch} {path : String}
    (h : s.reload files w path = none) : s.reloadAdditions files w path = [] := by
  unfold reload at h
  unfold reloadAdditions
  split at h
  · cases h
  · rename_i hdirectory
    rw [if_neg hdirectory]
    split at h
    · cases h
    · rename_i hloadable
      rw [if_neg hloadable]

theorem course_onFileChange (s : Store) (files : FileTree) (change : FileChange) (path : String) :
    Course s (s.changeAdditions files change path) (s.onFileChange files change path).2 := by
  unfold changeAdditions onFileChange
  cases s.watches.lookup path with
  | none => exact .refl
  | some w =>
    have htaken : Moves (fun _ => False) s (s.inhibit.2.removeBySourceFile path).2 :=
      s.moves_inhibit.trans (moves_removeBySourceFile _ path)
    have hfinish (guard : Nat) (t : Store) :
        Moves (fun _ => False) t ((t.attachAddons.2.release guard).settle) :=
      ((ReflTransGen.single .attachAddons).trans (moves_release _ guard)).trans (moves_settle _)
    by_cases hremoved : change = .removed
    · simp only [hremoved, if_true]
      exact Moves.course ((htaken.trans (moves_dropPath _ path)).trans (hfinish _ _))
    · simp only [hremoved, if_false]
      cases hreload : (s.inhibit.2.removeBySourceFile path).2.reload files w path with
      | none =>
        rw [reloadAdditions_of_none hreload]
        exact Moves.course (htaken.trans (moves_release _ _))
      | some r =>
        obtain ⟨outcome, t⟩ := r
        have hreloaded := Course.between htaken (course_reload hreload) .refl
        cases outcome with
        | error e => exact .between .refl hreloaded (moves_release _ _)
        | ok n => exact .between .refl hreloaded (hfinish _ _)

section Brings

variable (hp : Component.Untranslated p)
include hp

theorem all_sourceAdditions (hr : s.reader.Yields p) (bytes : ByteArray) (source : SourceInfo) :
    ∀ a ∈ s.sourceAdditions bytes source, p a.2 := by
  unfold sourceAdditions
  cases hread : s.reader bytes source with
  | error e => simp
  | ok cs => exact all_additions (all_admitted hp (hr bytes source cs hread)) _

theorem all_fileAdditions (hr : s.reader.Yields p) (files : FileTree) (w : Watch) (path : String) :
    ∀ a ∈ s.fileAdditions files w path, p a.2 := by
  unfold fileAdditions
  cases files.read path with
  | error e => simp
  | ok bytes => exact all_sourceAdditions hp hr bytes _

theorem all_filesAdditions (files : FileTree) (w : Watch) (cancel : Cancellation)
    (paths : List String) {s : Store} (hr : s.reader.Yields p) (done : Nat) :
    ∀ a ∈ filesAdditions files w cancel done s paths, p a.2 := by
  induction paths generalizing s done with
  | nil => simp [filesAdditions]
  | cons path paths ih =>
    have hsetup := (s.course_loadWatched files w path).setup
    unfold filesAdditions
    split
    · simp
    · intro a ha
      rcases List.mem_append.1 ha with ha | ha
      · exact all_fileAdditions hp hr files w path a ha
      · split at ha
        · cases ha
        · rename_i heq
          rw [heq] at hsetup
          exact ih (hsetup.reader ▸ hr) (done + 1) a ha

theorem all_directoryAdditions (hr : s.reader.Yields p) (files : FileTree) (w : Watch)
    (cancel : Cancellation) (dir : String) :
    ∀ a ∈ s.directoryAdditions files w cancel dir, p a.2 := by
  have hreader : (s.watch dir w).reader.Yields p := hr
  exact all_filesAdditions hp files w cancel _ hreader 0

theorem all_pathAdditions (hr : s.reader.Yields p) (files : FileTree) (w : Watch)
    (cancel : Cancellation) (path : String) : ∀ a ∈ s.pathAdditions files w cancel path, p a.2 := by
  have hreader : s.inhibit.2.reader.Yields p := hr
  unfold pathAdditions
  split
  · simp
  · split
    · exact all_directoryAdditions hp hreader files w cancel path
    · exact all_fileAdditions hp hreader files w path

theorem all_directoriesAdditions (files : FileTree) (w : Watch) (cancelled : Bool)
    (dirs : List String) {s : Store} (hr : s.reader.Yields p) :
    ∀ a ∈ directoriesAdditions files w cancelled s dirs, p a.2 := by
  induction dirs generalizing s with
  | nil => simp [directoriesAdditions]
  | cons dir dirs ih =>
    have hsetup := (s.course_loadPath files w (fun _ => cancelled) dir).setup
    unfold directoriesAdditions
    intro a ha
    rcases List.mem_append.1 ha with ha | ha
    · exact all_pathAdditions hp hr files w _ dir a ha
    · split at ha
      · cases ha
      · rename_i heq
        rw [heq] at hsetup
        exact ih (hsetup.reader ▸ hr) a ha

theorem all_changeAdditions (hr : s.reader.Yields p) (files : FileTree) (change : FileChange)
    (path : String) : ∀ a ∈ s.changeAdditions files change path, p a.2 := by
  have hremove : Moves (fun _ => False) s (s.inhibit.2.removeBySourceFile path).2 :=
    s.moves_inhibit.trans (moves_removeBySourceFile _ path)
  have hreader : (s.inhibit.2.removeBySourceFile path).2.reader.Yields p :=
    hremove.setup.reader ▸ hr
  unfold changeAdditions
  split
  · simp
  · rename_i w _
    split
    · simp
    · unfold reloadAdditions
      split
      · exact all_directoryAdditions hp hreader files w _ path
      · split
        · exact all_fileAdditions hp hreader files w path
        · simp

end Brings

end Store

end SoftwareCatalog
