import SoftwareCatalog.FileTree
import SoftwareCatalog.Locations
import SoftwareCatalog.Store.Add
import SoftwareCatalog.Store.Remove

namespace SoftwareCatalog

/-- Whether a load is called off after so many sources were read. -/
abbrev Cancellation := Nat → Bool

def Cancellation.never : Cancellation := fun _ => false

/-- What happened to a watched path. -/
inductive FileChange where
  | changed | added | removed
deriving DecidableEq, Repr, Inhabited

namespace FileChange

def name : FileChange → String
  | .changed => "changed"
  | .added => "added"
  | .removed => "removed"

def ofName? : String → Option FileChange
  | "changed" => some .changed
  | "added" => some .added
  | "removed" => some .removed
  | _ => none

instance : Word FileChange := ⟨name, ofName?⟩

theorem ofName?_name (k : FileChange) : ofName? k.name = some k := by cases k <;> rfl

end FileChange

/-- The count of components that an operation handled, or why it failed. -/
abbrev Outcome := Except CatalogError Nat

/-- The endings of the files that a directory is searched for. -/
def sourceEndings : List String := [".xml", ".yml", ".yaml", ".desktop"]

def isLoadable (path : String) : Bool :=
  (Path.fileName path).any fun name => sourceEndings.any (Text.endsWith name)

/-- Directories of launchers are read with their subdirectories. -/
def searchDepth (dir : String) : Nat := if Path.fileName dir = some "applications" then 2 else 1

/-- The sources in a directory. -/
def sourcesIn (files : FileTree) (dir : String) : List String :=
  (files.walk (searchDepth dir) dir).filter fun path => files.isFile path && isLoadable path

namespace Store

/-- Reads a source and adds its components. -/
def ingest (s : Store) (bytes : ByteArray) (source : SourceInfo) : Except SourceError Nat × Store :=
  match s.reader bytes source with
  | .error e => (.error e, s)
  | .ok cs =>
    let cs :=
      if s.settings.load.onlyNativeLanguages then
        cs.map (Component.retainLocales s.settings.isNativeLocale)
      else cs
    (.ok cs.length, s.addMany cs)

/-- Loads a source that has a name, and tells that name if it cannot be read. -/
def loadSource (s : Store) (bytes : ByteArray) (name : String) (w : Watch) : Outcome × Store :=
  let r := s.ingest bytes { filename := some name, scope := w.scope, arch := w.arch }
  (r.1.mapError (.source name), r.2)

/-- Attaches the addons after a load that succeeded. -/
def completed (r : Outcome × Store) : Outcome × Store :=
  match r.1 with
  | .ok _ => (r.1, r.2.attachAddons.2)
  | .error _ => r

/-- Loads a source from memory. -/
def loadBytes (s : Store) (bytes : ByteArray) (name : String) (w : Watch) : Outcome × Store :=
  s.batch fun s => completed (s.loadSource bytes name w)

/-- Loads a file. Where the settings say so, one that cannot be parsed counts nothing. -/
def loadFile (s : Store) (files : FileTree) (w : Watch) (path : String) : Outcome × Store :=
  match files.read path with
  | .error e => (.error (.unreadable path e), s)
  | .ok bytes =>
    let r := s.loadSource bytes path w
    if s.settings.load.ignoreInvalid then (.ok (r.1.toOption.getD 0), r.2) else r

def watch (s : Store) (path : String) (w : Watch) : Store :=
  { s with watches := s.watches.insert path w }

def unwatch (s : Store) (path : String) : Store := { s with watches := s.watches.erase path }

/-- Loads a file and watches it. -/
def loadWatched (s : Store) (files : FileTree) (w : Watch) (path : String) : Outcome × Store :=
  match s.loadFile files w path with
  | (.ok n, s) => (.ok n, s.watch path w)
  | r => r

/-- Loads files until one fails or the load is called off; `done` files were read before. -/
def loadEach (files : FileTree) (w : Watch) (cancel : Cancellation) :
    Nat → Store → List String → Outcome × Store
  | _, s, [] => (.ok 0, s)
  | done, s, path :: paths =>
    if cancel done then (.error .cancelled, s)
    else
      match s.loadWatched files w path with
      | (.error e, s) => (.error e, s)
      | (.ok n, s) =>
        let r := loadEach files w cancel (done + 1) s paths
        (r.1.map (n + ·), r.2)

/-- Watches a directory and loads the sources in it. -/
def loadDirectory (s : Store) (files : FileTree) (w : Watch) (cancel : Cancellation) (dir : String) :
    Outcome × Store :=
  loadEach files w cancel 0 (s.watch dir w) (sourcesIn files dir)

/-- Loads a file or a directory. What was added before a failure stays. -/
def loadPath (s : Store) (files : FileTree) (w : Watch) (cancel : Cancellation) (path : String) :
    Outcome × Store :=
  if cancel 0 then (.error .cancelled, s)
  else
    s.batch fun s => completed <|
      if files.isDirectory path then s.loadDirectory files w cancel path
      else s.loadWatched files w path

/-- Loads directories until one fails. -/
def loadAll (files : FileTree) (w : Watch) (cancelled : Bool) : Store → List String → Outcome × Store
  | s, [] => (.ok 0, s)
  | s, dir :: dirs =>
    match s.loadPath files w (fun _ => cancelled) dir with
    | (.error e, s) => (.error e, s)
    | (.ok n, s) =>
      let r := loadAll files w cancelled s dirs
      (r.1.map (n + ·), r.2)

/-- Loads the directories of a user that exist. -/
def loadUserLocations (s : Store) (files : FileTree) (cancelled : Bool)
    (dataHome home : Option String) : Outcome × Store :=
  s.batch fun s =>
    loadAll files ⟨.user, none⟩ cancelled s
      ((Locations.user dataHome home).filter files.isDirectory)

/-- Takes back a path that is gone, and with a directory all watched paths in it. -/
def dropPath (s : Store) (path : String) : Nat × Store :=
  let nested := s.watches.paths.filter fun p => Path.isWithin path p && !Path.same path p
  let r := nested.foldl (fun (r : Nat × Store) p =>
    let q := r.2.removeBySourceFile p
    (r.1 + q.1, q.2.unwatch p)) (0, s)
  (r.1, r.2.unwatch path)

/-- Reads a changed path again. A file that is no source has no outcome. -/
def reload (s : Store) (files : FileTree) (w : Watch) (path : String) : Option (Outcome × Store) :=
  if files.isDirectory path then some (s.loadDirectory files w .never path)
  else if isLoadable path then some (s.loadWatched files w path)
  else none

/-- Follows a change of a watched path: takes back what it contributed and reads it again, as it
was loaded before. A path in a watched directory is taken as one of that directory. -/
def onFileChange (s : Store) (files : FileTree) (change : FileChange) (path : String) :
    Outcome × Store :=
  match s.watches.lookup path with
  | none => (.ok 0, s)
  | some w =>
    let g := s.inhibit
    let r := g.2.removeBySourceFile path
    let next :=
      if change = .removed then
        let d := r.2.dropPath path
        some (.ok (r.1 + d.1), d.2)
      else r.2.reload files w path
    match next with
    | none => (.ok 0, r.2.release g.1)
    | some (.error e, s) => (.error e, s.release g.1)
    | some (.ok n, s) => (.ok n, (s.attachAddons.2.release g.1).settle)

end Store

end SoftwareCatalog
