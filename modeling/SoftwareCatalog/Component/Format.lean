import SoftwareCatalog.Component.Word
import SoftwareCatalog.Text.Fields

namespace SoftwareCatalog

/-- The dialect of a source. -/
inductive FormatKind where
  | unset | appStream | appData | metaInfo | desktop
deriving DecidableEq, Repr, Inhabited

namespace FormatKind

def name : FormatKind → String
  | .unset => "unknown"
  | .appStream => "appstream"
  | .appData => "appdata"
  | .metaInfo => "metainfo"
  | .desktop => "desktop"

def ofName? : String → Option FormatKind
  | "appstream" => some .appStream
  | "appdata" => some .appData
  | "metainfo" => some .metaInfo
  | "desktop" => some .desktop
  | _ => none

instance : Word FormatKind := ⟨name, ofName?⟩

theorem ofName?_name {k : FormatKind} (h : k ≠ .unset) : ofName? k.name = some k := by
  cases k <;> simp_all [name, ofName?]

end FormatKind

namespace FormatKind

/-- The endings of source names; the first that fits decides. -/
def endings : List (String × FormatKind) := [
  (".appdata.xml", .appData), (".appdata.xml.in", .appData),
  (".metainfo.xml", .metaInfo), (".metainfo.xml.in", .metaInfo),
  (".desktop", .desktop), (".desktop.in", .desktop),
  (".xml.gz", .appStream), (".yml", .appStream), (".yml.gz", .appStream), (".yaml", .appStream),
  (".xml", .appStream)]

def ofFilename (filename : String) : FormatKind :=
  ((endings.find? fun e => Text.endsWith filename e.1).map (·.2)).getD .unset

/-- Metadata that is installed together with the software. -/
def isLocal : FormatKind → Bool
  | .appData | .metaInfo | .desktop => true
  | _ => false

def isLocalMetadata : FormatKind → Bool
  | .appData | .metaInfo => true
  | _ => false

/-- A catalog of software that can be installed. -/
def isRemote : FormatKind → Bool
  | .appStream => true
  | _ => false

end FormatKind

/-- A source that contributed to a component. -/
@[ext] structure Format where
  kind : FormatKind
  filename : Option String
deriving DecidableEq, Repr

namespace Format

def ofKind (kind : FormatKind) : Format := ⟨kind, none⟩

/-- Names the file; the kind is guessed from the name where it is unset. -/
def withFilename (f : Format) (filename : String) : Format where
  kind := if f.kind = .unset then FormatKind.ofFilename filename else f.kind
  filename := some filename

def ofFilename (filename : String) : Format := (ofKind .unset).withFilename filename

end Format

end SoftwareCatalog
