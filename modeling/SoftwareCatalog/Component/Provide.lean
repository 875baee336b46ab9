import SoftwareCatalog.Component.Word

namespace SoftwareCatalog

/-- What sort of item a component provides. -/
inductive ProvideKind where
  | unset | library | binary | font | modalias | firmwareRuntime | firmwareFlashed | python2
  | python3 | dbusSession | dbusSystem | id | mediaType
deriving DecidableEq, Repr, Inhabited

namespace ProvideKind

def name : ProvideKind → String
  | .unset => "unknown"
  | .library => "library"
  | .binary => "binary"
  | .font => "font"
  | .modalias => "modalias"
  | .firmwareRuntime => "firmware-runtime"
  | .firmwareFlashed => "firmware-flashed"
  | .python2 => "python2"
  | .python3 => "python3"
  | .dbusSession => "dbus-session"
  | .dbusSystem => "dbus-system"
  | .id => "id"
  | .mediaType => "mediatype"

def ofName? : String → Option ProvideKind
  | "library" => some .library
  | "binary" => some .binary
  | "font" => some .font
  | "modalias" => some .modalias
  | "firmware-runtime" => some .firmwareRuntime
  | "firmware-flashed" => some .firmwareFlashed
  | "python2" => some .python2
  | "python3" => some .python3
  | "dbus-session" => some .dbusSession
  | "dbus-system" => some .dbusSystem
  | "id" => some .id
  | "mediatype" | "mimetype" => some .mediaType
  | _ => none

instance : Word ProvideKind := ⟨name, ofName?⟩

theorem ofName?_name {k : ProvideKind} (h : k ≠ .unset) : ofName? k.name = some k := by
  cases k <;> simp_all [name, ofName?]

end ProvideKind

/-- An item that a component provides to the system. -/
@[ext] structure Provide where
  kind : ProvideKind
  value : String
deriving DecidableEq, Repr

end SoftwareCatalog
