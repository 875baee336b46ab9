import SoftwareCatalog.Component.Word

namespace SoftwareCatalog

/-- How a component is started. -/
inductive LaunchableKind where
  | unset | desktopId | service | cockpitManifest | url
deriving DecidableEq, Repr, Inhabited

namespace LaunchableKind

def name : LaunchableKind → String
  | .unset => "unknown"
  | .desktopId => "desktop-id"
  | .service => "service"
  | .cockpitManifest => "cockpit-manifest"
  | .url => "url"

def ofName? : String → Option LaunchableKind
  | "desktop-id" => some .desktopId
  | "service" => some .service
  | "cockpit-manifest" => some .cockpitManifest
  | "url" => some .url
  | _ => none

instance : Word LaunchableKind := ⟨name, ofName?⟩

theorem ofName?_name {k : LaunchableKind} (h : k ≠ .unset) : ofName? k.name = some k := by
  cases k <;> simp_all [name, ofName?]

end LaunchableKind

@[ext] structure Launchable where
  kind : LaunchableKind
  value : String
deriving DecidableEq, Repr

end SoftwareCatalog
