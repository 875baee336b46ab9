import SoftwareCatalog.Component.Word

namespace SoftwareCatalog

/-- Who a component is installed for. -/
inductive Scope where
  | unset | system | user
deriving DecidableEq, Repr, Inhabited

namespace Scope

def name : Scope → String
  | .unset => "unknown"
  | .system => "system"
  | .user => "user"

def ofName? : String → Option Scope
  | "system" => some .system
  | "user" => some .user
  | _ => none

instance : Word Scope := ⟨name, ofName?⟩

theorem ofName?_name {k : Scope} (h : k ≠ .unset) : ofName? k.name = some k := by
  cases k <;> simp_all [name, ofName?]

end Scope

/-- The packaging that delivers a component. -/
inductive BundleKind where
  | unset | package | flatpak | snap | cabinet | appImage | limba
deriving DecidableEq, Repr, Inhabited

namespace BundleKind

def name : BundleKind → String
  | .unset => "unknown"
  | .package => "package"
  | .flatpak => "flatpak"
  | .snap => "snap"
  | .cabinet => "cabinet"
  | .appImage => "appimage"
  | .limba => "limba"

def ofName? : String → Option BundleKind
  | "package" => some .package
  | "flatpak" => some .flatpak
  | "snap" => some .snap
  | "cabinet" => some .cabinet
  | "appimage" => some .appImage
  | "limba" => some .limba
  | _ => none

instance : Word BundleKind := ⟨name, ofName?⟩

theorem ofName?_name {k : BundleKind} (h : k ≠ .unset) : ofName? k.name = some k := by
  cases k <;> simp_all [name, ofName?]

end BundleKind

/-- What sort of software a component is. -/
inductive ComponentKind where
  | unset | desktop | console | webApp | font | codec | inputMethod | addon | firmware | runtime
  | driver | localization | shellExtension | osUpgrade | generic
deriving DecidableEq, Repr, Inhabited

namespace ComponentKind

def name : ComponentKind → String
  | .unset => "unknown"
  | .desktop => "desktop"
  | .console => "console-application"
  | .webApp => "web-application"
  | .font => "font"
  | .codec => "codec"
  | .inputMethod => "inputmethod"
  | .addon => "addon"
  | .firmware => "firmware"
  | .runtime => "runtime"
  | .driver => "driver"
  | .localization => "localization"
  | .shellExtension => "shell-extension"
  | .osUpgrade => "operating-system"
  | .generic => "generic"

def ofName? : String → Option ComponentKind
  | "desktop" | "desktop-application" | "desktop-app" => some .desktop
  | "console-application" | "console" => some .console
  | "web-application" | "webapp" => some .webApp
  | "font" => some .font
  | "codec" => some .codec
  | "inputmethod" | "input-method" => some .inputMethod
  | "addon" => some .addon
  | "firmware" => some .firmware
  | "runtime" => some .runtime
  | "driver" => some .driver
  | "localization" => some .localization
  | "shell-extension" => some .shellExtension
  | "operating-system" | "os-upgrade" => some .osUpgrade
  | "generic" => some .generic
  | _ => none

instance : Word ComponentKind := ⟨name, ofName?⟩

theorem ofName?_name {k : ComponentKind} (h : k ≠ .unset) : ofName? k.name = some k := by
  cases k <;> simp_all [name, ofName?]

end ComponentKind

/-- Whether a record stands alone or is a patch that adds to or replaces collections of others. -/
inductive MergeKind where
  | standalone | append | replace
deriving DecidableEq, Repr, Inhabited

namespace MergeKind

def name : MergeKind → String
  | .standalone => "none"
  | .append => "append"
  | .replace => "replace"

def ofName? : String → Option MergeKind
  | "none" => some .standalone
  | "append" => some .append
  | "replace" => some .replace
  | _ => none

instance : Word MergeKind := ⟨name, ofName?⟩

theorem ofName?_name (k : MergeKind) : ofName? k.name = some k := by
  cases k <;> rfl

end MergeKind

/-- How far a component is installed. -/
inductive State where
  | unset | available | installed
deriving DecidableEq, Repr, Inhabited

namespace State

def name : State → String
  | .unset => "unknown"
  | .available => "available"
  | .installed => "installed"

end State

def MergeKind.isPatch (k : MergeKind) : Bool := k ≠ .standalone

end SoftwareCatalog
