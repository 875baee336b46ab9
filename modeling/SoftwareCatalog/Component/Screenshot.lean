import SoftwareCatalog.Component.Locale
import SoftwareCatalog.Component.Word

namespace SoftwareCatalog

/-- Whether a screenshot is the one to show first. -/
inductive ScreenshotKind where
  | normal | primary
deriving DecidableEq, Repr, Inhabited

namespace ScreenshotKind

def name : ScreenshotKind → String
  | .normal => "normal"
  | .primary => "default"

def ofName? : String → Option ScreenshotKind
  | "normal" => some .normal
  | "default" => some .primary
  | _ => none

instance : Word ScreenshotKind := ⟨name, ofName?⟩

theorem ofName?_name (k : ScreenshotKind) : ofName? k.name = some k := by
  cases k <;> rfl

end ScreenshotKind

/-- Whether an image has its full size. -/
inductive ImageKind where
  | unset | source | thumbnail
deriving DecidableEq, Repr, Inhabited

namespace ImageKind

def name : ImageKind → String
  | .unset => "unknown"
  | .source => "source"
  | .thumbnail => "thumbnail"

def ofName? : String → Option ImageKind
  | "source" => some .source
  | "thumbnail" => some .thumbnail
  | _ => none

instance : Word ImageKind := ⟨name, ofName?⟩

theorem ofName?_name {k : ImageKind} (h : k ≠ .unset) : ofName? k.name = some k := by
  cases k <;> simp_all [name, ofName?]

end ImageKind

@[ext] structure Image where
  kind : ImageKind
  url : String
  width : Nat
  height : Nat
deriving DecidableEq

@[ext] structure Screenshot where
  kind : ScreenshotKind
  caption : LocaleMap
  images : List Image
  priority : Int
deriving DecidableEq

namespace Screenshot

def sourceImage (s : Screenshot) : Option Image := s.images.find? fun i => i.kind == .source

/-- The priority does not tell screenshots apart. -/
def same (a b : Screenshot) : Bool :=
  a.kind == b.kind && a.caption == b.caption && a.images == b.images

end Screenshot

end SoftwareCatalog
