import SoftwareCatalog.Source.Info
import SoftwareCatalog.Yaml.Value

namespace SoftwareCatalog.Dep11

open Yaml (Value)

/-- The text at a key, unless it is empty. -/
def text? (v : Value) (key : String) : Option String :=
  ((v.get? key).bind Value.string?).bind Text.nonEmpty?

def size (v : Value) (key : String) : Nat :=
  (((v.get? key).bind Value.nat64?).filter (· < 1 <<< 32)).getD 0

def itemsAt (v : Value) (key : String) : List Value := (v.get? key).toList.flatMap Value.items

def fieldsAt (v : Value) (key : String) : List (String × Value) :=
  (v.get? key).toList.flatMap Value.fields

def texts (vs : List Value) : List String := vs.filterMap Value.string?

def textsAt (v : Value) (key : String) : List String := texts (itemsAt v key)

def word {α : Type} [Word α] [Inhabited α] (v : Value) (key : String) : α := Word.read (text? v key)

/-- Adds the texts at a key by locale. -/
def addTexts (m : LocaleMap) (v : Value) (key : String) : LocaleMap :=
  (fieldsAt v key).foldl (fun m e => e.2.string?.elim m (m.insert e.1)) m

def localized (v : Value) (key : String) : LocaleMap := addTexts .empty v key

def trimmed (m : LocaleMap) : LocaleMap := m.map Text.trim

def priority? (v : Value) : Option Int :=
  ((v.get? "Priority").bind Value.int64?).filter (Text.fitsSigned 32)

/-- What the first document says of all others. -/
structure Header where
  origin : Option String
  mediaBase : Option String
  priority : Option Int
deriving DecidableEq, Repr

def header? (v : Value) : Option Header :=
  if text? v "File" = some "DEP-11" then
    some ⟨text? v "Origin", text? v "MediaBaseUrl", priority? v⟩
  else none

/-- Whether an address names its protocol. -/
def isAbsolute : List Char → Bool
  | [] => false
  | c :: cs => "://".toList.isPrefixOf (c :: cs) || isAbsolute cs

/-- Puts the base in front of an address that names no protocol, with one slash between them. -/
def Header.mediaUrl (h : Header) (url : String) : String :=
  match h.mediaBase with
  | none => url
  | some base =>
    if isAbsolute url.toList then url
    else
      String.ofList (Text.trimEndList (· == '/') base.toList ++ '/' :: url.toList.dropWhile (· == '/'))

def icon? (h : Header) (kind : IconKind) (v : Value) : Option Icon :=
  ((text? v "name").or (text? v "url")).map fun name =>
    { kind, name := some name
      url := if kind = .remote then some (h.mediaUrl name) else none
      width := size v "width", height := size v "height", scale := max (size v "scale") 1 }

/-- The icons of one kind: a stock icon is a name, the others are lists. -/
def icons (h : Header) (kind : String) (v : Value) : List Icon :=
  match kind with
  | "stock" => v.string?.toList.map fun name => ⟨.stock, some name, none, 0, 0, 1⟩
  | "cached" | "remote" | "local" => v.items.filterMap (icon? h (Word.read (some kind)))
  | _ => []

def launchables (kind : String) (v : Value) : List Launchable :=
  (texts v.items).map fun value => ⟨Word.read (some kind), value⟩

def dbusService (v : Value) : Option Provide :=
  (text? v "service").map fun name =>
    ⟨if text? v "type" = some "system" then .dbusSystem else .dbusSession, name⟩

def firmware (v : Value) : Option Provide :=
  ((text? v "guid").or (text? v "file")).map fun value =>
    ⟨if text? v "type" = some "flashed" then .firmwareFlashed else .firmwareRuntime, value⟩

/-- The lists of items that are plain names. -/
def namedProvides : String → Option ProvideKind
  | "mediatypes" | "mimetypes" => some .mediaType
  | "binaries" => some .binary
  | "libraries" => some .library
  | "modaliases" => some .modalias
  | "python2" => some .python2
  | "python3" => some .python3
  | "ids" => some .id
  | _ => none

def provides (kind : String) (v : Value) : List Provide :=
  match namedProvides kind with
  | some k => (texts v.items).map fun value => ⟨k, value⟩
  | none =>
    match kind with
    | "fonts" => (v.items.filterMap (text? · "name")).map fun name => ⟨.font, name⟩
    | "dbus" => v.items.filterMap dbusService
    | "firmware" => v.items.filterMap firmware
    | _ => []

/-- Adds an item; a media type is listed twice. -/
def addProvide (c : Component) (p : Provide) : Component :=
  let c := c.addProvide p
  if p.kind = .mediaType then c.addMimetype p.value else c

def release (v : Value) : Release where
  version := text? v "version"
  kind := word v "type"
  timestamp := ((v.get? "unix-timestamp").bind Value.nat64?).getD 0
  urgency := word v "urgency"
  description := trimmed (localized v "description")
  locations := []

def image? (h : Header) (kind : ImageKind) (v : Value) : Option Image :=
  (text? v "url").map fun url => ⟨kind, h.mediaUrl url, size v "width", size v "height"⟩

def screenshot (h : Header) (v : Value) : Screenshot where
  kind := if ((v.get? "default").bind Value.truth?).getD false then .primary else .normal
  caption := localized v "caption"
  images := ((v.get? "source-image").bind (image? h .source)).toList ++
    (itemsAt v "thumbnails").filterMap (image? h .thumbnail)
  priority := 0

def contentRating (kind : String) (v : Value) : ContentRating where
  kind := kind
  attributes := v.fields.foldl (fun m e => m.insert e.1 (Word.read e.2.string?)) .empty

def bundle? (v : Value) : Option Bundle :=
  (text? v "id").map fun id => ⟨word v "type", id, text? v "runtime", text? v "sdk"⟩

def suggest (v : Value) : Suggest :=
  ⟨((text? v "type").bind SuggestKind.ofName?).getD .project, textsAt v "ids"⟩

def addKeywords (c : Component) (locale : String) (v : Value) : Component :=
  (texts v.items).foldl (fun c word => c.addKeyword (some locale) word) c

/-- The attributes of a component that are single values. -/
def basic (h : Header) (v : Value) (id : String) : Component where
  id := some id
  kind := word v "Type"
  origin := h.origin
  priority := ((priority? v).or h.priority).getD 0
  mergeKind := word v "Merge"
  pkgnames := (text? v "Package").toList
  sourcePkgname := text? v "SourcePackage"
  projectLicense := text? v "ProjectLicense"
  projectGroup := text? v "ProjectGroup"
  names := localized v "Name"
  comments := localized v "Summary"
  descriptions := trimmed (localized v "Description")
  developerNames := localized v "DeveloperName"
  urls := localized v "Url"
  metadata := (fieldsAt v "Custom").foldl (fun m e => m.insert e.1 (e.2.string?.getD "")) .empty

/-- The component that a document describes, if the document has an ID. -/
def component? (h : Header) (v : Value) : Option Component :=
  (text? v "ID").map fun id =>
    let c := basic h v id
    let c := (fieldsAt v "Keywords").foldl (fun c e => addKeywords c e.1 e.2) c
    let c := (textsAt v "Categories").foldl Component.addCategory c
    let c := (textsAt v "Extends").foldl Component.addExtends c
    let c := ((fieldsAt v "Icon").flatMap fun e => icons h e.1 e.2).foldl Component.addIcon c
    let c := ((fieldsAt v "Launchable").flatMap fun e => launchables e.1 e.2).foldl
      Component.addLaunchable c
    let c := ((fieldsAt v "Provides").flatMap fun e => provides e.1 e.2).foldl addProvide c
    let c := ((itemsAt v "Releases").map release).foldl Component.addSourceRelease c
    let c := ((itemsAt v "Screenshots").map (screenshot h)).foldl Component.addSourceScreenshot c
    let c := ((fieldsAt v "ContentRating").map fun e => contentRating e.1 e.2).foldl
      Component.addSourceContentRating c
    let c := ((itemsAt v "Bundles").filterMap bundle?).foldl Component.addBundle c
    ((itemsAt v "Suggests").map suggest).foldl Component.addSuggest c

/-- The components of the documents behind a header. -/
def components (source : SourceInfo) (h : Header) (docs : List Value) : List Component :=
  (docs.filterMap (component? h)).map (source.stamp .appStream)

/-- What the documents up to the first fault describe. -/
def componentsOf (source : SourceInfo) (docs : List Value) : Except YamlError (List Component) :=
  match docs.filter (!·.isNothing) with
  | [] => .ok []
  | head :: rest =>
    match header? head with
    | none => .error .missingHeader
    | some h => .ok (components source h rest)

/-- Reads a catalog: a header, and a document for each component. Empty documents are left out. -/
def read (bytes : ByteArray) (source : SourceInfo) : Except SourceError (List Component) := do
  let docs := Yaml.values (← decodeText bytes)
  let cs ← (componentsOf source docs.items).mapError .yaml
  if docs.sound then return cs else throw (.yaml .malformed)

end SoftwareCatalog.Dep11
