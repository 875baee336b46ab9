import SoftwareCatalog.Source.Info
import SoftwareCatalog.Xml.Node

namespace SoftwareCatalog.Metainfo

open Xml (Node)

def readWord {α : Type} [Word α] [Inhabited α] (n : Node) (key : String) : α :=
  Word.read (n.attr? key)

def number (n : Node) (key : String) : Nat := ((n.attr? key).bind Text.nat32?).getD 0

/-- The texts of the children with a name. -/
def texts (n : Node) (name : String) : List String :=
  (n.childrenNamed name).filterMap Node.text?

def icon (n : Node) : Option Icon :=
  n.text?.map fun value =>
    let kind := ((n.attr? "type").bind IconKind.ofName?).getD .stock
    { kind, name := some value
      url := if kind = .remote || kind = .local then some value else none
      width := number n "width", height := number n "height"
      scale := max (number n "scale") 1 }

def provideKind (n : Node) : ProvideKind :=
  match n.name, n.attr? "type" with
  | "firmware", some "flashed" => .firmwareFlashed
  | "firmware", _ => .firmwareRuntime
  | "dbus", some "system" => .dbusSystem
  | "dbus", _ => .dbusSession
  | name, _ => Word.read (some name)

def provide (n : Node) : Option Provide := n.text?.map fun value => ⟨provideKind n, value⟩

def require (n : Node) : Require where
  kind := Word.read (some n.name)
  compare := readWord n "compare"
  value := n.text?
  version := n.attr? "version"

/-- The markup of the children with a name, by language; empty markup does not count. -/
def markups (n : Node) (name : String) : LocaleMap :=
  (n.childrenNamed name).foldl
    (fun m d => if d.markup = "" then m else m.set d.lang? d.markup) .empty

def textsByLocale (n : Node) (name : String) : LocaleMap :=
  (n.childrenNamed name).foldl
    (fun m d => match d.text? with
      | some t => m.set d.lang? t
      | none => m) .empty

def release (n : Node) : Release where
  version := n.attr? "version"
  kind := readWord n "type"
  timestamp := ((n.attr? "timestamp").bind Text.nat64?).getD 0
  urgency := readWord n "urgency"
  description := markups n "description"
  locations := texts n "location"

def image (n : Node) : Option Image :=
  n.text?.map fun url =>
    ⟨((n.attr? "type").bind ImageKind.ofName?).getD .source, url, number n "width", number n "height"⟩

/-- Images are listed, or the element holds the address of the only one. -/
def images (n : Node) : List Image :=
  match (n.childrenNamed "image").filterMap image with
  | [] => n.text?.toList.map fun url => ⟨.source, url, 0, 0⟩
  | is => is

def screenshot (n : Node) : Screenshot where
  kind := readWord n "type"
  caption := textsByLocale n "caption"
  images := images n
  priority := ((n.attr? "priority").bind Text.int32?).getD 0

def contentRating (n : Node) : ContentRating where
  kind := (n.attr? "type").getD "oars-1.0"
  attributes := (n.childrenNamed "content_attribute").foldl
    (fun m a => match a.attr? "id" with
      | some id => m.insert id (Word.read a.text?)
      | none => m) .empty

def agreementSection (n : Node) : AgreementSection where
  kind := n.attr? "type"
  name := textsByLocale n "name"
  description := markups n "description"

def agreement (n : Node) : Agreement where
  kind := readWord n "type"
  versionId := n.attr? "version_id"
  sections := (n.childrenNamed "agreement_section").map agreementSection

def childText (n : Node) (name : String) : Option String := (n.child? name).bind Node.text?

def review (n : Node) : Review where
  id := n.attr? "id"
  summary := childText n "summary"
  description := (n.child? "description").map Node.markup
  reviewerName := childText n "reviewer_name"
  locale := childText n "lang"
  version := childText n "version"
  rating := ((n.attr? "rating").bind Text.nat8?).getD 0
  date := ((n.attr? "date").bind Text.nat64?).getD 0

def bundle (n : Node) (id : String) : Bundle :=
  ⟨readWord n "type", id, n.attr? "runtime", n.attr? "sdk"⟩

def suggest (n : Node) : Suggest :=
  ⟨((n.attr? "type").bind SuggestKind.ofName?).getD .project, texts n "id"⟩

/-- Sets a text for the language of a node. -/
def setLocalized (m : LocaleMap) (n : Node) : LocaleMap :=
  match n.text? with
  | some t => m.set n.lang? t
  | none => m

/-- Adds what one child of a component says. -/
def addChild (c : Component) (n : Node) : Component :=
  let text := n.text?
  match n.name with
  | "id" =>
    if n.lang?.isSome then c.addFault .translatedId
    else match text with
      | some id => c.setId id
      | none => c
  | "name" => { c with names := setLocalized c.names n }
  | "summary" => { c with comments := setLocalized c.comments n }
  | "developer_name" => { c with developerNames := setLocalized c.developerNames n }
  | "description" =>
    if n.markup = "" then c else { c with descriptions := c.descriptions.set n.lang? n.markup }
  | "pkgname" => text.elim c c.addPkgname
  | "source_pkgname" => { c with sourcePkgname := text }
  | "project_license" => { c with projectLicense := text }
  | "metadata_license" => { c with metadataLicense := text }
  | "project_group" => { c with projectGroup := text }
  | "origin" => { c with origin := text }
  | "branch" => { c with branch := text }
  | "url" => text.elim c fun u => { c with urls := c.urls.insert ((n.attr? "type").getD "homepage") u }
  | "compulsory_for_desktop" => { c with hallmarks := c.hallmarks.insert .compulsory }
  | "categories" => (texts n "category").foldl Component.addCategory c
  | "keywords" =>
    (n.childrenNamed "keyword").foldl
      (fun c k => match k.text? with
        | some w => c.addKeyword (k.lang?.or n.lang?) w
        | none => c) c
  | "kudos" => { c with kudos := (texts n "kudo").foldl addNew c.kudos }
  | "permissions" => { c with permissions := (texts n "permission").foldl addNew c.permissions }
  | "mimetypes" => (texts n "mimetype").foldl Component.addMimetype c
  | "architectures" => (texts n "arch").foldl Component.addArchitecture c
  | "extends" => text.elim c c.addExtends
  | "vetos" => (texts n "veto").foldl Component.addVeto c
  | "icon" => (icon n).elim c c.addIcon
  | "launchable" => text.elim c fun v => c.addLaunchable ⟨readWord n "type", v⟩
  | "bundle" => text.elim c fun v => c.addBundle (bundle n v)
  | "translation" => text.elim c fun v => c.addMessageDomain ⟨readWord n "type", v⟩
  | "provides" => (n.children.filterMap provide).foldl Component.addProvide c
  | "requires" => (n.children.map require).foldl Component.addRequire c
  | "suggests" => c.addSuggest (suggest n)
  | "releases" => ((n.childrenNamed "release").map release).foldl Component.addSourceRelease c
  | "screenshots" =>
    ((n.childrenNamed "screenshot").map screenshot).foldl Component.addSourceScreenshot c
  | "content_rating" => c.addSourceContentRating (contentRating n)
  | "agreement" => c.addAgreement (agreement n)
  | "reviews" => ((n.childrenNamed "review").map review).foldl Component.addReview c
  | "metadata" | "custom" =>
    (n.childrenNamed "value").foldl
      (fun c v => match v.attr? "key" with
        | some k => { c with metadata := c.metadata.insert k (v.text?.getD "") }
        | none => c) c
  | _ => c

/-- The component that an element describes. -/
def component (n : Node) : Component :=
  n.children.foldl addChild {
    kind := readWord n "type"
    priority := ((n.attr? "priority").bind Text.int32?).getD 0
    mergeKind := readWord n "merge" }

/-- What a document describes: a collection and its origin, or one component. -/
inductive Contents where
  | collection (origin : Option String) (components : List Component)
  | single (component : Component)

def contents (root : Node) : Except XmlError Contents :=
  match root.name with
  | "components" =>
    .ok (.collection (root.attr? "origin") ((root.childrenNamed "component").map component))
  | "component" | "application" => .ok (.single (component root))
  | name => .error (.unexpectedRoot name)

/-- Metadata that names itself otherwise counts as metainfo. -/
def singleKind : FormatKind → FormatKind
  | .appData => .appData
  | _ => .metaInfo

def withOrigin (origin : Option String) (c : Component) : Component :=
  { c with origin := c.origin.or (origin.bind Text.nonEmpty?) }

def noteHeader (declared : Bool) (c : Component) : Component :=
  if declared then c else c.addFault .noXmlHeader

/-- The components of a document. Those of a collection may lack an ID and are then left out. -/
def components (source : SourceInfo) (declared : Bool) :
    Contents → Except SourceError (List Component)
  | .collection origin cs =>
    .ok ((cs.filter (·.id.isSome)).map fun c =>
      source.stamp .appStream (noteHeader declared (withOrigin origin c)))
  | .single c =>
    if c.id.isNone then .error .missingId
    else .ok [source.stamp (singleKind source.formatKind) (noteHeader declared c)]

/-- Reads AppStream collections and single AppData or MetaInfo documents. -/
def read (bytes : ByteArray) (source : SourceInfo) : Except SourceError (List Component) := do
  let text ← decodeText bytes
  let document ← (Xml.Document.parse text).mapError .xml
  match document.root? with
  | none => throw (.xml .noElement)
  | some root => components source document.declared (← (contents root).mapError .xml)

end SoftwareCatalog.Metainfo
