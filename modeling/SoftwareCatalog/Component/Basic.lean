import SoftwareCatalog.Component.Agreement
import SoftwareCatalog.Component.Bundle
import SoftwareCatalog.Component.Collection
import SoftwareCatalog.Component.ContentRating
import SoftwareCatalog.Component.Fault
import SoftwareCatalog.Component.Format
import SoftwareCatalog.Component.Hallmark
import SoftwareCatalog.Component.Icon
import SoftwareCatalog.Component.Launchable
import SoftwareCatalog.Component.MessageDomain
import SoftwareCatalog.Component.Provide
import SoftwareCatalog.Component.Release
import SoftwareCatalog.Component.Require
import SoftwareCatalog.Component.Review
import SoftwareCatalog.Component.Screenshot
import SoftwareCatalog.Component.Suggest
import SoftwareCatalog.Component.UniqueId
import SoftwareCatalog.Search.TokenCache

namespace SoftwareCatalog

/-- What catalogs say about one piece of software. -/
@[ext] structure Component where
  id : Option String := none
  scope : Scope := .unset
  kind : ComponentKind := .unset
  origin : Option String := none
  branch : Option String := none
  formats : List Format := []
  priority : Int := 0
  mergeKind : MergeKind := .standalone
  hallmarks : FlagSet Hallmark := .empty
  faults : FlagSet Fault := .empty
  projectLicense : Option String := none
  metadataLicense : Option String := none
  projectGroup : Option String := none
  sourcePkgname : Option String := none
  names : LocaleMap := .empty
  comments : LocaleMap := .empty
  descriptions : LocaleMap := .empty
  developerNames : LocaleMap := .empty
  keywords : TextMap (List String) := .empty
  urls : TextMap String := .empty
  metadata : TextMap String := .empty
  categories : List String := []
  kudos : List String := []
  permissions : List String := []
  mimetypes : List String := []
  pkgnames : List String := []
  architectures : List String := []
  extendedIds : List String := []
  vetoes : List String := []
  releases : List Release := []
  provides : List Provide := []
  launchables : List Launchable := []
  screenshots : List Screenshot := []
  reviews : List Review := []
  icons : List Icon := []
  bundles : List Bundle := []
  messageDomains : List MessageDomain := []
  suggests : List Suggest := []
  requires : List Require := []
  contentRatings : List ContentRating := []
  agreements : List Agreement := []
  /-- Unique IDs of the addons that are attached. -/
  addons : List String := []
  /-- Search tokens that were built. They are void once anything changes that is searched. -/
  tokens : Option Search.TokenCache := none
deriving DecidableEq

namespace Component

instance : Inhabited Component := ⟨{}⟩

def untokened (c : Component) : Component := { c with tokens := none }

def setId (c : Component) (id : String) : Component :=
  { c with id := Text.nonEmpty? id, tokens := none }

def ofId (id : String) : Component := setId {} id

/-- The kind of the first bundle, or that of packages where there are package names. -/
def bundleKind (c : Component) : BundleKind :=
  match c.bundles with
  | b :: _ => b.kind
  | [] => if c.pkgnames = [] then .unset else .package

def identity (c : Component) : UniqueId where
  scope := c.scope
  bundleKind := c.bundleKind
  origin := c.origin
  kind := c.kind
  id := c.id
  branch := c.branch

def uniqueId (c : Component) : String := c.identity.render

/-- A component that has only the attributes of a unique ID. -/
def ofIdentity (u : UniqueId) : Component where
  scope := u.scope
  kind := u.kind
  origin := u.origin
  id := u.id
  branch := u.branch
  bundles :=
    if u.bundleKind = .unset then [] else [⟨u.bundleKind, u.id.getD "", none, none⟩]

def ofUniqueId (s : String) : Except CatalogError Component :=
  (UniqueId.parse s).map ofIdentity

/-- Equal where both sides are set. -/
def agree {α : Type} [DecidableEq α] (unset a b : α) : Bool := a = unset || b = unset || a = b

def agree? {α : Type} [DecidableEq α] (a b : Option α) : Bool := agree none a b

/-- Whether two records can describe the same component: an attribute that one side leaves unset
tells nothing apart. -/
def sameIdentity (c d : Component) : Bool :=
  agree .unset c.scope d.scope && agree .unset c.bundleKind d.bundleKind &&
    agree? c.origin d.origin && agree .unset c.kind d.kind && agree? c.id d.id &&
    agree? c.branch d.branch && agree? c.architectures.head? d.architectures.head?

def addFormat (c : Component) (f : Format) : Component := { c with formats := addNew c.formats f }

def hasSourceFile (c : Component) (filename : String) : Bool :=
  c.formats.any fun f => f.filename == some filename

def removeFormat (c : Component) (f : Format) : Component :=
  { c with formats := c.formats.filter (· ≠ f) }

def removeFormatsOf (c : Component) (filename : String) : Component :=
  { c with formats := c.formats.filter fun f => f.filename != some filename }

def hasFormatKind (c : Component) (kind : FormatKind) : Bool := c.formats.any (·.kind == kind)

def formatKind (c : Component) : FormatKind := (c.formats.head?.map (·.kind)).getD .unset

/-- Local metadata shows that the component is installed, a catalog only that it can be. -/
def state (c : Component) : State :=
  if c.formats.any (·.kind.isLocal) then .installed
  else if c.formats.any (·.kind.isRemote) then .available
  else .unset

def addKeyword (c : Component) (locale : Option String) (keyword : String) : Component :=
  { c with
    keywords := c.keywords.modifyD (locale.getD untranslated) [] (addNew · keyword)
    tokens := none }

/-- The keywords of exactly one locale. -/
def keywordsIn (c : Component) (locale : Option String) : List String :=
  c.keywords.getD (locale.getD untranslated) []

/-- The number of locales over all translated attributes. -/
def localeCount (c : Component) : Nat :=
  c.names.size + c.comments.size + c.descriptions.size + c.developerNames.size + c.keywords.size

/-- Drops the text of the locales that `keep` refuses; untranslated text stays. -/
def retainLocales (keep : String → Bool) (c : Component) : Component :=
  let kept (locale : String) : Bool := locale == untranslated || keep locale
  let narrowed : Component := { c with
    names := c.names.filter fun l _ => kept l
    comments := c.comments.filter fun l _ => kept l
    descriptions := c.descriptions.filter fun l _ => kept l
    developerNames := c.developerNames.filter fun l _ => kept l
    keywords := c.keywords.filter fun l _ => kept l }
  { narrowed with tokens := if narrowed.localeCount = c.localeCount then c.tokens else none }

def addPkgname (c : Component) (name : String) : Component :=
  { c with pkgnames := addNew c.pkgnames name, tokens := none }

def addArchitecture (c : Component) (arch : String) : Component :=
  { c with architectures := addNew c.architectures arch }

def addCategory (c : Component) (category : String) : Component :=
  { c with categories := addNew c.categories category }

def addMimetype (c : Component) (mimetype : String) : Component :=
  { c with mimetypes := addNew c.mimetypes mimetype, tokens := none }

def addExtends (c : Component) (id : String) : Component :=
  { c with extendedIds := addNew c.extendedIds id }

def addVeto (c : Component) (reason : String) : Component :=
  { c with vetoes := addNew c.vetoes reason }

def addFault (c : Component) (fault : Fault) : Component :=
  { c with faults := c.faults.insert fault }

def release? (c : Component) (version : String) : Option Release :=
  c.releases.find? fun r => r.version == some version

def addRelease (c : Component) (r : Release) : Component :=
  { c with releases := Release.addTo c.releases r }

/-- Adds a release of a source, where a repeated version is a fault. -/
def addSourceRelease (c : Component) (r : Release) : Component :=
  (if c.releases.any (·.same r) then c.addFault .duplicateRelease else c).addRelease r

def addProvide (c : Component) (p : Provide) : Component :=
  { c with provides := addNew c.provides p }

def addLaunchable (c : Component) (l : Launchable) : Component :=
  { c with launchables := addNew c.launchables l }

def launchable? (c : Component) (kind : LaunchableKind) : Option Launchable :=
  c.launchables.find? (·.kind == kind)

def addScreenshot (c : Component) (s : Screenshot) : Component :=
  { c with screenshots := addUnlessSame Screenshot.same c.screenshots s }

/-- Adds a screenshot of a source, where a repetition is a fault. -/
def addSourceScreenshot (c : Component) (s : Screenshot) : Component :=
  (if c.screenshots.any (·.same s) then c.addFault .duplicateScreenshot else c).addScreenshot s

def addReview (c : Component) (r : Review) : Component :=
  { c with reviews := addUnlessSame Review.same c.reviews r }

def addIcon (c : Component) (i : Icon) : Component :=
  { c with icons := addUnlessSame Icon.same c.icons i }

def icon? (c : Component) (kind : IconKind) : Option Icon :=
  Icon.widest (c.icons.filter (·.kind == kind))

def addBundle (c : Component) (b : Bundle) : Component :=
  { c with
    bundles := addUnlessSame Bundle.same c.bundles b
    tokens := if c.bundles.any fun d => Bundle.same d b then c.tokens else none }

def addMessageDomain (c : Component) (t : MessageDomain) : Component :=
  { c with messageDomains := addNew c.messageDomains t }

def addSuggest (c : Component) (s : Suggest) : Component :=
  { c with suggests := addNew c.suggests s }

def addRequire (c : Component) (r : Require) : Component :=
  { c with requires := addNew c.requires r }

def contentRating? (c : Component) (kind : String) : Option ContentRating :=
  c.contentRatings.find? (·.kind == kind)

/-- Adds a content rating; of each rating system the first stays. -/
def addContentRating (c : Component) (r : ContentRating) : Component :=
  { c with contentRatings := addUnlessSame ContentRating.same c.contentRatings r }

/-- Adds a content rating of a source, where a repeated rating system is a fault. -/
def addSourceContentRating (c : Component) (r : ContentRating) : Component :=
  (if c.contentRatings.any (·.same r) then c.addFault .duplicateContentRating else c).addContentRating r

def addAgreement (c : Component) (a : Agreement) : Component :=
  { c with agreements := addUnlessSame Agreement.same c.agreements a }

end Component

end SoftwareCatalog
