import SoftwareCatalog.Component.Basic

namespace SoftwareCatalog

/-- What to take from a donor: four flags of policy, and one flag per group of fields. -/
inductive SubsumeFlag where
  | noOverwrite | bothWays | replace | dedupe
  | origin | branch | kind | licenses | projectGroup | sourcePkgname | hallmarks
  | name | comment | description | developerName | keywords | url | metadata
  | categories | kudos | permissions | mimetypes | pkgnames | architectures | extendedIds | vetoes
  | formats | releases | provides | launchables | screenshots | reviews | icons | bundles
  | messageDomains | suggests | requires | contentRatings | agreements
deriving DecidableEq, Repr

namespace SubsumeFlag

def label : SubsumeFlag → String
  | .noOverwrite => "NO_OVERWRITE" | .bothWays => "BOTH_WAYS" | .replace => "REPLACE"
  | .dedupe => "DEDUPE"
  | .origin => "ORIGIN" | .branch => "BRANCH" | .kind => "KIND" | .licenses => "LICENSES"
  | .projectGroup => "PROJECT_GROUP" | .sourcePkgname => "SOURCE_PKGNAME" | .hallmarks => "QUIRKS"
  | .name => "NAME" | .comment => "COMMENT" | .description => "DESCRIPTION"
  | .developerName => "DEVELOPER_NAME" | .keywords => "KEYWORDS" | .url => "URL"
  | .metadata => "METADATA"
  | .categories => "CATEGORIES" | .kudos => "KUDOS" | .permissions => "PERMISSIONS"
  | .mimetypes => "MIMETYPES" | .pkgnames => "PKGNAMES" | .architectures => "ARCHITECTURES"
  | .extendedIds => "EXTENDS" | .vetoes => "VETOES"
  | .formats => "FORMATS" | .releases => "RELEASES" | .provides => "PROVIDES"
  | .launchables => "LAUNCHABLES" | .screenshots => "SCREENSHOTS" | .reviews => "REVIEWS"
  | .icons => "ICONS" | .bundles => "BUNDLES" | .messageDomains => "TRANSLATIONS"
  | .suggests => "SUGGESTS" | .requires => "REQUIRES" | .contentRatings => "CONTENT_RATINGS"
  | .agreements => "AGREEMENTS"

instance : Flag SubsumeFlag where
  all := [.noOverwrite, .bothWays, .replace, .dedupe, .origin, .branch, .kind, .licenses,
    .projectGroup, .sourcePkgname, .hallmarks, .name, .comment, .description, .developerName,
    .keywords, .url, .metadata, .categories, .kudos, .permissions, .mimetypes, .pkgnames,
    .architectures, .extendedIds, .vetoes, .formats, .releases, .provides, .launchables,
    .screenshots, .reviews, .icons, .bundles, .messageDomains, .suggests, .requires,
    .contentRatings, .agreements]
  mem_all i := by cases i <;> decide
  label := label

def isPolicy : SubsumeFlag → Bool
  | .noOverwrite | .bothWays | .replace | .dedupe => true
  | _ => false

/-- The number of the bit that stands for a flag. -/
def position : SubsumeFlag → Nat
  | .noOverwrite => 0 | .bothWays => 1 | .replace => 2 | .dedupe => 3
  | .origin => 8 | .branch => 9 | .kind => 10 | .licenses => 11 | .projectGroup => 12
  | .sourcePkgname => 13 | .hallmarks => 14
  | .name => 16 | .comment => 17 | .description => 18 | .developerName => 19 | .keywords => 20
  | .url => 21 | .metadata => 22
  | .categories => 24 | .kudos => 25 | .permissions => 26 | .mimetypes => 27 | .pkgnames => 28
  | .architectures => 29 | .extendedIds => 30 | .vetoes => 31
  | .formats => 32 | .releases => 33 | .provides => 34 | .launchables => 35 | .screenshots => 36
  | .reviews => 37 | .icons => 38 | .bundles => 39 | .messageDomains => 40 | .suggests => 41
  | .requires => 42 | .contentRatings => 43 | .agreements => 44

end SubsumeFlag

abbrev SubsumeFlags := FlagSet SubsumeFlag

namespace SubsumeFlags

/-- Every group of fields and no policy. -/
def all : SubsumeFlags := ⟨fun f => !f.isPolicy⟩

def bits (flags : SubsumeFlags) : Nat :=
  flags.members.foldl (fun n f => n + 1 <<< f.position) 0

/-- Whether values of the target stay as they are. -/
def keepsExisting (flags : SubsumeFlags) : Bool := flags.has .noOverwrite || flags.has .dedupe

def fields (flags : SubsumeFlags) : SubsumeFlags := ⟨fun f => flags.has f && !f.isPolicy⟩

end SubsumeFlags

/-- A donor that is unset changes nothing. -/
def mergeScalar (flags : SubsumeFlags) (target donor : Option String) : Option String :=
  match donor with
  | none => target
  | some v => if flags.keepsExisting && target.isSome then target else some v

def mergeComponentKind (flags : SubsumeFlags) (target donor : ComponentKind) : ComponentKind :=
  if donor = .unset || (flags.keepsExisting && target ≠ .unset) then target else donor

/-- Whether the text of a locale only repeats the untranslated text. -/
def repeatsUntranslated (donor : LocaleMap) (locale text : String) : Bool :=
  locale ≠ untranslated && donor.get? untranslated == some text

/-- Copies one text of the donor as the policy has it. -/
def mergeEntry (flags : SubsumeFlags) (donor target : LocaleMap) (e : String × String) : LocaleMap :=
  if flags.has .dedupe && repeatsUntranslated donor e.1 e.2 then target
  else if flags.keepsExisting && target.contains e.1 then target
  else target.insert e.1 e.2

def mergeText (flags : SubsumeFlags) (target donor : LocaleMap) : LocaleMap :=
  if donor.isEmpty then target
  else donor.entries.foldl (mergeEntry flags donor) (if flags.has .replace then .empty else target)

/-- Adds the entries of a donor one by one; an empty donor changes nothing. -/
def mergeEntries {α : Type} (add : List α → α → List α) (flags : SubsumeFlags)
    (target donor : List α) : List α :=
  if donor.isEmpty then target else donor.foldl add (if flags.has .replace then [] else target)

def mergeList (flags : SubsumeFlags) (target donor : List String) : List String :=
  mergeEntries addNew flags target donor

/-- Keywords of one locale add up whatever the policy. -/
def mergeKeywords (flags : SubsumeFlags) (target donor : TextMap (List String)) :
    TextMap (List String) :=
  if donor.isEmpty then target
  else
    donor.entries.foldl (fun m e => m.modifyD e.1 [] fun words => e.2.foldl addNew words)
      (if flags.has .replace then .empty else target)

namespace Component

/-- Takes the flagged fields over from a donor. Tokens are void, even if nothing is new. -/
def subsume (flags : SubsumeFlags) (c donor : Component) : Component :=
  let on {α : Type} (f : SubsumeFlag) (old new : α) : α := if flags.has f then new else old
  { c with
    origin := on .origin c.origin (mergeScalar flags c.origin donor.origin)
    branch := on .branch c.branch (mergeScalar flags c.branch donor.branch)
    kind := on .kind c.kind (mergeComponentKind flags c.kind donor.kind)
    projectLicense :=
      on .licenses c.projectLicense (mergeScalar flags c.projectLicense donor.projectLicense)
    metadataLicense :=
      on .licenses c.metadataLicense (mergeScalar flags c.metadataLicense donor.metadataLicense)
    projectGroup :=
      on .projectGroup c.projectGroup (mergeScalar flags c.projectGroup donor.projectGroup)
    sourcePkgname :=
      on .sourcePkgname c.sourcePkgname (mergeScalar flags c.sourcePkgname donor.sourcePkgname)
    hallmarks := on .hallmarks c.hallmarks (c.hallmarks.union donor.hallmarks)
    names := on .name c.names (mergeText flags c.names donor.names)
    comments := on .comment c.comments (mergeText flags c.comments donor.comments)
    descriptions := on .description c.descriptions (mergeText flags c.descriptions donor.descriptions)
    developerNames :=
      on .developerName c.developerNames (mergeText flags c.developerNames donor.developerNames)
    keywords := on .keywords c.keywords (mergeKeywords flags c.keywords donor.keywords)
    urls := on .url c.urls (mergeText (flags.erase .dedupe) c.urls donor.urls)
    metadata := on .metadata c.metadata (mergeText (flags.erase .dedupe) c.metadata donor.metadata)
    categories := on .categories c.categories (mergeList flags c.categories donor.categories)
    kudos := on .kudos c.kudos (mergeList flags c.kudos donor.kudos)
    permissions := on .permissions c.permissions (mergeList flags c.permissions donor.permissions)
    mimetypes := on .mimetypes c.mimetypes (mergeList flags c.mimetypes donor.mimetypes)
    pkgnames := on .pkgnames c.pkgnames (mergeList flags c.pkgnames donor.pkgnames)
    architectures :=
      on .architectures c.architectures (mergeList flags c.architectures donor.architectures)
    extendedIds := on .extendedIds c.extendedIds (mergeList flags c.extendedIds donor.extendedIds)
    vetoes := on .vetoes c.vetoes (mergeList flags c.vetoes donor.vetoes)
    formats := on .formats c.formats (mergeEntries addNew flags c.formats donor.formats)
    releases := on .releases c.releases (mergeEntries Release.addTo flags c.releases donor.releases)
    provides := on .provides c.provides (mergeEntries addNew flags c.provides donor.provides)
    launchables :=
      on .launchables c.launchables (mergeEntries addNew flags c.launchables donor.launchables)
    screenshots := on .screenshots c.screenshots
      (mergeEntries (addUnlessSame Screenshot.same) flags c.screenshots donor.screenshots)
    reviews := on .reviews c.reviews
      (mergeEntries (addUnlessSame Review.same) flags c.reviews donor.reviews)
    icons := on .icons c.icons (mergeEntries (addUnlessSame Icon.same) flags c.icons donor.icons)
    bundles := on .bundles c.bundles
      (mergeEntries (addUnlessSame Bundle.same) flags c.bundles donor.bundles)
    messageDomains :=
      on .messageDomains c.messageDomains (mergeEntries addNew flags c.messageDomains donor.messageDomains)
    suggests := on .suggests c.suggests (mergeEntries addNew flags c.suggests donor.suggests)
    requires := on .requires c.requires (mergeEntries addNew flags c.requires donor.requires)
    contentRatings := on .contentRatings c.contentRatings
      (mergeEntries (addUnlessSame ContentRating.same) flags c.contentRatings donor.contentRatings)
    agreements := on .agreements c.agreements
      (mergeEntries (addUnlessSame Agreement.same) flags c.agreements donor.agreements)
    tokens := none }

/-- Subsumes the donor and, where the policy asks for both ways, lets the donor fill its own gaps
from the result. -/
def mergeWith (flags : SubsumeFlags) (c donor : Component) : Component × Component :=
  let merged := c.subsume flags donor
  if flags.has .bothWays then
    (merged, donor.subsume ((flags.insert .noOverwrite).erase .replace) merged)
  else (merged, donor)

end Component

end SoftwareCatalog
