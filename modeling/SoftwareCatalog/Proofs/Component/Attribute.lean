import SoftwareCatalog.Proofs.Component.Release

namespace SoftwareCatalog

/-- A field of components that `merge` subsumes where its flag is set. -/
structure Attribute {α : Type} (merge : SubsumeFlags → α → α → α) where
  flag : SubsumeFlag
  get : Component → α
  isField : flag.isPolicy = false := by rfl
  subsume_eq : ∀ flags c d, get (c.subsume flags d) =
    if flags.has flag then merge flags (get c) (get d) else get c := by intros; rfl
  /-- Attachments and tokens are no attributes. -/
  get_attach : ∀ c addons tokens, get { c with addons, tokens } = get c := by intros; rfl

/-- Every group of fields is asked for, and nothing is replaced. -/
structure SubsumeFlags.Full (flags : SubsumeFlags) : Prop where
  has : ∀ f : SubsumeFlag, f.isPolicy = false → flags.has f = true
  adds : flags.has .replace = false

theorem Attribute.get_subsume {α : Type} {merge : SubsumeFlags → α → α → α} (a : Attribute merge)
    {flags : SubsumeFlags} (h : flags.Full) (c d : Component) :
    a.get (c.subsume flags d) = merge flags (a.get c) (a.get d) := by
  rw [a.subsume_eq, if_pos (h.has a.flag a.isField)]

/-- An attribute that lists entries, of which no two have the same key. -/
structure Collection where
  Entry : Type
  Key : Type
  key : Entry → Key
  same : Entry → Entry → Bool
  same_iff : ∀ a b, same a b = true ↔ key a = key b
  field : Attribute (mergeEntries (addUnlessSame same))

namespace Collection

variable (k : Collection)

def get (c : Component) : List k.Entry := k.field.get c

theorem get_subsume {flags : SubsumeFlags} (h : flags.Full) (c d : Component) :
    k.get (c.subsume flags d) = (k.get d).foldl (addUnlessSame k.same) (k.get c) :=
  (k.field.get_subsume h c d).trans (mergeEntries_eq_foldl h.adds _ _)

theorem get_attach (c : Component) (addons : List String) (tokens : Option Search.TokenCache) :
    k.get { c with addons, tokens } = k.get c :=
  k.field.get_attach c addons tokens

theorem same_refl (a : k.Entry) : k.same a a = true := (k.same_iff a a).2 rfl

theorem same_trans (a b c : k.Entry) (h : k.same a b = true) (h' : k.same b c = true) :
    k.same a c = true :=
  (k.same_iff a c).2 (((k.same_iff a b).1 h).trans ((k.same_iff b c).1 h'))

/-- A collection of entries that are their own keys. -/
def ofEq {α : Type} [DecidableEq α] (field : Attribute (mergeEntries (@addNew α _))) :
    Collection where
  Entry := α
  Key := α
  key := id
  same a b := decide (a = b)
  same_iff a b := by simp
  field := ⟨field.flag, field.get, field.isField, field.subsume_eq, field.get_attach⟩

end Collection

/-- A review is known by its ID, or else by all that it says. -/
def Review.key (r : Review) : String ⊕ Review := r.id.elim (.inr r) .inl

theorem Review.same_iff (a b : Review) : a.same b = true ↔ a.key = b.key := by
  unfold same key
  cases ha : a.id <;> cases hb : b.id <;> simp
  · intro h
    simp [h, hb] at ha
  · intro h
    simp [h, hb] at ha

namespace Component

def scalars : List (Attribute mergeScalar) := [
  { flag := .origin, get := (·.origin) },
  { flag := .branch, get := (·.branch) },
  { flag := .licenses, get := (·.projectLicense) },
  { flag := .licenses, get := (·.metadataLicense) },
  { flag := .projectGroup, get := (·.projectGroup) },
  { flag := .sourcePkgname, get := (·.sourcePkgname) }]

def originAttribute : Attribute mergeScalar := { flag := .origin, get := (·.origin) }

def branchAttribute : Attribute mergeScalar := { flag := .branch, get := (·.branch) }

theorem originAttribute_mem : originAttribute ∈ scalars := List.mem_cons_self

theorem branchAttribute_mem : branchAttribute ∈ scalars :=
  List.mem_cons_of_mem _ List.mem_cons_self

def kindAttribute : Attribute mergeComponentKind := { flag := .kind, get := (·.kind) }

def hallmarkAttribute : Attribute (fun _ => @FlagSet.union Hallmark) :=
  { flag := .hallmarks, get := (·.hallmarks) }

/-- Texts by locale. -/
def translations : List (Attribute mergeText) := [
  { flag := .name, get := (·.names) },
  { flag := .comment, get := (·.comments) },
  { flag := .description, get := (·.descriptions) },
  { flag := .developerName, get := (·.developerNames) }]

/-- Values by a key that is no locale, so that none repeats another. -/
def annotations : List (Attribute fun flags => mergeText (flags.erase .dedupe)) := [
  { flag := .url, get := (·.urls) },
  { flag := .metadata, get := (·.metadata) }]

def keywordAttribute : Attribute mergeKeywords := { flag := .keywords, get := (·.keywords) }

def lists : List (Attribute mergeList) := [
  { flag := .categories, get := (·.categories) },
  { flag := .kudos, get := (·.kudos) },
  { flag := .permissions, get := (·.permissions) },
  { flag := .mimetypes, get := (·.mimetypes) },
  { flag := .pkgnames, get := (·.pkgnames) },
  { flag := .architectures, get := (·.architectures) },
  { flag := .extendedIds, get := (·.extendedIds) },
  { flag := .vetoes, get := (·.vetoes) }]

def releaseAttribute : Attribute (mergeEntries Release.addTo) :=
  { flag := .releases, get := (·.releases) }

theorem releases_subsume_of_full {flags : SubsumeFlags} (h : flags.Full) (c d : Component) :
    (c.subsume flags d).releases = d.releases.foldl Release.addTo c.releases :=
  (releaseAttribute.get_subsume h c d).trans (mergeEntries_eq_foldl h.adds _ _)

def bundleCollection : Collection where
  Entry := Bundle
  Key := BundleKind × String
  key b := (b.kind, b.id)
  same := Bundle.same
  same_iff := by simp [Bundle.same]
  field := { flag := .bundles, get := (·.bundles) }

def collections : List Collection := [
  .ofEq { flag := .formats, get := (·.formats) },
  .ofEq { flag := .provides, get := (·.provides) },
  .ofEq { flag := .launchables, get := (·.launchables) },
  .ofEq { flag := .messageDomains, get := (·.messageDomains) },
  .ofEq { flag := .suggests, get := (·.suggests) },
  .ofEq { flag := .requires, get := (·.requires) },
  { Entry := Screenshot, Key := ScreenshotKind × LocaleMap × List Image
    key := fun s => (s.kind, s.caption, s.images)
    same := Screenshot.same
    same_iff := by simp [Screenshot.same, and_assoc]
    field := { flag := .screenshots, get := (·.screenshots) } },
  { Entry := Review, Key := String ⊕ Review, key := Review.key, same := Review.same
    same_iff := Review.same_iff
    field := { flag := .reviews, get := (·.reviews) } },
  { Entry := Icon, Key := Icon, key := fun i => i, same := Icon.same
    same_iff := by simp [Icon.same]
    field := { flag := .icons, get := (·.icons) } },
  bundleCollection,
  { Entry := ContentRating, Key := String, key := (·.kind), same := ContentRating.same
    same_iff := by simp [ContentRating.same]
    field := { flag := .contentRatings, get := (·.contentRatings) } },
  { Entry := Agreement, Key := AgreementKind × Option String
    key := fun a => (a.kind, a.versionId)
    same := Agreement.same
    same_iff := by simp [Agreement.same]
    field := { flag := .agreements, get := (·.agreements) } }]

/-- What nobody takes over from a donor. -/
def core (c : Component) : Component where
  id := c.id
  scope := c.scope
  priority := c.priority
  mergeKind := c.mergeKind
  faults := c.faults
  addons := c.addons

/-- A description is known by its attributes and by what nobody takes over. -/
theorem eq_of_attributes {c d : Component} (hcore : c.core = d.core)
    (hscalar : ∀ f ∈ scalars, f.get c = f.get d)
    (hkind : kindAttribute.get c = kindAttribute.get d)
    (hhallmarks : hallmarkAttribute.get c = hallmarkAttribute.get d)
    (htext : ∀ f ∈ translations, f.get c = f.get d)
    (hvalues : ∀ f ∈ annotations, f.get c = f.get d)
    (hkeywords : keywordAttribute.get c = keywordAttribute.get d)
    (hlist : ∀ f ∈ lists, f.get c = f.get d)
    (hcollection : ∀ k ∈ collections, k.get c = k.get d) :
    c = { d with releases := c.releases, tokens := c.tokens } := by
  simp only [scalars, List.forall_mem_cons] at hscalar
  simp only [translations, List.forall_mem_cons] at htext
  simp only [annotations, List.forall_mem_cons] at hvalues
  simp only [lists, List.forall_mem_cons] at hlist
  simp only [collections, List.forall_mem_cons] at hcollection
  simp only [core, Component.mk.injEq, true_and] at hcore
  obtain ⟨hid, hscope, hpriority, hmerge, hfaults, haddons, -⟩ := hcore
  obtain ⟨horigin, hbranch, hproject, hmetadata, hgroup, hsource, -⟩ := hscalar
  obtain ⟨hname, hcomment, hdescription, hdeveloper, -⟩ := htext
  obtain ⟨hurl, hmetadata', -⟩ := hvalues
  obtain ⟨hcategory, hkudo, hpermission, hmimetype, hpkgname, harchitecture, hextended, hveto, -⟩ :=
    hlist
  obtain ⟨hformat, hprovide, hlaunchable, hdomain, hsuggest, hrequire, hscreenshot, hreview,
    hicon, hbundle, hrating, hagreement, -⟩ := hcollection
  apply Component.ext <;> first | rfl | assumption

end Component

/-- What the second description takes back from the merged one. -/
def fillBack : SubsumeFlags := (twoWay.insert .noOverwrite).erase .replace

theorem mergeWith_twoWay (c d : Component) :
    c.mergeWith twoWay d = (c.subsume twoWay d, d.subsume fillBack (c.subsume twoWay d)) := rfl

theorem full_twoWay : twoWay.Full where
  has f h := by simp [twoWay, SubsumeFlags.all, h]
  adds := rfl

theorem full_fillBack : fillBack.Full where
  has f h := by
    have hne : f ≠ .replace := by
      intro heq
      rw [heq] at h
      cases h
    simp [fillBack, full_twoWay.has f h, hne]
  adds := rfl

end SoftwareCatalog
