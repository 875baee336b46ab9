import SoftwareCatalog.Component.Locale
import SoftwareCatalog.Proofs.Component.Texts
import SoftwareCatalog.Proofs.Component.Tidy

namespace SoftwareCatalog.Component

/-- A value comes to be set; a text that is empty unsets it. -/
inductive Sets (c : Component) : Component → Prop
  | id (x : String) : Sets c (c.setId x)
  | scope (s : Scope) : Sets c { c with scope := s }
  | kind (k : ComponentKind) : Sets c { c with kind := k }
  | origin (x : Option String) : Sets c { c with origin := x.bind Text.nonEmpty? }
  | branch (x : Option String) : Sets c { c with branch := x.bind Text.nonEmpty? }
  | priority (p : Int) : Sets c { c with priority := p }
  | mergeKind (k : MergeKind) : Sets c { c with mergeKind := k }
  | hallmark (h : Hallmark) : Sets c { c with hallmarks := c.hallmarks.insert h }
  | fault (f : Fault) : Sets c (c.addFault f)
  | projectLicense (x : Option String) : Sets c { c with projectLicense := x.bind Text.nonEmpty? }
  | metadataLicense (x : Option String) : Sets c { c with metadataLicense := x.bind Text.nonEmpty? }
  | projectGroup (x : Option String) : Sets c { c with projectGroup := x.bind Text.nonEmpty? }
  | sourcePkgname (x : Option String) : Sets c { c with sourcePkgname := x.bind Text.nonEmpty? }
  | name (locale : Option String) (t : String) : Sets c { c with names := c.names.set locale t }
  | comment (locale : Option String) (t : String) :
    Sets c { c with comments := c.comments.set locale t }
  | description (locale : Option String) (t : String) :
    Sets c { c with descriptions := c.descriptions.set locale t }
  | developerName (locale : Option String) (t : String) :
    Sets c { c with developerNames := c.developerNames.set locale t }
  | url (kind address : String) : Sets c { c with urls := c.urls.insert kind address }
  | metadata (key value : String) : Sets c { c with metadata := c.metadata.insert key value }
  | noMetadata (key : String) : Sets c { c with metadata := c.metadata.erase key }
  | addons (ids : List String) : Sets c { c with addons := ids }

/-- A word comes to be listed. -/
inductive Lists (c : Component) : Component → Prop
  | category (w : String) : Lists c (c.addCategory w)
  | kudo (w : String) : Lists c { c with kudos := addNew c.kudos w }
  | permission (w : String) : Lists c { c with permissions := addNew c.permissions w }
  | mimetype (w : String) : Lists c (c.addMimetype w)
  | pkgname (w : String) : Lists c (c.addPkgname w)
  | architecture (w : String) : Lists c (c.addArchitecture w)
  | extendedId (w : String) : Lists c (c.addExtends w)
  | veto (w : String) : Lists c (c.addVeto w)

/-- Sources or translations are taken away. -/
inductive Drops (c : Component) : Component → Prop
  | format (f : Format) : Drops c (c.removeFormat f)
  | formatsOf (filename : String) : Drops c (c.removeFormatsOf filename)
  | locales (keep : String → Bool) : Drops c (c.retainLocales keep)

/-- A description that the operations can make, from nothing or from a unique ID. -/
inductive Built : Component → Prop
  | blank : Built {}
  | ofIdentity (u : UniqueId) : Built (ofIdentity u)
  | sets {c d : Component} (h : Built c) (k : c.Sets d) : Built d
  | lists {c d : Component} (h : Built c) (k : c.Lists d) : Built d
  | keyword {c : Component} (h : Built c) (locale : Option String) (w : String) :
    Built (c.addKeyword locale w)
  | gains {c d : Component} (h : Built c) (k : c.Gains d) : Built d
  | drops {c d : Component} (h : Built c) (k : c.Drops d) : Built d
  | subsume {c d : Component} (h : Built c) (k : Built d) (flags : SubsumeFlags) :
    Built (c.subsume flags d)

theorem Built.ofId (id : String) : (Component.ofId id).Built := .sets .blank (.id id)

/-- A merge leaves both descriptions built, in one direction or in both. -/
theorem Built.mergeWith {c d : Component} (hc : c.Built) (hd : d.Built) (flags : SubsumeFlags) :
    (c.mergeWith flags d).1.Built ∧ (c.mergeWith flags d).2.Built := by
  have hforth : (c.subsume flags d).Built := hc.subsume hd flags
  unfold Component.mergeWith
  simp only
  split
  · exact ⟨hforth, hd.subsume hforth _⟩
  · exact ⟨hforth, hd⟩

/-- The lists of words, alone. -/
def wordLists (c : Component) : Component where
  categories := c.categories
  kudos := c.kudos
  permissions := c.permissions
  mimetypes := c.mimetypes
  pkgnames := c.pkgnames
  architectures := c.architectures
  extendedIds := c.extendedIds
  vetoes := c.vetoes

/-- The lists of entries, alone. -/
def entryLists (c : Component) : Component where
  formats := c.formats
  releases := c.releases
  provides := c.provides
  launchables := c.launchables
  screenshots := c.screenshots
  reviews := c.reviews
  icons := c.icons
  bundles := c.bundles
  messageDomains := c.messageDomains
  suggests := c.suggests
  requires := c.requires
  contentRatings := c.contentRatings
  agreements := c.agreements

theorem get_wordLists (c : Component) : ∀ f ∈ lists, f.get c.wordLists = f.get c := by
  simp [lists, wordLists]

theorem get_entryLists (c : Component) : ∀ k ∈ collections, k.get c.entryLists = k.get c := by
  intro k hk
  simp only [collections, List.mem_cons, List.not_mem_nil, or_false] at hk
  rcases hk with rfl | rfl | rfl | rfl | rfl | rfl | rfl | rfl | rfl | rfl | rfl | rfl <;> rfl

variable {c d : Component}

theorem get_eq_of_wordLists (h : d.wordLists = c.wordLists) :
    ∀ f ∈ lists, f.get d = f.get c := by
  intro f hf
  rw [← d.get_wordLists f hf, h, c.get_wordLists f hf]

theorem get_eq_of_entryLists (h : d.entryLists = c.entryLists) :
    ∀ k ∈ collections, k.get d = k.get c := by
  intro k hk
  rw [← d.get_entryLists k hk, h, c.get_entryLists k hk]

/-- Setting a value lists nothing. -/
structure SameLists (c d : Component) : Prop where
  words : d.wordLists = c.wordLists
  keywords : d.keywords = c.keywords
  entries : d.entryLists = c.entryLists

theorem Sets.sameLists (h : c.Sets d) : SameLists c d := by
  cases h <;> exact ⟨rfl, rfl, rfl⟩

theorem Lists.keywords_eq (h : c.Lists d) : d.keywords = c.keywords := by
  cases h <;> rfl

theorem Lists.entryLists_eq (h : c.Lists d) : d.entryLists = c.entryLists := by
  cases h <;> rfl

/-- Each word comes to the end of one list, unless it is there already. -/
theorem Lists.get_eq (h : c.Lists d) : ∀ f ∈ lists,
    f.get d = f.get c ∨ ∃ w, f.get d = addNew (f.get c) w := by
  intro f hf
  simp only [lists, List.mem_cons, List.not_mem_nil, or_false] at hf
  cases h <;> rcases hf with rfl | rfl | rfl | rfl | rfl | rfl | rfl | rfl <;>
    first | exact .inl rfl | exact .inr ⟨_, rfl⟩

theorem Gains.wordLists_eq (h : c.Gains d) : d.wordLists = c.wordLists := by
  cases h <;> rfl

theorem Gains.keywords_eq (h : c.Gains d) : d.keywords = c.keywords := by
  cases h <;> rfl

theorem Drops.wordLists_eq (h : c.Drops d) : d.wordLists = c.wordLists := by
  cases h <;> rfl

theorem Drops.releases_eq (h : c.Drops d) : d.releases = c.releases := by
  cases h <;> rfl

theorem Drops.get_sublist (h : c.Drops d) : ∀ k ∈ collections, (k.get d).Sublist (k.get c) := by
  intro k hk
  simp only [collections, List.mem_cons, List.not_mem_nil, or_false] at hk
  cases h <;> rcases hk with
    rfl | rfl | rfl | rfl | rfl | rfl | rfl | rfl | rfl | rfl | rfl | rfl <;>
    first | exact List.Sublist.refl _ | exact List.filter_sublist

theorem Drops.keywords_eq (h : c.Drops d) :
    ∃ keep : String → Bool, d.keywords = c.keywords.filter fun l _ => keep l := by
  cases h with
  | locales keep => exact ⟨fun l => l == untranslated || keep l, rfl⟩
  | _ =>
    refine ⟨fun _ => true, ?_⟩
    apply TextMap.ext
    exact (List.filter_true _).symm

theorem Tidy.congr (h : c.Tidy) (heq : d.entryLists = c.entryLists) : d.Tidy where
  distinct k hk := by
    rw [get_eq_of_entryLists heq k hk]
    exact h.distinct k hk
  versions := by
    have hreleases : d.entryLists.releases = c.entryLists.releases := by rw [heq]
    change (SoftwareCatalog.versions d.entryLists.releases).Nodup
    rw [hreleases]
    exact h.versions

theorem Tidy.drops (h : c.Tidy) (hdrops : c.Drops d) : d.Tidy where
  distinct k hk := (h.distinct k hk).sublist (hdrops.get_sublist k hk)
  versions := by
    rw [hdrops.releases_eq]
    exact h.versions

/-- The words of each locale and those of each other list are written once. -/
structure Terse (c : Component) : Prop where
  list : ∀ f ∈ lists, (f.get c).Nodup
  keyword : ∀ l words, c.keywords.get? l = some words → words.Nodup

theorem Terse.congr (h : c.Terse) (hwords : d.wordLists = c.wordLists)
    (hkeywords : d.keywords = c.keywords) : d.Terse where
  list f hf := by
    rw [get_eq_of_wordLists hwords f hf]
    exact h.list f hf
  keyword := by
    rw [hkeywords]
    exact h.keyword

theorem Terse.lists (h : c.Terse) (hlists : c.Lists d) : d.Terse where
  list f hf := by
    rcases hlists.get_eq f hf with heq | ⟨w, heq⟩
    · rw [heq]
      exact h.list f hf
    · rw [heq]
      exact nodup_addNew (h.list f hf) w
  keyword := by
    rw [hlists.keywords_eq]
    exact h.keyword

theorem nodup_getD {m : TextMap (List String)} (h : ∀ l words, m.get? l = some words → words.Nodup)
    (l : String) : (m.getD l []).Nodup := by
  unfold TextMap.getD
  cases hl : m.get? l with
  | none => exact List.nodup_nil
  | some words => exact h l words hl

theorem Terse.addKeyword (h : c.Terse) (locale : Option String) (w : String) :
    (c.addKeyword locale w).Terse where
  list f hf := by
    have hwords : (c.addKeyword locale w).wordLists = c.wordLists := rfl
    rw [get_eq_of_wordLists hwords f hf]
    exact h.list f hf
  keyword l words hwords := by
    have hget : (c.addKeyword locale w).keywords.get? l = _ := TextMap.get?_modifyD ..
    rw [hget] at hwords
    split at hwords
    · obtain rfl := Option.some.inj hwords
      exact nodup_addNew (nodup_getD h.keyword _) w
    · exact h.keyword l words hwords

theorem Terse.drops (h : c.Terse) (hdrops : c.Drops d) : d.Terse where
  list f hf := by
    rw [get_eq_of_wordLists hdrops.wordLists_eq f hf]
    exact h.list f hf
  keyword l words hwords := by
    obtain ⟨keep, heq⟩ := hdrops.keywords_eq
    rw [heq, TextMap.get?_filter] at hwords
    exact h.keyword l words (Option.filter_eq_some_iff.1 hwords).1

theorem nodup_mergeList {words : List String} (h : words.Nodup) (flags : SubsumeFlags)
    (donor : List String) : (mergeList flags words donor).Nodup := by
  unfold mergeList mergeEntries
  split
  · exact h
  · apply nodup_foldl_addNew
    split
    · exact List.nodup_nil
    · exact h

theorem nodup_mergeKeywords {m : TextMap (List String)}
    (h : ∀ l words, m.get? l = some words → words.Nodup) (flags : SubsumeFlags)
    (donor : TextMap (List String)) :
    ∀ l words, (mergeKeywords flags m donor).get? l = some words → words.Nodup := by
  have hfold (es : List (String × List String)) {n : TextMap (List String)}
      (hn : ∀ l words, n.get? l = some words → words.Nodup) :
      ∀ l words, (es.foldl mergeWords n).get? l = some words → words.Nodup := by
    induction es generalizing n with
    | nil => exact hn
    | cons e es ih =>
      apply ih
      intro l words hwords
      rw [get?_mergeWords] at hwords
      split at hwords
      · obtain rfl := Option.some.inj hwords
        exact nodup_foldl_addNew (nodup_getD hn _) _
      · exact hn l words hwords
  unfold mergeKeywords
  split
  · exact h
  · apply hfold
    split
    · exact nofun
    · exact h

/-- So are those that take over what others say. -/
theorem Terse.subsume (h : c.Terse) (flags : SubsumeFlags) (d : Component) :
    (c.subsume flags d).Terse where
  list f hf := by
    rw [f.subsume_eq]
    split
    · exact nodup_mergeList (h.list f hf) flags _
    · exact h.list f hf
  keyword := by
    have heq : (c.subsume flags d).keywords = if flags.has .keywords then
        mergeKeywords flags c.keywords d.keywords else c.keywords :=
      keywordAttribute.subsume_eq flags c d
    rw [heq]
    split
    · exact nodup_mergeKeywords h.keyword flags _
    · exact h.keyword

theorem tidy_ofIdentity (u : UniqueId) : (ofIdentity u).Tidy where
  distinct k hk := by
    have hbundles : Distinct Bundle.same (ofIdentity u).bundles := by
      unfold ofIdentity
      simp only
      split
      · exact List.Pairwise.nil
      · exact List.pairwise_singleton _ _
    simp only [collections, List.mem_cons, List.not_mem_nil, or_false] at hk
    rcases hk with rfl | rfl | rfl | rfl | rfl | rfl | rfl | rfl | rfl | rfl | rfl | rfl <;>
      first | exact hbundles | exact List.Pairwise.nil
  versions := List.nodup_nil

theorem terse_ofIdentity (u : UniqueId) : (ofIdentity u).Terse where
  list := by simp [lists, ofIdentity]
  keyword := nofun

/-- Nothing that the operations make lists an entry twice. -/
theorem Built.tidy (h : c.Built) : c.Tidy := by
  induction h with
  | blank => exact Tidy.ofId ""
  | ofIdentity u => exact tidy_ofIdentity u
  | sets _ k ih => exact ih.congr k.sameLists.entries
  | lists _ k ih => exact ih.congr k.entryLists_eq
  | keyword _ _ _ ih => exact ih.congr rfl
  | gains _ k ih => exact ih.gains k
  | drops _ k ih => exact ih.drops k
  | subsume _ _ flags ih _ => exact ih.subsume flags _

/-- Nor does it list a word twice. -/
theorem Built.terse (h : c.Built) : c.Terse := by
  induction h with
  | blank => exact terse_ofIdentity ⟨.unset, .unset, none, .unset, none, none⟩
  | ofIdentity u => exact terse_ofIdentity u
  | sets _ k ih => exact ih.congr k.sameLists.words k.sameLists.keywords
  | lists _ k ih => exact ih.lists k
  | keyword _ locale w ih => exact ih.addKeyword locale w
  | gains _ k ih => exact ih.congr k.wordLists_eq k.keywords_eq
  | drops _ k ih => exact ih.drops k
  | subsume _ _ flags ih _ => exact ih.subsume flags _

end SoftwareCatalog.Component
