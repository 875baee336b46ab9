import SoftwareCatalog.Proofs.Component.Built

namespace SoftwareCatalog

/-- No entry is the same as another one, whichever of the two is asked. -/
def Unalike {α : Type} (same : α → α → Bool) (as : List α) : Prop :=
  as.Pairwise fun a b => same a b = false ∧ same b a = false

/-- Entries with keys are the same both ways or neither way. -/
theorem Distinct.unalike {k : Collection} {as : List k.Entry} (h : Distinct k.same as) :
    Unalike k.same as := by
  apply List.Pairwise.imp _ h
  intro a b hne
  refine ⟨hne, Bool.eq_false_iff.2 ?_⟩
  intro hsame
  have hkey : k.key a = k.key b := ((k.same_iff b a).1 hsame).symm
  rw [(k.same_iff a b).2 hkey] at hne
  cases hne

/-- What comes one by one and never twice. -/
theorem Distinct.nodup {α : Type} [DecidableEq α] {as : List α}
    (h : Distinct (fun a b => decide (a = b)) as) : as.Nodup :=
  List.Pairwise.imp of_decide_eq_false h

namespace Component

/-- A document brings an entry; one that was there already is a fault. -/
inductive Reads (c : Component) : Component → Prop
  | release (r : Release) : Reads c (c.addSourceRelease r)
  | screenshot (s : Screenshot) : Reads c (c.addSourceScreenshot s)
  | contentRating (r : ContentRating) : Reads c (c.addSourceContentRating r)

/-- One call on a description alone. -/
inductive Changes (c : Component) : Component → Prop
  | sets {d : Component} (k : c.Sets d) : Changes c d
  | lists {d : Component} (k : c.Lists d) : Changes c d
  | keyword (locale : Option String) (w : String) : Changes c (c.addKeyword locale w)
  | gains {d : Component} (k : c.Gains d) : Changes c d
  | reads {d : Component} (k : c.Reads d) : Changes c d
  | drops {d : Component} (k : c.Drops d) : Changes c d

/-- A description that calls make, from nothing or from a unique ID, where donors are made in the
same way. -/
inductive Composed : Component → Prop
  | blank : Composed {}
  | ofIdentity (u : UniqueId) : Composed (ofIdentity u)
  | changes {c d : Component} (h : Composed c) (k : c.Changes d) : Composed d
  | subsume {c d : Component} (h : Composed c) (k : Composed d) (flags : SubsumeFlags) :
    Composed (c.subsume flags d)
  | mergedInto {c d : Component} (h : Composed c) (k : Composed d) (flags : SubsumeFlags) :
    Composed (c.mergeWith flags d).1
  | mergedFrom {c d : Component} (h : Composed c) (k : Composed d) (flags : SubsumeFlags) :
    Composed (c.mergeWith flags d).2

variable {c d : Component}

theorem Built.faultIf (h : c.Built) (b : Bool) (f : Fault) :
    (if b then c.addFault f else c).Built := by
  split
  · exact h.sets (.fault f)
  · exact h

/-- A repetition in a document leaves a mark and else is like one from a caller. -/
theorem Built.reads (h : c.Built) (k : c.Reads d) : d.Built := by
  cases k with
  | release r => exact (h.faultIf _ _).gains (.release r)
  | screenshot s => exact (h.faultIf _ _).gains (.screenshot s)
  | contentRating r => exact (h.faultIf _ _).gains (.contentRating r)

theorem Built.changes (h : c.Built) (k : c.Changes d) : d.Built := by
  cases k with
  | sets k => exact h.sets k
  | lists k => exact h.lists k
  | keyword locale w => exact h.keyword locale w
  | gains k => exact h.gains k
  | reads k => exact h.reads k
  | drops k => exact h.drops k

theorem Composed.built (h : c.Composed) : c.Built := by
  induction h with
  | blank => exact .blank
  | ofIdentity u => exact .ofIdentity u
  | changes _ k ih => exact ih.changes k
  | subsume _ _ flags ihc ihd => exact ihc.subsume ihd flags
  | mergedInto _ _ flags ihc ihd => exact (ihc.mergeWith ihd flags).1
  | mergedFrom _ _ flags ihc ihd => exact (ihc.mergeWith ihd flags).2

/-- Nothing is said twice, as each kind of entry is told apart. -/
structure Unrepeated (c : Component) : Prop where
  formats : c.formats.Nodup
  words : ∀ ws ∈ [c.categories, c.kudos, c.permissions, c.mimetypes, c.pkgnames, c.architectures,
    c.extendedIds, c.vetoes], ws.Nodup
  keywords : ∀ locale, (c.keywordsIn locale).Nodup
  provides : c.provides.Nodup
  launchables : c.launchables.Nodup
  messageDomains : c.messageDomains.Nodup
  suggests : c.suggests.Nodup
  requires : c.requires.Nodup
  versions : (versions c.releases).Nodup
  screenshots : Unalike Screenshot.same c.screenshots
  reviews : Unalike Review.same c.reviews
  icons : Unalike Icon.same c.icons
  bundles : Unalike Bundle.same c.bundles
  agreements : Unalike Agreement.same c.agreements
  contentRatings : (c.contentRatings.map (·.kind)).Nodup

/-- Of each rating system one rating is kept. -/
theorem nodup_ratingKinds {rs : List ContentRating} (h : Distinct ContentRating.same rs) :
    (rs.map (·.kind)).Nodup := by
  refine List.pairwise_map.2 (List.Pairwise.imp ?_ h)
  intro a b hne heq
  simp [ContentRating.same, heq] at hne

/-- Whatever calls are made, with whatever policies and donors, nothing comes to be said twice. -/
theorem unrepeated_of_composed (h : c.Composed) : Unrepeated c := by
  have hterse : c.Terse := h.built.terse
  have htidy : c.Tidy := h.built.tidy
  have hwords := hterse.list
  simp only [lists, List.forall_mem_cons] at hwords
  obtain ⟨hcategory, hkudo, hpermission, hmimetype, hpkgname, harchitecture, hextended, hveto, -⟩ :=
    hwords
  have hkinds : ∀ k ∈ collections, Distinct k.same (k.get c) := htidy.distinct
  have hunalike : ∀ k ∈ collections, Unalike k.same (k.get c) := fun k hk => (hkinds k hk).unalike
  simp only [collections, List.forall_mem_cons] at hkinds hunalike
  obtain ⟨hformat, hprovide, hlaunchable, hdomain, hsuggest, hrequire, -, -, -, -, hrating, -, -⟩ :=
    hkinds
  obtain ⟨-, -, -, -, -, -, hscreenshot, hreview, hicon, hbundle, -, hagreement, -⟩ := hunalike
  exact
    { formats := Distinct.nodup hformat
      words := by
        simp only [List.forall_mem_cons]
        exact ⟨hcategory, hkudo, hpermission, hmimetype, hpkgname, harchitecture, hextended,
          hveto, fun _ hnone => absurd hnone List.not_mem_nil⟩
      keywords := fun locale => nodup_getD hterse.keyword _
      provides := Distinct.nodup hprovide
      launchables := Distinct.nodup hlaunchable
      messageDomains := Distinct.nodup hdomain
      suggests := Distinct.nodup hsuggest
      requires := Distinct.nodup hrequire
      versions := htidy.versions
      screenshots := hscreenshot
      reviews := hreview
      icons := hicon
      bundles := hbundle
      agreements := hagreement
      contentRatings := nodup_ratingKinds hrating }

/-- What a document says of a program in which the same release and the same rating come twice. -/
def readTwice : Component :=
  let release : Release := ⟨some "1.0", .stable, 0, .unset, .empty, []⟩
  let rating : ContentRating := ⟨"oars-1.1", .empty⟩
  ((((ofId "org.demo.App").addSourceRelease release).addSourceRelease release).addSourceContentRating
    rating).addSourceContentRating rating

/-- It is merged both ways with what another source says of its mimetypes; both sides end up with
one release, one rating and one mimetype. -/
theorem unrepeated_of_readTwice :
    let merged := readTwice.mergeWith twoWay ((ofId "org.demo.App").addMimetype "text/plain")
    merged.2.Composed ∧ Unrepeated merged.2 ∧ merged.2.releases.length = 1 ∧
      merged.2.contentRatings.length = 1 ∧ merged.2.mimetypes = ["text/plain"] := by
  intro merged
  have hblank : (ofId "org.demo.App").Composed := .changes .blank (.sets (.id _))
  have hread : readTwice.Composed :=
    (((hblank.changes (.reads (.release _))).changes (.reads (.release _))).changes
      (.reads (.contentRating _))).changes (.reads (.contentRating _))
  have hother : ((ofId "org.demo.App").addMimetype "text/plain").Composed :=
    hblank.changes (.lists (.mimetype _))
  have hmerged : merged.2.Composed := hread.mergedFrom hother twoWay
  exact ⟨hmerged, unrepeated_of_composed hmerged, by decide +kernel, by decide +kernel,
    by decide +kernel⟩

end Component

end SoftwareCatalog
