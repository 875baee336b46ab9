import SoftwareCatalog.Proofs.Component.Addon
import SoftwareCatalog.Proofs.Store.Operation
import SoftwareCatalog.Proofs.Store.Patching

namespace SoftwareCatalog

theorem pkgnames_reconcile_stored (preferLocal : Bool) (old c : Component) :
    old.pkgnames ⊆ (reconcile preferLocal old c).stored.pkgnames := by
  have hkeeps : twoWay.has .replace = true → c.pkgnames = [] ∨ old.pkgnames ⊆ c.pkgnames := nofun
  have htwoWay : old.pkgnames ⊆ (old.subsume twoWay c).pkgnames :=
    Component.subset_mergeList hkeeps
  rcases reconcile_cases preferLocal old c with h | h | h | ⟨-, h⟩ <;> rw [h]
  · exact List.Subset.refl _
  · exact List.Subset.refl _
  · exact htwoWay
  · exact htwoWay

/-- A patch takes a package name from the components that it is given to. -/
def TakesName (patch : Component) (p : String) : Prop :=
  patch.mergeKind = .replace ∧ patch.pkgnames ≠ [] ∧ p ∉ patch.pkgnames

theorem pkgnames_patch (c patch : Component) :
    (c.subsume (patchFlags patch) patch).pkgnames =
      mergeList (patchFlags patch) c.pkgnames patch.pkgnames :=
  if_pos (patchFlags_has patch rfl (by decide))

theorem TakesName.not_mem {patch : Component} {p : String} (h : TakesName patch p)
    (c : Component) : p ∉ (c.subsume (patchFlags patch) patch).pkgnames := by
  obtain ⟨hreplace, hsome, hno⟩ := h
  rw [pkgnames_patch]
  unfold mergeList mergeEntries
  rw [if_neg (by simpa using hsome), if_pos ((patchFlags_replace patch).2 hreplace),
    mem_foldl_addNew]
  simpa using hno

theorem mem_pkgnames_patch {patch : Component} {p : String} (h : ¬ TakesName patch p)
    {c : Component} (hp : p ∈ c.pkgnames) :
    p ∈ (c.subsume (patchFlags patch) patch).pkgnames := by
  rw [pkgnames_patch]
  unfold mergeList mergeEntries
  split
  · exact hp
  · rename_i hsome
    rw [mem_foldl_addNew]
    by_cases hreplace : (patchFlags patch).has .replace = true
    · right
      by_contra hno
      exact h ⟨(patchFlags_replace patch).1 hreplace, by simpa using hsome, hno⟩
    · rw [if_neg hreplace]
      exact .inl hp

namespace Store

variable {s t u : Store} {key : Nat} {c old : Component} {p : String}

theorem get?_index (s : Store) (key : Nat) (c : Component) (p : String) :
    (s.index key c).keyByPkgname.get? p =
      if p ∈ c.pkgnames then some key else s.keyByPkgname.get? p := by
  have hfold (names : List String) (m : TextMap Nat) :
      (names.foldl (fun m p => m.insert p key) m).get? p =
        if p ∈ names then some key else m.get? p := by
    induction names generalizing m with
    | nil => simp
    | cons name names ih =>
      rw [List.foldl_cons, ih, TextMap.get?_insert]
      by_cases hp : p = name <;> simp [hp]
  exact hfold c.pkgnames s.keyByPkgname

theorem keyByPkgname_insert (s : Store) (c : Component) (p : String) :
    (s.insert c).keyByPkgname.get? p =
      if p ∈ c.pkgnames then some s.nextKey else s.keyByPkgname.get? p := by
  obtain ⟨records, hinsert⟩ := s.exists_insert c
  rw [hinsert]
  exact get?_index (s.placed c) s.nextKey c p

theorem keyByPkgname_refresh (hc : s.find? key = some c) (previous p : String) :
    (s.refresh key previous).keyByPkgname.get? p =
      if p ∈ c.pkgnames then some key else s.keyByPkgname.get? p := by
  obtain ⟨records, keyByUniqueId, hrefresh⟩ := exists_refresh hc previous
  rw [hrefresh]
  exact get?_index { s with records, keyByUniqueId } key c p

theorem keyByPkgname_removeKey (hc : s.find? key = some c) (p : String) :
    (s.removeKey key).keyByPkgname.get? p =
      if s.keyByPkgname.get? p = some key ∧ p ∈ c.pkgnames then none
      else s.keyByPkgname.get? p := by
  obtain ⟨records, keyByUniqueId, hremove⟩ := exists_removeKey hc
  rw [hremove]
  change (s.keyByPkgname.filter fun p k => !(k == key && c.pkgnames.contains p)).get? p = _
  rw [TextMap.get?_filter]
  cases s.keyByPkgname.get? p with
  | none => simp
  | some k => by_cases hk : k = key <;> by_cases hp : p ∈ c.pkgnames <;> simp [hk, hp, Option.filter]

/-- A package name leads to a record that lists it, if there is one. -/
structure Named (s : Store) (p : String) : Prop where
  right : ∀ k, s.keyByPkgname.get? p = some k → ∃ c, (k, c) ∈ s.entries ∧ p ∈ c.pkgnames
  covered : s.keyByPkgname.get? p = none → ∀ e ∈ s.entries, p ∉ e.2.pkgnames

/-- The record that a package name leads to is there. -/
def LeadsName (s : Store) (p : String) : Prop :=
  ∀ k, s.keyByPkgname.get? p = some k → ∃ c, (k, c) ∈ s.entries

theorem Named.leads (h : s.Named p) : s.LeadsName p := by
  intro k hk
  obtain ⟨c, hc, -⟩ := h.right k hk
  exact ⟨c, hc⟩

theorem named_new (settings : Settings) (reader : Reader) (p : String) :
    (new settings reader).Named p :=
  ⟨nofun, fun _ _ he => absurd he List.not_mem_nil⟩

theorem Named.congr (h : s.Named p) (hentries : t.entries = s.entries)
    (hindex : t.keyByPkgname.get? p = s.keyByPkgname.get? p) : t.Named p := by
  refine ⟨?_, ?_⟩
  · rw [hindex, hentries]
    exact h.right
  · rw [hindex, hentries]
    exact h.covered

/-- Of two catalogs one after the other: the record that a package name led to is gone, and those
that list the name are left as they were. -/
def Deserted (s t : Store) (p : String) : Prop :=
  ∃ key, s.keyByPkgname.get? p = some key ∧ (∀ e ∈ t.entries, e.1 ≠ key) ∧
    (∃ e ∈ t.entries, p ∈ e.2.pkgnames) ∧
    ∀ e ∈ t.entries, p ∈ e.2.pkgnames → e ∈ s.entries

/-- Where no record goes, no package name is deserted. -/
theorem Named.not_deserted (h : s.Named p)
    (hstay : ∀ e ∈ s.entries, ∃ c, (e.1, c) ∈ t.entries) : ¬ Deserted s t p := by
  intro hdeserted
  obtain ⟨key, hkey, hgone, -⟩ := hdeserted
  obtain ⟨c, hc, -⟩ := h.right key hkey
  obtain ⟨d, hd⟩ := hstay _ hc
  exact hgone _ hd rfl

theorem named_insert_of_mem (s : Store) (hp : p ∈ c.pkgnames) : (s.insert c).Named p := by
  have hindex := s.keyByPkgname_insert c p
  rw [if_pos hp] at hindex
  refine ⟨?_, ?_⟩
  · intro n hn
    obtain rfl := Option.some.inj (hindex.symm.trans hn)
    exact ⟨c.bare, (inserted_insert s c).mem_iff.2 (.inr ⟨rfl, rfl⟩), hp⟩
  · intro hnone
    rw [hindex] at hnone
    cases hnone

theorem Named.insert (h : s.Named p) (c : Component) : (s.insert c).Named p := by
  by_cases hp : p ∈ c.pkgnames
  · exact named_insert_of_mem s hp
  · have k := inserted_insert s c
    have hindex := s.keyByPkgname_insert c p
    rw [if_neg hp] at hindex
    refine ⟨?_, ?_⟩
    · intro n hn
      obtain ⟨d, hd, hdp⟩ := h.right n (hindex.symm.trans hn)
      exact ⟨d, k.mem_iff.2 (.inl hd), hdp⟩
    · intro hnone e he
      rcases k.mem_iff.1 he with hin | ⟨-, hnew⟩
      · exact h.covered (hindex.symm.trans hnone) e hin
      · rw [hnew]
        exact hp

theorem keyByPkgname_update (hold : s.find? key = some old) (f : Component → Component)
    (p : String) : (s.update key f).keyByPkgname.get? p =
      if p ∈ (f old).pkgnames then some key else s.keyByPkgname.get? p := by
  rw [update_eq hold, keyByPkgname_refresh (find?_replaced hold (f old))]
  rfl

/-- A change in place that takes no package name away. -/
theorem Named.update (h : s.Named p) (hs : s.Keyed) (hold : s.find? key = some old)
    {f : Component → Component} (hkept : p ∈ old.pkgnames → p ∈ (f old).pkgnames) :
    (s.update key f).Named p := by
  have hentry := mem_entries_of_find? hold
  have hmem {n : Nat} {d : Component} :=
    (altered_update hold f).mem_iff hs hentry (n := n) (d := d)
  have hindex := keyByPkgname_update hold f p
  refine ⟨?_, ?_⟩
  · intro n hn
    rw [hindex] at hn
    split at hn
    · rename_i hp
      obtain rfl := Option.some.inj hn
      exact ⟨_, hmem.2 (.inl ⟨rfl, rfl⟩), hp⟩
    · rename_i hp
      obtain ⟨d, hd, hdp⟩ := h.right n hn
      have hne : n ≠ key := by
        intro heq
        obtain rfl := heq
        obtain rfl := hs.component_eq hd hentry
        exact hp (hkept hdp)
      exact ⟨d, hmem.2 (.inr ⟨hne, hd⟩), hdp⟩
  · intro hnone e he
    rw [hindex] at hnone
    split at hnone
    · cases hnone
    · rename_i hp
      rcases hmem.1 he with ⟨-, hnew⟩ | ⟨-, hin⟩
      · rw [hnew]
        exact hp
      · exact h.covered hnone e hin

theorem mem_update_of_mem (hs : s.Keyed) (hold : s.find? key = some old)
    (f : Component → Component) : ∀ e ∈ s.entries, ∃ c, (e.1, c) ∈ (s.update key f).entries := by
  intro e he
  have hmem {n : Nat} {d : Component} :=
    (altered_update hold f).mem_iff hs (mem_entries_of_find? hold) (n := n) (d := d)
  by_cases hkey : e.1 = key
  · exact ⟨_, hmem.2 (.inl ⟨hkey, rfl⟩)⟩
  · exact ⟨e.2, hmem.2 (.inr ⟨hkey, he⟩)⟩

/-- `t` is `s` after such changes, with what they do to a package name: it leads to where it led or
to a record that was changed, and it leads to one of these if any of them lists it. -/
structure Thinned (p : String) (s t : Store) : Prop where
  names : ∀ e ∈ t.entries, ∃ b, (e.1, b) ∈ s.entries ∧ b.pkgnames = e.2.pkgnames
  right : ∀ k, t.keyByPkgname.get? p = some k → ∃ c, (k, c) ∈ t.entries ∧ p ∈ c.pkgnames ∧
    (s.keyByPkgname.get? p = some k ∨ (k, c) ∉ s.entries)
  renewed : (∃ e ∈ t.entries, p ∈ e.2.pkgnames ∧ e ∉ s.entries) →
    ∃ k c, t.keyByPkgname.get? p = some k ∧ (k, c) ∈ t.entries ∧ (k, c) ∉ s.entries
  lost : t.keyByPkgname.get? p = none → ∀ k, s.keyByPkgname.get? p = some k →
    ∀ e ∈ t.entries, e.1 ≠ k

namespace Thinned

theorem of_named (h : s.Named p) (hentries : t.entries = s.entries)
    (hindex : t.keyByPkgname = s.keyByPkgname) : Thinned p s t where
  names e he := ⟨e.2, hentries ▸ he, rfl⟩
  right k hk := by
    rw [hindex] at hk
    obtain ⟨c, hc, hp⟩ := h.right k hk
    exact ⟨c, hentries ▸ hc, hp, .inl hk⟩
  renewed hsome := by
    obtain ⟨e, he, -, hno⟩ := hsome
    exact absurd (hentries ▸ he) hno
  lost hnone k hk := by
    rw [hindex, hk] at hnone
    cases hnone

theorem same (h : Thinned p s t) (hentries : u.entries = t.entries)
    (hindex : u.keyByPkgname = t.keyByPkgname) : Thinned p s u where
  names := hentries ▸ h.names
  right := hentries ▸ hindex ▸ h.right
  renewed := hentries ▸ hindex ▸ h.renewed
  lost := hentries ▸ hindex ▸ h.lost

/-- A record goes that was not changed yet, at most its package names became more just before. -/
theorem drop (h : Thinned p s t) (ht : t.Keyed) (hold : (key, old) ∈ t.entries)
    (hsame : (key, old) ∈ s.entries) (k : Removed key c t u)
    (hnames : p ∈ old.pkgnames → p ∈ c.pkgnames)
    (hindex : u.keyByPkgname.get? p =
      if t.keyByPkgname.get? p = some key ∧ p ∈ c.pkgnames then none
      else t.keyByPkgname.get? p) : Thinned p s u where
  names e he := h.names e (k.mem_iff.1 he).2
  right n hn := by
    rw [hindex] at hn
    split at hn
    · cases hn
    · rename_i hstays
      obtain ⟨d, hd, hp, hor⟩ := h.right n hn
      have hne : n ≠ key := by
        intro heq
        obtain rfl := heq
        obtain rfl := ht.component_eq hd hold
        exact hstays ⟨hn, hnames hp⟩
      exact ⟨d, k.mem_iff.2 ⟨hne, hd⟩, hp, hor⟩
  renewed hsome := by
    obtain ⟨e, he, hp, hno⟩ := hsome
    obtain ⟨n, d, hn, hd, hdno⟩ := h.renewed ⟨e, (k.mem_iff.1 he).2, hp, hno⟩
    have hne : n ≠ key := by
      intro heq
      obtain rfl := heq
      obtain rfl := ht.component_eq hd hold
      exact hdno hsame
    refine ⟨n, d, ?_, k.mem_iff.2 ⟨hne, hd⟩, hdno⟩
    rw [hindex, if_neg]
    · exact hn
    · exact fun hboth => hne (Option.some.inj (hn.symm.trans hboth.1))
  lost hnone n hn e he := by
    rw [hindex] at hnone
    split at hnone
    · rename_i hboth
      obtain ⟨d, hd, -, hor⟩ := h.right key hboth.1
      obtain rfl := ht.component_eq hd hold
      have hkey := hor.resolve_right fun hno => hno hsame
      have heq : n = key := Option.some.inj (hn.symm.trans hkey)
      rw [heq]
      exact (k.mem_iff.1 he).1
    · exact h.lost hnone n hn e (k.mem_iff.1 he).2

/-- A record is changed in place. -/
theorem renew (h : Thinned p s t) (ht : t.Keyed) {g : Component → Component}
    (hold : (key, old) ∈ t.entries) (k : Altered key g old t u)
    (hnames : (g old).pkgnames = old.pkgnames) (hnew : (key, g old) ∉ s.entries)
    (hindex : u.keyByPkgname.get? p =
      if p ∈ old.pkgnames then some key else t.keyByPkgname.get? p) : Thinned p s u := by
  have hmem {n : Nat} {d : Component} := k.mem_iff ht hold (n := n) (d := d)
  have hself : (key, g old) ∈ u.entries := hmem.2 (.inl ⟨rfl, rfl⟩)
  have hstays {n : Nat} {d : Component} (hd : (n, d) ∈ t.entries) (hp : p ∈ d.pkgnames)
      (hno : p ∉ old.pkgnames) : (n, d) ∈ u.entries := by
    refine hmem.2 (.inr ⟨?_, hd⟩)
    intro heq
    obtain rfl := heq
    obtain rfl := ht.component_eq hd hold
    exact hno hp
  refine ⟨?_, ?_, ?_, ?_⟩
  · intro e he
    rcases hmem.1 he with ⟨hkey, hg⟩ | ⟨-, hin⟩
    · obtain ⟨b, hb, hbp⟩ := h.names _ hold
      exact ⟨b, hkey ▸ hb, by rw [hg, hnames, hbp]⟩
    · exact h.names e hin
  · intro n hn
    rw [hindex] at hn
    split at hn
    · rename_i hp
      obtain rfl := Option.some.inj hn
      exact ⟨g old, hself, hnames ▸ hp, .inr hnew⟩
    · rename_i hp
      obtain ⟨d, hd, hdp, hor⟩ := h.right n hn
      exact ⟨d, hstays hd hdp hp, hdp, hor⟩
  · intro hsome
    obtain ⟨e, he, hp, hno⟩ := hsome
    -- a record that was changed before keeps the name unless the one changed now takes it
    by_cases hold' : p ∈ old.pkgnames
    · exact ⟨key, g old, by rw [hindex, if_pos hold'], hself, hnew⟩
    · rcases hmem.1 he with ⟨-, hg⟩ | ⟨-, hin⟩
      · rw [hg, hnames] at hp
        exact absurd hp hold'
      · obtain ⟨n, d, hn, hd, hdno⟩ := h.renewed ⟨e, hin, hp, hno⟩
        obtain ⟨d', hd', hdp, -⟩ := h.right n hn
        obtain rfl := ht.component_eq hd hd'
        exact ⟨n, d, by rw [hindex, if_neg hold', hn], hstays hd hdp hold', hdno⟩
  · intro hnone n hn e he
    rw [hindex] at hnone
    split at hnone
    · cases hnone
    · rcases hmem.1 he with ⟨hkey, -⟩ | ⟨-, hin⟩
      · exact hkey ▸ h.lost hnone n hn _ hold
      · exact h.lost hnone n hn e hin

theorem leads (h : Thinned p s t) : t.LeadsName p := by
  intro k hk
  obtain ⟨c, hc, -⟩ := h.right k hk
  exact ⟨c, hc⟩

/-- The name is still right afterwards unless it was deserted. -/
theorem named_iff (h : Thinned p s t) (hs : s.Named p) :
    t.Named p ↔ ¬ Deserted s t p := by
  constructor
  · intro hnamed hdeserted
    obtain ⟨key, hkey, hgone, ⟨e, he, hp⟩, hsame⟩ := hdeserted
    cases hk : t.keyByPkgname.get? p with
    | none => exact hnamed.covered hk e he hp
    | some k =>
      obtain ⟨c, hc, hcp, hor⟩ := h.right k hk
      have hbefore := hor.resolve_right fun hno => hno (hsame _ hc hcp)
      exact hgone _ hc (Option.some.inj (hbefore.symm.trans hkey))
  · intro hkept
    refine ⟨?_, ?_⟩
    · intro k hk
      obtain ⟨c, hc, hp, -⟩ := h.right k hk
      exact ⟨c, hc, hp⟩
    · intro hnone e he hp
      cases hkey : s.keyByPkgname.get? p with
      | none =>
        obtain ⟨b, hb, hbp⟩ := h.names e he
        exact hs.covered hkey _ hb (hbp ▸ hp)
      | some key =>
        refine hkept ⟨key, hkey, h.lost hnone key hkey, ⟨e, he, hp⟩, ?_⟩
        intro f hf hfp
        by_contra hno
        obtain ⟨k, -, hk, -⟩ := h.renewed ⟨f, hf, hfp, hno⟩
        rw [hnone] at hk
        cases hk

end Thinned

end Store

end SoftwareCatalog
