import SoftwareCatalog.Proofs.Store.Attachment
import SoftwareCatalog.Proofs.Store.Removal
import SoftwareCatalog.Proofs.Store.Step

namespace SoftwareCatalog

/-- What is left of a record while others go or change. Formats may be gone, and tokens stay with the
attachments, unless an addon was detached or attached anew that extends the component; `moved` tells
which addons that may be. -/
structure Record.Survives (moved : Component → Prop) (q r : Record) : Prop where
  key : r.key = q.key
  bare : ∃ formats, r.component.bare = { q.component.bare with formats }
  tokens : (∃ formats, r = { q with component := { q.component with formats } }) ∨
    r.tokens = none ∧ ∃ a, moved a ∧ a.Extends q.component

namespace Record

variable {moved : Component → Prop} {gone come : String → Prop} {p q r : Record}

theorem Survives.refl (q : Record) : q.Survives moved q :=
  ⟨rfl, ⟨q.component.formats, rfl⟩, .inl ⟨q.component.formats, rfl⟩⟩

theorem Survives.id (h : q.Survives moved r) : r.component.id = q.component.id := by
  obtain ⟨formats, hbare⟩ := h.bare
  have hid := congrArg Component.id hbare
  exact hid

theorem Survives.trans (h : q.Survives moved p) (k : p.Survives moved r) : q.Survives moved r := by
  obtain ⟨earlier, hbefore⟩ := h.bare
  obtain ⟨formats, hafter⟩ := k.bare
  refine ⟨k.key.trans h.key, ⟨formats, by rw [hafter, hbefore]⟩, ?_⟩
  rcases k.tokens with ⟨formats, rfl⟩ | ⟨hnone, a, ha, x, hx, hid⟩
  · rcases h.tokens with ⟨earlier, rfl⟩ | hvoid
    · exact .inl ⟨formats, rfl⟩
    · exact .inr hvoid
  · exact .inr ⟨hnone, a, ha, x, hx, h.id ▸ hid⟩

theorem Relinked.survives (h : q.Relinked gone come r)
    (hmoved : (∃ u, gone u ∨ come u) → ∃ a, moved a ∧ a.Extends q.component) :
    q.Survives moved r := by
  refine ⟨h.key, ⟨q.component.formats, h.bare⟩, ?_⟩
  rcases h.tokens with ⟨rfl, -⟩ | ⟨hnone, hsome⟩
  · exact .inl ⟨r.component.formats, rfl⟩
  · exact .inr ⟨hnone, hmoved hsome⟩

end Record

namespace Store

variable {moved : Component → Prop} {s t u : Store} {key : Nat} {c : Component}

/-- All records of `t` were there in `s`. -/
def Survived (moved : Component → Prop) (s t : Store) : Prop :=
  ∀ r ∈ t.records, ∃ q ∈ s.records, q.Survives moved r

theorem Survived.refl (s : Store) : Survived moved s s := fun r hr => ⟨r, hr, .refl r⟩

theorem Survived.trans (h : Survived moved s t) (k : Survived moved t u) : Survived moved s u := by
  intro r hr
  obtain ⟨p, hp, hafter⟩ := k r hr
  obtain ⟨q, hq, hbefore⟩ := h p hp
  exact ⟨q, hq, hbefore.trans hafter⟩

theorem Survived.same (h : Survived moved s t) (hrecords : u.records = t.records) :
    Survived moved s u := by
  intro r hr
  exact h r (hrecords ▸ hr)

theorem survived_withoutFile (s : Store) (key : Nat) (filename : String) :
    Survived moved s (s.modify key (Record.withoutFile filename)) := by
  intro r hr
  obtain ⟨q, hq, rfl⟩ := List.mem_map.1 hr
  refine ⟨q, hq, ?_⟩
  split
  · exact ⟨rfl, ⟨_, rfl⟩, .inl ⟨_, rfl⟩⟩
  · exact .refl q

theorem survived_refresh (hc : s.find? key = some c) (hmoved : c.kind = .addon → moved c)
    (previous : String) (ht : (s.refresh key previous).WellIndexed) :
    Survived moved s (s.refresh key previous) := by
  intro r hr
  obtain ⟨q, hq, hlink⟩ := relinked_refresh hc previous r hr
  refine ⟨q, hq, hlink.survives ?_⟩
  rintro ⟨u, ⟨hkind, -, hkey⟩ | ⟨hkind, -, hkey⟩⟩
  · exact ⟨c, hmoved hkind, (ht.extended_iff hr hlink).1 hkey⟩
  · exact ⟨c, hmoved hkind, (ht.extended_iff hr hlink).1 hkey⟩

theorem survived_removeKey (key : Nat)
    (hmoved : ∀ c, s.find? key = some c → c.kind = .addon → moved c)
    (ht : (s.removeKey key).WellIndexed) : Survived moved s (s.removeKey key) := by
  cases hc : s.find? key with
  | none =>
    rw [removeKey_of_none hc]
    exact .refl s
  | some c =>
    intro r hr
    obtain ⟨q, hq, -, hlink⟩ := relinked_removeKey hc r hr
    refine ⟨q, hq, hlink.survives ?_⟩
    rintro ⟨u, ⟨hkind, -, hkey⟩ | hno⟩
    · exact ⟨c, hmoved c hc hkind, (ht.extended_iff hr hlink).1 hkey⟩
    · exact hno.elim

theorem survived_stripKey (filename : String) (r : Nat × Store) (key : Nat)
    (hmoved : ∀ c, r.2.find? key = some c → c.kind = .addon → moved (c.removeFormatsOf filename))
    (hr : r.2.WellIndexed) : Survived moved r.2 (stripKey filename r key).2 := by
  have ht := hr.edits (edits_stripKey filename r key)
  unfold stripKey at ht ⊢
  cases hc : r.2.find? key with
  | none => exact .refl r.2
  | some c =>
    rw [hc] at ht
    have hstripped := find?_withoutFile hc filename
    simp only at ht ⊢
    refine Survived.trans (r.2.survived_withoutFile key filename) ?_
    split
    · rename_i hempty
      rw [if_pos hempty] at ht
      refine survived_removeKey key (fun d hd hkind => ?_) ht
      obtain rfl := Option.some.inj (hstripped.symm.trans hd)
      exact hmoved c hc hkind
    · rename_i hleft
      rw [if_neg hleft] at ht
      exact survived_refresh hstripped (hmoved c hc) c.uniqueId ht

/-- A component extends what a stored addon extends that `p` holds of. -/
def Follows (s : Store) (p : Component → Bool) (a : Component) : Prop :=
  ∃ d ∈ s.components, d.kind = .addon ∧ p d = true ∧ d.extendedIds = a.extendedIds

/-- Whatever is left under the key of a record has the kind and the extended IDs of it. -/
theorem Survived.follows {p : Component → Bool} (h : Survived moved s t) (hs : s.Keyed)
    (hkey : key ∈ s.keysWhere p) (hc : t.find? key = some c) (hkind : c.kind = .addon) :
    s.Follows p c := by
  obtain ⟨r, hfound, rfl⟩ := Option.map_eq_some_iff.1 hc
  have hrkey : r.key = key := by simpa using List.find?_some hfound
  obtain ⟨q, hq, hsurvives⟩ := h r (List.mem_of_find?_eq_some hfound)
  obtain ⟨q', hq', hqkey⟩ := List.mem_map.1 hkey
  obtain ⟨hq', hp⟩ := List.mem_filter.1 hq'
  have hsame : q' = q := by
    refine List.inj_on_of_nodup_map hs.nodup_keys hq' hq ?_
    rw [hqkey, ← hrkey, hsurvives.key]
  subst hsame
  obtain ⟨formats, hbare⟩ := hsurvives.bare
  refine ⟨q'.component, List.mem_map_of_mem hq, ?_, hp, ?_⟩
  · exact (congrArg Component.kind hbare).symm.trans hkind
  · exact (congrArg Component.extendedIds hbare).symm

theorem Follows.extends {p : Component → Bool} {a d : Component} (h : s.Follows p a)
    (hextends : a.Extends d) :
    ∃ b ∈ s.components, b.kind = .addon ∧ p b = true ∧ b.Extends d := by
  obtain ⟨b, hb, hkind, hp, hsame⟩ := h
  obtain ⟨x, hx, hid⟩ := hextends
  exact ⟨b, hb, hkind, hp, x, hsame ▸ hx, hid⟩

theorem records_settle (s : Store) : s.settle.records = s.records := by
  unfold settle
  split <;> rfl

/-- A run over the keys of certain records, each step of which takes away or changes no record but
that of its key. -/
theorem survived_foldl {p : Component → Bool} {f : Nat × Store → Nat → Nat × Store}
    (hedits : ∀ r key, Edits r.2 (f r key).2)
    (hstep : ∀ r key, r.2.WellIndexed →
      (∀ c, r.2.find? key = some c → c.kind = .addon → s.Follows p c) →
      Survived (s.Follows p) r.2 (f r key).2)
    (hs : s.Keyed) {keys : List Nat} (hkeys : ∀ key ∈ keys, key ∈ s.keysWhere p) {r : Nat × Store}
    (hr : r.2.WellIndexed) (h : Survived (s.Follows p) s r.2) :
    Survived (s.Follows p) s (keys.foldl f r).2 := by
  induction keys generalizing r with
  | nil => exact h
  | cons key keys ih =>
    obtain ⟨hkey, hrest⟩ := List.forall_mem_cons.1 hkeys
    have hnext := hstep r key hr fun c hc => h.follows hs hkey hc
    exact ih hrest (hr.edits (hedits r key)) (h.trans hnext)

end Store

end SoftwareCatalog
