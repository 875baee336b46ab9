import Mathlib.Algebra.BigOperators.Group.Finset.Basic
import SoftwareCatalog.Pool
import SoftwareCatalog.Proofs.TextMap

namespace SoftwareCatalog

namespace PoolSession

inductive Call where
  | intern (slot text : String)
  | own (slot text : String)
  | internInPlace (slot : String)
  | drop (slot : String)
  | purge

def call (s : PoolSession) : Call → PoolSession
  | .intern slot text => s.intern slot text
  | .own slot text => s.own slot text
  | .internInPlace slot => (s.internInPlace? slot).getD s
  | .drop slot => s.drop slot
  | .purge => s.purge.2

def run (s : PoolSession) (calls : List Call) : PoolSession := calls.foldl call s

end PoolSession

/-- What a slot holds, whatever its allocation: a text, and whether the pool gave it. -/
structure Holding where
  text : String
  pooled : Bool
deriving DecidableEq

/-- What calls on a pool mean without allocations. -/
@[ext] structure Ledger where
  /-- The texts that were pooled and not purged since. -/
  texts : Finset String := ∅
  holdings : TextMap Holding := .empty

namespace Ledger

/-- Some slot holds the text as the pool gave it. -/
def InUse (l : Ledger) (text : String) : Prop := ∃ slot, l.holdings.get? slot = some ⟨text, true⟩

theorem inUse_iff {l : Ledger} {text : String} :
    l.InUse text ↔ (⟨text, true⟩ : Holding) ∈ l.holdings.values := by
  simp [InUse, TextMap.values, TextMap.get?_eq_some_iff]

instance (l : Ledger) : DecidablePred l.InUse := fun _ => decidable_of_iff _ inUse_iff.symm

/-- The pool gives a text to a slot. -/
def intern (l : Ledger) (slot text : String) : Ledger where
  texts := insert text l.texts
  holdings := l.holdings.insert slot ⟨text, true⟩

def call (l : Ledger) : PoolSession.Call → Ledger
  | .intern slot text => l.intern slot text
  | .own slot text => { l with holdings := l.holdings.insert slot ⟨text, false⟩ }
  | .internInPlace slot => (l.holdings.get? slot).elim l fun h => l.intern slot h.text
  | .drop slot => { l with holdings := l.holdings.erase slot }
  | .purge => { l with texts := l.texts.filter l.InUse }

def run (l : Ledger) (calls : List PoolSession.Call) : Ledger := calls.foldl call l

end Ledger

/-- Whether the pool holds this very allocation of a text. -/
def Pool.gave (p : Pool) (h : Handle) : Bool := p.allocations.get? h.text = some h.allocation

namespace PoolSession

/-- The ledger of a session. -/
def ledger (s : PoolSession) : Ledger where
  texts := s.pool.allocations.keys.toFinset
  holdings := s.slots.map fun h => ⟨h.text, s.pool.gave h⟩

/-- The pool or a slot holds the handle. -/
def Refers (s : PoolSession) (h : Handle) : Prop :=
  s.pool.gave h = true ∨ ∃ slot, s.slots.get? slot = some h

/-- An allocation has one text, and slots share none but those of the pool. -/
structure Sound (s : PoolSession) : Prop where
  single : ∀ h k, s.Refers h → s.Refers k → h.allocation = k.allocation → h = k
  below : ∀ h, s.Refers h → h.allocation < s.pool.nextAllocation
  shared : ∀ a b h, s.slots.get? a = some h → s.slots.get? b = some h → a ≠ b → s.pool.gave h = true

variable {s t : PoolSession} {slot text : String} {h k : Handle}

theorem held_iff : s.held h = true ↔ ∃ slot, s.slots.get? slot = some h := by
  simp [held, TextMap.values, TextMap.get?_eq_some_iff]

theorem gave_iff {p : Pool} : p.gave h = true ↔ p.allocations.get? h.text = some h.allocation := by
  simp [Pool.gave]

theorem get?_holdings (s : PoolSession) (slot : String) : s.ledger.holdings.get? slot =
    (s.slots.get? slot).map fun h => ⟨h.text, s.pool.gave h⟩ :=
  TextMap.get?_map ..

theorem mem_texts_ledger : text ∈ s.ledger.texts ↔ ∃ n, s.pool.allocations.get? text = some n := by
  rw [ledger, List.mem_toFinset, TextMap.mem_keys]

theorem sound_new : Sound {} := by
  have hnone (h : Handle) : ¬Refers {} h := by
    rintro (hgave | ⟨slot, hslot⟩)
    · cases gave_iff.1 hgave
    · cases hslot
  exact ⟨fun h _ hh => absurd hh (hnone h), fun h hh => absurd hh (hnone h), nofun⟩

theorem held_iff_inUse {n : Nat} (hn : s.pool.allocations.get? text = some n) :
    s.held ⟨text, n⟩ = true ↔ s.ledger.InUse text := by
  rw [held_iff]
  simp only [Ledger.InUse, get?_holdings, Option.map_eq_some_iff, Holding.mk.injEq]
  constructor
  · rintro ⟨slot, hslot⟩
    exact ⟨slot, _, hslot, rfl, gave_iff.2 hn⟩
  · rintro ⟨slot, ⟨text', m⟩, hslot, rfl, hgave⟩
    have hm : n = m := by simpa [hn] using gave_iff.1 hgave
    exact ⟨slot, hm ▸ hslot⟩

/-- The answer is a handle of the pool, or it has an allocation that nothing had before. -/
structure Gives (p : Pool) (r : Handle × Pool) : Prop where
  keeps : ∀ h, p.gave h = true → r.2.gave h = true
  adds : ∀ h, r.2.gave h = true → p.gave h = true ∨ h = r.1
  fresh : p.gave r.1 = true ∧ r.2.nextAllocation = p.nextAllocation ∨
    r.1.allocation = p.nextAllocation ∧ r.2.nextAllocation = p.nextAllocation + 1

theorem gives_own (p : Pool) (text : String) : Gives p (p.own text) where
  keeps _ h := h
  adds _ h := .inl h
  fresh := .inr ⟨rfl, rfl⟩

theorem gives_intern (p : Pool) (text : String) : Gives p (p.intern text) := by
  rw [Pool.intern]
  cases hn : p.allocations.get? text with
  | some n => exact ⟨fun _ h => h, fun _ h => .inl h, .inl ⟨gave_iff.2 hn, rfl⟩⟩
  | none =>
    refine ⟨?_, ?_, .inr ⟨rfl, rfl⟩⟩
    · intro h hgave
      have hne : h.text ≠ text := by
        rintro rfl
        simp [gave_iff.1 hgave] at hn
      simpa [gave_iff, hne] using hgave
    · intro h hgave
      rw [gave_iff, TextMap.get?_insert] at hgave
      split at hgave
      · rename_i htext
        cases h
        cases htext
        cases hgave
        exact .inr rfl
      · exact .inl (gave_iff.2 hgave)

@[simp] theorem text_intern (p : Pool) (text : String) : (p.intern text).1.text = text := by
  rw [Pool.intern]
  split <;> rfl

theorem gave_intern (p : Pool) (text : String) :
    (p.intern text).2.gave (p.intern text).1 = true := by
  rw [gave_iff, Pool.intern]
  split
  · assumption
  · simp

theorem get?_intern (p : Pool) (text other : String) :
    (∃ n, (p.intern text).2.allocations.get? other = some n) ↔
      other = text ∨ ∃ n, p.allocations.get? other = some n := by
  rw [Pool.intern]
  split <;> rename_i hn
  · refine ⟨.inr, ?_⟩
    rintro (rfl | h)
    · exact ⟨_, hn⟩
    · exact h
  · by_cases hother : other = text <;> simp [hother]

variable {r : Handle × Pool}

theorem Gives.refers_put (hr : Gives s.pool r) (h : (s.put slot r).Refers k) :
    s.Refers k ∨ k = r.1 := by
  obtain hgave | ⟨slot', hslot'⟩ := h
  · exact (hr.adds k hgave).imp_left .inl
  · simp only [PoolSession.put, TextMap.get?_insert] at hslot'
    split at hslot'
    · exact .inr (Option.some.inj hslot').symm
    · exact .inl (.inr ⟨slot', hslot'⟩)

/-- Nothing refers to a new allocation. -/
theorem Sound.gave_of_refers (hs : Sound s) (hr : Gives s.pool r) (h : s.Refers r.1) :
    s.pool.gave r.1 = true := by
  obtain ⟨hgave, -⟩ | ⟨hnew, -⟩ := hr.fresh
  · exact hgave
  · exact absurd (hs.below _ h) (by omega)

theorem Sound.eq_of_allocation (hs : Sound s) (hr : Gives s.pool r) (hk : s.Refers k)
    (heq : k.allocation = r.1.allocation) : k = r.1 := by
  obtain ⟨hgave, -⟩ | ⟨hnew, -⟩ := hr.fresh
  · exact hs.single k r.1 hk (.inl hgave) heq
  · exact absurd (hs.below k hk) (by omega)

theorem Sound.put (hs : Sound s) (hr : Gives s.pool r) (slot : String) :
    Sound (s.put slot r) := by
  constructor
  case single =>
    intro h k hh hk heq
    obtain hh | rfl := hr.refers_put hh <;> obtain hk | rfl := hr.refers_put hk
    · exact hs.single h k hh hk heq
    · exact hs.eq_of_allocation hr hh heq
    · exact (hs.eq_of_allocation hr hk heq.symm).symm
    · rfl
  case below =>
    intro h hh
    change h.allocation < r.2.nextAllocation
    obtain ⟨hgave, hnext⟩ | ⟨hnew, hnext⟩ := hr.fresh <;> obtain hh | rfl := hr.refers_put hh
    · exact hnext ▸ hs.below h hh
    · exact hnext ▸ hs.below r.1 (.inl hgave)
    · have := hs.below h hh
      omega
    · omega
  case shared =>
    -- only an answer that the pool held before can be in another slot too
    intro a b h ha hb hab
    simp only [PoolSession.put, TextMap.get?_insert] at ha hb
    apply hr.keeps
    split at ha <;> split at hb
    · rename_i hslot hslot'
      exact absurd (hslot.trans hslot'.symm) hab
    · cases ha
      exact hs.gave_of_refers hr (.inr ⟨b, hb⟩)
    · cases hb
      exact hs.gave_of_refers hr (.inr ⟨a, ha⟩)
    · exact hs.shared a b h ha hb hab

theorem Sound.of_refers (hs : Sound s) (hnext : t.pool.nextAllocation = s.pool.nextAllocation)
    (hrefers : ∀ h, t.Refers h → s.Refers h)
    (hshared : ∀ a b h, t.slots.get? a = some h → t.slots.get? b = some h → a ≠ b →
      t.pool.gave h = true) : Sound t where
  single h k hh hk := hs.single h k (hrefers h hh) (hrefers k hk)
  below h hh := hnext ▸ hs.below h (hrefers h hh)
  shared := hshared

theorem Sound.drop (hs : Sound s) (slot : String) : Sound (s.drop slot) := by
  have hslots {a : String} {h : Handle} (ha : (s.drop slot).slots.get? a = some h) :
      s.slots.get? a = some h := by
    simp only [PoolSession.drop, TextMap.get?_erase] at ha
    split at ha
    · cases ha
    · exact ha
  refine hs.of_refers rfl (fun h hh => ?_) fun a b h ha hb => ?_
  · exact hh.imp_right fun ⟨a, ha⟩ => ⟨a, hslots ha⟩
  · exact hs.shared a b h (hslots ha) (hslots hb)

theorem gave_purge : s.purge.2.pool.gave h = (s.pool.gave h && s.held h) := by
  rw [Bool.eq_iff_iff, Bool.and_eq_true, gave_iff, gave_iff]
  change (s.pool.allocations.filter _).get? h.text = _ ↔ _
  rw [TextMap.get?_filter, Option.filter_eq_some_iff]

theorem Sound.purge (hs : Sound s) : Sound s.purge.2 := by
  refine hs.of_refers rfl (fun h hh => ?_) fun a b h ha hb hab => ?_
  · refine hh.imp_left fun hgave => ?_
    rw [gave_purge, Bool.and_eq_true] at hgave
    exact hgave.1
  · rw [gave_purge, Bool.and_eq_true]
    exact ⟨hs.shared a b h ha hb hab, held_iff.2 ⟨a, ha⟩⟩

/-- An answer changes no other slot's standing. -/
theorem Sound.holdings_put (hs : Sound s) (hr : Gives s.pool r) (slot : String) :
    (s.put slot r).ledger.holdings =
      s.ledger.holdings.insert slot ⟨r.1.text, r.2.gave r.1⟩ := by
  apply TextMap.ext_get?
  intro slot'
  rw [get?_holdings, TextMap.get?_insert, get?_holdings]
  simp only [PoolSession.put, TextMap.get?_insert]
  split
  · rfl
  · refine Option.map_congr fun h hh => ?_
    have hrefers : s.Refers h := .inr ⟨slot', hh⟩
    have hgave : r.2.gave h = s.pool.gave h := by
      rw [Bool.eq_iff_iff]
      refine ⟨fun hnew => ?_, hr.keeps h⟩
      obtain hold | rfl := hr.adds h hnew
      · exact hold
      · exact hs.gave_of_refers hr hrefers
    rw [hgave]

theorem Sound.ledger_intern (hs : Sound s) (slot text : String) :
    (s.intern slot text).ledger = s.ledger.intern slot text := by
  apply Ledger.ext
  · ext other
    rw [mem_texts_ledger, Ledger.intern, Finset.mem_insert, mem_texts_ledger]
    exact get?_intern s.pool text other
  · rw [PoolSession.intern, hs.holdings_put (gives_intern s.pool text), gave_intern, text_intern]
    rfl

theorem Sound.ledger_own (hs : Sound s) (slot text : String) :
    (s.own slot text).ledger = s.ledger.call (.own slot text) := by
  have hfresh : (s.pool.own text).2.gave (s.pool.own text).1 = false := by
    rw [Bool.eq_false_iff]
    intro hgave
    exact absurd (hs.below (s.pool.own text).1 (.inl hgave)) (Nat.lt_irrefl _)
  apply Ledger.ext
  · rfl
  · rw [PoolSession.own, hs.holdings_put (gives_own s.pool text), hfresh]
    rfl

theorem ledger_drop (s : PoolSession) (slot : String) :
    (s.drop slot).ledger = s.ledger.call (.drop slot) := by
  apply Ledger.ext
  · rfl
  · apply TextMap.ext_get?
    intro slot'
    simp only [Ledger.call, get?_holdings, PoolSession.drop, TextMap.get?_erase]
    split <;> rfl

theorem ledger_purge (s : PoolSession) : s.purge.2.ledger = s.ledger.call .purge := by
  apply Ledger.ext
  · ext text
    rw [Ledger.call, Finset.mem_filter, mem_texts_ledger, mem_texts_ledger]
    change (∃ n, (s.pool.allocations.filter _).get? text = some n) ↔ _
    simp only [TextMap.get?_filter, Option.filter_eq_some_iff, ← exists_and_right]
    exact exists_congr fun n => and_congr_right held_iff_inUse
  · apply TextMap.ext_get?
    intro slot
    rw [Ledger.call, get?_holdings, get?_holdings]
    change (s.slots.get? slot).map _ = _
    refine Option.map_congr fun h hh => ?_
    rw [gave_purge, held_iff.2 ⟨slot, hh⟩, Bool.and_true]

theorem Sound.call (hs : Sound s) (c : Call) :
    Sound (s.call c) ∧ (s.call c).ledger = s.ledger.call c := by
  cases c with
  | intern slot text => exact ⟨hs.put (gives_intern s.pool text) slot, hs.ledger_intern slot text⟩
  | own slot text => exact ⟨hs.put (gives_own s.pool text) slot, hs.ledger_own slot text⟩
  | internInPlace slot =>
    simp only [PoolSession.call, Ledger.call, internInPlace?, get?_holdings]
    cases s.slots.get? slot with
    | none => exact ⟨hs, rfl⟩
    | some h => exact ⟨hs.put (gives_intern s.pool h.text) slot, hs.ledger_intern slot h.text⟩
  | drop slot => exact ⟨hs.drop slot, ledger_drop s slot⟩
  | purge => exact ⟨hs.purge, ledger_purge s⟩

theorem Sound.run (hs : Sound s) (calls : List Call) :
    Sound (s.run calls) ∧ (s.run calls).ledger = s.ledger.run calls := by
  induction calls generalizing s with
  | nil => exact ⟨hs, rfl⟩
  | cons c calls ih =>
    obtain ⟨hsound, hledger⟩ := hs.call c
    exact ⟨(ih hsound).1, (ih hsound).2.trans (congrArg (Ledger.run · calls) hledger)⟩

theorem Sound.allocation_eq_iff {a b : String} (hs : Sound s) (ha : s.slots.get? a = some h)
    (hb : s.slots.get? b = some k) : h.allocation = k.allocation ↔
      a = b ∨ s.pool.gave h = true ∧ s.pool.gave k = true ∧ h.text = k.text := by
  constructor
  · intro heq
    obtain rfl := hs.single h k (.inr ⟨a, ha⟩) (.inr ⟨b, hb⟩) heq
    by_cases hab : a = b
    · exact .inl hab
    · have hgave := hs.shared a b h ha hb hab
      exact .inr ⟨hgave, hgave, rfl⟩
  · rintro (rfl | ⟨hh, hk, htext⟩)
    · exact congrArg Handle.allocation (Option.some.inj (ha.symm.trans hb))
    · rw [gave_iff] at hh hk
      simpa [htext, hk, eq_comm] using hh

theorem card_texts_ledger (s : PoolSession) : s.ledger.texts.card = s.pool.size := by
  rw [ledger, List.toFinset_card_of_nodup (TextMap.nodup_keys _), TextMap.keys, List.length_map]
  rfl

theorem sum_texts_ledger (s : PoolSession) :
    ∑ text ∈ s.ledger.texts, text.utf8ByteSize = s.usage.bytes := by
  rw [ledger, List.sum_toFinset _ (TextMap.nodup_keys _), List.sum_eq_foldl, List.foldl_map]
  rfl

theorem shared_eq_size_purge (s : PoolSession) : s.usage.shared = s.purge.2.pool.size := by
  change (s.pool.allocations.entries.map _).countP _ = (s.pool.allocations.entries.filter _).length
  rw [List.countP_map, List.countP_eq_length_filter]
  rfl

theorem shared_usage (s : PoolSession) :
    s.usage.shared = (s.ledger.texts.filter s.ledger.InUse).card := by
  rw [shared_eq_size_purge, ← card_texts_ledger, ledger_purge]
  rfl

theorem count_purge (s : PoolSession) :
    s.purge.1 = (s.ledger.texts.filter (¬s.ledger.InUse ·)).card := by
  have hcount : s.purge.1 = s.pool.size - s.purge.2.pool.size := rfl
  have hkept : s.purge.2.pool.size = (s.ledger.texts.filter s.ledger.InUse).card := by
    rw [← shared_eq_size_purge, shared_usage]
  have hall := s.ledger.texts.card_filter_add_card_filter_not s.ledger.InUse
  rw [card_texts_ledger] at hall
  omega

theorem filter_inUse_purge (s : PoolSession) :
    s.purge.2.ledger.texts.filter s.purge.2.ledger.InUse = s.purge.2.ledger.texts := by
  refine Finset.filter_true_of_mem fun text htext => ?_
  rw [ledger_purge] at htext ⊢
  exact (Finset.mem_filter.1 htext).2

theorem get?_purge (s : PoolSession) (text : String) :
    s.purge.2.pool.allocations.get? text =
      if s.ledger.InUse text then s.pool.allocations.get? text else none := by
  change (s.pool.allocations.filter _).get? text = _
  rw [TextMap.get?_filter]
  cases hn : s.pool.allocations.get? text with
  | none => simp
  | some n => simp only [Option.filter_some, held_iff_inUse hn]

/-- The handles and the usage of a session are those that a ledger tells. -/
structure HashConses (s : PoolSession) (l : Ledger) : Prop where
  texts : ∀ slot, (s.slots.get? slot).map (·.text) = (l.holdings.get? slot).map (·.text)
  /-- Two slots share an allocation when they hold one text as the pool gave it. -/
  same : ∀ a b, s.same? a b = (l.holdings.get? a).bind fun h => (l.holdings.get? b).map fun k =>
    a == b || h.pooled && h == k
  usage : s.usage =
    ⟨l.texts.card, ∑ text ∈ l.texts, text.utf8ByteSize, (l.texts.filter l.InUse).card⟩

/-- A purge takes away the texts that no slot holds as the pool gave them, and nothing else. -/
structure PurgesExactly (s : PoolSession) (l : Ledger) : Prop where
  pooled : ∀ text, s.pool.allocations.contains text = true ↔ text ∈ l.texts
  kept : ∀ text, s.purge.2.pool.allocations.get? text =
    if l.InUse text then s.pool.allocations.get? text else none
  count : s.purge.1 = (l.texts.filter (¬l.InUse ·)).card
  slots : s.purge.2.slots = s.slots
  again : s.purge.2.purge.1 = 0
  shared : s.purge.2.usage.shared = s.purge.2.usage.strings

theorem Sound.hashConses (hs : Sound s) : HashConses s s.ledger where
  texts slot := by
    rw [get?_holdings, Option.map_map]
    rfl
  same a b := by
    rw [same?, get?_holdings, get?_holdings]
    cases ha : s.slots.get? a with
    | none => rfl
    | some h =>
      cases hb : s.slots.get? b with
      | none => rfl
      | some k =>
        refine congrArg some ?_
        rw [Bool.eq_iff_iff, beq_iff_eq, hs.allocation_eq_iff ha hb]
        simp only [Bool.or_eq_true, Bool.and_eq_true, beq_iff_eq, Holding.mk.injEq]
        grind
  usage := by
    rw [← shared_usage, card_texts_ledger, sum_texts_ledger]
    rfl

theorem purgesExactly_ledger (s : PoolSession) : PurgesExactly s s.ledger where
  pooled text := by rw [mem_texts_ledger, TextMap.contains, Option.isSome_iff_exists]
  kept := get?_purge s
  count := count_purge s
  slots := rfl
  again := by
    rw [count_purge, Finset.card_eq_zero, Finset.filter_not, filter_inUse_purge, Finset.sdiff_self]
  shared := by
    rw [shared_usage, filter_inUse_purge, card_texts_ledger]
    rfl

/-- Whatever is called on a pool, equal texts that it gave are one allocation, and a purge takes
away the texts that nobody holds from it. -/
theorem run_hash_conses (calls : List Call) :
    HashConses (run {} calls) (Ledger.run {} calls) ∧
      PurgesExactly (run {} calls) (Ledger.run {} calls) := by
  have hnew : ledger {} = {} := rfl
  obtain ⟨hsound, hledger⟩ := sound_new.run calls
  rw [hnew] at hledger
  rw [← hledger]
  exact ⟨hsound.hashConses, purgesExactly_ledger _⟩

example : let s := run {} [.intern "a" "x", .own "b" "x", .intern "c" "y", .drop "c", .purge,
      .internInPlace "b"]
    s.same? "a" "b" = some true ∧ s.usage = ⟨1, 1, 1⟩ := by decide

end PoolSession

end SoftwareCatalog
