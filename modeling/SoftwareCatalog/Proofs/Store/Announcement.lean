import SoftwareCatalog.Proofs.Notifier
import SoftwareCatalog.Proofs.Store.Covering
import SoftwareCatalog.Proofs.Store.Operation

namespace SoftwareCatalog.Store

variable {s t : Store} {key : Nat} {c : Component}

theorem notifier_insert (s : Store) (c : Component) :
    (s.insert c).notifier = s.notifier.tell (.added c.uniqueId) := by
  obtain ⟨records, hinsert⟩ := s.exists_insert c
  rw [hinsert]
  rfl

theorem notifier_refresh (hc : s.find? key = some c) (previous : String) :
    (s.refresh key previous).notifier = s.notifier.tell (.modified c.uniqueId) := by
  obtain ⟨records, keyByUniqueId, hrefresh⟩ := exists_refresh hc previous
  rw [hrefresh]
  rfl

theorem notifier_update (hc : s.find? key = some c) (f : Component → Component) :
    (s.update key f).notifier = s.notifier.tell (.modified (f c).uniqueId) := by
  rw [update_eq hc, notifier_refresh (find?_replaced hc (f c))]
  rfl

theorem notifier_removeKey (hc : s.find? key = some c) :
    (s.removeKey key).notifier = s.notifier.tell (.removed c.uniqueId) := by
  obtain ⟨records, keyByUniqueId, hremove⟩ := exists_removeKey hc
  rw [hremove]
  rfl

theorem notifier_attachAddons (s : Store) : s.attachAddons.2.notifier = s.notifier := by
  obtain ⟨records, hattach⟩ := s.exists_attachAddons
  rw [hattach]

theorem notifier_settle (s : Store) : s.settle.notifier = s.notifier := by
  unfold settle
  split <;> rfl

theorem covers_quiet : Covers fun s t => s.notifier.Quiet → t.notifier.Quiet where
  refl _ := id
  trans h k := k ∘ h
  pooled _ _ := id
  patched _ _ := id
  insert s c _ := by
    rw [notifier_insert]
    exact .tell _ _
  refresh h previous _ := by
    rw [notifier_refresh h]
    exact .tell _ _
  removeKey h _ := by
    rw [notifier_removeKey h]
    exact .tell _ _

theorem quiet_move {p : Component → Prop} (h : s.notifier.Quiet) (k : Move p s t) :
    t.notifier.Quiet := by
  cases k with
  | aside => exact h
  | inhibit => exact .inhibit s.notifier
  | release guard => exact h.release guard
  | @add c _ => exact covers_quiet.add s c h
  | remove key => exact covers_quiet.remove s key h
  | strip filename count key => exact covers_quiet.strip filename (count, s) key h
  | forget _ => exact h
  | attachAddons =>
    rw [notifier_attachAddons]
    exact h
  | buildTokens => exact h
  | queryMetadata key value =>
    unfold byMetadata
    split <;> exact h

theorem quiet_run (settings : Settings) (reader : Reader) (ops : List Operation) :
    ((new settings reader).run ops).notifier.Quiet := by
  have hbrings : ∀ op ∈ ops, Operation.Brings (fun _ => True) op := by
    intro op _
    cases op <;> simp [Operation.Brings]
  exact run_induction (fun _ _ => id) (fun _ _ k h => quiet_move h k) (fun _ _ _ _ _ _ => trivial)
    hbrings (fun _ _ _ _ h => h) Notifier.quiet_new

/-- Under a guard, `t` is `s` after some changes of single records were told. -/
def Tells (s t : Store) : Prop :=
  s.notifier.guards ≠ [] → ∃ es, s.notifier.Told es t.notifier

theorem Tells.of_eq (h : t.notifier = s.notifier) : Tells s t := by
  intro _
  rw [h]
  exact ⟨[], .refl _⟩

theorem Tells.of_tell {e : ChangeEvent} (h : t.notifier = s.notifier.tell e) (he : e ≠ .changed) :
    Tells s t := by
  intro hguards
  rw [h]
  exact ⟨[e], .tell hguards he⟩

theorem Tells.trans {u : Store} (h : Tells s t) (k : Tells t u) : Tells s u := by
  intro hguards
  obtain ⟨es, hes⟩ := h hguards
  obtain ⟨fs, hfs⟩ := k (hes.guards ▸ hguards)
  exact ⟨es ++ fs, hes.trans hfs⟩

theorem covers_tells : Covers Tells where
  refl _ := .of_eq rfl
  trans := .trans
  pooled _ _ := .of_eq rfl
  patched _ _ := .of_eq rfl
  insert s c := .of_tell (s.notifier_insert c) nofun
  refresh h previous := .of_tell (notifier_refresh h previous) nofun
  removeKey h := .of_tell (notifier_removeKey h) nofun

theorem tells_foldl {α β : Type} {f : β × Store → α → β × Store}
    (h : ∀ r a, Tells r.2 (f r a).2) (as : List α) (r : β × Store) :
    Tells r.2 (as.foldl f r).2 := by
  induction as generalizing r with
  | nil => exact .of_eq rfl
  | cons a as ih => exact (h r a).trans (ih (f r a))

theorem Tells.batch {α : Type} {f : Store → α × Store}
    (h : Tells s.inhibit.2 (f s.inhibit.2).2) : Tells s (s.batch f).2 := by
  intro hguards
  obtain ⟨es, hes⟩ := h nofun
  exact ⟨es, hes.nested hguards⟩

theorem tells_addMany (s : Store) (cs : List Component) : Tells s (s.addMany cs) :=
  Tells.batch (f := fun s => ((), cs.foldl add s)) (covers_tells.foldl covers_tells.add cs _)

theorem tells_loadSource (s : Store) (bytes : ByteArray) (name : String) (w : Watch) :
    Tells s (completed (s.loadSource bytes name w)).2 := by
  have hsource : Tells s (s.loadSource bytes name w).2 := by
    change Tells s (s.ingest bytes _).2
    unfold ingest
    split
    · exact .of_eq rfl
    · exact s.tells_addMany _
  unfold completed
  split
  · exact hsource.trans (.of_eq (notifier_attachAddons _))
  · exact hsource

theorem tells_dropPatchesOf (s : Store) (filename : String) :
    Tells s (s.dropPatchesOf filename) := .of_eq rfl

def Operation.batched : Operation → Bool
  | .addMany _ | .loadBytes .. | .removeById _ | .removeByUniqueId _ | .removeByMetadata ..
  | .removeBySourceFile _ | .removeAll => true
  | _ => false

/-- Such an operation is one batch of changes of single records. -/
theorem exists_batch (s : Store) {op : Operation} (h : op.batched = true) :
    ∃ (α : Type) (f : Store → α × Store), Tells s.inhibit.2 (f s.inhibit.2).2 ∧
      (s.apply op).notifier = (s.batch f).2.notifier := by
  have hremove (keys : List Nat) : Tells s.inhibit.2 (s.inhibit.2.removeEach keys).2 :=
    tells_foldl (fun r key => covers_tells.remove r.2 key) keys (0, s.inhibit.2)
  have hkeys (keys : List Nat) : (s.removeKeys keys).2.notifier =
      (s.batch fun s => s.removeEach keys).2.notifier := notifier_settle _
  cases op with
  | addMany cs =>
    exact ⟨_, fun s => ((), cs.foldl add s), covers_tells.foldl covers_tells.add cs _, rfl⟩
  | loadBytes bytes name w =>
    exact ⟨_, fun s => completed (s.loadSource bytes name w), tells_loadSource _ bytes name w, rfl⟩
  | removeById id => exact ⟨_, _, hremove _, hkeys _⟩
  | removeByUniqueId uniqueId => exact ⟨_, _, hremove _, hkeys _⟩
  | removeByMetadata key value => exact ⟨_, _, hremove _, hkeys _⟩
  | removeBySourceFile filename =>
    have hstrip := tells_foldl (covers_tells.strip filename)
      (s.inhibit.2.keysWhere (·.hasSourceFile filename)) (0, s.inhibit.2)
    exact ⟨_, _, hstrip.trans (tells_dropPatchesOf _ filename), notifier_settle _⟩
  | removeAll => exact ⟨_, _, hremove _, (notifier_settle _).trans (hkeys _)⟩
  | _ => cases h

/-- Of calls on a notifier, and of the operations of a catalog that hold back the general event:
while a guard is alive no general event is sent; the last guard that ends sends one if something
was marked since the first one began; without a guard each mark sends one, and nothing waits. So an
operation that batches its changes and finds no guard alive tells of each single change, and then
once of all, if there was any. -/
theorem changes_batched (settings : Settings) (reader : Reader) :
    (∀ calls : List Notifier.Call,
      ((Notifier.run {} calls).guards = [] → (Notifier.run {} calls).dirty = false) ∧
      (∀ c, ((Notifier.run {} calls).call c).guards ≠ [] →
        ((Notifier.run {} calls).call c).sent = (Notifier.run {} calls).sent) ∧
      (∀ guard, (Notifier.run {} calls).guards = [guard] →
        ∃ batch, Notifier.Since calls batch ∧
          ((Notifier.run {} calls).call (.release guard)).sent =
            (Notifier.run {} calls).sent ++ if .mark ∈ batch then [.changed] else []) ∧
      ((Notifier.run {} calls).guards = [] →
        ((Notifier.run {} calls).call .mark).sent =
          (Notifier.run {} calls).sent ++ [.changed])) ∧
    ∀ (ops : List Operation) (op : Operation), op.batched = true →
      ((new settings reader).run ops).notifier.guards = [] →
      ∃ es, ((new settings reader).run ops).notifier.Announced es
        (((new settings reader).run ops).apply op).notifier := by
  refine ⟨?_, ?_⟩
  · intro calls
    refine ⟨Notifier.quiet_new.run calls, ?_, ?_, ?_⟩
    · intro c halive
      exact Notifier.sent_call_of_guards c halive
    · intro guard hlast
      exact Notifier.sent_release_of_last calls hlast
    · intro hnone
      exact Notifier.sent_mark_of_none hnone
  · intro ops op hbatched hnone
    have hquiet := quiet_run settings reader ops
    generalize (new settings reader).run ops = s at hnone hquiet
    obtain ⟨α, f, htells, hnotifier⟩ := s.exists_batch hbatched
    obtain ⟨es, htold⟩ := htells nofun
    have hannounced := htold.announced hnone (hquiet hnone)
    rw [hnotifier]
    exact ⟨es, hannounced⟩

/-- After a batch from outside ended, a removal tells of what it removed, and then once of all. -/
theorem announced_after_batch :
    ((new ⟨{}, {}, ⟨["en"], 4, true, 3⟩⟩ Reader.any).run
      [.inhibit, .add (.ofId "a"), .release 0]).notifier.guards = [] ∧
    ∃ es, es ≠ [] ∧
      ((new ⟨{}, {}, ⟨["en"], 4, true, 3⟩⟩ Reader.any).run
        [.inhibit, .add (.ofId "a"), .release 0]).notifier.Announced es
      (((new ⟨{}, {}, ⟨["en"], 4, true, 3⟩⟩ Reader.any).run
        [.inhibit, .add (.ofId "a"), .release 0]).apply (.removeById "a")).notifier := by
  have hnone : ((new ⟨{}, {}, ⟨["en"], 4, true, 3⟩⟩ Reader.any).run
      [.inhibit, .add (.ofId "a"), .release 0]).notifier.guards = [] := by decide +kernel
  obtain ⟨es, hannounced⟩ := (changes_batched ⟨{}, {}, ⟨["en"], 4, true, 3⟩⟩ Reader.any).2
    [.inhibit, .add (.ofId "a"), .release 0] (.removeById "a") rfl hnone
  refine ⟨hnone, es, ?_, hannounced⟩
  intro hempty
  have hsent := hannounced.sent
  rw [hempty] at hsent
  exact absurd hsent (by decide +kernel)

end SoftwareCatalog.Store
