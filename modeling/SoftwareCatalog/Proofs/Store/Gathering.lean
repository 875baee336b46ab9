import SoftwareCatalog.Proofs.FileTree
import SoftwareCatalog.Proofs.Store.PathRemoval

namespace SoftwareCatalog

/-- All components of a reader bear the mark of their source. -/
def Reader.Marked (r : Reader) : Prop :=
  ∀ bytes source cs, r bytes source = .ok cs → ∀ c ∈ cs, source.Marks c

theorem Reader.Marked.proper {r : Reader} (h : r.Marked) : r.Proper :=
  fun bytes source cs hread c hc => Component.proper_of_id (h bytes source cs hread c hc).id

theorem Reader.marked_any : Reader.any.Marked := fun _ _ _ hread => Reader.marks_any hread

namespace Store

variable {names : String → Prop} {s t u : Store} {name : String}

/-- From one catalog to another one no file went, and only files with certain names came. -/
structure Gathers (names : String → Prop) (s t : Store) : Prop where
  indexed : t.WellIndexed
  reader : t.reader = s.reader
  kept : ∀ n, s.Holds n → t.Holds n
  come : ∀ n, t.Holds n → s.Holds n ∨ names n
  patchCome : ∀ n, t.HoldsPatch n → s.HoldsPatch n ∨ names n

theorem SameCatalog.gathers (h : SameCatalog s t) (hs : s.WellIndexed) : Gathers names s t where
  indexed := hs.same h.sameIndices
  reader := h.reader
  kept _ := h.holds_iff.2
  come _ hn := .inl (h.holds_iff.1 hn)
  patchCome n := by
    rintro ⟨id, p, hp, hname⟩
    rw [h.patchesFor] at hp
    exact .inl ⟨id, p, hp, hname⟩

theorem Gathers.trans (h : Gathers names s t) (k : Gathers names t u) : Gathers names s u where
  indexed := k.indexed
  reader := k.reader.trans h.reader
  kept n hn := k.kept n (h.kept n hn)
  come n hn := (k.come n hn).elim (h.come n) .inr
  patchCome n hn := (k.patchCome n hn).elim (h.patchCome n) .inr

theorem Gathers.add (hs : s.WellIndexed) {c : Component} (hc : FromFile name c)
    (hname : names name) : Gathers names s (s.add c) := by
  obtain ⟨x, hid, -⟩ := hc.id
  have hnamed (n : String) : (∃ f ∈ c.formats, f.filename = some n) → names n :=
    fun h => hc.names_iff.1 h ▸ hname
  have hindexed := hs.step (.add (Component.proper_of_id hc.id))
  cases hpatch : c.mergeKind.isPatch with
  | true =>
    have hformats := formatLists_add_patch hs hid hpatch
    have hholds (n : String) : (s.add c).Holds n ↔ s.Holds n := by
      rw [holds_iff_formatLists, holds_iff_formatLists, hformats]
    exact {
      indexed := hindexed
      reader := (s.setup_add c).reader
      kept := fun n => (hholds n).2
      come := fun n hn => .inl ((hholds n).1 hn)
      patchCome := fun n hn => ((holdsPatch_add hid hpatch).1 hn).imp_right (hnamed n) }
  | false =>
    have hkind : c.mergeKind = .standalone := MergeKind.isPatch_eq_false_iff.1 hpatch
    have hpatches : (s.add c).patches = s.patches := s.patches_add_of_not hpatch
    refine {
      indexed := hindexed
      reader := (s.setup_add c).reader
      kept := fun n hn => (holds_add hs hid hkind).2 (.inl hn)
      come := fun n hn => ((holds_add hs hid hkind).1 hn).imp_right (hnamed n)
      patchCome := ?_ }
    rintro n ⟨id, p, hp, hname⟩
    unfold patchesFor at hp
    rw [hpatches] at hp
    exact .inl ⟨id, p, hp, hname⟩

theorem Gathers.adds (hs : s.WellIndexed) {cs : List Component}
    (hcs : ∀ c ∈ cs, FromFile name c) (hname : names name) :
    Gathers names s (cs.foldl Store.add s) := by
  induction cs generalizing s with
  | nil => exact (SameCatalog.refl s).gathers hs
  | cons c cs ih =>
    have hfirst := Gathers.add hs (hcs c List.mem_cons_self) hname
    exact hfirst.trans (ih hfirst.indexed fun d hd => hcs d (List.mem_cons_of_mem c hd))

/-- Under a guard as without. -/
theorem Gathers.batch {α : Type} {f : Store → α × Store} (hs : s.WellIndexed)
    (h : ∀ t : Store, t.WellIndexed → t.reader = s.reader → Gathers names t (f t).2) :
    Gathers names s (s.batch f).2 := by
  have hinhibit : Gathers names s s.inhibit.2 := s.sameCatalog_inhibit.gathers hs
  have hrun := h s.inhibit.2 hinhibit.indexed hinhibit.reader
  exact (hinhibit.trans hrun).trans ((sameCatalog_release _ _).gathers hrun.indexed)

theorem Gathers.addMany (hs : s.WellIndexed) {cs : List Component}
    (hcs : ∀ c ∈ cs, FromFile name c) (hname : names name) : Gathers names s (s.addMany cs) :=
  Gathers.batch (f := fun s => ((), cs.foldl Store.add s)) hs fun _ ht _ => .adds ht hcs hname

theorem Gathers.loadFile (hs : s.WellIndexed) (hr : s.reader.Marked) (files : FileTree) (w : Watch)
    (hname : names name) : Gathers names s (s.loadFile files w name).2 := by
  unfold Store.loadFile
  cases files.read name with
  | error e => exact (SameCatalog.refl s).gathers hs
  | ok bytes =>
    have hingest : Gathers names s
        (s.ingest bytes { filename := some name, scope := w.scope, arch := w.arch }).2 := by
      cases hread : s.reader bytes { filename := some name, scope := w.scope, arch := w.arch } with
      | error e =>
        rw [ingest_of_error hread]
        exact (SameCatalog.refl s).gathers hs
      | ok cs =>
        rw [ingest_of_ok hread]
        have hfrom : ∀ c ∈ cs, FromFile name c :=
          fun c hc => fromFile_of_marks (hr _ _ _ hread c hc)
        exact .addMany hs (fromFile_admitted hfrom s) hname
    simp only
    split <;> exact hingest

theorem Gathers.loadWatched (hs : s.WellIndexed) (hr : s.reader.Marked) (files : FileTree)
    (w : Watch) (hname : names name) : Gathers names s (s.loadWatched files w name).2 := by
  have hfile := Gathers.loadFile hs hr files w hname
  unfold Store.loadWatched
  split
  · rename_i n t heq
    rw [heq] at hfile
    exact hfile.trans ((sameCatalog_watch t name w).gathers hfile.indexed)
  · exact hfile

/-- Loading files takes none away, and brings in these files only. -/
theorem Gathers.loadEach (hs : s.WellIndexed) (hr : s.reader.Marked) (files : FileTree) (w : Watch)
    (cancel : Cancellation) (done : Nat) {paths : List String} (hpaths : ∀ p ∈ paths, names p) :
    Gathers names s (Store.loadEach files w cancel done s paths).2 := by
  induction paths generalizing s done with
  | nil => exact (SameCatalog.refl s).gathers hs
  | cons path paths ih =>
    have hfirst := Gathers.loadWatched hs hr files w (hpaths path List.mem_cons_self)
    unfold Store.loadEach
    split
    · exact (SameCatalog.refl s).gathers hs
    · generalize s.loadWatched files w path = r at hfirst
      obtain ⟨outcome, t⟩ := r
      cases outcome with
      | error e => exact hfirst
      | ok count =>
        have hrest := ih hfirst.indexed (hfirst.reader ▸ hr) (done + 1)
          fun p hp => hpaths p (List.mem_cons_of_mem path hp)
        exact hfirst.trans hrest

theorem Gathers.completed {r : Outcome × Store} (h : Gathers names s r.2) :
    Gathers names s (Store.completed r).2 := by
  unfold Store.completed
  split
  · exact h.trans ((sameCatalog_attachAddons _).gathers h.indexed)
  · exact h

/-- Loading a directory takes no file away, and brings in files of that directory only. -/
theorem Gathers.loadDirectory (hs : s.WellIndexed) (hr : s.reader.Marked) (files : FileTree)
    (w : Watch) (cancel : Cancellation) (dir : String) :
    Gathers (· ∈ sourcesIn files dir) s (s.loadDirectory files w cancel dir).2 := by
  have hwatch : Gathers (· ∈ sourcesIn files dir) s (s.watch dir w) :=
    (sameCatalog_watch s dir w).gathers hs
  exact hwatch.trans (.loadEach hwatch.indexed hr files w cancel 0 fun _ => id)

theorem Gathers.loadPath (hs : s.WellIndexed) (hr : s.reader.Marked) {files : FileTree} {w : Watch}
    {cancel : Cancellation} {dir : String} (hdir : files.isDirectory dir = true) :
    Gathers (· ∈ sourcesIn files dir) s (s.loadPath files w cancel dir).2 := by
  unfold Store.loadPath
  simp only [hdir, if_true]
  split
  · exact (SameCatalog.refl s).gathers hs
  · refine .batch hs fun t ht hreader => .completed ?_
    exact .loadDirectory ht (hreader ▸ hr) files w cancel dir

end Store

end SoftwareCatalog
