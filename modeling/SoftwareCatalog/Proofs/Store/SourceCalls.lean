import Mathlib.Data.List.Induction
import SoftwareCatalog.Proofs.Store.Accounting

namespace SoftwareCatalog.Store

variable {described patched : String → Prop} {s : Store}

theorem fromFile_of_marks {name : String} {w : Watch} {c : Component}
    (h : SourceInfo.Marks { filename := some name, scope := w.scope, arch := w.arch } c) :
    FromFile name c := by
  obtain ⟨kind, hformats⟩ := h.formats
  exact ⟨⟨_, hformats⟩, h.id⟩

theorem fromFile_admitted {name : String} {cs : List Component} (h : ∀ c ∈ cs, FromFile name c)
    (s : Store) : ∀ c ∈ s.admitted cs, FromFile name c := by
  intro c hc
  obtain ⟨d, hd, hid, hformats, -⟩ := mem_admitted hc
  obtain ⟨kind, hkind⟩ := (h d hd).formats
  obtain ⟨x, hx, hne⟩ := (h d hd).id
  exact ⟨⟨kind, hformats.trans hkind⟩, x, hid.trans hx, hne⟩

theorem exists_admitted {cs : List Component} {b : Bool} (s : Store) :
    (∃ c ∈ s.admitted cs, c.mergeKind.isPatch = b) ↔ ∃ c ∈ cs, c.mergeKind.isPatch = b := by
  unfold admitted
  split
  · simp only [List.mem_map, exists_exists_and_eq_and]
    rfl
  · rfl

/-- A load that succeeds adds all that the source has. -/
theorem sameCatalog_loadBytes {bytes : ByteArray} {name : String} {w : Watch}
    {cs : List Component}
    (h : s.reader bytes { filename := some name, scope := w.scope, arch := w.arch } = .ok cs) :
    ∃ ready, SameCatalog s ready ∧
      SameCatalog ((s.admitted cs).foldl add ready) (s.loadBytes bytes name w).2 := by
  refine ⟨s.inhibit.2.inhibit.2, ?_, ?_⟩
  · exact s.sameCatalog_inhibit.trans s.inhibit.2.sameCatalog_inhibit
  · rw [loadBytes_of_ok h]
    have hdone := sameCatalog_release ((s.admitted cs).foldl add s.inhibit.2.inhibit.2)
      s.inhibit.2.inhibit.1
    exact (hdone.trans (sameCatalog_attachAddons _)).trans (sameCatalog_release _ _)

/-- Reading a source yields a component that is a patch, or one that is none. -/
def Yields (patch : Bool) (bytes : ByteArray) (name : String) (w : Watch) : Prop :=
  ∃ cs, Reader.any bytes { filename := some name, scope := w.scope, arch := w.arch } = .ok cs ∧
    ∃ c ∈ cs, c.mergeKind.isPatch = patch

theorem Accounts.load (h : Accounts described patched s) (bytes : ByteArray) (name : String)
    (w : Watch) :
    Accounts (fun n => described n ∨ n = name ∧ Yields false bytes name w)
      (fun n => patched n ∨ n = name ∧ Yields true bytes name w)
      (s.loadBytes bytes name w).2 := by
  cases hread : s.reader bytes { filename := some name, scope := w.scope, arch := w.arch } with
  | error e =>
    rw [loadBytes_of_error hread]
    rw [h.reader] at hread
    have hnone (b : Bool) : ¬ Yields b bytes name w := by
      intro hsome
      obtain ⟨cs, hcs, -⟩ := hsome
      rw [hread] at hcs
      cases hcs
    have hsame : SameCatalog s (s.inhibit.2.release s.inhibit.1) :=
      s.sameCatalog_inhibit.trans (sameCatalog_release _ _)
    apply (h.congr hsame).iff
    all_goals
      intro n
      simp [hnone]
  | ok cs =>
    obtain ⟨ready, hready, hload⟩ := sameCatalog_loadBytes hread
    rw [h.reader] at hread
    have hyields (b : Bool) :
        Yields b bytes name w ↔ ∃ c ∈ s.admitted cs, c.mergeKind.isPatch = b := by
      rw [s.exists_admitted]
      constructor
      · intro hsome
        obtain ⟨ds, hds, hall⟩ := hsome
        rw [hread] at hds
        rw [Except.ok.inj hds]
        exact hall
      · intro hall
        exact ⟨cs, hread, hall⟩
    have hfrom : ∀ c ∈ cs, FromFile name c :=
      fun c hc => fromFile_of_marks (Reader.marks_any hread c hc)
    have hadded := ((h.congr hready).adds (fromFile_admitted hfrom s)).congr hload
    apply hadded.iff
    all_goals
      intro n
      rw [hyields]

theorem holds_removeBySourceFile (hs : s.WellIndexed) (name : String) {n : String} :
    (s.removeBySourceFile name).2.Holds n ↔ s.Holds n ∧ n ≠ name := by
  have hleft {d : Component} {f : Format} :
      f ∈ (d.removeFormatsOf name).formats ↔ f ∈ d.formats ∧ f.filename ≠ some name := by
    simp [Component.removeFormatsOf]
  rw [holds_iff, holds_iff]
  constructor
  · intro hsome
    obtain ⟨⟨k, c⟩, he, f, hf, hn⟩ := hsome
    obtain ⟨d, hd, rfl, -⟩ := (mem_removeBySourceFile_iff hs name).1 he
    obtain ⟨hfd, hname⟩ := hleft.1 hf
    refine ⟨⟨_, hd, f, hfd, hn⟩, ?_⟩
    intro heq
    exact hname (heq ▸ hn)
  · intro hboth
    obtain ⟨⟨⟨k, d⟩, hd, f, hf, hn⟩, hne⟩ := hboth
    have hother : f.filename ≠ some name := by
      rw [hn]
      exact fun heq => hne (Option.some.inj heq)
    have hfd : f ∈ (d.removeFormatsOf name).formats := hleft.2 ⟨hf, hother⟩
    have hstays : (k, d.removeFormatsOf name) ∈ (s.removeBySourceFile name).2.entries :=
      (mem_removeBySourceFile_iff hs name).2 ⟨d, hd, rfl, fun _ => List.ne_nil_of_mem hfd⟩
    exact ⟨_, hstays, f, hfd, hn⟩

/-- A patch has one format, so it goes with one file only. -/
theorem holdsPatch_removeBySourceFile
    (hfiled : ∀ id, ∀ p ∈ s.patchesFor id, ∃ kind name, p.formats = [⟨kind, some name⟩])
    (name : String) {n : String} :
    (s.removeBySourceFile name).2.HoldsPatch n ↔ s.HoldsPatch n ∧ n ≠ name := by
  unfold HoldsPatch
  simp only [patchesFor_removeBySourceFile, List.mem_filter]
  constructor
  · intro hsome
    obtain ⟨id, p, ⟨hp, hnot⟩, f, hf, hn⟩ := hsome
    refine ⟨⟨id, p, hp, f, hf, hn⟩, ?_⟩
    intro heq
    have hany : p.hasSourceFile name = true :=
      List.any_eq_true.2 ⟨f, hf, by simp [hn, heq]⟩
    simp [hany] at hnot
  · intro hboth
    obtain ⟨⟨id, p, hp, f, hf, hn⟩, hne⟩ := hboth
    obtain ⟨kind, file, hformats⟩ := hfiled id p hp
    have hnot : p.hasSourceFile name = false := by
      rw [hformats, List.mem_singleton] at hf
      rw [hf] at hn
      have hfile : file = n := Option.some.inj hn
      simp [Component.hasSourceFile, hformats, hfile, hne]
    exact ⟨id, p, ⟨hp, by simp [hnot]⟩, f, hf, hn⟩

theorem Accounts.remove (h : Accounts described patched s) (name : String) :
    Accounts (fun n => described n ∧ n ≠ name) (fun n => patched n ∧ n ≠ name)
      (s.removeBySourceFile name).2 := by
  have hsteps := edits_removeBySourceFile s name
  have hformats : ∀ e ∈ s.entries, e.2.formats ≠ [] := fun e he => (h.filed e he).1
  refine ⟨hsteps.setup.reader.trans h.reader, h.wellIndexed.edits hsteps, ?_, ?_, ?_, ?_⟩
  · intro e he
    obtain ⟨hne, d, hd, hstripped⟩ := (mem_removeBySourceFile h.wellIndexed hformats name).1 he
    refine ⟨hne, ?_⟩
    intro f hf
    rw [hstripped] at hf
    exact (h.filed _ hd).2 f (List.mem_of_mem_filter hf)
  · intro id p hp
    rw [patchesFor_removeBySourceFile] at hp
    exact h.patchFiled id p (List.mem_of_mem_filter hp)
  · intro n
    rw [holds_removeBySourceFile h.wellIndexed, h.described n]
  · intro n
    rw [holdsPatch_removeBySourceFile h.patchFiled, h.patched n]

/-- A call that loads a source or takes a file back. -/
inductive SourceCall where
  | load (bytes : ByteArray) (name : String) (w : Watch)
  | remove (name : String)

def call (s : Store) : SourceCall → Store
  | .load bytes name w => (s.loadBytes bytes name w).2
  | .remove name => (s.removeBySourceFile name).2

/-- The catalog after calls on an empty one that reads all supported sources. -/
def afterCalls (settings : Settings) (calls : List SourceCall) : Store :=
  calls.foldl call (new settings Reader.any)

/-- A load of a file yielded a patch, or a component that is none, and the file was not taken back
since. -/
def Contributed (patch : Bool) (calls : List SourceCall) (name : String) : Prop :=
  ∃ before bytes w after, calls = before ++ .load bytes name w :: after ∧
    Yields patch bytes name w ∧ .remove name ∉ after

theorem contributed_append {patch : Bool} {calls : List SourceCall} {last : SourceCall}
    {name : String} : Contributed patch (calls ++ [last]) name ↔
      (Contributed patch calls name ∧ last ≠ .remove name) ∨
        ∃ bytes w, last = .load bytes name w ∧ Yields patch bytes name w := by
  constructor
  · intro hsome
    obtain ⟨before, bytes, w, after, hcalls, hyields, hafter⟩ := hsome
    rcases List.eq_nil_or_concat after with rfl | ⟨after, c, rfl⟩
    · have hlast := (List.append_inj' hcalls rfl).2
      exact .inr ⟨bytes, w, (List.singleton_inj.1 hlast), hyields⟩
    · rw [List.concat_eq_append, ← List.cons_append, ← List.append_assoc] at hcalls
      obtain ⟨hbefore, hlast⟩ := List.append_inj' hcalls rfl
      rw [List.concat_eq_append, List.mem_append, not_or] at hafter
      refine .inl ⟨⟨before, bytes, w, after, hbefore, hyields, hafter.1⟩, ?_⟩
      rw [List.singleton_inj.1 hlast]
      intro heq
      obtain rfl := heq
      exact hafter.2 List.mem_cons_self
  · intro heither
    rcases heither with ⟨hbefore, hlast⟩ | ⟨bytes, w, rfl, hyields⟩
    · obtain ⟨before, bytes, w, after, rfl, hyields, hafter⟩ := hbefore
      refine ⟨before, bytes, w, after ++ [last], by simp, hyields, ?_⟩
      simp [hafter, Ne.symm hlast]
    · exact ⟨calls, bytes, w, [], rfl, hyields, by simp⟩

theorem accounts_new (settings : Settings) :
    Accounts (Contributed false []) (Contributed true []) (new settings Reader.any) := by
  have hnone (patch : Bool) (name : String) : ¬ Contributed patch [] name := by
    intro hsome
    obtain ⟨before, bytes, w, after, hcalls, -⟩ := hsome
    simp at hcalls
  have hentries : (new settings Reader.any).entries = [] := rfl
  have hpatches (id : String) : (new settings Reader.any).patchesFor id = [] := rfl
  refine ⟨rfl, wellIndexed_new settings Reader.any, ?_, ?_, ?_, ?_⟩
  · simp [hentries]
  · simp [hpatches]
  · intro n
    simp [holds_iff, hentries, hnone]
  · intro n
    simp [HoldsPatch, hpatches, hnone]

theorem accounts_run (settings : Settings) (calls : List SourceCall) :
    Accounts (Contributed false calls) (Contributed true calls) (afterCalls settings calls) := by
  induction calls using List.reverseRecOn with
  | nil => exact accounts_new settings
  | append_singleton calls last ih =>
    rw [afterCalls, List.foldl_append]
    cases last with
    | load bytes name w =>
      apply (ih.load bytes name w).iff
      all_goals
        intro n
        rw [contributed_append]
        constructor
        · intro heither
          rcases heither with h | ⟨rfl, hyields⟩
          · exact .inl ⟨h, nofun⟩
          · exact .inr ⟨bytes, w, rfl, hyields⟩
        · intro heither
          rcases heither with ⟨h, -⟩ | ⟨bytes', w', heq, hyields⟩
          · exact .inl h
          · obtain ⟨rfl, rfl, rfl⟩ := SourceCall.load.inj heq
            exact .inr ⟨rfl, hyields⟩
    | remove name =>
      apply (ih.remove name).iff
      all_goals
        intro n
        rw [contributed_append]
        constructor
        · intro hboth
          obtain ⟨h, hne⟩ := hboth
          exact .inl ⟨h, fun heq => hne (SourceCall.remove.inj heq).symm⟩
        · intro heither
          rcases heither with ⟨h, hne⟩ | ⟨bytes, w, heq, -⟩
          · refine ⟨h, ?_⟩
            intro heq
            obtain rfl := heq
            exact hne rfl
          · cases heq

/-- Taking back every file that was loaded leaves no file behind. -/
theorem not_contributed_after_removal {patch : Bool} {calls : List SourceCall}
    {names : List String} (h : ∀ bytes name w, .load bytes name w ∈ calls → name ∈ names)
    (name : String) : ¬ Contributed patch (calls ++ names.map .remove) name := by
  intro hsome
  obtain ⟨before, bytes, w, after, hcalls, -, hafter⟩ := hsome
  have hremove : ∀ n ∈ names, SourceCall.remove n ∈ names.map SourceCall.remove :=
    fun n hn => List.mem_map_of_mem hn
  rcases List.append_eq_append_iff.1 hcalls with ⟨more, hbefore, hnames⟩ | ⟨more, hbefore, hnames⟩
  · -- the load would be one of the removals
    have hload : SourceCall.load bytes name w ∈ names.map SourceCall.remove := by
      rw [hnames]
      simp
    obtain ⟨n, -, hn⟩ := List.mem_map.1 hload
    cases hn
  · cases more with
    | nil =>
      have hload : SourceCall.load bytes name w ∈ names.map SourceCall.remove := by
        rw [← List.nil_append (names.map _), ← hnames]
        exact List.mem_cons_self
      obtain ⟨n, -, hn⟩ := List.mem_map.1 hload
      cases hn
    | cons first more =>
      rw [List.cons_append] at hnames
      obtain ⟨hfirst, hrest⟩ := List.cons.inj hnames
      have hloaded : SourceCall.load bytes name w ∈ calls := by
        rw [hbefore, hfirst]
        simp
      apply hafter
      rw [hrest]
      exact List.mem_append_right _ (hremove name (h bytes name w hloaded))

theorem Accounts.empty_of_none (h : Accounts described patched s)
    (hdescribed : ∀ n, ¬ described n) (hpatched : ∀ n, ¬ patched n) :
    s.components = [] ∧ ∀ id, s.patchesFor id = [] := by
  refine ⟨?_, ?_⟩
  · rw [List.eq_nil_iff_forall_not_mem]
    intro c hc
    obtain ⟨r, hr, rfl⟩ := List.mem_map.1 hc
    obtain ⟨hne, hnames⟩ := h.filed _ (List.mem_map_of_mem hr)
    obtain ⟨f, hf⟩ := List.exists_mem_of_ne_nil _ hne
    obtain ⟨n, hn⟩ := Option.ne_none_iff_exists'.1 (hnames f hf)
    exact hdescribed n ((h.described n).1 ⟨_, hc, f, hf, hn⟩)
  · intro id
    rw [List.eq_nil_iff_forall_not_mem]
    intro p hp
    obtain ⟨kind, n, hformats⟩ := h.patchFiled id p hp
    exact hpatched n ((h.patched n).1 ⟨id, p, hp, _, hformats ▸ List.mem_cons_self, rfl⟩)

/-- However loads and removals follow each other, the files behind the stored components are those
that contributed since they were last taken back, and likewise for patches. No component is without
a source, a load that fails changes nothing, and taking back all files empties the catalog. -/
theorem sources_accounted (settings : Settings) (calls : List SourceCall) :
    (∀ name, (afterCalls settings calls).Holds name ↔ Contributed false calls name) ∧
    (∀ c ∈ (afterCalls settings calls).components, c.formats ≠ []) ∧
    (∀ name, (afterCalls settings calls).HoldsPatch name ↔ Contributed true calls name) ∧
    (∀ bytes name w e, ((afterCalls settings calls).loadBytes bytes name w).1 = .error e →
      ((afterCalls settings calls).loadBytes bytes name w).2.components =
        (afterCalls settings calls).components ∧
      ((afterCalls settings calls).loadBytes bytes name w).2.patches =
        (afterCalls settings calls).patches) ∧
    (∀ names : List String,
      (∀ bytes name w, SourceCall.load bytes name w ∈ calls → name ∈ names) →
      (afterCalls settings (calls ++ names.map SourceCall.remove)).components = [] ∧
      ∀ id, (afterCalls settings (calls ++ names.map SourceCall.remove)).patchesFor id = []) := by
  have hs := accounts_run settings calls
  refine ⟨hs.described, ?_, hs.patched, ?_, ?_⟩
  · intro c hc
    obtain ⟨r, hr, rfl⟩ := List.mem_map.1 hc
    exact (hs.filed _ (List.mem_map_of_mem hr)).1
  · intro bytes name w e herror
    cases hread : (afterCalls settings calls).reader bytes
        { filename := some name, scope := w.scope, arch := w.arch } with
    | error e' =>
      rw [loadBytes_of_error hread]
      exact ⟨rfl, rfl⟩
    | ok cs =>
      rw [loadBytes_of_ok hread] at herror
      cases herror
  · intro names hnames
    have hgone := accounts_run settings (calls ++ names.map SourceCall.remove)
    exact hgone.empty_of_none (not_contributed_after_removal hnames)
      (not_contributed_after_removal hnames)

end SoftwareCatalog.Store
