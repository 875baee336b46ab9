import SoftwareCatalog.Proofs.Store.Course

namespace SoftwareCatalog

open Relation

/-- The components of a reader have proper IDs. -/
def Reader.Proper (r : Reader) : Prop :=
  ∀ bytes source cs, r bytes source = .ok cs → ∀ c ∈ cs, c.Proper

namespace Store

/-- All that can change a catalog from outside. -/
inductive Operation where
  | add (c : Component)
  | addMany (cs : List Component)
  | loadBytes (bytes : ByteArray) (name : String) (w : Watch)
  | loadPath (files : FileTree) (w : Watch) (cancel : Cancellation) (path : String)
  | loadUserLocations (files : FileTree) (cancelled : Bool) (dataHome home : Option String)
  | fileChange (files : FileTree) (change : FileChange) (path : String)
  | remove (c : Component)
  | removeById (id : String)
  | removeByUniqueId (uniqueId : String)
  | removeByMetadata (key value : String)
  | removeBySourceFile (filename : String)
  | removeAll
  | attachAddons
  | inhibit
  | release (guard : Nat)
  | purgePool
  | queryMetadata (key value : String)
  | search (query : String)
  | buildTokens
  | withStemmer (stem : Stem.Stemmer)

/-- The catalog after an operation. -/
def apply (s : Store) : Operation → Store
  | .add c => s.add c
  | .addMany cs => s.addMany cs
  | .loadBytes bytes name w => (s.loadBytes bytes name w).2
  | .loadPath files w cancel path => (s.loadPath files w cancel path).2
  | .loadUserLocations files cancelled dataHome home =>
    (s.loadUserLocations files cancelled dataHome home).2
  | .fileChange files change path => (s.onFileChange files change path).2
  | .remove c => (s.remove c).2
  | .removeById id => (s.removeById id).2
  | .removeByUniqueId uniqueId => (s.removeByUniqueId uniqueId).2
  | .removeByMetadata key value => (s.removeByMetadata key value).2
  | .removeBySourceFile filename => (s.removeBySourceFile filename).2
  | .removeAll => s.removeAll
  | .attachAddons => s.attachAddons.2
  | .inhibit => s.inhibit.2
  | .release guard => s.release guard
  | .purgePool => s.purgePool.2
  | .queryMetadata key value => (s.byMetadata key value).2
  | .search query => (s.search query).2
  | .buildTokens => s.buildTokens
  | .withStemmer stem => s.withStemmer stem

def run (s : Store) (ops : List Operation) : Store := ops.foldl apply s

theorem run_append (s : Store) (done later : List Operation) :
    s.run (done ++ later) = (s.run done).run later :=
  List.foldl_append

/-- Components that an operation brings along have proper IDs. -/
def Operation.Proper : Operation → Prop
  | .add c => c.Proper
  | .addMany cs => ∀ c ∈ cs, c.Proper
  | _ => True

/-- A catalog that starts empty can come to be `s`. -/
def Reachable (settings : Settings) (reader : Reader) (s : Store) : Prop :=
  ∃ ops, (∀ op ∈ ops, Operation.Proper op) ∧ s = (new settings reader).run ops

theorem Reachable.apply {settings : Settings} {reader : Reader} {s : Store}
    (h : Reachable settings reader s) (op : Operation) (hop : op.Proper) :
    Reachable settings reader (s.apply op) := by
  obtain ⟨ops, hops, rfl⟩ := h
  refine ⟨ops ++ [op], ?_, (run_append _ ops [op]).symm⟩
  intro op' hop'
  rcases List.mem_append.1 hop' with hin | hin
  · exact hops op' hin
  · rw [List.mem_singleton.1 hin]
    exact hop

/-- Whether an operation may bring components in. -/
def Operation.adds : Operation → Bool
  | .add _ | .addMany _ | .loadBytes .. | .loadPath .. | .loadUserLocations .. | .fileChange .. =>
    true
  | _ => false

/-- The components that an operation brings along have a property. -/
def Operation.Brings (p : Component → Prop) : Operation → Prop
  | .add c => p c
  | .addMany cs => ∀ c ∈ cs, p c
  | _ => True

theorem Operation.Proper.brings {op : Operation} (h : op.Proper) : op.Brings Component.Proper := by
  cases op <;> exact h

theorem moves_apply_of_not_adds {p : Component → Prop} (s : Store) {op : Operation}
    (h : op.adds = false) (hstem : ∀ stem, op ≠ .withStemmer stem) : Moves p s (s.apply op) := by
  cases op with
  | remove c => exact s.moves_remove c
  | removeById id => exact s.moves_removeKeys _
  | removeByUniqueId uniqueId => exact s.moves_removeKeys _
  | removeByMetadata key value => exact s.moves_removeKeys _
  | removeBySourceFile filename => exact s.moves_removeBySourceFile filename
  | removeAll => exact s.moves_removeAll
  | attachAddons => exact .single .attachAddons
  | inhibit => exact s.moves_inhibit
  | release guard => exact s.moves_release guard
  | purgePool => exact .single .aside
  | queryMetadata key value => exact .single (.queryMetadata key value)
  | search query => exact s.moves_search query
  | buildTokens => exact .single .buildTokens
  | withStemmer stem => exact absurd rfl (hstem stem)
  | _ => cases h

/-- What the components come to that an operation brings in. -/
def operationAdditions (s : Store) : Operation → List Addition
  | .add c => [(s, c)]
  | .addMany cs => s.inhibit.2.additions cs
  | .loadBytes bytes name w =>
    s.inhibit.2.sourceAdditions bytes { filename := some name, scope := w.scope, arch := w.arch }
  | .loadPath files w cancel path => s.pathAdditions files w cancel path
  | .loadUserLocations files cancelled dataHome home =>
    directoriesAdditions files ⟨.user, none⟩ cancelled s.inhibit.2
      ((Locations.user dataHome home).filter files.isDirectory)
  | .fileChange files change path => s.changeAdditions files change path
  | _ => []

/-- The additions of a run. -/
def runAdditions : Store → List Operation → List Addition
  | _, [] => []
  | s, op :: ops => s.operationAdditions op ++ runAdditions (s.apply op) ops

theorem operationAdditions_of_not_adds (s : Store) {op : Operation} (h : op.adds = false) :
    s.operationAdditions op = [] := by
  cases op <;> first | rfl | cases h

theorem course_apply (s : Store) {op : Operation} (hstem : ∀ stem, op ≠ .withStemmer stem) :
    Course s (s.operationAdditions op) (s.apply op) := by
  cases hadds : op.adds with
  | false =>
    rw [operationAdditions_of_not_adds s hadds]
    exact Moves.course (s.moves_apply_of_not_adds hadds hstem)
  | true =>
    cases op with
    | add c => exact Course.add .refl c
    | addMany cs => exact s.course_addMany cs
    | loadBytes bytes name w => exact s.course_loadBytes bytes name w
    | loadPath files w cancel path => exact s.course_loadPath files w cancel path
    | loadUserLocations files cancelled dataHome home =>
      exact s.course_loadUserLocations files cancelled dataHome home
    | fileChange files change path => exact s.course_onFileChange files change path
    | _ => cases hadds

theorem all_operationAdditions {p : Component → Prop} (hp : Component.Untranslated p) {s : Store}
    (hr : s.reader.Yields p) {op : Operation} (hop : op.Brings p) :
    ∀ a ∈ s.operationAdditions op, p a.2 := by
  have hreader : s.inhibit.2.reader.Yields p := hr
  cases op with
  | add c =>
    intro a ha
    rw [List.mem_singleton.1 ha]
    exact hop
  | addMany cs => exact all_additions hop _
  | loadBytes bytes name w => exact all_sourceAdditions hp hreader bytes _
  | loadPath files w cancel path => exact all_pathAdditions hp hr files w cancel path
  | loadUserLocations files cancelled dataHome home =>
    exact all_directoriesAdditions hp files _ cancelled _ hreader
  | fileChange files change path => exact all_changeAdditions hp hr files change path
  | _ => exact fun a ha => absurd ha List.not_mem_nil

theorem runAdditions_append (s : Store) (done later : List Operation) :
    s.runAdditions (done ++ later) = s.runAdditions done ++ (s.run done).runAdditions later := by
  induction done generalizing s with
  | nil => rfl
  | cons op done ih =>
    change s.operationAdditions op ++ (s.apply op).runAdditions (done ++ later) = _
    rw [ih, ← List.append_assoc]
    rfl

theorem moves_apply {p : Component → Prop} (hp : Component.Untranslated p) {s : Store}
    (hr : s.reader.Yields p) {op : Operation} (hop : op.Brings p)
    (hstem : ∀ stem, op ≠ .withStemmer stem) : Moves p s (s.apply op) :=
  (s.course_apply hstem).moves (all_operationAdditions hp hr hop)

theorem all_runAdditions {p : Component → Prop} (hp : Component.Untranslated p) {s : Store}
    (hr : s.reader.Yields p) {ops : List Operation}
    (hops : ∀ op ∈ ops, Operation.Brings p op) : ∀ a ∈ s.runAdditions ops, p a.2 := by
  induction ops generalizing s with
  | nil => exact fun a ha => absurd ha List.not_mem_nil
  | cons op ops ih =>
    have hop := hops op List.mem_cons_self
    have hreader : (s.apply op).reader = s.reader := by
      by_cases hstem : ∃ stem, op = .withStemmer stem
      · obtain ⟨stem, rfl⟩ := hstem
        rfl
      · push Not at hstem
        exact (moves_apply hp hr hop hstem).setup.reader
    have hrest : ∀ op' ∈ ops, Operation.Brings p op' :=
      fun op' h => hops op' (List.mem_cons_of_mem op h)
    intro a ha
    rcases List.mem_append.1 ha with ha | ha
    · exact all_operationAdditions hp hr hop a ha
    · exact ih (hreader ▸ hr) hrest a ha

theorem edits_apply (s : Store) {op : Operation} (h : op.adds = false) : Edits s (s.apply op) := by
  by_cases hstem : ∃ stem, op = .withStemmer stem
  · obtain ⟨stem, rfl⟩ := hstem
    exact (s.sameCatalog_withStemmer stem).edits
  · push Not at hstem
    exact Moves.edits (s.moves_apply_of_not_adds h hstem)

theorem steps_apply {s : Store} (hr : s.reader.Proper) {op : Operation} (hop : op.Proper) :
    Steps s (s.apply op) := by
  by_cases hstem : ∃ stem, op = .withStemmer stem
  · obtain ⟨stem, rfl⟩ := hstem
    exact (s.sameCatalog_withStemmer stem).steps
  · push Not at hstem
    exact Moves.steps (moves_apply untranslated_proper hr hop.brings hstem)

/-- What each move keeps, and each change of the stemming in a run, the run keeps. -/
theorem run_induction {p : Component → Prop} (hp : Component.Untranslated p) {q : Store → Prop}
    (hmove : ∀ s t, Move p s t → q s → q t) {s : Store} (hr : s.reader.Yields p)
    {ops : List Operation} (hops : ∀ op ∈ ops, Operation.Brings p op)
    (hstem : ∀ done stem later, ops = done ++ .withStemmer stem :: later →
      q (s.run done) → q ((s.run done).withStemmer stem)) (hs : q s) : q (s.run ops) := by
  induction ops generalizing s with
  | nil => exact hs
  | cons op ops ih =>
    have hnext : (s.apply op).reader.Yields p ∧ q (s.apply op) := by
      by_cases hop : ∃ stem, op = .withStemmer stem
      · obtain ⟨stem, rfl⟩ := hop
        exact ⟨hr, hstem [] stem ops rfl hs⟩
      · push Not at hop
        have hmoves := moves_apply hp hr (hops op List.mem_cons_self) hop
        refine ⟨hmoves.setup.reader ▸ hr, ?_⟩
        generalize s.apply op = t at hmoves
        induction hmoves with
        | refl => exact hs
        | tail _ hlast ih => exact hmove _ _ hlast ih
    have hrest : ∀ op' ∈ ops, Operation.Brings p op' :=
      fun op' h => hops op' (List.mem_cons_of_mem op h)
    apply ih hnext.1 hrest ?_ hnext.2
    intro done stem later hsplit
    exact hstem (op :: done) stem later (by rw [hsplit, List.cons_append])

/-- What each course keeps whose additions are good, and each change of the stemming in a run, the
run keeps if all its additions are good. -/
theorem run_course_induction {q : Store → Prop} {good : Addition → Prop}
    (hcourse : ∀ s adds t, Course s adds t → (∀ a ∈ adds, good a) → q s → q t) {s : Store}
    {ops : List Operation} (hadds : ∀ a ∈ s.runAdditions ops, good a)
    (hstem : ∀ done stem later, ops = done ++ .withStemmer stem :: later →
      q (s.run done) → q ((s.run done).withStemmer stem)) (hs : q s) : q (s.run ops) := by
  induction ops generalizing s with
  | nil => exact hs
  | cons op ops ih =>
    have hnext : q (s.apply op) := by
      by_cases hop : ∃ stem, op = .withStemmer stem
      · obtain ⟨stem, rfl⟩ := hop
        exact hstem [] stem ops rfl hs
      · push Not at hop
        exact hcourse _ _ _ (s.course_apply hop) (fun a ha => hadds a (List.mem_append_left _ ha)) hs
    refine ih (fun a ha => hadds a (List.mem_append_right _ ha)) ?_ hnext
    intro done stem later hsplit
    exact hstem (op :: done) stem later (by rw [hsplit, List.cons_append])

/-- Where certain operations are all that breaks a property, the property holds throughout a run if
and only if none of these occurs. -/
theorem run_holds_iff {inv q : Store → Prop} {breaks : Store → Operation → Prop}
    {good : Operation → Prop} (hinv : ∀ s op, good op → inv s → q s → inv (s.apply op))
    (hstep : ∀ s op, good op → inv s → q s → (q (s.apply op) ↔ ¬ breaks s op))
    {s : Store} (hs : inv s) (hq : q s) {ops : List Operation} (hops : ∀ op ∈ ops, good op) :
    (∀ done later, ops = done ++ later → q (s.run done)) ↔
      ∀ done op later, ops = done ++ op :: later → ¬ breaks (s.run done) op := by
  induction ops generalizing s with
  | nil =>
    constructor
    · intro _ done op later hsplit
      simp at hsplit
    · intro _ done later hsplit
      have hnil : done = [] := (List.append_eq_nil_iff.1 hsplit.symm).1
      rw [hnil]
      exact hq
  | cons op ops ih =>
    have hop := hops op List.mem_cons_self
    have hnext := hinv s op hop hs hq
    have hfirst := hstep s op hop hs hq
    have hrest : ∀ op' ∈ ops, good op' := fun op' h => hops op' (List.mem_cons_of_mem op h)
    constructor
    · intro hall done op' later hsplit
      have hkept : q (s.apply op) := hall [op] ops rfl
      cases done with
      | nil =>
        obtain ⟨rfl, rfl⟩ := List.cons.inj hsplit
        exact hfirst.1 hkept
      | cons op'' done =>
        obtain ⟨rfl, htail⟩ := List.cons.inj hsplit
        refine (ih hnext hkept hrest).1 ?_ done op' later htail
        intro done' later' hsplit'
        exact hall (op :: done') later' (by rw [hsplit', List.cons_append])
    · intro hall done later hsplit
      cases done with
      | nil => exact hq
      | cons op' done =>
        obtain ⟨rfl, htail⟩ := List.cons.inj hsplit
        have hkept : q (s.apply op) := hfirst.2 (hall [] op ops rfl)
        refine (ih hnext hkept hrest).2 ?_ done later htail
        intro done' op' later' hsplit'
        exact hall (op :: done') op' later' (by rw [hsplit', List.cons_append])

/-- Where all that breaks a property is the adding of certain components, the property holds
throughout a run if and only if none of these is added. -/
theorem run_throughout_iff {inv q : Store → Prop} {breaks : Store → Component → Prop}
    {good : Operation → Prop} (hinv : ∀ s op, good op → inv s → inv (s.apply op))
    (hadd : ∀ s c, good (.add c) → inv s → q s → (q (s.add c) ↔ ¬ breaks s c))
    (hedit : ∀ s op, good op → (∀ c, op ≠ .add c) → inv s → q s → q (s.apply op))
    {s : Store} (hs : inv s) (hq : q s) {ops : List Operation} (hops : ∀ op ∈ ops, good op) :
    (∀ done later, ops = done ++ later → q (s.run done)) ↔
      ∀ done c later, ops = done ++ .add c :: later → ¬ breaks (s.run done) c := by
  have hstep (s : Store) (op : Operation) (hop : good op) (hs : inv s) (hq : q s) :
      q (s.apply op) ↔ ¬ ∃ c, op = .add c ∧ breaks s c := by
    by_cases hsome : ∃ c, op = .add c
    · obtain ⟨c, rfl⟩ := hsome
      have hiff : (∃ d, Operation.add c = .add d ∧ breaks s d) ↔ breaks s c := by simp
      rw [hiff]
      exact hadd s c hop hs hq
    · push Not at hsome
      have hno : ¬ ∃ c, op = .add c ∧ breaks s c := fun h => hsome h.choose h.choose_spec.1
      exact iff_of_true (hedit s op hop hsome hs hq) hno
  rw [run_holds_iff (fun s op hop hs _ => hinv s op hop hs) hstep hs hq hops]
  constructor
  · exact fun hall done c later hsplit hbreaks => hall done _ later hsplit ⟨c, rfl, hbreaks⟩
  · rintro hall done _ later hsplit ⟨c, rfl, hbreaks⟩
    exact hall done c later hsplit hbreaks

theorem steps_run {s : Store} (hr : s.reader.Proper) {ops : List Operation}
    (hops : ∀ op ∈ ops, Operation.Proper op) : Steps s (s.run ops) := by
  induction ops generalizing s with
  | nil => exact .refl
  | cons op ops ih =>
    have hfirst := steps_apply hr (hops op List.mem_cons_self)
    have hrest : ∀ op' ∈ ops, Operation.Proper op' :=
      fun op' h => hops op' (List.mem_cons_of_mem op h)
    exact hfirst.trans (ih (hfirst.setup.reader ▸ hr) hrest)

/-- What an empty catalog has and each step keeps, every reachable catalog has. -/
theorem Reachable.induction {settings : Settings} {reader : Reader} (hr : reader.Proper)
    {p : Store → Prop} (hnew : p (new settings reader)) (hstep : ∀ s t, Step s t → p s → p t)
    {s : Store} (h : Reachable settings reader s) : p s := by
  obtain ⟨ops, hops, rfl⟩ := h
  have hsteps : Steps (new settings reader) ((new settings reader).run ops) := steps_run hr hops
  generalize (new settings reader).run ops = s at hsteps
  induction hsteps with
  | refl => exact hnew
  | tail _ h ih => exact hstep _ _ h ih

theorem Reachable.setup {settings : Settings} {reader : Reader} (hr : reader.Proper) {s : Store}
    (h : Reachable settings reader s) : SameSetup (new settings reader) s := by
  obtain ⟨ops, hops, rfl⟩ := h
  have hsteps : Steps (new settings reader) ((new settings reader).run ops) := steps_run hr hops
  exact hsteps.setup

theorem Reachable.settings_eq {settings : Settings} {reader : Reader} (hr : reader.Proper)
    {s : Store} (h : Reachable settings reader s) : s.settings = settings := (h.setup hr).settings

theorem Reachable.reader_eq {settings : Settings} {reader : Reader} (hr : reader.Proper)
    {s : Store} (h : Reachable settings reader s) : s.reader = reader := (h.setup hr).reader

end Store

end SoftwareCatalog
