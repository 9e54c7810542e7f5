import EndpointCatalog.Proofs.Scan.Enact
import Mathlib

/-! Whole scans. The files of a scan are read in the order of their paths up to the first
that cannot be read; the scan enacts the plan of what it has read and succeeds if no file
stops it and the store takes every row. Its result and the store it leaves do not depend
on when rows are written. -/

namespace EndpointCatalog.Scan

open StoreView

section Files

variable (read : Path → Except IoError Controller)

/-- The controllers of some files, up to the first that cannot be read. -/
def legible : List Path → List (Path × Controller)
  | [] => []
  | path :: paths =>
    match read path with
    | .ok c => (path, c) :: legible paths
    | .error _ => []

/-- The first file that cannot be read. -/
def obstacle? : List Path → Option (Path × IoError)
  | [] => none
  | path :: paths =>
    match read path with
    | .ok _ => obstacle? paths
    | .error e => some (path, e)

variable {read}

theorem obstacle?_eq_none {files : List Path} :
    obstacle? read files = none ↔ ∀ file ∈ files, ∃ c, read file = .ok c := by
  induction files with
  | nil => simp [obstacle?]
  | cons file files ih =>
    rw [obstacle?, List.forall_mem_cons]
    cases read file with
    | ok c => simp [ih]
    | error e => simp

theorem map_fst_legible {files : List Path} (h : obstacle? read files = none) :
    (legible read files).map (·.1) = files := by
  induction files with
  | nil => rfl
  | cons path files ih =>
    rw [obstacle?] at h
    rw [legible]
    split at h
    · simp [ih h]
    · cases h

theorem exists_mem_legible (h : obstacle? read files = none) {file : Path} (hf : file ∈ files) :
    ∃ c, (file, c) ∈ legible read files := by
  rw [← map_fst_legible h] at hf
  obtain ⟨⟨_, c⟩, hc, rfl⟩ := List.mem_map.1 hf
  exact ⟨c, hc⟩

theorem read_of_mem_legible {files : List Path} {path : Path} {c : Controller}
    (h : (path, c) ∈ legible read files) : read path = .ok c := by
  induction files with
  | nil => cases h
  | cons path' files ih =>
    rw [legible] at h
    split at h
    next c' hc =>
      rcases List.mem_cons.1 h with h | h
      · cases h
        exact hc
      · exact ih h
    next => cases h

end Files

theorem Controller.read_eq_ok {tree : FileTree} {options : ScanOptions} {base path : Path}
    {c : Controller} (h : Controller.read tree options base path = .ok c) :
    ∃ bytes, tree.read path = .ok bytes ∧
      c = Controller.ofText tree options base path (Text.Utf8.decodeLossy bytes) := by
  rw [Controller.read] at h
  cases hr : tree.read path with
  | error e =>
    rw [hr] at h
    cases h
  | ok bytes =>
    rw [hr] at h
    cases h
    exact ⟨bytes, rfl, rfl⟩

variable {σ : Type} [LawfulStore σ]

/-- Enacts accounts in their order. -/
def enactAll (persistence : Persistence) (ps : List PageScan) : ScanM σ Unit :=
  forM ps fun p => do
    visit p.path
    enact persistence p

/-- The end of the walk over the files: all accounts, or the file that could not be read. -/
def conclude (ps : List PageScan) : Option (Path × IoError) → ScanM σ (List PageScan)
  | none => return ps
  | some (path, e) => do
    visit path
    throw (.unreadable path e)

theorem enactAll_cons (persistence : Persistence) (p : PageScan) (ps : List PageScan) :
    (enactAll persistence (p :: ps) : ScanM σ Unit) =
      (do visit p.path; enact persistence p; enactAll persistence ps) := by
  simp [enactAll]

theorem planController_path (r : Rows) (path : Path) (c : Controller) :
    (planController r path c).path = path := by
  unfold planController
  split <;> rfl

theorem enact_ok {persistence : Persistence} {p : PageScan} {st st' : State σ}
    (ready : Ready persistence st) (h : (enact persistence p).run st = .ok () st') :
    Ready persistence st' ∧ st'.rows = st.rows.insertAll p.insertions := by
  obtain ⟨hi, hst⟩ := enact_run_ok.1 h
  rw [hst, State.rows, hi.rows_eq]
  cases persistence with
  | incremental =>
    refine ⟨fun _ => by simp [waiting, ready rfl, Pending.empty], ?_⟩
    rw [State.rows_of_ready ready]
    simp [waiting, ready rfl, Pending.empty, atOnce]
  | batched =>
    refine ⟨fun hp => (by cases hp), ?_⟩
    simp only [atOnce, waiting, List.map_append, Rows.insertAll_append, State.rows,
      PageScan.insertions, insertAll_pages_endpoints]

/-- Going over the files is the same as enacting the plan of those that can be read. -/
theorem scanFiles_run {tree : FileTree} {options : ScanOptions} {base : Path} {st : State σ}
    (ready : Ready options.persistence st) (files : List Path) :
    (files.mapM (scanFile tree options base)).run st =
      (do enactAll options.persistence
            (plan st.rows (legible (Controller.read tree options base) files))
          conclude (plan st.rows (legible (Controller.read tree options base) files))
            (obstacle? (Controller.read tree options base) files) :
              ScanM σ (List PageScan)).run st := by
  induction files generalizing st with
  | nil => rfl
  | cons path files ih =>
    let here : State σ := { st with visited := st.visited ++ [path] }
    have hvisit : (visit path).run st = .ok () here := rfl
    have ready' : Ready options.persistence here := ready
    simp only [List.mapM_cons, scanFile, EStateM.run_bind, hvisit, legible, obstacle?]
    cases Controller.read tree options base path with
    | error e => rfl
    | ok c =>
      have hrows : here.rows = st.rows := rfl
      simp only [plan, enactAll_cons, addController_run ready', EStateM.run_bind, hrows,
        planController_path, hvisit]
      cases he : (enact options.persistence (planController st.rows path c)).run here with
      | error f st' => rfl
      | ok _ st' =>
        obtain ⟨ready'', hrows'⟩ := enact_ok ready' he
        simp only [EStateM.run_pure, ih ready'', hrows', hrows, EStateM.run_bind]
        cases (enactAll options.persistence (plan _ _)).run st' with
        | error f st'' => rfl
        | ok _ st'' => cases obstacle? (Controller.read tree options base) files <;> rfl

theorem enactAll_run_ok {persistence : Persistence} {ps : List PageScan} {st st' : State σ} :
    (enactAll persistence ps).run st = .ok () st' ↔
      InsertsAll st.store (ps.flatMap (atOnce persistence)) st'.store ∧
        st' = ⟨st'.store, ⟨st.pending.records ++ ps.flatMap (waiting persistence)⟩,
          st.visited ++ ps.map (·.path)⟩ := by
  induction ps generalizing st with
  | nil =>
    constructor
    · intro h
      cases h
      exact ⟨InsertsAll.nil _, by simp⟩
    · rintro ⟨hi, hst⟩
      rw [hst, hi.unique (InsertsAll.nil _)]
      simp [enactAll]
  | cons p ps ih =>
    simp only [enactAll_cons, run_bind_ok, ih, List.flatMap_cons, List.map_cons]
    constructor
    · rintro ⟨_, _, hv, _, st₂, he, hps, hst'⟩
      cases hv
      obtain ⟨hp, hst₂⟩ := enact_run_ok.1 he
      refine ⟨hp.append hps, ?_⟩
      rw [hst', hst₂]
      simp
    · rintro ⟨hi, hst'⟩
      obtain ⟨u, hp, hps⟩ := hi.split
      refine ⟨(), _, rfl, (), ⟨u, _, _⟩, enact_run_ok.2 ⟨hp, rfl⟩, hps, ?_⟩
      rw [hst']
      simp

/-! ### The outcome -/

theorem flush_run_ok {st st' : State σ} :
    (flush : ScanM σ Unit).run st = .ok () st' ↔
      InsertsAll st.store (st.pending.records.map .endpoint) st'.store ∧
        st' = { st with store := st'.store } := by
  simp only [flush, EStateM.run_bind, EStateM.run_get]
  cases hempty : st.pending.isEmpty with
  | true =>
    have hnil : st.pending.records = [] := by simpa [Pending.isEmpty] using hempty
    simp only [hnil, List.map_nil, ↓reduceIte, EStateM.run_pure]
    constructor
    · rintro ⟨⟩
      exact ⟨InsertsAll.nil _, rfl⟩
    · rintro ⟨hi, hst⟩
      rw [hst, hi.unique (InsertsAll.nil _)]
  | false =>
    simp only [Bool.false_eq_true, ↓reduceIte, onStore_run, ← createEndpoints_run_ok]
    cases (Store.createEndpoints st.pending.records).run st.store with
    | ok _ t =>
      simp only [EStateM.Result.ok.injEq, true_and]
      constructor
      · rintro rfl
        exact ⟨rfl, rfl⟩
      · rintro ⟨rfl, h⟩
        exact h.symm
    | error => simp

/-- Whatever is inserted at once and whatever waits, the same rows go in. -/
theorem insertsAll_in_any_order {persistence : Persistence} {ps : List PageScan} {s t : σ}
    (fits : (rows s).FitAll (ps.flatMap (·.insertions))) :
    InsertsAll s (ps.flatMap (atOnce persistence) ++
        (ps.flatMap (waiting persistence)).map .endpoint) t ↔
      InsertsAll s (ps.flatMap (·.insertions)) t := by
  cases persistence with
  | incremental =>
    rw [flatMap_waiting_incremental, List.map_nil, List.append_nil]
    rfl
  | batched =>
    rw [flatMap_atOnce_batched]
    change InsertsAll s (pagesFirst (ps.flatMap (·.opened)) (ps.flatMap (·.news))) t ↔ _
    constructor
    · intro h
      exact ⟨fits, fun i hi => h.admitted i (mem_pagesFirst.2 hi),
        h.rows_eq.trans (insertAll_pagesFirst _ ps), h.setting_eq⟩
    · intro h
      exact ⟨fitAll_pagesFirst fits, fun i hi => h.admitted i (mem_pagesFirst.1 hi),
        h.rows_eq.trans (insertAll_pagesFirst _ ps).symm, h.setting_eq⟩

omit [LawfulStore σ] in
theorem Outcome.of_eq_ok {scan : ScanM σ Summary} {s t : σ} {summary : Summary} :
    (Outcome.of scan s).result = .ok summary ∧ (Outcome.of scan s).store = t ↔
      ∃ st', scan.run ⟨s, .empty, []⟩ = .ok summary st' ∧ st'.store = t := by
  rw [Outcome.of]
  cases scan.run ⟨s, .empty, []⟩ <;> simp

/-- A scan succeeds when every file can be read and the store takes every row of the
plan, and then leaves the store with those rows. -/
theorem outcome_ok_iff {tree : FileTree} {options : ScanOptions} {base : Path} {files : List Path}
    {s t : σ} {summary : Summary} :
    (Outcome.of (scanAll tree options base files) s).result = .ok summary ∧
        (Outcome.of (scanAll tree options base files) s).store = t ↔
      obstacle? (Controller.read tree options base) (files.mergeSort Path.le) = none ∧
        summary = ⟨plan (rows s)
          (legible (Controller.read tree options base) (files.mergeSort Path.le))⟩ ∧
        InsertsAll s summary.insertions t := by
  have ready : Ready options.persistence (⟨s, .empty, []⟩ : State σ) := fun _ => rfl
  have hrows : (⟨s, .empty, []⟩ : State σ).rows = rows s := rfl
  simp only [Outcome.of_eq_ok, scanAll, run_bind_ok, scanFiles_run ready, hrows]
  set ps := plan (rows s) (legible (Controller.read tree options base) (files.mergeSort Path.le))
  have fits : (rows s).FitAll (ps.flatMap (·.insertions)) := plan_fitAll _ _
  constructor
  · rintro ⟨st', ⟨pages, st₂, ⟨_, st₁, henact, hconclude⟩, _, st₃, hflush, hpure⟩, rfl⟩
    cases hpure
    cases ho : obstacle? (Controller.read tree options base) (files.mergeSort Path.le) with
    | some o =>
      rw [ho] at hconclude
      cases hconclude
    | none =>
      rw [ho] at hconclude
      cases hconclude
      obtain ⟨hi, hst₁⟩ := enactAll_run_ok.1 henact
      obtain ⟨hj, _⟩ := flush_run_ok.1 hflush
      refine ⟨rfl, rfl, (insertsAll_in_any_order fits).1 (hi.append ?_)⟩
      rw [hst₁] at hj
      exact hj
  · rintro ⟨ho, rfl, hi⟩
    obtain ⟨u, hu, ht⟩ := ((insertsAll_in_any_order fits).2 hi).split
    let waits : Pending := ⟨[] ++ ps.flatMap (waiting options.persistence)⟩
    let visits : List Path := [] ++ ps.map (·.path)
    have henact : (enactAll options.persistence ps).run ⟨s, .empty, []⟩ =
        .ok () (⟨u, waits, visits⟩ : State σ) := enactAll_run_ok.2 ⟨hu, rfl⟩
    have hflush : flush.run (⟨u, waits, visits⟩ : State σ) = .ok () ⟨t, waits, visits⟩ :=
      flush_run_ok.2 ⟨ht, rfl⟩
    refine ⟨_, ⟨ps, _, ⟨(), _, henact, ?_⟩, (), _, hflush, rfl⟩, rfl⟩
    rw [ho]
    rfl

/-! ### Requests -/

/-- What to scan: everything below a root, or a list of files. -/
inductive Request
  | below (root : Path)
  | listed (files : List Path)

namespace Request

def run {σ : Type} [Store σ] (tree : FileTree) (options : ScanOptions) (s : σ) :
    Request → Outcome σ
  | below root => scanRoot tree options root s
  | listed files => scanFiles tree options files s

/-- The files of a request in the order in which they are scanned. -/
def files (tree : FileTree) (suffix : String) : Request → Except CatalogError (List Path)
  | below root => (discover tree suffix root).map (·.mergeSort Path.le)
  | listed files => .ok (files.mergeSort Path.le)

/-- Where the references of a request start from. -/
def base (options : ScanOptions) : Request → Path
  | below root => options.directiveRoot.getD root
  | listed _ => options.directiveRoot.getD ⟨"."⟩

theorem run_ok_iff {tree : FileTree} {options : ScanOptions} {q : Request} {s t : σ}
    {summary : Summary} :
    (q.run tree options s).result = .ok summary ∧ (q.run tree options s).store = t ↔
      ∃ files, q.files tree options.fileSuffix = .ok files ∧
        obstacle? (Controller.read tree options (q.base options)) files = none ∧
        summary = ⟨plan (rows s) (legible (Controller.read tree options (q.base options)) files)⟩ ∧
        InsertsAll s summary.insertions t := by
  cases q with
  | listed files =>
    simp only [run, scanFiles, Request.files, outcome_ok_iff, Except.ok.injEq, exists_eq_left']
    rfl
  | below root =>
    simp only [run, scanRoot, Request.files]
    cases discover tree options.fileSuffix root with
    | error e => simp [Except.map]
    | ok files =>
      simp only [outcome_ok_iff, Except.map, Except.ok.injEq, exists_eq_left']
      rfl

/-- A scan succeeds if its files are found and can be read and the store refuses no row. -/
theorem run_isOk_iff {tree : FileTree} {options : ScanOptions} {q : Request} {s : σ} :
    (∃ summary, (q.run tree options s).result = .ok summary) ↔
      ∃ files, q.files tree options.fileSuffix = .ok files ∧
        obstacle? (Controller.read tree options (q.base options)) files = none ∧
        ∀ i ∈ (plan (rows s)
            (legible (Controller.read tree options (q.base options)) files)).flatMap
          (·.insertions), refuses (setting s) i = false := by
  constructor
  · rintro ⟨summary, h⟩
    obtain ⟨files, hfiles, hread, rfl, hi⟩ := run_ok_iff.1 ⟨h, rfl⟩
    exact ⟨files, hfiles, hread, hi.admitted⟩
  · rintro ⟨files, hfiles, hread, hadmitted⟩
    obtain ⟨t, ht⟩ := exists_insertsAll (plan_fitAll _ _) hadmitted
    exact ⟨_, (run_ok_iff.2 ⟨files, hfiles, hread, rfl, ht⟩).1⟩

end Request

/-- Incremental and batched scans succeed alike, with the same summary and store. -/
theorem batched_iff_incremental (tree : FileTree) (options : ScanOptions) (q : Request)
    (s t : σ) (summary : Summary) :
    ((q.run tree { options with persistence := .incremental } s).result = .ok summary ∧
        (q.run tree { options with persistence := .incremental } s).store = t) ↔
      ((q.run tree { options with persistence := .batched } s).result = .ok summary ∧
        (q.run tree { options with persistence := .batched } s).store = t) := by
  rw [Request.run_ok_iff, Request.run_ok_iff]
  rfl

/-! ### Two files of one page -/

/-- Only one of the files has a redirect, and the other one refers to a script. -/
def sharedPage : FileTree where
  entries := [
    (["v"], .folder), (["w"], .folder), (["w", "v"], .folder), (["directives"], .folder),
    (["v", "a.js"], .file (Text.Utf8.encode "$state.go(p)/api/x".toList)),
    (["w", "v", "a.js"], .file (Text.Utf8.encode "/api/x directives/d.js".toList)),
    (["directives", "d.js"], .file (Text.Utf8.encode "/api/y".toList))]
  workDir := []

def sharedPageRequest : Request := .listed [⟨"w/v/a.js"⟩, ⟨"v/a.js"⟩]

theorem sharedPage_isOk_with (options : ScanOptions) {s : σ}
    (h : ∀ i, refuses (setting s) i = false) :
    ∃ summary, (sharedPageRequest.run sharedPage options s).result = .ok summary := by
  refine Request.run_isOk_iff.2 ⟨_, rfl, obstacle?_eq_none.2 fun file hf => ?_, fun i _ => h i⟩
  rw [List.mem_mergeSort, List.mem_cons, List.mem_singleton] at hf
  -- Mathlib is imported whole, as `cbv` takes equations of library functions from all over it.
  rcases hf with rfl | rfl
  · exact ⟨_, congrArg (Except.map _) (show sharedPage.read ⟨"w/v/a.js"⟩ = .ok _ by cbv)⟩
  · exact ⟨_, congrArg (Except.map _) (show sharedPage.read ⟨"v/a.js"⟩ = .ok _ by cbv)⟩

theorem sharedPage_isOk {s : σ} (h : ∀ i, refuses (setting s) i = false) :
    ∃ summary, (sharedPageRequest.run sharedPage .standard s).result = .ok summary :=
  sharedPage_isOk_with .standard h

end EndpointCatalog.Scan
