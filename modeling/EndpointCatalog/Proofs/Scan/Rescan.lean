import EndpointCatalog.Proofs.Scan.Activity

/-! Scanning again. A store that has all that the files call for is only asked: the scan
finds everything, adds nothing and calls nothing that creates. A store has it after a
successful scan of the files, and keeps it whatever happens next. -/

namespace EndpointCatalog

/-- The ways in which a store creates rows. -/
structure Creators (σ : Type) where
  createPage : (folder controller : String) → StoreM σ Page
  createEndpoint : NewEndpoint → StoreM σ Endpoint
  createEndpoints : List NewEndpoint → StoreM σ Unit

/-- The store with other ways to create, which answers questions as before. -/
@[reducible] def Creators.store {σ : Type} [Store σ] (w : Creators σ) : Store σ :=
  { ‹Store σ› with
    createPage := w.createPage
    createEndpoint := w.createEndpoint
    createEndpoints := w.createEndpoints }

def Creators.own {σ : Type} [Store σ] : Creators σ :=
  ⟨Store.createPage, Store.createEndpoint, Store.createEndpoints⟩

namespace Scan

/-! ### Asking only -/

section Asking

variable {σ : Type} [Store σ]

/-- A store answers that it has all that a controller calls for. -/
def Covers (s : σ) (c : Controller) : Prop :=
  ∃ page, Store.findPage s c.identity.folder c.identity.controller = some page ∧
    ∀ url ∈ c.urls, Store.endpointExists s page.id url = true

/-- An account of a controller that added nothing. -/
structure PageScan.Quiet (p : PageScan) : Prop where
  page : p.pageCreated = false
  endpoints : ∀ f ∈ p.endpoints, f.added = false

theorem pagesCreated_quiet {ps : List PageScan} (h : ∀ p ∈ ps, p.Quiet) :
    (⟨ps⟩ : Summary).pagesCreated = 0 := by
  simpa [Summary.pagesCreated] using fun p hp => (h p hp).page

theorem endpointsAdded_quiet {ps : List PageScan} (h : ∀ p ∈ ps, p.Quiet) :
    (⟨ps⟩ : Summary).endpointsAdded = 0 := by
  simpa [Summary.endpointsAdded] using fun f p hp => (h p hp).endpoints f

theorem mapM_addRoute_run (w : Creators σ) (persistence : Persistence) (page : Page) {st : State σ}
    {xs : List Route} (h : ∀ x ∈ xs, Store.endpointExists st.store page.id x.url = true) :
    (xs.mapM (@addRoute σ w.store persistence page)).run st =
      .ok (xs.map fun x => ⟨x.url, x.redirect, false⟩) st := by
  induction xs with
  | nil => rfl
  | cons x xs ih =>
    have hasked : @Store.endpointExists σ w.store st.store page.id x.url = true :=
      h x List.mem_cons_self
    have hx : (@addRoute σ w.store persistence page x).run st =
        .ok ⟨x.url, x.redirect, false⟩ st := by
      simp only [addRoute, addEndpoint, EStateM.run_bind, EStateM.run_get, hasked]
      rfl
    have hxs := ih fun y hy => h y (List.mem_cons_of_mem x hy)
    simp only [List.mapM_cons, EStateM.run_bind, hx, hxs, EStateM.run_pure, List.map_cons]

theorem scanFile_run_covered {tree : FileTree} {options : ScanOptions} {base path : Path}
    {c : Controller} (hread : Controller.read tree options base path = .ok c) {s : σ}
    (h : Covers s c) :
    ∃ p : PageScan, p.Quiet ∧ ∀ (w : Creators σ) (pending : Pending) (visited : List Path),
      (@scanFile σ w.store tree options base path).run ⟨s, pending, visited⟩ =
        .ok p ⟨s, pending, visited ++ [path]⟩ := by
  obtain ⟨page, hpage, hurls⟩ := h
  refine ⟨⟨path, page, false, c.routes.map fun x => ⟨x.url, x.redirect, false⟩, c.resolved,
    c.skipped⟩, ⟨rfl, by simp⟩, fun w pending visited => ?_⟩
  have hasked : @Store.findPage σ w.store s c.identity.folder c.identity.controller = some page :=
    hpage
  have hopen : (@Store.findOrCreatePage σ w.store c.identity.folder c.identity.controller).run s =
      .ok (page, false) s := by
    simp only [Store.findOrCreatePage, EStateM.run_bind, EStateM.run_get, hasked]
    rfl
  have hvisit : (visit path).run (⟨s, pending, visited⟩ : State σ) =
      .ok () ⟨s, pending, visited ++ [path]⟩ := rfl
  simp only [scanFile, EStateM.run_bind, hvisit, hread, addController, onStore_run, hopen]
  rw [mapM_addRoute_run w options.persistence page fun x hx => hurls x.url (List.mem_map_of_mem hx)]
  rfl

theorem mapM_scanFile_run_covered {tree : FileTree} {options : ScanOptions} {base : Path} {s : σ}
    {files : List Path} (h : ∀ file ∈ files, ∃ c,
      Controller.read tree options base file = .ok c ∧ Covers s c) :
    ∃ ps : List PageScan, (∀ p ∈ ps, p.Quiet) ∧
      ∀ (w : Creators σ) (pending : Pending) (visited : List Path),
        (files.mapM (@scanFile σ w.store tree options base)).run ⟨s, pending, visited⟩ =
          .ok ps ⟨s, pending, visited ++ files⟩ := by
  induction files with
  | nil => exact ⟨[], by simp, fun w pending visited => by simp⟩
  | cons file files ih =>
    obtain ⟨c, hread, hc⟩ := h file List.mem_cons_self
    obtain ⟨p, hp, hfirst⟩ := scanFile_run_covered hread hc
    obtain ⟨ps, hps, hrest⟩ := ih fun f hf => h f (List.mem_cons_of_mem file hf)
    refine ⟨p :: ps, List.forall_mem_cons.2 ⟨hp, hps⟩, fun w pending visited => ?_⟩
    simp only [List.mapM_cons, EStateM.run_bind, hfirst, hrest, EStateM.run_pure,
      List.append_assoc, List.singleton_append]

/-- Scanning files that a store covers only asks the store. -/
theorem Request.run_covered {tree : FileTree} (options : ScanOptions) {q : Request} {s : σ}
    {files : List Path} (hfiles : q.files tree options.fileSuffix = .ok files)
    (h : ∀ file ∈ files, ∃ c,
      Controller.read tree options (q.base options) file = .ok c ∧ Covers s c) :
    ∃ ps : List PageScan, (∀ p ∈ ps, p.Quiet) ∧ ∀ w : Creators σ,
      @Request.run σ w.store tree options s q = ⟨.ok ⟨ps⟩, s, files⟩ := by
  obtain ⟨ps, hps, hrun⟩ := mapM_scanFile_run_covered h
  refine ⟨ps, hps, fun w => ?_⟩
  have hall (base : Path) (fs : List Path) (hfs : fs.mergeSort Path.le = files)
      (hbase : base = q.base options) :
      Outcome.of (@scanAll σ w.store tree options base fs) s = ⟨.ok ⟨ps⟩, s, files⟩ := by
    subst hfs hbase
    have hscan : (@scanAll σ w.store tree options (q.base options) fs).run ⟨s, .empty, []⟩ =
        .ok ⟨ps⟩ ⟨s, .empty, fs.mergeSort Path.le⟩ := by
      simp only [scanAll, EStateM.run_bind, hrun, List.nil_append]
      rfl
    rw [Outcome.of, hscan]
  cases q with
  | listed fs =>
    cases hfiles
    exact hall _ fs rfl rfl
  | below root =>
    rw [Request.files] at hfiles
    cases hd : discover tree options.fileSuffix root with
    | error e =>
      rw [hd] at hfiles
      cases hfiles
    | ok fs =>
      rw [hd] at hfiles
      cases hfiles
      simp only [Request.run, scanRoot, hd]
      exact hall _ fs rfl rfl

end Asking

/-! ### What the store has after a scan -/

theorem covers_iff {σ : Type} [LawfulStore σ] {s : σ} {c : Controller} :
    Covers s c ↔ HasAll (StoreView.rows s) c := by
  simp only [Covers, HasAll, LawfulStore.findPage_eq, LawfulStore.endpointExists_eq]

/-- What a file calls for depends neither on redirects nor on when rows are written. -/
theorem read_again {tree : FileTree} {options : ScanOptions} {base path : Path} {c : Controller}
    (h : Controller.read tree options base path = .ok c) (policy : RedirectPolicy)
    (persistence : Persistence) :
    ∃ d, Controller.read tree { options with policy, persistence } base path = .ok d ∧
      d.identity = c.identity ∧ d.urls = c.urls := by
  obtain ⟨bytes, hbytes, rfl⟩ := Controller.read_eq_ok h
  rw [Controller.read, hbytes]
  refine ⟨_, rfl, rfl, ?_⟩
  simp only [Controller.urls, Controller.ofText, List.map_map]
  rfl

/-- A scan that has succeeded once goes through again whatever has happened to the store,
with any redirects and either way of writing; it finds nothing new, leaves the store as
it is and creates nothing. -/
theorem rescan_quiet {σ : Type} [LawfulStore σ] {s : σ} {tree : FileTree} {options : ScanOptions}
    {q : Request} {summary : Summary} (first : (q.run tree options s).result = .ok summary)
    (activities : List Activity) (policy : RedirectPolicy) (persistence : Persistence) :
    let t := Activity.afterAll activities (q.run tree options s).store
    let again := q.run tree { options with policy, persistence } t
    ∃ account : Summary, again.result = .ok account ∧ again.store = t ∧
      account.pagesCreated = 0 ∧ account.endpointsAdded = 0 ∧
      (∀ p ∈ account.pages, ∀ f ∈ p.endpoints, f.added = false) ∧
      ∀ w : Creators σ,
        @Request.run σ w.store tree { options with policy, persistence } t q = again := by
  intro t again
  obtain ⟨files, hfiles, hread, hsummary, hi⟩ := Request.run_ok_iff.1 ⟨first, rfl⟩
  have hbase : q.base { options with policy, persistence } = q.base options := by cases q <;> rfl
  have hcovered : ∀ file ∈ files, ∃ d, Controller.read tree { options with policy, persistence }
      (q.base { options with policy, persistence }) file = .ok d ∧ Covers t d := by
    intro file hf
    rw [hbase]
    obtain ⟨c, hc⟩ := exists_mem_legible hread hf
    obtain ⟨d, hd, hidentity, hurls⟩ := read_again (read_of_mem_legible hc) policy persistence
    have hafter : HasAll (StoreView.rows (q.run tree options s).store) c := by
      rw [hi.rows_eq, hsummary]
      exact hasAll_plan _ hc
    have hkept := hafter.mono (Activity.extends_afterAll activities _).grows
    refine ⟨d, hd, covers_iff.2 ?_⟩
    rw [HasAll, hidentity, hurls]
    exact hkept
  obtain ⟨ps, hps, hrun⟩ :=
    Request.run_covered { options with policy, persistence } hfiles hcovered
  have hagain : again = ⟨.ok ⟨ps⟩, t, files⟩ := hrun Creators.own
  exact ⟨⟨ps⟩, by rw [hagain], by rw [hagain], pagesCreated_quiet hps, endpointsAdded_quiet hps,
    fun p hp => (hps p hp).endpoints, fun w => (hrun w).trans hagain.symm⟩

/-- Scanning the shared page of a database again after an entry by hand and a failed scan. -/
theorem sharedPage_rescan : ∃ summary,
    (sharedPageRequest.run sharedPage .standard Database.empty).result = .ok summary ∧
      let t := Activity.afterAll [.entry "v" "a" [⟨"/api/z", ""⟩],
        .scan sharedPage .standard (.below ⟨"missing"⟩)]
        (sharedPageRequest.run sharedPage .standard Database.empty).store
      (sharedPageRequest.run sharedPage
        ⟨"controller.js", none, .preserve, .nearest, .batched⟩ t).store = t := by
  obtain ⟨summary, h⟩ := sharedPage_isOk (s := Database.empty) fun i => by cases i <;> rfl
  obtain ⟨_, _, hstore, _⟩ := rescan_quiet h [.entry "v" "a" [⟨"/api/z", ""⟩],
    .scan sharedPage .standard (.below ⟨"missing"⟩)] .nearest .batched
  exact ⟨summary, h, hstore⟩

end Scan

end EndpointCatalog
