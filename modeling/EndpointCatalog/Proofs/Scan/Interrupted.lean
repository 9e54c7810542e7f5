import EndpointCatalog.Proofs.Distinct
import EndpointCatalog.Proofs.Files.Path
import EndpointCatalog.Proofs.Scan.Halt
import EndpointCatalog.Proofs.Scan.Pages

/-! What a scan that fails leaves behind. An incremental scan leaves what a scan of the files
before the failure leaves, with the endpoints of the file at hand that came before the
one that is rejected; a batched one leaves the pages of the files before and no endpoint
of theirs. -/

namespace EndpointCatalog

open StoreView

variable {σ : Type} [LawfulStore σ]

namespace Scan

/-! ### Pages alone -/

/-- Finds or creates the pages of some names. -/
def openPages {σ : Type} [Store σ] (ids : List PageIdentity) : StoreM σ Unit :=
  ids.forM fun id => discard (Store.findOrCreatePage id.folder id.controller)

theorem openPages_run (ids : List PageIdentity) (s : σ) :
    (openPages ids).run s = (insertRows (((rows s).missing ids).map .page)).run s := by
  induction ids generalizing s with
  | nil => rfl
  | cons id ids ih =>
    have hcons : (openPages (id :: ids) : StoreM σ Unit) =
        (do discard (Store.findOrCreatePage id.folder id.controller); openPages ids) := by
      simp [openPages]
    rw [hcons, EStateM.run_bind, run_discard, findOrCreatePage_run, Rows.missing]
    cases hp : (rows s).page? id with
    | some page => exact ih s
    | none =>
      simp only [Option.isSome_none, Bool.false_eq_true, ↓reduceIte, List.map_cons, insertRows_cons,
        EStateM.run_bind, insertRow, run_discard]
      rcases LawfulStore.createPage_attempts s id with ⟨u, hu, hi⟩ | ⟨e, he, _⟩
      · have hrows : rows u = (rows s).addPage id := hi.rows_eq
        simp only [hu, EStateM.run_pure, ih, hrows]
      · simp only [he]

/-! ### What the files before leave -/

section Leaves

variable {tree : FileTree} {options : ScanOptions} {base : Path} {s t : σ}

/-- What a scan leaves that went over some files and no further: all that a scan of these
files leaves if it writes as it goes, and otherwise only their pages. -/
structure Leaves (tree : FileTree) (options : ScanOptions) (base : Path) (before : List Path)
    (s t : σ) : Prop where
  readable : ∀ file ∈ before, ∃ bytes, tree.read file = .ok bytes
  pages : ∀ p ∈ (rows t).pages, p ∈ (rows s).pages ∨ ∃ file ∈ before, file.pageIdentity = p.identity
  incremental : options.persistence = .incremental → ∃ summary,
    (Outcome.of (scanAll tree options base before) s).result = .ok summary ∧
      (Outcome.of (scanAll tree options base before) s).store = t
  batched : options.persistence = .batched →
    (openPages (before.map (·.pageIdentity))).run s = .ok () t ∧
      (rows t).endpoints = (rows s).endpoints ∧
      ∀ persistence summary,
        let complete := Outcome.of (scanAll tree { options with persistence } base before) s
        complete.result = .ok summary → (rows complete.store).pages = (rows t).pages

theorem leaves_of_insertsAll {before : List Path}
    (sorted : before.Pairwise fun p q => p.le q = true)
    (hread : obstacle? (Controller.read tree options base) before = none)
    (hi : InsertsAll s ((plan (rows s) (legible (Controller.read tree options base) before)).flatMap
      (atOnce options.persistence)) t) : Leaves tree options base before s t := by
  have hsort : before.mergeSort Path.le = before := List.mergeSort_of_pairwise sorted
  set ps := plan (rows s) (legible (Controller.read tree options base) before)
  have hopened : ps.flatMap (·.opened) = (rows s).missing (before.map (·.pageIdentity)) := by
    rw [opened_plan, map_identity_legible hread]
  have hpages : (rows t).pages =
      ((rows s).insertAll ((ps.flatMap (·.opened)).map .page)).pages := by
    rw [hi.rows_eq, pages_insertAll_atOnce]
  constructor
  case readable =>
    intro file hf
    obtain ⟨c, hc⟩ := obstacle?_eq_none.1 hread file hf
    obtain ⟨bytes, hbytes, _⟩ := Controller.read_eq_ok hc
    exact ⟨bytes, hbytes⟩
  case pages =>
    intro p hp
    rw [hpages, hopened] at hp
    refine (Rows.mem_pages_insertAll_pages hp).imp_right fun hid => ?_
    exact List.mem_map.1 (Rows.missing_subset _ _ hid)
  case incremental =>
    intro hmode
    rw [hmode] at hi
    refine ⟨⟨ps⟩, outcome_ok_iff.2 ?_⟩
    rw [hsort]
    exact ⟨hread, rfl, hi⟩
  case batched =>
    intro hmode
    rw [hmode, flatMap_atOnce_batched] at hi
    refine ⟨?_, ?_, ?_⟩
    · rw [openPages_run, ← hopened]
      exact insertRows_run_ok.2 hi
    · rw [hi.rows_eq, Rows.endpoints_insertAll_pages]
    · intro persistence summary complete h
      obtain ⟨_, hsummary, hall⟩ := outcome_ok_iff.1 ⟨h, rfl⟩
      rw [hsort] at hsummary
      subst hsummary
      rw [hall.rows_eq, hpages]
      exact pages_insertAll_atOnce (rows s) .incremental ps

end Leaves

/-! ### One file -/

/-- The endpoints for those routes whose url a page does not have. -/
def newRoutes (r : Rows) (page : Page) (xs : List Route) : List NewEndpoint :=
  (xs.filter fun x => !r.hasEndpoint page.id x.url).map fun x => ⟨page.id, x.url, x.redirect⟩

theorem newsOf_planRoutes (page : Page) (r : Rows) {xs : List Route}
    (distinct : xs.Pairwise fun x y => x.url ≠ y.url) :
    newsOf page (planRoutes page r xs) = newRoutes r page xs := by
  rw [planRoutes_eq_map page r distinct, newsOf, newRoutes, List.filter_map, List.map_map]
  rfl

theorem newRoutes_eq_append_cons {r : Rows} {page : Page} {xs : List Route}
    {before after : List Insertion} {i : Insertion}
    (h : (newRoutes r page xs).map Insertion.endpoint = before ++ i :: after) :
    ∃ done x rest, xs = done ++ x :: rest ∧ before = (newRoutes r page done).map .endpoint ∧
      i = .endpoint ⟨page.id, x.url, x.redirect⟩ ∧ r.hasEndpoint page.id x.url = false := by
  rw [newRoutes, List.map_map] at h
  obtain ⟨front, back, hfilter, rfl, hback⟩ := List.map_eq_append_iff.1 h
  obtain ⟨x, back, rfl, rfl, rfl⟩ := List.map_eq_cons_iff.1 hback
  obtain ⟨done, tail, rfl, rfl, htail⟩ := List.filter_eq_append_iff.1 hfilter
  obtain ⟨more, rest, rfl, hmore, hx, _⟩ := List.filter_eq_cons_iff.1 htail
  refine ⟨done ++ more, x, rest, (List.append_assoc _ _ _).symm, ?_, rfl, by simpa using hx⟩
  rw [newRoutes, List.filter_append, List.filter_eq_nil_iff.2 hmore, List.append_nil, List.map_map]

theorem Controller.read_distinct {tree : FileTree} {options : ScanOptions} {base path : Path}
    {c : Controller} (h : Controller.read tree options base path = .ok c) :
    c.routes.Pairwise fun x y => x.url ≠ y.url := by
  obtain ⟨bytes, _, rfl⟩ := Controller.read_eq_ok h
  rw [Controller.ofText, List.pairwise_map]
  exact pairwise_distinctBy _

theorem planController_opened {r : Rows} {path : Path} {c : Controller}
    {before after : List Insertion} {i : Insertion}
    (h : (planController r path c).opened.map .page = before ++ i :: after) :
    r.page? c.identity = none ∧ before = [] ∧ i = .page c.identity := by
  cases hp : r.page? c.identity with
  | some page =>
    rw [planController_of_page hp] at h
    exact absurd h (by simp [PageScan.opened])
  | none =>
    rw [planController_of_no_page hp] at h
    have hopened : [Insertion.page c.identity] = before ++ i :: after := h
    rcases List.cons_eq_append_iff.1 hopened with ⟨hbefore, hpage⟩ | ⟨news, _, hnews⟩
    · exact ⟨rfl, hbefore, (List.cons.inj hpage).1⟩
    · exact absurd hnews (by simp)

/-- A controller that halts the scan has a page that is rejected, or else a first new route
that is. -/
theorem planController_halts {u t : σ} {path : Path} {c : Controller}
    (distinct : c.routes.Pairwise fun x y => x.url ≠ y.url) {before after : List Insertion}
    {i : Insertion} {e : StoreError}
    (h : (planController (rows u) path c).insertions = before ++ i :: after)
    (hbefore : InsertsAll u before t) (hi : (insertRow i).run t = .error e t) :
    ((rows u).page? c.identity = none ∧ t = u ∧
        (Store.createPage c.identity.folder c.identity.controller).run u = .error e u) ∨
      ∃ page created v done x rest,
        (Store.findOrCreatePage c.identity.folder c.identity.controller).run u =
          .ok (page, created) v ∧
        c.routes = done ++ x :: rest ∧ InsertsAll v ((newRoutes (rows v) page done).map .endpoint) t ∧
        (rows v).hasEndpoint page.id x.url = false ∧
        (Store.createEndpoint ⟨page.id, x.url, x.redirect⟩).run t = .error e t := by
  cases hp : (rows u).page? c.identity with
  | some page =>
    rw [insertions_of_page hp, newsOf_planRoutes page _ distinct] at h
    obtain ⟨done, x, rest, hroutes, rfl, rfl, hx⟩ := newRoutes_eq_append_cons h
    refine .inr ⟨page, false, u, done, x, rest, ?_, hroutes, hbefore, hx,
      run_discard_error.1 hi⟩
    rw [findOrCreatePage_run, hp]
  | none =>
    rw [insertions_of_no_page hp, newsOf_planRoutes _ _ distinct] at h
    rcases List.cons_eq_append_iff.1 h with ⟨rfl, hpage⟩ | ⟨news, rfl, hnews⟩
    · obtain ⟨rfl, _⟩ := List.cons.inj hpage
      obtain rfl := hbefore.unique (InsertsAll.nil u)
      exact .inl ⟨rfl, rfl, run_discard_error.1 hi⟩
    · obtain ⟨done, x, rest, hroutes, rfl, rfl, hx⟩ := newRoutes_eq_append_cons hnews
      rw [← List.singleton_append] at hbefore
      obtain ⟨v, hv, ht⟩ := hbefore.split
      have hcreate : (Store.createPage c.identity.folder c.identity.controller).run u =
          .ok ((rows u).nextPage c.identity) v :=
        (LawfulStore.createPage_attempts u c.identity).ok_iff.2 ⟨rfl, hv.inserts⟩
      have hrows : rows v = (rows u).addPage c.identity := hv.rows_eq
      rw [← hrows] at hx ht
      refine .inr ⟨(rows u).nextPage c.identity, true, v, done, x, rest, ?_, hroutes, ht, hx,
        run_discard_error.1 hi⟩
      simp only [findOrCreatePage_run, hp, EStateM.run_bind, hcreate, EStateM.run_pure]

/-! ### A whole scan -/

section Interrupted

variable {tree : FileTree} {options : ScanOptions} {base : Path} {files : List Path} {s : σ}

/-- How a scan of files, in their order, is interrupted, and the store that it leaves. -/
inductive Interrupted (tree : FileTree) (options : ScanOptions) (base : Path) (files : List Path)
    (s : σ) : CatalogError → σ → Prop
  | unreadable {before after : List Path} {path : Path} {e : IoError} {t : σ} :
      files = before ++ path :: after → tree.read path = .error e →
      Leaves tree options base before s t → Interrupted tree options base files s (.unreadable path e) t
  | page {before after : List Path} {path : Path} {c : Controller} {e : StoreError} {t : σ} :
      files = before ++ path :: after → Controller.read tree options base path = .ok c →
      Leaves tree options base before s t → (rows t).page? c.identity = none →
      (Store.createPage c.identity.folder c.identity.controller).run t = .error e t →
      Interrupted tree options base files s (.store e) t
  | endpoint {before after : List Path} {path : Path} {c : Controller} {u v t : σ} {page : Page}
      {created : Bool} {done rest : List Route} {x : Route} {e : StoreError} :
      options.persistence = .incremental →
      files = before ++ path :: after → Controller.read tree options base path = .ok c →
      Leaves tree options base before s u →
      (Store.findOrCreatePage c.identity.folder c.identity.controller).run u =
        .ok (page, created) v →
      c.routes = done ++ x :: rest → InsertsAll v ((newRoutes (rows v) page done).map .endpoint) t →
      (rows v).hasEndpoint page.id x.url = false →
      (Store.createEndpoint ⟨page.id, x.url, x.redirect⟩).run t = .error e t →
      Interrupted tree options base files s (.store e) t
  | batch {e : StoreError} {t : σ} :
      options.persistence = .batched → Leaves tree options base files s t →
      (Store.createEndpoints ((plan (rows s)
        (legible (Controller.read tree options base) files)).flatMap (·.news))).run t = .error e t →
      Interrupted tree options base files s (.store e) t

theorem Halts.interrupted {o : Outcome σ} {e : CatalogError}
    (h : Halts options.persistence (plan (rows s)
      (legible (Controller.read tree options base) files))
      (obstacle? (Controller.read tree options base) files) s o)
    (sorted : files.Pairwise fun p q => p.le q = true) (he : o.result = .error e) :
    Interrupted tree options base files s e o.store := by
  cases h with
  | file hobstacle hi =>
    cases he
    obtain ⟨before, after, rfl, hbefore, hpath, hlegible⟩ := obstacle?_eq_some hobstacle
    rw [hlegible] at hi
    exact .unreadable rfl (Controller.read_eq_error.1 hpath)
      (leaves_of_insertsAll (List.pairwise_append.1 sorted).1 hbefore hi)
  | @batch f t hobstacle hi hf =>
    cases he
    have hleaves := leaves_of_insertsAll sorted hobstacle hi
    cases hmode : options.persistence with
    | batched =>
      rw [hmode] at hf
      exact .batch hmode hleaves hf
    | incremental =>
      rw [hmode, flatMap_waiting_incremental] at hf
      cases (createEndpoints_run_ok.2 (InsertsAll.nil t)).symm.trans hf
  | @row done rest p before after i f t hplan hatOnce hi hf =>
    cases he
    obtain ⟨csBefore, path, c, csAfter, hcs, hdone, rfl⟩ := plan_eq_append_cons hplan
    obtain ⟨fs, fs', rfl, hread, rfl, hpath⟩ := legible_eq_append_cons hcs
    obtain ⟨u, hu, ht⟩ := hi.split
    have hleaves := leaves_of_insertsAll (List.pairwise_append.1 sorted).1 hread (hdone ▸ hu)
    cases hmode : options.persistence with
    | incremental =>
      rw [hmode] at hatOnce hu
      have hrows : rows u = (rows s).insertAll (done.flatMap (·.insertions)) := hu.rows_eq
      rw [← hrows] at hatOnce
      rcases planController_halts (Controller.read_distinct hpath) hatOnce ht hf with
        ⟨hp, rfl, hcreate⟩ | ⟨page, created, v, old, x, new, hopen, hroutes, hv, hx, hcreate⟩
      · exact .page rfl hpath hleaves hp hcreate
      · exact .endpoint hmode rfl hpath hleaves hopen hroutes hv hx hcreate
    | batched =>
      rw [hmode] at hatOnce
      obtain ⟨hp, rfl, rfl⟩ := planController_opened hatOnce
      obtain rfl := ht.unique (InsertsAll.nil u)
      have hpages : (rows t).pages = ((rows s).insertAll (done.flatMap (·.insertions))).pages := by
        rw [hu.rows_eq, pages_insertAll_atOnce]
        exact (pages_insertAll_atOnce (rows s) .incremental done).symm
      rw [Rows.page?, ← hpages] at hp
      exact .page rfl hpath hleaves hp (run_discard_error.1 hf)

end Interrupted

theorem Request.run_halts {tree : FileTree} {options : ScanOptions} {q : Request} {s : σ}
    {e : CatalogError} {files : List Path} (hfiles : q.files tree options.fileSuffix = .ok files)
    (h : (q.run tree options s).result = .error e) :
    files.Pairwise (fun p q => p.le q = true) ∧
      Halts options.persistence (plan (rows s)
        (legible (Controller.read tree options (q.base options)) files))
        (obstacle? (Controller.read tree options (q.base options)) files) s
        (q.run tree options s) := by
  cases q with
  | listed fs =>
    cases hfiles
    exact ⟨Path.pairwise_mergeSort fs, outcome_halts h⟩
  | below root =>
    rw [Request.files] at hfiles
    cases hd : discover tree options.fileSuffix root with
    | error f =>
      rw [hd] at hfiles
      cases hfiles
    | ok fs =>
      rw [hd] at hfiles
      cases hfiles
      simp only [Request.run, scanRoot, hd] at h ⊢
      exact ⟨Path.pairwise_mergeSort fs, outcome_halts h⟩

/-- A scan that fails over its files is interrupted at one of them or at the end. -/
theorem Request.run_interrupted {tree : FileTree} {options : ScanOptions} {q : Request} {s : σ}
    {e : CatalogError} {files : List Path} (hfiles : q.files tree options.fileSuffix = .ok files)
    (h : (q.run tree options s).result = .error e) :
    Interrupted tree options (q.base options) files s e (q.run tree options s).store := by
  obtain ⟨sorted, halts⟩ := Request.run_halts hfiles h
  exact halts.interrupted sorted h

/-! ### Scans of the shared page that fail -/

theorem Request.run_error_of_not_ok {tree : FileTree} {options : ScanOptions} {q : Request} {s : σ}
    (h : ¬ ∃ summary, (q.run tree options s).result = .ok summary) :
    ∃ e, (q.run tree options s).result = .error e := by
  cases hr : (q.run tree options s).result with
  | ok summary => exact absurd ⟨summary, hr⟩ h
  | error e => exact ⟨e, rfl⟩

def batchedOptions : ScanOptions := { ScanOptions.standard with persistence := .batched }

/-- The second file is missing. -/
def missingRequest : Request := .listed [⟨"v/a.js"⟩, ⟨"v/b.js"⟩]

theorem missingRequest_error : ∃ e,
    (missingRequest.run sharedPage batchedOptions MemoryStore.empty).result = .error e := by
  have hmissing : sharedPage.read ⟨"v/b.js"⟩ = .error .notFound := by cbv
  refine Request.run_error_of_not_ok fun hok => ?_
  obtain ⟨files, hfiles, hread, _⟩ := Request.run_isOk_iff.1 hok
  cases hfiles
  obtain ⟨c, hc⟩ := obstacle?_eq_none.1 hread ⟨"v/b.js"⟩ (by simp)
  rw [Controller.read, hmissing] at hc
  cases hc

def firstRequest : Request := .listed [⟨"v/a.js"⟩]

theorem firstRequest_files : firstRequest.files sharedPage "controller.js" = .ok [⟨"v/a.js"⟩] := by
  rw [firstRequest, Request.files, List.mergeSort_singleton]

/-- A database that refuses the endpoint of the first file. -/
def guardedCatalog : Database :=
  { Database.empty with guards := [⟨.endpoints, some "/api/x", "not this one"⟩] }

theorem firstRequest_error : ∃ e,
    (firstRequest.run sharedPage .standard guardedCatalog).result = .error e := by
  have hfirst : Controller.read sharedPage .standard (firstRequest.base .standard) ⟨"v/a.js"⟩ =
      .ok ⟨⟨"v", "a"⟩, [⟨"/api/x", "p"⟩], 0, []⟩ := by
    cbv
  refine Request.run_error_of_not_ok fun hok => ?_
  obtain ⟨files, hfiles, _, hadmitted⟩ := Request.run_isOk_iff.1 hok
  cases firstRequest_files.symm.trans hfiles
  rw [legible, hfirst] at hadmitted
  cases hadmitted (.endpoint ⟨1, "/api/x", "p"⟩) (.tail _ (.head _))

/-- A batched scan of the store in memory in which a file is missing, and an incremental one
of the guarded database. -/
theorem sharedPage_interrupted :
    (∃ e, (missingRequest.run sharedPage batchedOptions MemoryStore.empty).result = .error e ∧
      Interrupted sharedPage batchedOptions ⟨"."⟩ ([⟨"v/a.js"⟩, ⟨"v/b.js"⟩].mergeSort Path.le)
        MemoryStore.empty e
        (missingRequest.run sharedPage batchedOptions MemoryStore.empty).store) ∧
    ∃ e, (firstRequest.run sharedPage .standard guardedCatalog).result = .error e ∧
      Interrupted sharedPage .standard ⟨"."⟩ [⟨"v/a.js"⟩] guardedCatalog e
        (firstRequest.run sharedPage .standard guardedCatalog).store := by
  obtain ⟨e, he⟩ := missingRequest_error
  obtain ⟨f, hf⟩ := firstRequest_error
  exact ⟨⟨e, he, Request.run_interrupted rfl he⟩,
    f, hf, Request.run_interrupted firstRequest_files hf⟩

end Scan

end EndpointCatalog
