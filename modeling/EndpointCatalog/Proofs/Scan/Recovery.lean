import EndpointCatalog.Proofs.Scan.DryRun
import EndpointCatalog.Proofs.Scan.Halt
import EndpointCatalog.Proofs.Scan.Order

/-! Recovery from a file that cannot be read. A failed scan leaves either the rows of the
files before, of which the plan of a second scan repeats none, or their pages, with which
the second scan finds the same endpoints to be new. Either way the second scan completes
the rows in the order in which a single scan inserts them. -/

namespace EndpointCatalog

open StoreView

variable {σ : Type} [LawfulStore σ]

theorem InsertsAll.append_iff {s t u : σ} {is js : List Insertion} (h : InsertsAll s is u) :
    InsertsAll s (is ++ js) t ↔ InsertsAll u js t := by
  constructor
  · intro ht
    obtain ⟨v, hv, hjs⟩ := ht.split
    obtain rfl := hv.unique h
    exact hjs
  · exact h.append

namespace Scan

/-! ### Plans over what is there already -/

theorem planRoutes_congr {page : Page} {r r' : Rows}
    (h : ∀ pageId url, r.hasEndpoint pageId url = r'.hasEndpoint pageId url) (xs : List Route) :
    planRoutes page r xs = planRoutes page r' xs := by
  induction xs generalizing r r' with
  | nil => rfl
  | cons x xs ih =>
    have hstep : planRoutes page (r.addEndpoint ⟨page.id, x.url, x.redirect⟩) xs =
        planRoutes page (r'.addEndpoint ⟨page.id, x.url, x.redirect⟩) xs := ih (by simp [h])
    simp only [planRoutes, h, ih h, hstep]

theorem newsOf_planRoutes_of_all {page : Page} {r : Rows} {xs : List Route}
    (h : ∀ x ∈ xs, r.hasEndpoint page.id x.url = true) : newsOf page (planRoutes page r xs) = [] := by
  induction xs with
  | nil => rfl
  | cons x xs ih =>
    rw [newsOf_planRoutes_old (h x List.mem_cons_self)]
    exact ih fun y hy => h y (List.mem_cons_of_mem x hy)

theorem insertions_planController_of_hasAll {r : Rows} {path : Path} {c : Controller}
    (h : HasAll r c) : (planController r path c).insertions = [] := by
  obtain ⟨page, hpage, hurls⟩ := h
  have hnews : newsOf page (planRoutes page r c.routes) = [] :=
    newsOf_planRoutes_of_all fun x hx => hurls x.url (List.mem_map_of_mem hx)
  rw [insertions_of_page hpage, hnews]
  rfl

/-- Controllers with nothing new insert nothing. -/
theorem insertions_plan_of_hasAll {r : Rows} {cs : List (Path × Controller)}
    (h : ∀ c ∈ cs, HasAll r c.2) : (plan r cs).flatMap (·.insertions) = [] := by
  induction cs with
  | nil => rfl
  | cons c cs ih =>
    obtain ⟨path, c⟩ := c
    have hfirst : (planController r path c).insertions = [] :=
      insertions_planController_of_hasAll (h (path, c) List.mem_cons_self)
    rw [plan, List.flatMap_cons, hfirst, List.nil_append, Rows.insertAll_nil]
    exact ih fun d hd => h d (List.mem_cons_of_mem _ hd)

theorem insertions_plan_again (r : Rows) (cs ds : List (Path × Controller)) :
    let r' := r.insertAll ((plan r cs).flatMap (·.insertions))
    (plan r' (cs ++ ds)).flatMap (·.insertions) = (plan r' ds).flatMap (·.insertions) := by
  intro r'
  have hquiet : (plan r' cs).flatMap (·.insertions) = [] :=
    insertions_plan_of_hasAll fun c hc => hasAll_plan r hc
  rw [plan_append, List.flatMap_append, hquiet, List.nil_append, Rows.insertAll_nil]

/-- One controller, over rows with pages that are opened ahead: its own page is opened no
more, and the pages that remain ahead are those of the controllers after it. -/
theorem planController_opened_ahead {r : Rows} {path : Path} {c : Controller}
    {more ahead rest : List PageIdentity}
    (h : (planController r path c).opened ++ more = ahead ++ rest) (hahead : ahead ≠ []) :
    ∃ later, more = later ++ rest ∧
      (planController (r.insertAll (ahead.map .page)) path c).opened = [] ∧
      (planController (r.insertAll (ahead.map .page)) path c).news = (planController r path c).news ∧
      (r.insertAll (ahead.map .page)).insertAll ((planController r path c).news.map .endpoint) =
        (r.insertAll (planController r path c).insertions).insertAll (later.map .page) := by
  cases hp : r.page? c.identity with
  | some page =>
    -- The page is there with and without those opened ahead.
    have hp' : (r.insertAll (ahead.map .page)).page? c.identity = some page :=
      (Rows.grows_insertAll r _).page?_eq_some hp
    have hroutes : planRoutes page (r.insertAll (ahead.map .page)) c.routes =
        planRoutes page r c.routes :=
      planRoutes_congr (hasEndpoint_insertAll_pages r ahead) c.routes
    rw [planController_of_page hp] at h
    rw [planController_of_page hp, planController_of_page hp', hroutes]
    exact ⟨ahead, h, rfl, rfl, (insertAll_pages_endpoints r ahead _).symm⟩
  | none =>
    obtain ⟨id, later, rfl⟩ := List.exists_cons_of_ne_nil hahead
    rw [planController_of_no_page hp] at h
    have hcons : c.identity :: more = id :: (later ++ rest) := h
    obtain ⟨rfl, hmore⟩ := List.cons.inj hcons
    -- The page that a single scan creates here is the first of those opened ahead.
    have hp' : (r.insertAll ((c.identity :: later).map .page)).page? c.identity =
        some (r.nextPage c.identity) := by
      refine (Rows.grows_insertAll (r.addPage c.identity) (later.map .page)).page?_eq_some ?_
      rw [Rows.page?_addPage hp, if_pos rfl]
    have hroutes : planRoutes (r.nextPage c.identity)
        (r.insertAll ((c.identity :: later).map .page)) c.routes =
          planRoutes (r.nextPage c.identity) (r.addPage c.identity) c.routes :=
      planRoutes_congr (hasEndpoint_insertAll_pages (r.addPage c.identity) later) c.routes
    rw [planController_of_no_page hp, planController_of_page hp', hroutes]
    exact ⟨later, hmore, rfl, rfl,
      (insertAll_pages_endpoints (r.addPage c.identity) later _).symm⟩

/-- Pages that are opened ahead are opened no more; the new endpoints stay the same. -/
theorem plan_opened_ahead {r : Rows} {cs : List (Path × Controller)} {ahead rest : List PageIdentity}
    (h : (plan r cs).flatMap (·.opened) = ahead ++ rest) :
    (plan (r.insertAll (ahead.map .page)) cs).flatMap (·.opened) = rest ∧
      (plan (r.insertAll (ahead.map .page)) cs).flatMap (·.news) =
        (plan r cs).flatMap (·.news) := by
  induction cs generalizing r ahead with
  | nil =>
    obtain ⟨_, rfl⟩ := List.append_eq_nil_iff.1 h.symm
    exact ⟨rfl, rfl⟩
  | cons c cs ih =>
    obtain ⟨path, c⟩ := c
    by_cases hahead : ahead = []
    · subst hahead
      exact ⟨h, rfl⟩
    · rw [plan, List.flatMap_cons] at h
      obtain ⟨later, hmore, hopened, hnews, hrows⟩ := planController_opened_ahead h hahead
      obtain ⟨hrest, hrestNews⟩ := ih hmore
      simp only [plan, List.flatMap_cons, PageScan.insertions, hopened, hnews, List.map_nil,
        List.nil_append, hrows] at hrest hrestNews ⊢
      exact ⟨hrest, congrArg _ hrestNews⟩

/-! ### Completing a scan -/

/-- Whichever rows the files before left, the rest leads to the same store. -/
theorem insertsAll_rest_iff {s u t : σ} {persistence : Persistence} {cs : List (Path × Controller)}
    (h : InsertsAll s ((plan (rows s) cs).flatMap (atOnce persistence)) u)
    (ds : List (Path × Controller)) :
    InsertsAll u ((plan (rows u) (cs ++ ds)).flatMap (·.insertions)) t ↔
      InsertsAll s ((plan (rows s) (cs ++ ds)).flatMap (·.insertions)) t := by
  cases persistence with
  | incremental =>
    have hrows : rows u = (rows s).insertAll ((plan (rows s) cs).flatMap (·.insertions)) := h.rows_eq
    rw [hrows, insertions_plan_again, plan_append, List.flatMap_append]
    exact h.append_iff.symm
  | batched =>
    set ps := plan (rows s) (cs ++ ds)
    have hwaiting (qs : List PageScan) : qs.flatMap (waiting .batched) = qs.flatMap (·.news) := rfl
    have hopened : ps.flatMap (·.opened) = (plan (rows s) cs).flatMap (·.opened) ++
        (plan ((rows s).insertAll ((plan (rows s) cs).flatMap (·.insertions))) ds).flatMap
          (·.opened) := by
      rw [← List.flatMap_append, ← plan_append]
    have hrows : rows u =
        (rows s).insertAll (((plan (rows s) cs).flatMap (·.opened)).map .page) := by
      rw [← flatMap_atOnce_batched]
      exact h.rows_eq
    obtain ⟨hrest, hnews⟩ := plan_opened_ahead hopened
    rw [flatMap_atOnce_batched] at h
    rw [← @insertsAll_in_any_order _ _ .batched _ _ _ (plan_fitAll (rows u) (cs ++ ds)),
      ← @insertsAll_in_any_order _ _ .batched _ _ _ (plan_fitAll (rows s) (cs ++ ds)),
      flatMap_atOnce_batched, flatMap_atOnce_batched, hwaiting, hwaiting, hrows, hrest, hnews,
      hopened, List.map_append, List.append_assoc]
    exact h.append_iff.symm

/-! ### Trees that agree -/

/-- Two trees have the same content for a file and for the scripts that it refers to. -/
structure AgreeOn (tree tree' : FileTree) (base file : Path) : Prop where
  content : tree'.read file = tree.read file
  scripts : ∀ bytes, tree.read file = .ok bytes →
    ∀ t ∈ Directive.targets base (Text.Utf8.decodeLossy bytes), tree'.read t.path = tree.read t.path

section Trees

variable {tree tree' : FileTree} {options : ScanOptions} {base : Path}

theorem resolve_congr {letters : Directive.LetterCase} {text : List Char}
    (h : ∀ t ∈ Directive.targets base text, tree'.read t.path = tree.read t.path) :
    Directive.resolve tree' base letters text = Directive.resolve tree base letters text := by
  have hread : (Directive.targets base text).map (·.read tree' letters) =
      (Directive.targets base text).map (·.read tree letters) := by
    refine List.map_congr_left fun t ht => ?_
    rw [Directive.Target.read, Directive.Target.read, h t ht]
  rw [Directive.resolve, Directive.resolve, hread]

theorem Controller.read_of_agreeOn {file : Path} (h : AgreeOn tree tree' base file) :
    Controller.read tree' options base file = Controller.read tree options base file := by
  rw [Controller.read, Controller.read, h.content]
  cases hfile : tree.read file with
  | error e => rfl
  | ok bytes =>
    simp only [Except.map, Controller.ofText, resolve_congr (h.scripts bytes hfile)]

end Trees

theorem legible_congr {read read' : Path → Except IoError Controller} {files : List Path}
    (h : ∀ file ∈ files, read' file = read file) : legible read' files = legible read files := by
  induction files with
  | nil => rfl
  | cons file files ih =>
    obtain ⟨hfile, hfiles⟩ := List.forall_mem_cons.1 h
    rw [legible, legible, hfile, ih hfiles]

theorem legible_append {read : Path → Except IoError Controller} {files : List Path}
    (h : obstacle? read files = none) (more : List Path) :
    legible read (files ++ more) = legible read files ++ legible read more := by
  induction files with
  | nil => rfl
  | cons file files ih =>
    rw [obstacle?] at h
    rw [List.cons_append, legible, legible]
    split at h
    · rw [ih h, List.cons_append]
    · cases h

/-! ### Failing and scanning again -/

/-- A scan that ran into a file that cannot be read. -/
theorem outcome_unreadable {tree : FileTree} {options : ScanOptions} {base : Path}
    {files : List Path} {s : σ} {path : Path} {e : IoError}
    (h : (Outcome.of (scanAll tree options base files) s).result = .error (.unreadable path e)) :
    ∃ before after, files.mergeSort Path.le = before ++ path :: after ∧
      (Outcome.of (scanAll tree options base files) s).visited = before ++ [path] ∧
      (∀ file ∈ before, ∃ c, Controller.read tree options base file = .ok c) ∧
      tree.read path = .error e ∧
      InsertsAll s ((plan (rows s) (legible (Controller.read tree options base) before)).flatMap
        (atOnce options.persistence)) (Outcome.of (scanAll tree options base files) s).store := by
  have halts := outcome_halts h
  generalize Outcome.of (scanAll tree options base files) s = o at h halts ⊢
  cases halts with
  | row => cases h
  | batch => cases h
  | file hobstacle hi =>
    cases h
    obtain ⟨before, after, hfiles, hbefore, hpath, hlegible⟩ := obstacle?_eq_some hobstacle
    rw [hlegible] at hi
    refine ⟨before, after, hfiles, ?_, obstacle?_eq_none.1 hbefore,
      Controller.read_eq_error.1 hpath, hi⟩
    rw [hlegible, map_path_plan, map_fst_legible hbefore]

/-- The scan succeeds and leaves the store `t`. -/
def Outcome.Completes (o : Outcome σ) (t : σ) : Prop :=
  (∃ summary, o.result = .ok summary) ∧ o.store = t

theorem outcome_completes_iff {tree : FileTree} {options : ScanOptions} {base : Path}
    {files : List Path} {s t : σ} :
    (Outcome.of (scanAll tree options base files) s).Completes t ↔
      obstacle? (Controller.read tree options base) (files.mergeSort Path.le) = none ∧
        InsertsAll s ((plan (rows s)
          (legible (Controller.read tree options base) (files.mergeSort Path.le))).flatMap
            (·.insertions)) t := by
  constructor
  · rintro ⟨⟨summary, h⟩, hstore⟩
    obtain ⟨hread, rfl, hi⟩ := outcome_ok_iff.1 ⟨h, hstore⟩
    exact ⟨hread, hi⟩
  · rintro ⟨hread, hi⟩
    obtain ⟨h, hstore⟩ := outcome_ok_iff.2 ⟨hread, rfl, hi⟩
    exact ⟨⟨_, h⟩, hstore⟩

/-- After a file could not be read, a scan of a tree that agrees on the files before it
completes exactly as if there had been no failed scan, whichever scan writes when. -/
theorem scanFiles_recovers {s : σ} {tree tree' : FileTree} {options : ScanOptions}
    {files : List Path} {path : Path} {e : IoError} {persistence : Persistence}
    (failed : (scanFiles tree { options with persistence } files s).result =
      .error (.unreadable path e))
    (agree : ∀ file ∈ (scanFiles tree { options with persistence } files s).visited, file ≠ path →
      AgreeOn tree tree' (options.directiveRoot.getD ⟨"."⟩) file)
    (again direct : Persistence) (t : σ) :
    (scanFiles tree' { options with persistence := again } files
        (scanFiles tree { options with persistence } files s).store).Completes t ↔
      (scanFiles tree' { options with persistence := direct } files s).Completes t := by
  obtain ⟨before, after, hsort, hvisited, hbefore, hpath, hi⟩ := outcome_unreadable failed
  let base := options.directiveRoot.getD ⟨"."⟩
  have hcongr : ∀ file ∈ before,
      Controller.read tree' options base file = Controller.read tree options base file := by
    intro file hf
    refine Controller.read_of_agreeOn (agree file ?_ ?_)
    · exact hvisited ▸ List.mem_append_left _ hf
    · rintro rfl
      obtain ⟨c, hc⟩ := hbefore file hf
      rw [Controller.read, hpath] at hc
      cases hc
  have hreadable : obstacle? (Controller.read tree' options base) before = none :=
    obstacle?_eq_none.2 fun file hf => (hbefore file hf).imp fun c hc => (hcongr file hf).trans hc
  have hlegible : legible (Controller.read tree' options base) (files.mergeSort Path.le) =
      legible (Controller.read tree options base) before ++
        legible (Controller.read tree' options base) (path :: after) := by
    rw [hsort, legible_append hreadable, legible_congr hcongr]
  refine outcome_completes_iff.trans (Iff.trans ?_ outcome_completes_iff.symm)
  refine and_congr_right fun _ => ?_
  change InsertsAll _ ((plan _ (legible (Controller.read tree' options base) _)).flatMap _) t ↔
    InsertsAll s ((plan _ (legible (Controller.read tree' options base) _)).flatMap _) t
  rw [hlegible]
  exact insertsAll_rest_iff hi _

/-! ### The shared page with a file that is missing at first -/

/-- The shared page with one more file beside the one that refers to a script. -/
def repairedPage : FileTree :=
  { sharedPage with
    entries := (["w", "v", "b.js"], .file (Text.Utf8.encode "/api/z".toList)) :: sharedPage.entries }

def repairedFiles : List Path := [⟨"w/v/a.js"⟩, ⟨"w/v/b.js"⟩]

theorem sharedPage_read_referring :
    sharedPage.read ⟨"w/v/a.js"⟩ = .ok (Text.Utf8.encode "/api/x directives/d.js".toList) := by
  cbv

theorem repairedPage_read_script :
    repairedPage.read ⟨"./directives/d.js"⟩ = sharedPage.read ⟨"./directives/d.js"⟩ := by
  cbv

theorem repairedPage_agrees : AgreeOn sharedPage repairedPage ⟨"."⟩ ⟨"w/v/a.js"⟩ where
  content := by cbv
  scripts bytes hbytes t ht := by
    cases sharedPage_read_referring.symm.trans hbytes
    have htargets : (Directive.targets ⟨"."⟩ (Text.Utf8.decodeLossy
        (Text.Utf8.encode "/api/x directives/d.js".toList))).map (·.path) =
          [⟨"./directives/d.js"⟩] := by
      cbv
    have hpath : t.path ∈ [(⟨"./directives/d.js"⟩ : Path)] := htargets ▸ List.mem_map_of_mem ht
    rw [List.mem_singleton.1 hpath, repairedPage_read_script]

theorem repairedFiles_sorted : repairedFiles.mergeSort Path.le = repairedFiles := by
  have hle : Path.le ⟨"w/v/a.js"⟩ ⟨"w/v/b.js"⟩ = true := by cbv
  exact List.mergeSort_of_pairwise (by simp [repairedFiles, hle])

theorem repairedFiles_missing : ∃ e,
    (scanFiles sharedPage { ScanOptions.standard with persistence := .batched } repairedFiles
      Database.empty).result = .error (.unreadable ⟨"w/v/b.js"⟩ e) := by
  have haccepts (i : Insertion) : refuses (setting Database.empty) i = false := by cases i <;> rfl
  have hmissing : sharedPage.read ⟨"w/v/b.js"⟩ = .error .notFound := by cbv
  refine ⟨.notFound, (outcome_result haccepts).trans ?_⟩
  rw [repairedFiles_sorted]
  simp [repairedFiles, reportOf, obstacle?, Controller.read, sharedPage_read_referring, hmissing,
    Except.map]

/-- A batched scan into a new database fails; once the file is there, an incremental one
completes what a batched one makes of a new database. -/
theorem repairedPage_recovers : ∃ t,
    (scanFiles repairedPage .standard repairedFiles (scanFiles sharedPage
      { ScanOptions.standard with persistence := .batched } repairedFiles
        Database.empty).store).Completes t ∧
    (scanFiles repairedPage { ScanOptions.standard with persistence := .batched } repairedFiles
      Database.empty).Completes t := by
  obtain ⟨e, failed⟩ := repairedFiles_missing
  have haccepts (i : Insertion) : refuses (setting Database.empty) i = false := by cases i <;> rfl
  have hread : ∀ file ∈ repairedFiles, ∃ bytes, repairedPage.read file = .ok bytes := by
    simp only [repairedFiles, List.forall_mem_cons, List.not_mem_nil, false_implies, implies_true,
      and_true]
    exact ⟨⟨_, by cbv⟩, ⟨_, by cbv⟩⟩
  have hok := scanFiles_isOk haccepts { ScanOptions.standard with persistence := .batched } hread
  have hdirect : (scanFiles repairedPage { ScanOptions.standard with persistence := .batched }
      repairedFiles Database.empty).Completes _ := ⟨hok, rfl⟩
  refine ⟨_, (scanFiles_recovers failed (fun file hf hne => ?_) .incremental .batched _).2 hdirect,
    hdirect⟩
  obtain ⟨before, after, hsort, hvisited, _⟩ := outcome_unreadable failed
  have hmem : file ∈ before := by
    rw [scanFiles, hvisited] at hf
    exact (List.mem_append.1 hf).resolve_right fun h => hne (List.mem_singleton.1 h)
  have hfile : file ∈ repairedFiles := by
    rw [repairedFiles_sorted] at hsort
    exact hsort ▸ List.mem_append_left _ hmem
  rcases List.mem_cons.1 hfile with rfl | hfile
  · exact repairedPage_agrees
  · exact absurd (List.mem_singleton.1 hfile) hne

end Scan

end EndpointCatalog
