import EndpointCatalog.Proofs.Store.Rows
import EndpointCatalog.Scan.Summary

/-! What a scan does, worked out from the rows it starts with. The account of a scan says
which pages and endpoints it inserts; they fit one after the other, and they may as well
be inserted with all the pages first. -/

namespace EndpointCatalog

namespace Scan

/-- The endpoints of a page that a scan found to be new. -/
def newsOf (page : Page) (fs : List Found) : List NewEndpoint :=
  (fs.filter (·.added)).map fun f => ⟨page.id, f.url, f.redirect⟩

namespace PageScan

def opened (p : PageScan) : List PageIdentity := if p.pageCreated then [p.page.identity] else []

def news (p : PageScan) : List NewEndpoint := newsOf p.page p.endpoints

def insertions (p : PageScan) : List Insertion := p.opened.map .page ++ p.news.map .endpoint

end PageScan

def Summary.insertions (s : Summary) : List Insertion := s.pages.flatMap (·.insertions)

def planRoutes (page : Page) : Rows → List Route → List Found
  | _, [] => []
  | r, x :: xs =>
    if r.hasEndpoint page.id x.url then ⟨x.url, x.redirect, false⟩ :: planRoutes page r xs
    else
      ⟨x.url, x.redirect, true⟩ :: planRoutes page (r.addEndpoint ⟨page.id, x.url, x.redirect⟩) xs

def planController (r : Rows) (path : Path) (c : Controller) : PageScan :=
  match r.page? c.identity with
  | some page => ⟨path, page, false, planRoutes page r c.routes, c.resolved, c.skipped⟩
  | none =>
    let page := r.nextPage c.identity
    ⟨path, page, true, planRoutes page (r.addPage c.identity) c.routes, c.resolved, c.skipped⟩

/-- The account of a scan of controllers, each with its path, in their order. -/
def plan (r : Rows) : List (Path × Controller) → List PageScan
  | [] => []
  | (path, c) :: rest =>
    let p := planController r path c
    p :: plan (r.insertAll p.insertions) rest

theorem newsOf_planRoutes_old {page : Page} {r : Rows} {x : Route}
    (hx : r.hasEndpoint page.id x.url = true) (xs : List Route) :
    newsOf page (planRoutes page r (x :: xs)) = newsOf page (planRoutes page r xs) := by
  simp [planRoutes, hx, newsOf]

theorem newsOf_planRoutes_new {page : Page} {r : Rows} {x : Route}
    (hx : r.hasEndpoint page.id x.url = false) (xs : List Route) :
    newsOf page (planRoutes page r (x :: xs)) = ⟨page.id, x.url, x.redirect⟩ ::
      newsOf page (planRoutes page (r.addEndpoint ⟨page.id, x.url, x.redirect⟩) xs) := by
  simp [planRoutes, hx, newsOf]

/-- If no url is repeated among the routes, each is new unless the rows have it at the start. -/
theorem planRoutes_eq_map (page : Page) (r : Rows) {xs : List Route}
    (distinct : xs.Pairwise fun x y => x.url ≠ y.url) :
    planRoutes page r xs =
      xs.map fun x => ⟨x.url, x.redirect, !r.hasEndpoint page.id x.url⟩ := by
  induction xs generalizing r with
  | nil => rfl
  | cons x xs ih =>
    obtain ⟨hx, hxs⟩ := List.pairwise_cons.1 distinct
    rw [planRoutes, List.map_cons]
    cases hold : r.hasEndpoint page.id x.url with
    | true => rw [if_pos rfl, ih r hxs, Bool.not_true]
    | false =>
      rw [if_neg (by simp), ih _ hxs, Bool.not_false]
      congr 1
      refine List.map_congr_left fun y hy => ?_
      rw [Rows.hasEndpoint_addEndpoint_ne (hx y hy).symm]

theorem planController_of_page {r : Rows} {c : Controller} {page : Page}
    (h : r.page? c.identity = some page) (path : Path) :
    planController r path c =
      ⟨path, page, false, planRoutes page r c.routes, c.resolved, c.skipped⟩ := by
  rw [planController, h]

theorem planController_of_no_page {r : Rows} {c : Controller} (h : r.page? c.identity = none)
    (path : Path) : planController r path c = ⟨path, r.nextPage c.identity, true,
      planRoutes (r.nextPage c.identity) (r.addPage c.identity) c.routes, c.resolved, c.skipped⟩ := by
  rw [planController, h]

theorem insertions_of_page {r : Rows} {c : Controller} {page : Page}
    (h : r.page? c.identity = some page) (path : Path) :
    (planController r path c).insertions =
      (newsOf page (planRoutes page r c.routes)).map .endpoint := by
  rw [planController_of_page h]
  rfl

theorem insertions_of_no_page {r : Rows} {c : Controller} (h : r.page? c.identity = none)
    (path : Path) :
    (planController r path c).insertions = .page c.identity :: (newsOf (r.nextPage c.identity)
      (planRoutes (r.nextPage c.identity) (r.addPage c.identity) c.routes)).map .endpoint := by
  rw [planController_of_no_page h]
  rfl

/-! ### Planned rows fit -/

theorem planRoutes_fitAll {page : Page} {r : Rows} (h : r.hasPage page.id = true)
    (xs : List Route) : r.FitAll ((newsOf page (planRoutes page r xs)).map .endpoint) := by
  induction xs generalizing r with
  | nil => trivial
  | cons x xs ih =>
    cases hx : r.hasEndpoint page.id x.url with
    | true =>
      rw [newsOf_planRoutes_old hx]
      exact ih h
    | false =>
      rw [newsOf_planRoutes_new hx]
      exact ⟨⟨h, hx⟩, ih h⟩

theorem planController_fitAll (r : Rows) (path : Path) (c : Controller) :
    r.FitAll (planController r path c).insertions := by
  cases h : r.page? c.identity with
  | some page =>
    rw [insertions_of_page h]
    exact planRoutes_fitAll (Rows.hasPage_of_page? h) c.routes
  | none =>
    rw [insertions_of_no_page h]
    refine ⟨h, planRoutes_fitAll ?_ c.routes⟩
    simp [Rows.insert, Rows.nextPage]

theorem plan_fitAll (r : Rows) (cs : List (Path × Controller)) :
    r.FitAll ((plan r cs).flatMap (·.insertions)) := by
  induction cs generalizing r with
  | nil => trivial
  | cons c cs ih =>
    obtain ⟨path, c⟩ := c
    simp only [plan, List.flatMap_cons]
    exact Rows.fitAll_append.2 ⟨planController_fitAll r path c, ih _⟩

/-! ### Planned rows are all that the controllers call for -/

def Controller.urls (c : Controller) : List String := c.routes.map (·.url)

/-- The rows have the page of a controller and on it all of its urls. -/
def HasAll (r : Rows) (c : Controller) : Prop :=
  ∃ page, r.page? c.identity = some page ∧ ∀ url ∈ c.urls, r.hasEndpoint page.id url = true

theorem HasAll.mono {r r' : Rows} (h : r.Grows r') {c : Controller} (hc : HasAll r c) :
    HasAll r' c := by
  obtain ⟨page, hpage, hurls⟩ := hc
  exact ⟨page, h.page?_eq_some hpage, fun url hu => h.hasEndpoint (hurls url hu)⟩

theorem hasEndpoint_planRoutes (page : Page) (r : Rows) {xs : List Route} {x : Route}
    (hx : x ∈ xs) :
    (r.insertAll ((newsOf page (planRoutes page r xs)).map .endpoint)).hasEndpoint page.id x.url =
      true := by
  induction xs generalizing r with
  | nil => cases hx
  | cons y ys ih =>
    cases hy : r.hasEndpoint page.id y.url with
    | true =>
      rw [newsOf_planRoutes_old hy]
      rcases List.mem_cons.1 hx with rfl | hx
      · exact (Rows.grows_insertAll r _).hasEndpoint hy
      · exact ih r hx
    | false =>
      rw [newsOf_planRoutes_new hy, List.map_cons, Rows.insertAll_cons, Rows.insert]
      rcases List.mem_cons.1 hx with rfl | hx
      · refine (Rows.grows_insertAll _ _).hasEndpoint ?_
        simp
      · exact ih _ hx

theorem hasAll_planController (r : Rows) (path : Path) (c : Controller) :
    HasAll (r.insertAll (planController r path c).insertions) c := by
  unfold planController
  cases hp : r.page? c.identity with
  | some page =>
    refine ⟨page, (Rows.grows_insertAll r _).page?_eq_some hp, fun url hu => ?_⟩
    obtain ⟨x, hx, rfl⟩ := List.mem_map.1 hu
    exact hasEndpoint_planRoutes page r hx
  | none =>
    have hpage : (r.addPage c.identity).page? c.identity = some (r.nextPage c.identity) := by
      rw [Rows.page?_addPage hp, if_pos rfl]
    have hgrows := Rows.grows_insertAll (r.addPage c.identity)
    refine ⟨r.nextPage c.identity, (hgrows _).page?_eq_some hpage, fun url hu => ?_⟩
    obtain ⟨x, hx, rfl⟩ := List.mem_map.1 hu
    exact hasEndpoint_planRoutes (r.nextPage c.identity) (r.addPage c.identity) hx

theorem hasAll_plan (r : Rows) {cs : List (Path × Controller)} {path : Path} {c : Controller}
    (hc : (path, c) ∈ cs) : HasAll (r.insertAll ((plan r cs).flatMap (·.insertions))) c := by
  induction cs generalizing r with
  | nil => cases hc
  | cons d cs ih =>
    obtain ⟨path', d⟩ := d
    rw [plan, List.flatMap_cons, Rows.insertAll_append]
    rcases List.mem_cons.1 hc with hc | hc
    · cases hc
      exact (hasAll_planController r path c).mono (Rows.grows_insertAll _ _)
    · exact ih _ hc

/-! ### Pages first -/

/-- The insertions of some pages and then of some endpoints. -/
def pagesFirst (ids : List PageIdentity) (es : List NewEndpoint) : List Insertion :=
  ids.map .page ++ es.map .endpoint

theorem insertAll_pages_addEndpoint (r : Rows) (ids : List PageIdentity) (e : NewEndpoint) :
    (r.addEndpoint e).insertAll (ids.map .page) = (r.insertAll (ids.map .page)).addEndpoint e := by
  induction ids generalizing r with
  | nil => rfl
  | cons id ids ih => exact ih (r.addPage id)

theorem insertAll_pages_endpoints (r : Rows) (ids : List PageIdentity) (es : List NewEndpoint) :
    (r.insertAll (es.map .endpoint)).insertAll (ids.map .page) =
      (r.insertAll (ids.map .page)).insertAll (es.map .endpoint) := by
  induction es generalizing r with
  | nil => rfl
  | cons e es ih =>
    simp only [List.map_cons, Rows.insertAll_cons, Rows.insert, ih, insertAll_pages_addEndpoint]

theorem insertAll_pagesFirst (r : Rows) (ps : List PageScan) :
    r.insertAll (pagesFirst (ps.flatMap (·.opened)) (ps.flatMap (·.news))) =
      r.insertAll (ps.flatMap (·.insertions)) := by
  induction ps generalizing r with
  | nil => rfl
  | cons p ps ih =>
    simp only [pagesFirst, PageScan.insertions, List.flatMap_cons, List.map_append,
      Rows.insertAll_append] at ih ⊢
    rw [← ih, insertAll_pages_endpoints]

theorem mem_pagesFirst {ps : List PageScan} {i : Insertion} :
    i ∈ pagesFirst (ps.flatMap (·.opened)) (ps.flatMap (·.news)) ↔
      i ∈ ps.flatMap (·.insertions) := by
  simp only [pagesFirst, PageScan.insertions, List.mem_append, List.mem_map, List.mem_flatMap]
  constructor
  · rintro (⟨id, ⟨p, hp, hid⟩, rfl⟩ | ⟨e, ⟨p, hp, he⟩, rfl⟩)
    · exact ⟨p, hp, .inl ⟨id, hid, rfl⟩⟩
    · exact ⟨p, hp, .inr ⟨e, he, rfl⟩⟩
  · rintro ⟨p, hp, ⟨id, hid, rfl⟩ | ⟨e, he, rfl⟩⟩
    · exact .inl ⟨id, ⟨p, hp, hid⟩, rfl⟩
    · exact .inr ⟨e, ⟨p, hp, he⟩, rfl⟩

theorem page?_insertAll_endpoints (r : Rows) (es : List NewEndpoint) (id : PageIdentity) :
    (r.insertAll (es.map .endpoint)).page? id = r.page? id := by
  induction es generalizing r with
  | nil => rfl
  | cons e es ih => exact ih (r.addEndpoint e)

theorem hasEndpoint_insertAll_pages (r : Rows) (ids : List PageIdentity) (pageId : Int)
    (url : String) :
    (r.insertAll (ids.map .page)).hasEndpoint pageId url = r.hasEndpoint pageId url := by
  induction ids generalizing r with
  | nil => rfl
  | cons id ids ih => exact ih (r.addPage id)

theorem fitAll_pages_of_endpoints {r : Rows} {ids : List PageIdentity} {es : List NewEndpoint}
    (h : (r.insertAll (es.map .endpoint)).FitAll (ids.map .page)) : r.FitAll (ids.map .page) := by
  induction ids generalizing r with
  | nil => trivial
  | cons id ids ih =>
    obtain ⟨hid, hids⟩ := h
    have hc := insertAll_pages_endpoints r [id] es
    exact ⟨(page?_insertAll_endpoints r es id).symm.trans hid, ih (hc ▸ hids)⟩

theorem fitAll_endpoints_of_pages {r : Rows} {ids : List PageIdentity} {es : List NewEndpoint}
    (h : r.FitAll (es.map .endpoint)) :
    (r.insertAll (ids.map .page)).FitAll (es.map .endpoint) := by
  induction es generalizing r with
  | nil => trivial
  | cons e es ih =>
    obtain ⟨⟨hp, hu⟩, hes⟩ := h
    refine ⟨⟨(Rows.grows_insertAll r _).hasPage hp, ?_⟩, ?_⟩
    · rw [hasEndpoint_insertAll_pages, hu]
    · rw [Rows.insert, ← insertAll_pages_addEndpoint]
      exact ih hes

theorem fitAll_pagesFirst {r : Rows} {ps : List PageScan}
    (h : r.FitAll (ps.flatMap (·.insertions))) :
    r.FitAll (pagesFirst (ps.flatMap (·.opened)) (ps.flatMap (·.news))) := by
  induction ps generalizing r with
  | nil => trivial
  | cons p ps ih =>
    simp only [List.flatMap_cons, PageScan.insertions, Rows.fitAll_append] at h
    obtain ⟨⟨hopened, hnews⟩, hrest⟩ := h
    have hf := ih hrest
    simp only [pagesFirst, List.flatMap_cons, List.map_append, Rows.fitAll_append,
      Rows.insertAll_append] at hf ⊢
    refine ⟨⟨hopened, fitAll_pages_of_endpoints hf.1⟩, fitAll_endpoints_of_pages hnews, ?_⟩
    rw [← insertAll_pages_endpoints]
    exact hf.2

end Scan

end EndpointCatalog
