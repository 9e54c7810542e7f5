import EndpointCatalog.Proofs.Scan.Interrupted
import EndpointCatalog.Proofs.Scan.Order

/-! The account of a scan against the rows before and after it. The pages that the account
calls created and the endpoints that it calls added are the rows gained, in the order of
their numbers, and an endpoint is called old exactly if its page had the url before the
scan or an earlier file of the scan has it too. -/

namespace EndpointCatalog

open StoreView

namespace Rows

/-- Endpoints with the numbers that they get when they are inserted one after the other. -/
def numbered (r : Rows) (es : List NewEndpoint) : List Endpoint :=
  es.mapIdx fun i e => e.numbered (r.lastEndpoint + 1 + i)

theorem numbered_cons (r : Rows) (e : NewEndpoint) (es : List NewEndpoint) :
    r.numbered (e :: es) = r.nextEndpoint e :: (r.addEndpoint e).numbered es := by
  have hnext : ∀ i : Nat, r.lastEndpoint + 1 + ((i + 1 : Nat) : Int) =
      (r.addEndpoint e).lastEndpoint + 1 + i := by
    intro i
    simp only [addEndpoint]
    omega
  simp only [numbered, List.mapIdx_cons, hnext, Int.natCast_zero, Int.add_zero]
  rfl

theorem endpoints_insertAll_endpoints (r : Rows) (es : List NewEndpoint) :
    (r.insertAll (es.map .endpoint)).endpoints = r.endpoints ++ r.numbered es := by
  induction es generalizing r with
  | nil => simp [numbered]
  | cons e es ih =>
    rw [List.map_cons, insertAll_cons, insert, ih, numbered_cons]
    simp [addEndpoint]

theorem numbered_insertAll_pages (r : Rows) (ids : List PageIdentity) (es : List NewEndpoint) :
    (r.insertAll (ids.map .page)).numbered es = r.numbered es := by
  induction ids generalizing r with
  | nil => rfl
  | cons id ids ih => exact ih (r.addPage id)

end Rows

namespace Scan

/-- What the account of a scan says of the rows before and after it. -/
structure Accounts (summary : Summary) (r r' : Rows) : Prop where
  pages_eq : r'.pages = r.pages ++ (summary.pages.filter (·.pageCreated)).map (·.page)
  endpoints_eq : r'.endpoints = r.endpoints ++ r.numbered (summary.pages.flatMap (·.news))
  pagesCreated_eq : r'.pages.length = r.pages.length + summary.pagesCreated
  endpointsAdded_eq : r'.endpoints.length = r.endpoints.length + summary.endpointsAdded
  old_iff : ∀ before p after, summary.pages = before ++ p :: after → ∀ f ∈ p.endpoints,
    (f.added = false ↔ r.hasEndpoint p.page.id f.url = true ∨
      ∃ q ∈ before, q.page.id = p.page.id ∧ ∃ g ∈ q.endpoints, g.url = f.url)
  distinct : ∀ p ∈ summary.pages, (p.endpoints.map (·.url)).Nodup

/-! ### One file -/

section Controller

variable {r : Rows} {path : Path} {c : Controller}

theorem planController_endpoints (distinct : c.routes.Pairwise fun x y => x.url ≠ y.url) :
    (planController r path c).endpoints = c.routes.map fun x =>
      ⟨x.url, x.redirect, !r.hasEndpoint (planController r path c).page.id x.url⟩ := by
  cases hp : r.page? c.identity with
  | some page => rw [planController_of_page hp, planRoutes_eq_map page r distinct]
  | none =>
    rw [planController_of_no_page hp, planRoutes_eq_map _ _ distinct]
    rfl

theorem pages_planController (r : Rows) (path : Path) (c : Controller) :
    (r.insertAll (planController r path c).insertions).pages = r.pages ++
      if (planController r path c).pageCreated then [(planController r path c).page] else [] := by
  cases hp : r.page? c.identity with
  | some page =>
    rw [insertions_of_page hp, Rows.pages_insertAll_endpoints, planController_of_page hp]
    exact (List.append_nil r.pages).symm
  | none =>
    rw [insertions_of_no_page hp, Rows.insertAll_cons, Rows.pages_insertAll_endpoints,
      planController_of_no_page hp]
    rfl

/-- In one file an endpoint is called old exactly if its page has the url already. -/
theorem old_planController (distinct : c.routes.Pairwise fun x y => x.url ≠ y.url) {f : Found}
    (hf : f ∈ (planController r path c).endpoints) :
    f.added = false ↔ r.hasEndpoint (planController r path c).page.id f.url = true := by
  rw [planController_endpoints distinct] at hf
  obtain ⟨x, _, rfl⟩ := List.mem_map.1 hf
  simp

end Controller

/-! ### Several files -/

theorem mem_news {p : PageScan} {e : NewEndpoint} :
    e ∈ p.news ↔ ∃ f ∈ p.endpoints, f.added = true ∧ ⟨p.page.id, f.url, f.redirect⟩ = e := by
  simp [PageScan.news, newsOf, and_assoc]

theorem length_news (ps : List PageScan) :
    (ps.flatMap (·.news)).length = Summary.endpointsAdded ⟨ps⟩ := by
  simp only [Summary.endpointsAdded, List.length_flatMap, List.countP_flatMap, PageScan.news,
    newsOf, List.length_map, ← List.countP_eq_length_filter, Function.comp_def]

theorem hasEndpoint_insertAll_insertions (r : Rows) (ps : List PageScan) (pageId : Int)
    (url : String) :
    (r.insertAll (ps.flatMap (·.insertions))).hasEndpoint pageId url = true ↔
      r.hasEndpoint pageId url = true ∨ ∃ p ∈ ps, p.page.id = pageId ∧
        ∃ f ∈ p.endpoints, f.added = true ∧ f.url = url := by
  rw [← insertAll_pagesFirst, pagesFirst, Rows.insertAll_append, hasEndpoint_insertAll_endpoints,
    hasEndpoint_insertAll_pages, Bool.or_eq_true, List.any_eq_true]
  refine or_congr_right ⟨?_, ?_⟩
  · rintro ⟨e, he, hk⟩
    obtain ⟨p, hp, hnews⟩ := List.mem_flatMap.1 he
    obtain ⟨f, hf, hadded, rfl⟩ := mem_news.1 hnews
    obtain ⟨hid, hurl⟩ : p.page.id = pageId ∧ f.url = url := by simpa using hk
    exact ⟨p, hp, hid, f, hf, hadded, hurl⟩
  · rintro ⟨p, hp, rfl, f, hf, hadded, rfl⟩
    have hnews : ⟨p.page.id, f.url, f.redirect⟩ ∈ p.news := mem_news.2 ⟨f, hf, hadded, rfl⟩
    exact ⟨_, List.mem_flatMap.2 ⟨p, hp, hnews⟩, by simp⟩

theorem pages_plan (r : Rows) (cs : List (Path × Controller)) :
    (r.insertAll ((plan r cs).flatMap (·.insertions))).pages =
      r.pages ++ ((plan r cs).filter (·.pageCreated)).map (·.page) := by
  induction cs generalizing r with
  | nil => simp [plan]
  | cons c cs ih =>
    obtain ⟨path, c⟩ := c
    rw [plan, List.flatMap_cons, Rows.insertAll_append, ih, pages_planController, List.filter_cons]
    split <;> simp

section Plan

variable {r : Rows} {cs : List (Path × Controller)}
  (distinct : ∀ c ∈ cs, c.2.routes.Pairwise fun x y => x.url ≠ y.url)

include distinct

/-- Once the files have been scanned their pages have every url that was found in them. -/
theorem hasEndpoint_plan {p : PageScan} (hp : p ∈ plan r cs) {f : Found} (hf : f ∈ p.endpoints) :
    (r.insertAll ((plan r cs).flatMap (·.insertions))).hasEndpoint p.page.id f.url = true := by
  cases hadded : f.added with
  | true =>
    exact (hasEndpoint_insertAll_insertions r _ _ _).2 (.inr ⟨p, hp, rfl, f, hf, hadded, rfl⟩)
  | false =>
    obtain ⟨before, after, hplan⟩ := List.append_of_mem hp
    obtain ⟨_, path, c, _, rfl, _, hc⟩ := plan_eq_append_cons hplan
    have hold := distinct (path, c) (List.mem_append_right _ List.mem_cons_self)
    subst hc
    rw [hplan, List.flatMap_append, Rows.insertAll_append]
    exact (Rows.grows_insertAll _ _).hasEndpoint ((old_planController hold hf).1 hadded)

theorem old_plan {before after : List PageScan} {p : PageScan}
    (hplan : plan r cs = before ++ p :: after) {f : Found} (hf : f ∈ p.endpoints) :
    f.added = false ↔ r.hasEndpoint p.page.id f.url = true ∨
      ∃ q ∈ before, q.page.id = p.page.id ∧ ∃ g ∈ q.endpoints, g.url = f.url := by
  obtain ⟨earlier, path, c, later, rfl, rfl, rfl⟩ := plan_eq_append_cons hplan
  have hearlier : ∀ d ∈ earlier, d.2.routes.Pairwise fun x y => x.url ≠ y.url :=
    fun d hd => distinct d (List.mem_append_left _ hd)
  have hc := distinct (path, c) (List.mem_append_right _ List.mem_cons_self)
  rw [old_planController hc hf, hasEndpoint_insertAll_insertions]
  constructor
  · rintro (h | ⟨q, hq, hid, g, hg, _, hurl⟩)
    · exact .inl h
    · exact .inr ⟨q, hq, hid, g, hg, hurl⟩
  · rintro (h | ⟨q, hq, hid, g, hg, hurl⟩)
    · exact .inl h
    · rw [← hasEndpoint_insertAll_insertions, ← hid, ← hurl]
      exact hasEndpoint_plan hearlier hq hg

theorem accounts_plan :
    Accounts ⟨plan r cs⟩ r (r.insertAll ((plan r cs).flatMap (·.insertions))) := by
  have hpages := pages_plan r cs
  have hendpoints : (r.insertAll ((plan r cs).flatMap (·.insertions))).endpoints =
      r.endpoints ++ r.numbered ((plan r cs).flatMap (·.news)) := by
    rw [← insertAll_pagesFirst, pagesFirst, Rows.insertAll_append,
      Rows.endpoints_insertAll_endpoints, Rows.endpoints_insertAll_pages,
      Rows.numbered_insertAll_pages]
  constructor
  case pages_eq => exact hpages
  case endpoints_eq => exact hendpoints
  case pagesCreated_eq =>
    rw [hpages, List.length_append, List.length_map, ← List.countP_eq_length_filter]
    rfl
  case endpointsAdded_eq =>
    rw [hendpoints, List.length_append, Rows.numbered, List.length_mapIdx, length_news]
  case old_iff => exact fun before p after hplan f hf => old_plan distinct hplan hf
  case distinct =>
    intro p hp
    obtain ⟨before, after, hplan⟩ := List.append_of_mem hp
    obtain ⟨_, path, c, _, rfl, _, rfl⟩ := plan_eq_append_cons hplan
    have hc := distinct (path, c) (List.mem_append_right _ List.mem_cons_self)
    rw [planController_endpoints hc, List.map_map, List.Nodup, List.pairwise_map]
    exact hc

end Plan

/-! ### A whole scan -/

theorem outcome_visited {σ : Type} [LawfulStore σ] {tree : FileTree} {options : ScanOptions}
    {base : Path} {files : List Path} {s : σ} {summary : Summary}
    (h : (Outcome.of (scanAll tree options base files) s).result = .ok summary) :
    (Outcome.of (scanAll tree options base files) s).visited = summary.pages.map (·.path) := by
  have ready : Ready options.persistence (⟨s, .empty, []⟩ : State σ) := fun _ => rfl
  obtain ⟨st', hrun, _⟩ := Outcome.of_eq_ok.1 ⟨h, rfl⟩
  have hvisited : (Outcome.of (scanAll tree options base files) s).visited = st'.visited := by
    rw [Outcome.of, hrun]
  rw [scanAll, run_bind_ok] at hrun
  obtain ⟨pages, st₂, hfiles, hrest⟩ := hrun
  rw [scanFiles_run ready, run_bind_ok] at hfiles
  obtain ⟨_, st₁, henact, hconclude⟩ := hfiles
  obtain ⟨_, rfl, rfl⟩ := conclude_run_ok.1 hconclude
  obtain ⟨_, _, hflush, hpure⟩ := run_bind_ok.1 hrest
  cases hpure
  rw [hvisited, (flush_run_ok.1 hflush).2, (enactAll_run_ok.1 henact).2]
  rfl

namespace Request

variable {σ : Type} [LawfulStore σ] {tree : FileTree} {options : ScanOptions} {q : Request} {s : σ}
  {summary : Summary}

theorem visited_eq (h : (q.run tree options s).result = .ok summary) :
    (q.run tree options s).visited = summary.pages.map (·.path) := by
  cases q with
  | listed files => exact outcome_visited h
  | below root =>
    rw [run, scanRoot] at h ⊢
    cases hd : discover tree options.fileSuffix root with
    | error e =>
      rw [hd] at h
      cases h
    | ok files =>
      rw [hd] at h
      exact outcome_visited h

theorem accounts (h : (q.run tree options s).result = .ok summary) :
    q.files tree options.fileSuffix = .ok (summary.pages.map (·.path)) ∧
      Accounts summary (rows s) (rows (q.run tree options s).store) := by
  obtain ⟨files, hfiles, hread, hsummary, hi⟩ := Request.run_ok_iff.1 ⟨h, rfl⟩
  constructor
  · rw [hfiles, hsummary, map_path_plan, map_fst_legible hread]
  · rw [hi.rows_eq, hsummary]
    exact accounts_plan fun c hc => Controller.read_distinct (read_of_mem_legible hc)

/-- A successful scan visits its files and gives a true account of what the store gained. -/
theorem run_accounted (h : (q.run tree options s).result = .ok summary) :
    q.files tree options.fileSuffix = .ok (q.run tree options s).visited ∧
      summary.pages.map (·.path) = (q.run tree options s).visited ∧
      summary.filesScanned = (q.run tree options s).visited.length ∧
      Accounts summary (rows s) (rows (q.run tree options s).store) := by
  obtain ⟨hfiles, haccounts⟩ := accounts h
  rw [visited_eq h]
  exact ⟨hfiles, rfl, (List.length_map _).symm, haccounts⟩

end Request

/-- In the shared page the second file repeats a url of the first one and has one more. -/
theorem sharedPage_accounted : ∃ summary,
    (sharedPageRequest.run sharedPage .standard Database.empty).result = .ok summary ∧
      summary.filesScanned = 2 ∧
      (rows (sharedPageRequest.run sharedPage .standard Database.empty).store).endpoints.length =
        summary.endpointsAdded := by
  obtain ⟨summary, h⟩ := sharedPage_isOk (s := Database.empty) fun i => by cases i <;> rfl
  obtain ⟨hfiles, _, hcount, haccounts⟩ := Request.run_accounted h
  have hvisited := Except.ok.inj hfiles
  refine ⟨summary, h, ?_, ?_⟩
  · rw [hcount, ← hvisited]
    exact List.length_mergeSort _
  · rw [haccounts.endpointsAdded_eq]
    exact Nat.zero_add _

end Scan

end EndpointCatalog
