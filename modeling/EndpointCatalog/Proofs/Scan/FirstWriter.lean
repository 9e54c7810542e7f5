import EndpointCatalog.Proofs.Scan.Plan

/-! The first writer wins. Under the names of a page a url keeps the redirect with which it
came in first: one that is in the rows already stays, and otherwise it is that of the
first controller with those names, and of the first of its routes, that has the url. -/

namespace EndpointCatalog

namespace Rows

/-- The redirect of a url on the page with the given names, if the page has it. -/
def redirect? (r : Rows) (id : PageIdentity) (url : String) : Option String :=
  (r.page? id).bind fun p =>
    (r.endpoints.find? fun e => e.pageId = p.id && e.url = url).map (·.redirect)

/-- Whether the page with the given names has a url. -/
def Has (r : Rows) (id : PageIdentity) (url : String) : Prop :=
  ∃ p ∈ r.pages, p.identity = id ∧ ∃ e ∈ r.endpoints, e.pageId = p.id ∧ e.url = url

namespace Sound

variable {r : Rows}

theorem id_le (h : r.Sound) {p : Page} (hp : p ∈ r.pages) : p.id ≤ r.lastPage := by
  have hm : p.id ∈ r.pages.map (·.id) := List.mem_map_of_mem hp
  rw [h.page_ids, mem_numbers] at hm
  rw [h.last_page]
  exact hm.2

theorem eq_of_id (h : r.Sound) {p q : Page} (hp : p ∈ r.pages) (hq : q ∈ r.pages)
    (he : p.id = q.id) : p = q :=
  List.inj_on_of_nodup_map (h.page_ids ▸ nodup_numbers _) hp hq he

theorem eq_of_identity (h : r.Sound) {p q : Page} (hp : p ∈ r.pages) (hq : q ∈ r.pages)
    (he : p.identity = q.identity) : p = q :=
  List.inj_on_of_nodup_map h.identities hp hq he

theorem page?_identity (h : r.Sound) {p : Page} (hp : p ∈ r.pages) :
    r.page? p.identity = some p := by
  cases hq : r.page? p.identity with
  | none => exact absurd rfl (page?_eq_none.1 hq p hp)
  | some q =>
    obtain ⟨hm, he⟩ := page?_eq_some hq
    rw [h.eq_of_identity hm hp he]

/-- A page number that is yet to be given has no endpoints. -/
theorem find?_nextPage (h : r.Sound) (url : String) :
    r.endpoints.find? (fun e => e.pageId = r.lastPage + 1 && e.url = url) = none := by
  rw [List.find?_eq_none]
  intro e he
  obtain ⟨p, hp, hid⟩ := hasPage_iff.1 (h.owned e he)
  have hle := h.id_le hp
  have hne : e.pageId ≠ r.lastPage + 1 := by omega
  simp [hne]

theorem has_iff (h : r.Sound) {id : PageIdentity} {url : String} :
    r.Has id url ↔ (r.redirect? id url).isSome := by
  constructor
  · rintro ⟨p, hp, rfl, e, he, hid, hu⟩
    simp only [redirect?, h.page?_identity hp, Option.bind_some, Option.isSome_map,
      List.find?_isSome]
    exact ⟨e, he, by simp [hid, hu]⟩
  · intro hs
    cases hp : r.page? id with
    | none => simp [redirect?, hp] at hs
    | some p =>
      obtain ⟨hm, hid⟩ := page?_eq_some hp
      simp only [redirect?, hp, Option.bind_some, Option.isSome_map, List.find?_isSome] at hs
      obtain ⟨e, he, hk⟩ := hs
      exact ⟨p, hm, hid, e, he, by simpa using hk⟩

/-- What the page of an endpoint says about its redirect. -/
theorem redirect?_of_mem (h : r.Sound) {p : Page} {e : Endpoint} (hp : p ∈ r.pages)
    (he : e ∈ r.endpoints) (hid : e.pageId = p.id) :
    r.redirect? p.identity e.url = some e.redirect := by
  have hfind : r.endpoints.find? (fun d => d.pageId = p.id && d.url = e.url) = some e := by
    cases hf : r.endpoints.find? (fun d => d.pageId = p.id && d.url = e.url) with
    | none => simpa [hid] using List.find?_eq_none.1 hf e he
    | some d =>
      have hk := List.find?_some hf
      simp only [Bool.and_eq_true, decide_eq_true_eq] at hk
      exact congrArg some (List.inj_on_of_nodup_map h.urls (List.mem_of_find?_eq_some hf) he
        (by rw [hk.1, hk.2, hid]))
  simp [redirect?, h.page?_identity hp, hfind]

/-! ### One row more -/

theorem redirect?_addPage (h : r.Sound) {id : PageIdentity} (fits : r.page? id = none)
    (id' : PageIdentity) (url : String) :
    (r.addPage id).redirect? id' url = r.redirect? id' url := by
  rw [redirect?, page?_addPage fits]
  split
  next hid =>
    subst hid
    simp only [Option.bind_some, redirect?, fits, Option.bind_none]
    exact congrArg (Option.map _) (h.find?_nextPage url)
  next => rfl

theorem redirect?_addEndpoint (h : r.Sound) {id : PageIdentity} {p : Page}
    (hp : r.page? id = some p) (url redirect : String) (id' : PageIdentity) (url' : String) :
    (r.addEndpoint ⟨p.id, url, redirect⟩).redirect? id' url' =
      (r.redirect? id' url').or (if id = id' ∧ url = url' then some redirect else none) := by
  simp only [redirect?, page?_addEndpoint]
  cases hq : r.page? id' with
  | none =>
    have hne : id ≠ id' := by
      rintro rfl
      rw [hp] at hq
      cases hq
    simp [hne]
  | some q =>
    have hid : p.id = q.id ↔ id = id' := by
      obtain ⟨hpm, hpi⟩ := page?_eq_some hp
      obtain ⟨hqm, hqi⟩ := page?_eq_some hq
      constructor
      · intro he
        rw [← hpi, ← hqi, h.eq_of_id hpm hqm he]
      · rintro rfl
        rw [hp] at hq
        cases hq
        rfl
    have hnew : (r.addEndpoint ⟨p.id, url, redirect⟩).endpoints =
        r.endpoints ++ [⟨r.lastEndpoint + 1, p.id, url, redirect⟩] := rfl
    simp only [Option.bind_some, hnew, List.find?_append, List.find?_singleton, Option.map_or,
      Bool.and_eq_true, decide_eq_true_eq, hid]
    split <;> rfl

end Sound

end Rows

namespace Scan

open Rows

/-- The redirect that a controller has for a url, if it has these names and the url. -/
def Controller.redirect? (c : Controller) (id : PageIdentity) (url : String) : Option String :=
  if c.identity = id then (c.routes.find? (·.url = url)).map (·.redirect) else none

/-- The redirect of a url in the first controller with the given names that has it. -/
def firstRedirect? (cs : List (Path × Controller)) (id : PageIdentity) (url : String) :
    Option String :=
  cs.findSome? (·.2.redirect? id url)

theorem redirect?_planRoutes {r : Rows} (h : r.Sound) {id : PageIdentity} {page : Page}
    (hp : r.page? id = some page) (xs : List Route) (id' : PageIdentity) (url : String) :
    (r.insertAll ((newsOf page (planRoutes page r xs)).map .endpoint)).redirect? id' url =
      (r.redirect? id' url).or
        (if id = id' then (xs.find? (·.url = url)).map (·.redirect) else none) := by
  induction xs generalizing r with
  | nil => simp [planRoutes, newsOf]
  | cons x xs ih =>
    cases hx : r.hasEndpoint page.id x.url with
    | true =>
      rw [newsOf_planRoutes_old hx, ih h hp]
      by_cases hid : id = id' ∧ x.url = url
      · obtain ⟨rfl, rfl⟩ := hid
        obtain ⟨hm, hi⟩ := page?_eq_some hp
        have hsome : (r.redirect? id x.url).isSome :=
          h.has_iff.1 ⟨page, hm, hi, hasEndpoint_iff.1 hx⟩
        rw [Option.or_of_isSome hsome, Option.or_of_isSome hsome]
      · by_cases hi : id = id'
        · have hu : x.url ≠ url := fun hu => hid ⟨hi, hu⟩
          rw [List.find?_cons_of_neg (by simpa using hu)]
        · rw [if_neg hi, if_neg hi]
    | false =>
      have h' : (r.addEndpoint ⟨page.id, x.url, x.redirect⟩).Sound :=
        h.addEndpoint (hasPage_of_page? hp) hx
      rw [newsOf_planRoutes_new hx, List.map_cons, insertAll_cons, Rows.insert, ih h' hp,
        h.redirect?_addEndpoint hp, Option.or_assoc]
      congr 1
      by_cases hi : id = id'
      · by_cases hu : x.url = url
        · simp [hi, hu]
        · simp [hi, hu]
      · simp [hi]

theorem redirect?_planController {r : Rows} (h : r.Sound) (path : Path) (c : Controller)
    (id : PageIdentity) (url : String) :
    (r.insertAll (planController r path c).insertions).redirect? id url =
      (r.redirect? id url).or (c.redirect? id url) := by
  unfold planController
  cases hp : r.page? c.identity with
  | some page => exact redirect?_planRoutes h hp c.routes id url
  | none =>
    have hpage : (r.addPage c.identity).page? c.identity = some (r.nextPage c.identity) := by
      rw [page?_addPage hp, if_pos rfl]
    change ((r.addPage c.identity).insertAll _).redirect? id url = _
    rw [← h.redirect?_addPage hp]
    exact redirect?_planRoutes (h.addPage hp) hpage c.routes id url

/-- After a plan every url has the redirect of its first writer. -/
theorem redirect?_plan {r : Rows} (h : r.Sound) (cs : List (Path × Controller))
    (id : PageIdentity) (url : String) :
    (r.insertAll ((plan r cs).flatMap (·.insertions))).redirect? id url =
      (r.redirect? id url).or (firstRedirect? cs id url) := by
  induction cs generalizing r with
  | nil => simp [plan, firstRedirect?]
  | cons c cs ih =>
    obtain ⟨path, c⟩ := c
    have h' := h.insertAll (planController_fitAll r path c)
    rw [plan, List.flatMap_cons, insertAll_append, ih h', redirect?_planController h,
      Option.or_assoc, firstRedirect?, firstRedirect?, List.findSome?_cons]
    cases c.redirect? id url <;> rfl

end Scan

end EndpointCatalog
