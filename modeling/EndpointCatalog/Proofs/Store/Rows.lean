import EndpointCatalog.Scan.Controller
import EndpointCatalog.Store.Record
import Mathlib.Data.List.Nodup

/-! The rows of a catalog, whatever keeps them. Pages and endpoints are listed in the
order in which they were inserted, and the numbers given last are remembered. Rows
are sound when numbers count up from one, names and urls are not repeated and every
endpoint belongs to a page; an insertion that fits keeps them sound. -/

namespace EndpointCatalog

def Page.identity (p : Page) : PageIdentity := ⟨p.folder, p.controller⟩

theorem Page.identity_eq_iff {p : Page} {id : PageIdentity} :
    p.identity = id ↔ p.folder = id.folder ∧ p.controller = id.controller := by
  cases id
  simp [identity]

structure Rows where
  pages : List Page
  lastPage : Int
  endpoints : List Endpoint
  lastEndpoint : Int

/-- A row to be inserted. -/
inductive Insertion
  | page (id : PageIdentity)
  | endpoint (e : NewEndpoint)

namespace Rows

def empty : Rows := ⟨[], 0, [], 0⟩

def page? (r : Rows) (id : PageIdentity) : Option Page :=
  r.pages.find? (·.identity = id)

def hasPage (r : Rows) (pageId : Int) : Bool := r.pages.any (·.id = pageId)

def hasEndpoint (r : Rows) (pageId : Int) (url : String) : Bool :=
  r.endpoints.any fun e => e.pageId = pageId ∧ e.url = url

def nextPage (r : Rows) (id : PageIdentity) : Page := ⟨r.lastPage + 1, id.folder, id.controller⟩

def nextEndpoint (r : Rows) (e : NewEndpoint) : Endpoint := e.numbered (r.lastEndpoint + 1)

def addPage (r : Rows) (id : PageIdentity) : Rows :=
  { r with pages := r.pages ++ [r.nextPage id], lastPage := r.lastPage + 1 }

def addEndpoint (r : Rows) (e : NewEndpoint) : Rows :=
  { r with endpoints := r.endpoints ++ [r.nextEndpoint e], lastEndpoint := r.lastEndpoint + 1 }

def insert (r : Rows) : Insertion → Rows
  | .page id => r.addPage id
  | .endpoint e => r.addEndpoint e

def insertAll (r : Rows) (is : List Insertion) : Rows := is.foldl insert r

/-- A page fits if its names are free, an endpoint if its page is there and lacks the url. -/
def Fits (r : Rows) : Insertion → Prop
  | .page id => r.page? id = none
  | .endpoint e => r.hasPage e.pageId = true ∧ r.hasEndpoint e.pageId e.url = false

/-- Insertions that fit one after the other. -/
def FitAll : Rows → List Insertion → Prop
  | _, [] => True
  | r, i :: is => r.Fits i ∧ (r.insert i).FitAll is

@[simp] theorem insertAll_nil (r : Rows) : r.insertAll [] = r := rfl

@[simp] theorem insertAll_cons (r : Rows) (i : Insertion) (is : List Insertion) :
    r.insertAll (i :: is) = (r.insert i).insertAll is := rfl

@[simp] theorem insertAll_append (r : Rows) (is js : List Insertion) :
    r.insertAll (is ++ js) = (r.insertAll is).insertAll js := List.foldl_append

theorem fitAll_append {r : Rows} {is js : List Insertion} :
    r.FitAll (is ++ js) ↔ r.FitAll is ∧ (r.insertAll is).FitAll js := by
  induction is generalizing r with
  | nil => simp [FitAll]
  | cons i is ih => simp [FitAll, ih, and_assoc]

/-! ### Looking up -/

theorem page?_eq_some {r : Rows} {id : PageIdentity} {p : Page} (h : r.page? id = some p) :
    p ∈ r.pages ∧ p.identity = id :=
  ⟨List.mem_of_find?_eq_some h, by simpa using List.find?_some h⟩

theorem page?_eq_none {r : Rows} {id : PageIdentity} :
    r.page? id = none ↔ ∀ p ∈ r.pages, p.identity ≠ id := by
  simp [page?]

theorem hasPage_iff {r : Rows} {pageId : Int} :
    r.hasPage pageId = true ↔ ∃ p ∈ r.pages, p.id = pageId := by
  simp [hasPage]

theorem hasEndpoint_iff {r : Rows} {pageId : Int} {url : String} :
    r.hasEndpoint pageId url = true ↔ ∃ e ∈ r.endpoints, e.pageId = pageId ∧ e.url = url := by
  simp [hasEndpoint]

theorem hasPage_of_page? {r : Rows} {id : PageIdentity} {p : Page} (h : r.page? id = some p) :
    r.hasPage p.id = true :=
  hasPage_iff.2 ⟨p, (page?_eq_some h).1, rfl⟩

@[simp] theorem nextPage_identity (r : Rows) (id : PageIdentity) :
    (r.nextPage id).identity = id := rfl

theorem page?_addPage {r : Rows} {id : PageIdentity} (h : r.page? id = none) (id' : PageIdentity) :
    (r.addPage id).page? id' = if id = id' then some (r.nextPage id) else r.page? id' := by
  simp only [page?, addPage, List.find?_append, List.find?_singleton]
  by_cases hid : id = id'
  · subst hid
    rw [page?] at h
    simp [h]
  · simp [hid]

@[simp] theorem page?_addEndpoint (r : Rows) (e : NewEndpoint) (id : PageIdentity) :
    (r.addEndpoint e).page? id = r.page? id := rfl

@[simp] theorem hasPage_addEndpoint (r : Rows) (e : NewEndpoint) (pageId : Int) :
    (r.addEndpoint e).hasPage pageId = r.hasPage pageId := rfl

@[simp] theorem hasEndpoint_addPage (r : Rows) (id : PageIdentity) (pageId : Int) (url : String) :
    (r.addPage id).hasEndpoint pageId url = r.hasEndpoint pageId url := rfl

@[simp] theorem hasPage_addPage (r : Rows) (id : PageIdentity) (pageId : Int) :
    (r.addPage id).hasPage pageId = (r.hasPage pageId || decide (r.lastPage + 1 = pageId)) := by
  simp [hasPage, addPage, nextPage]

@[simp] theorem hasEndpoint_addEndpoint (r : Rows) (e : NewEndpoint) (pageId : Int) (url : String) :
    (r.addEndpoint e).hasEndpoint pageId url =
      (r.hasEndpoint pageId url || decide (e.pageId = pageId ∧ e.url = url)) := by
  simp [hasEndpoint, addEndpoint, nextEndpoint, NewEndpoint.numbered]

theorem hasEndpoint_addEndpoint_ne {r : Rows} {e : NewEndpoint} {pageId : Int} {url : String}
    (h : url ≠ e.url) : (r.addEndpoint e).hasEndpoint pageId url = r.hasEndpoint pageId url := by
  simp [h.symm]

/-! ### Growth -/

/-- Rows are only ever added behind those that are there. -/
structure Grows (r r' : Rows) : Prop where
  pages : r.pages <+: r'.pages
  endpoints : r.endpoints <+: r'.endpoints

theorem Grows.refl (r : Rows) : r.Grows r := ⟨List.prefix_rfl, List.prefix_rfl⟩

theorem Grows.trans {r r' r'' : Rows} (h : r.Grows r') (h' : r'.Grows r'') : r.Grows r'' :=
  ⟨h.pages.trans h'.pages, h.endpoints.trans h'.endpoints⟩

theorem grows_insert (r : Rows) (i : Insertion) : r.Grows (r.insert i) := by
  cases i with
  | page id => exact ⟨List.prefix_append _ _, List.prefix_rfl⟩
  | endpoint e => exact ⟨List.prefix_rfl, List.prefix_append _ _⟩

theorem grows_insertAll (r : Rows) (is : List Insertion) : r.Grows (r.insertAll is) := by
  induction is generalizing r with
  | nil => exact Grows.refl r
  | cons i is ih => exact (grows_insert r i).trans (ih _)

theorem Grows.page?_eq_some {r r' : Rows} (h : r.Grows r') {id : PageIdentity} {p : Page}
    (hp : r.page? id = some p) : r'.page? id = some p := by
  obtain ⟨more, hm⟩ := h.pages
  rw [page?, ← hm, List.find?_append, ← page?, hp]
  rfl

theorem Grows.hasPage {r r' : Rows} (h : r.Grows r') {pageId : Int}
    (hp : r.hasPage pageId = true) : r'.hasPage pageId = true := by
  obtain ⟨p, hm, hk⟩ := hasPage_iff.1 hp
  exact hasPage_iff.2 ⟨p, h.pages.subset hm, hk⟩

theorem Grows.hasEndpoint {r r' : Rows} (h : r.Grows r') {pageId : Int} {url : String}
    (he : r.hasEndpoint pageId url = true) : r'.hasEndpoint pageId url = true := by
  obtain ⟨e, hm, hk⟩ := hasEndpoint_iff.1 he
  exact hasEndpoint_iff.2 ⟨e, h.endpoints.subset hm, hk⟩

/-! ### Soundness -/

/-- Numbers in the order of insertion. -/
def numbers (n : Nat) : List Int := (List.range n).map fun i : Nat => (i : Int) + 1

theorem numbers_succ (n : Nat) : numbers (n + 1) = numbers n ++ [(n : Int) + 1] := by
  simp [numbers, List.range_succ]

theorem mem_numbers {n : Nat} {i : Int} : i ∈ numbers n ↔ 1 ≤ i ∧ i ≤ n := by
  simp only [numbers, List.mem_map, List.mem_range]
  constructor
  · rintro ⟨k, hk, rfl⟩
    omega
  · rintro ⟨h1, h2⟩
    exact ⟨(i - 1).toNat, by omega, by omega⟩

theorem nodup_numbers (n : Nat) : (numbers n).Nodup := by
  refine List.Nodup.map ?_ List.nodup_range
  intro i j h
  have hs : (i : Int) + 1 = (j : Int) + 1 := h
  omega

structure Sound (r : Rows) : Prop where
  page_ids : r.pages.map (·.id) = numbers r.pages.length
  last_page : r.lastPage = r.pages.length
  identities : (r.pages.map (·.identity)).Nodup
  endpoint_ids : r.endpoints.map (·.id) = numbers r.endpoints.length
  last_endpoint : r.lastEndpoint = r.endpoints.length
  urls : (r.endpoints.map fun e => (e.pageId, e.url)).Nodup
  owned : ∀ e ∈ r.endpoints, r.hasPage e.pageId = true

namespace Sound

theorem empty : Rows.empty.Sound where
  page_ids := rfl
  last_page := rfl
  identities := List.nodup_nil
  endpoint_ids := rfl
  last_endpoint := rfl
  urls := List.nodup_nil
  owned := by simp [Rows.empty]

theorem addPage {r : Rows} (h : r.Sound) {id : PageIdentity} (fits : r.page? id = none) :
    (r.addPage id).Sound where
  page_ids := by
    simp [Rows.addPage, nextPage, numbers_succ, h.page_ids, h.last_page]
  last_page := by simp [Rows.addPage, h.last_page]
  identities := by
    simpa [Rows.addPage, List.nodup_append] using ⟨h.identities, page?_eq_none.1 fits⟩
  endpoint_ids := h.endpoint_ids
  last_endpoint := h.last_endpoint
  urls := h.urls
  owned e he := by
    have := h.owned e he
    simp [this]

theorem addEndpoint {r : Rows} (h : r.Sound) {e : NewEndpoint} (hp : r.hasPage e.pageId = true)
    (hu : r.hasEndpoint e.pageId e.url = false) : (r.addEndpoint e).Sound where
  page_ids := h.page_ids
  last_page := h.last_page
  identities := h.identities
  endpoint_ids := by
    simp [Rows.addEndpoint, nextEndpoint, NewEndpoint.numbered, numbers_succ, h.endpoint_ids,
      h.last_endpoint]
  last_endpoint := by simp [Rows.addEndpoint, h.last_endpoint]
  urls := by
    have hfree : ∀ d ∈ r.endpoints, d.pageId = e.pageId → d.url ≠ e.url := by
      simpa [hasEndpoint] using hu
    simpa [Rows.addEndpoint, nextEndpoint, NewEndpoint.numbered, List.nodup_append] using
      ⟨h.urls, hfree⟩
  owned d hd := by
    simp only [Rows.addEndpoint, List.mem_append, List.mem_singleton] at hd
    rcases hd with hd | rfl
    · exact h.owned d hd
    · exact hp

theorem insert {r : Rows} (h : r.Sound) {i : Insertion} (fits : r.Fits i) : (r.insert i).Sound := by
  cases i with
  | page id => exact h.addPage fits
  | endpoint e => exact h.addEndpoint fits.1 fits.2

theorem insertAll {r : Rows} (h : r.Sound) {is : List Insertion} (fits : r.FitAll is) :
    (r.insertAll is).Sound := by
  induction is generalizing r with
  | nil => exact h
  | cons i is ih => exact ih (h.insert fits.1) fits.2

end Sound

end Rows

end EndpointCatalog
