import EndpointCatalog.Proofs.Scan.Accounting
import EndpointCatalog.Proofs.Scan.Activity
import Mathlib.Data.Bool.Count

/-! Entering endpoints by hand. Each entry is tested against a store that the entries before it
have changed, which comes down to one list of insertions: what the entries ask for, each
url once, without what the page has at the start. A second time that list is empty. -/

namespace EndpointCatalog

open StoreView Scan

/-! ### Repeated urls -/

/-- Urls that have been planned count as those that the rows have, so of a url that is repeated
only the first route is new. -/
theorem Scan.newsOf_planRoutes_distinctFrom (page : Page) {r r' : Rows} {seen : List String}
    (hseen : ∀ url, r'.hasEndpoint page.id url = true ↔
      r.hasEndpoint page.id url = true ∨ url ∈ seen) (xs : List Route) :
    newsOf page (planRoutes page r' xs) = newRoutes r page (distinctFrom (·.url) seen xs) := by
  induction xs generalizing r' seen with
  | nil => rfl
  | cons x xs ih =>
    rw [distinctFrom]
    cases hx : r'.hasEndpoint page.id x.url with
    | true =>
      rw [newsOf_planRoutes_old hx]
      split
      next => exact ih hseen
      next hnot =>
        have hold : r.hasEndpoint page.id x.url = true :=
          ((hseen _).1 hx).resolve_right (by simpa using hnot)
        rw [newRoutes, List.filter_cons_of_neg (by simp [hold]), ← newRoutes]
        refine ih fun url => ?_
        rw [hseen, List.mem_cons]
        constructor
        · exact Or.imp_right .inr
        · rintro (h | rfl | h)
          exacts [.inl h, .inl hold, .inr h]
    | false =>
      obtain ⟨hold, hnot⟩ := not_or.1 (mt (hseen x.url).2 (by rw [hx]; exact Bool.false_ne_true))
      rw [newsOf_planRoutes_new hx, if_neg (by simpa using hnot), newRoutes,
        List.filter_cons_of_pos (by simpa using hold), List.map_cons, ← newRoutes]
      refine congrArg _ (ih fun url => ?_)
      have hurl : page.id = page.id ∧ x.url = url ↔ url = x.url :=
        (and_iff_right rfl).trans eq_comm
      rw [Rows.hasEndpoint_addEndpoint, Bool.or_eq_true, hseen, decide_eq_true_iff, hurl,
        List.mem_cons, or_assoc, or_comm (a := url ∈ seen)]

theorem Scan.newsOf_planRoutes_distinctBy (page : Page) (r : Rows) (xs : List Route) :
    newsOf page (planRoutes page r xs) = newRoutes r page (distinctBy (·.url) xs) :=
  newsOf_planRoutes_distinctFrom page (by simp) xs

namespace Manual

/-! ### What entries ask for -/

/-- The endpoint that an entry is for, unless its url is blank. -/
def Entry.route? (e : Entry) : Option Route :=
  if Text.trim e.url = "" then none else some ⟨Text.trim e.url, Text.trim e.redirect⟩

/-- The endpoints that entries are for, each url once and with the redirect it comes with
first. -/
def wanted (entries : List Entry) : List Route :=
  distinctBy (·.url) (entries.filterMap Entry.route?)

/-- Whether each of the entries adds an endpoint to a page. -/
def additions (page : Page) : Rows → List Entry → List Bool
  | _, [] => []
  | r, e :: es =>
    match e.route? with
    | none => false :: additions page r es
    | some x =>
      if r.hasEndpoint page.id x.url then false :: additions page r es
      else true :: additions page (r.addEndpoint ⟨page.id, x.url, x.redirect⟩) es

theorem length_additions (page : Page) (r : Rows) (entries : List Entry) :
    (additions page r entries).length = entries.length := by
  induction entries generalizing r with
  | nil => rfl
  | cons e es ih =>
    rw [additions]
    split
    · simp [ih]
    · split <;> simp [ih]

theorem count_additions (page : Page) (r : Rows) (entries : List Entry) :
    (additions page r entries).count true =
      (newsOf page (planRoutes page r (entries.filterMap Entry.route?))).length := by
  induction entries generalizing r with
  | nil => rfl
  | cons e es ih =>
    rw [additions]
    split
    next hnone => rw [List.filterMap_cons_none hnone, ← ih]; simp
    next x hx =>
      rw [List.filterMap_cons_some hx]
      cases hold : r.hasEndpoint page.id x.url with
      | true => rw [newsOf_planRoutes_old hold, ← ih]; simp
      | false => rw [newsOf_planRoutes_new hold, List.length_cons, ← ih]; simp

theorem newsOf_entries (page : Page) (r : Rows) (entries : List Entry) :
    newsOf page (planRoutes page r (entries.filterMap Entry.route?)) =
      newRoutes r page (wanted entries) :=
  newsOf_planRoutes_distinctBy page r _

/-! ### Entering them -/

variable {σ : Type} [LawfulStore σ]

theorem addEntry_run (page : Page) (e : Entry) (s : σ) :
    (addEntry page.id e).run s =
      match e.route? with
      | none => .ok false s
      | some x =>
        if (rows s).hasEndpoint page.id x.url then .ok false s
        else
          (do insertRow (.endpoint ⟨page.id, x.url, x.redirect⟩)
              return true : StoreM σ Bool).run s := by
  simp only [addEntry, EStateM.run_bind, EStateM.run_get, LawfulStore.endpointExists_eq,
    Entry.route?, String.isEmpty_iff, Bool.or_eq_true]
  by_cases hblank : Text.trim e.url = ""
  · simp only [hblank, true_or, ↓reduceIte]
    rfl
  · cases hold : (rows s).hasEndpoint page.id (Text.trim e.url) with
    | true =>
      simp only [hblank, hold, or_true, ↓reduceIte]
      rfl
    | false =>
      simp only [hblank, hold, Bool.false_eq_true, or_self, ↓reduceIte, insertRow,
        EStateM.run_bind, run_discard]
      cases (Store.createEndpoint ⟨page.id, Text.trim e.url, Text.trim e.redirect⟩).run s <;> rfl

/-- Entering entries is inserting what they ask for and the page does not have. -/
theorem addEntries_run (page : Page) (entries : List Entry) (s : σ) :
    (entries.mapM (addEntry page.id)).run s =
      (do insertRows ((newRoutes (rows s) page (wanted entries)).map .endpoint)
          return additions page (rows s) entries : StoreM σ (List Bool)).run s := by
  rw [← newsOf_entries]
  induction entries generalizing s with
  | nil => rfl
  | cons e es ih =>
    simp only [List.mapM_cons, EStateM.run_bind, addEntry_run, additions]
    cases hroute : e.route? with
    | none =>
      simp only [List.filterMap_cons_none hroute, ih, EStateM.run_bind, EStateM.run_pure]
      cases (insertRows _).run s <;> rfl
    | some x =>
      rw [List.filterMap_cons_some hroute]
      cases hold : (rows s).hasEndpoint page.id x.url with
      | true =>
        simp only [newsOf_planRoutes_old hold, hold, ↓reduceIte, ih, EStateM.run_bind,
          EStateM.run_pure]
        cases (insertRows _).run s <;> rfl
      | false =>
        simp only [newsOf_planRoutes_new hold, hold, Bool.false_eq_true, ↓reduceIte, List.map_cons,
          insertRows_cons, EStateM.run_bind, EStateM.run_pure]
        cases hrow : (insertRow (.endpoint ⟨page.id, x.url, x.redirect⟩)).run s with
        | error f t => rfl
        | ok _ t =>
          have hrows : rows t = (rows s).addEndpoint ⟨page.id, x.url, x.redirect⟩ :=
            (insertRow_run_ok.1 hrow).rows_eq
          simp only [ih, hrows, EStateM.run_bind, EStateM.run_pure]
          cases (insertRows _).run t <;> rfl

/-! ### The page -/

/-- What finding or creating a page does. -/
structure OpensPage (id : PageIdentity) (s : σ) (page : Page) (created : Bool) (t : σ) : Prop where
  found : (rows t).page? id = some page
  created_iff : created = true ↔ (rows s).page? id = none
  pages_eq : (rows t).pages = (rows s).pages ++ if created then [page] else []
  endpoints_eq : (rows t).endpoints = (rows s).endpoints
  lastEndpoint_eq : (rows t).lastEndpoint = (rows s).lastEndpoint
  setting_eq : setting t = setting s

theorem opensPage_of_run {id : PageIdentity} {s t : σ} {page : Page} {created : Bool}
    (h : (Store.findOrCreatePage id.folder id.controller).run s = .ok (page, created) t) :
    OpensPage id s page created t := by
  rw [findOrCreatePage_run] at h
  cases hp : (rows s).page? id with
  | some p =>
    rw [hp] at h
    cases h
    exact ⟨hp, by simp [hp], by simp, rfl, rfl, rfl⟩
  | none =>
    rw [hp, run_bind_ok] at h
    obtain ⟨q, u, hcreate, hpure⟩ := h
    cases hpure
    obtain ⟨rfl, hi⟩ := (LawfulStore.createPage_attempts s id).ok_iff.1 hcreate
    have hrows : rows t = (rows s).addPage id := hi.rows_eq
    refine ⟨?_, by simp [hp], ?_, ?_, ?_, hi.setting_eq⟩
    · rw [hrows, Rows.page?_addPage hp, if_pos rfl]
    all_goals rw [hrows]; rfl

theorem newRoutes_congr {r r' : Rows} (h : r.endpoints = r'.endpoints) (page : Page)
    (xs : List Route) : newRoutes r page xs = newRoutes r' page xs := by
  simp only [newRoutes, Rows.hasEndpoint, h]

/-! ### The account -/

/-- An addition of entries is the opening of their page and the insertion of what they ask for
and the page does not have. -/
theorem add_run_ok {folder controller : String} {entries : List Entry} {s t : σ}
    {account : Account} (h : (add folder controller entries).run s = .ok account t) :
    ∃ u, OpensPage ⟨Text.trim folder, Text.trim controller⟩ s account.page account.pageCreated u ∧
      InsertsAll u ((newRoutes (rows u) account.page (wanted entries)).map .endpoint) t ∧
      account.added = (newRoutes (rows u) account.page (wanted entries)).length ∧
      account.added + account.skipped = entries.length := by
  rw [add, run_bind_ok] at h
  obtain ⟨⟨page, created⟩, u, hopen, h⟩ := h
  obtain ⟨news, v, hadd, hpure⟩ := run_bind_ok.1 h
  cases hpure
  rw [addEntries_run, run_bind_ok] at hadd
  obtain ⟨_, w, hinsert, hpure⟩ := hadd
  cases hpure
  have hopened : OpensPage ⟨Text.trim folder, Text.trim controller⟩ s page created u :=
    opensPage_of_run hopen
  refine ⟨u, hopened, insertRows_run_ok.1 hinsert, ?_, ?_⟩
  · rw [count_additions, newsOf_entries]
  · rw [List.count_true_add_count_false, length_additions]

/-- What a successful addition of entries leaves of a store, and its account of that. -/
structure Entered (s : σ) (id : PageIdentity) (entries : List Entry) (account : Account)
    (t : σ) : Prop where
  accounted : account.added + account.skipped = entries.length
  added_eq : account.added = (newRoutes (rows s) account.page (wanted entries)).length
  found : Store.findPage t id.folder id.controller = some account.page
  pageCreated_iff : account.pageCreated = true ↔ Store.findPage s id.folder id.controller = none
  pages_eq : (rows t).pages = (rows s).pages ++ if account.pageCreated then [account.page] else []
  endpoints_eq : (rows t).endpoints = (rows s).endpoints ++
    (rows s).numbered (newRoutes (rows s) account.page (wanted entries))
  setting_eq : setting t = setting s

theorem entered_of_run {folder controller : String} {entries : List Entry} {s t : σ}
    {account : Account} (h : (add folder controller entries).run s = .ok account t) :
    Entered s ⟨Text.trim folder, Text.trim controller⟩ entries account t := by
  obtain ⟨u, hopen, hi, hadded, haccounted⟩ := add_run_ok h
  have hnews := newRoutes_congr hopen.endpoints_eq account.page (wanted entries)
  rw [hnews] at hi hadded
  constructor
  case accounted => exact haccounted
  case added_eq => exact hadded
  case found =>
    rw [LawfulStore.findPage_eq]
    exact hi.grows.page?_eq_some hopen.found
  case pageCreated_iff =>
    rw [LawfulStore.findPage_eq]
    exact hopen.created_iff
  case pages_eq =>
    rw [hi.rows_eq, Rows.pages_insertAll_endpoints, hopen.pages_eq]
  case endpoints_eq =>
    rw [hi.rows_eq, Rows.endpoints_insertAll_endpoints, hopen.endpoints_eq, Rows.numbered,
      hopen.lastEndpoint_eq]
    rfl
  case setting_eq => exact hi.setting_eq.trans hopen.setting_eq

/-! ### Entering them again -/

/-- On a page that is there, entering is inserting. -/
theorem add_run_of_found {folder controller : String} (entries : List Entry) {s : σ} {page : Page}
    (found : (rows s).page? ⟨Text.trim folder, Text.trim controller⟩ = some page) :
    (add folder controller entries).run s =
      (do insertRows ((newRoutes (rows s) page (wanted entries)).map .endpoint)
          return ⟨page, false, (additions page (rows s) entries).count true,
            (additions page (rows s) entries).count false⟩ : StoreM σ Account).run s := by
  have hopen := findOrCreatePage_run s ⟨Text.trim folder, Text.trim controller⟩
  rw [found] at hopen
  simp only [add, EStateM.run_bind, hopen, addEntries_run, EStateM.run_pure]
  cases (insertRows _).run s <;> rfl

theorem add_run_quiet {folder controller : String} {entries : List Entry} {t : σ} {page : Page}
    (found : (rows t).page? ⟨Text.trim folder, Text.trim controller⟩ = some page)
    (hall : ∀ x ∈ wanted entries, (rows t).hasEndpoint page.id x.url = true) :
    (add folder controller entries).run t = .ok ⟨page, false, 0, entries.length⟩ t := by
  have hnone : newRoutes (rows t) page (wanted entries) = [] := by
    rw [newRoutes, List.filter_eq_nil_iff.2 (by simpa using hall), List.map_nil]
  have hadded : (additions page (rows t) entries).count true = 0 := by
    rw [count_additions, newsOf_entries, hnone, List.length_nil]
  have hskipped : (additions page (rows t) entries).count false = entries.length := by
    rw [← length_additions page (rows t) entries, ← List.count_true_add_count_false, hadded,
      Nat.zero_add]
  rw [add_run_of_found entries found, hnone, hadded, hskipped]
  rfl

/-- Other entries for the same urls ask for nothing else. -/
theorem exists_mem_wanted_of_perm {entries entries' : List Entry} (h : entries'.Perm entries)
    {x : Route} (hx : x ∈ wanted entries') : ∃ y ∈ wanted entries, y.url = x.url := by
  have hmem : x ∈ entries.filterMap Entry.route? :=
    (h.filterMap _).subset (mem_of_mem_distinctBy hx)
  exact exists_mem_distinctBy (fun y : Route => y.url) hmem

/-- A successful addition opens the page of the trimmed names and brings in each trimmed url
that is not blank and that the page lacks, once and with the redirect it comes with first;
nothing else changes. The same entries in any order find nothing more to do. -/
theorem add_entered {folder controller : String} {entries : List Entry} {s t : σ}
    {account : Account} (h : (add folder controller entries).run s = .ok account t) :
    Entered s ⟨Text.trim folder, Text.trim controller⟩ entries account t ∧
      ∀ entries' : List Entry, entries'.Perm entries →
        (add folder controller entries').run t =
          .ok ⟨account.page, false, 0, entries.length⟩ t := by
  refine ⟨entered_of_run h, fun entries' hperm => ?_⟩
  obtain ⟨u, hopen, hi, -, -⟩ := add_run_ok h
  rw [← hperm.length_eq]
  refine add_run_quiet (hi.grows.page?_eq_some hopen.found) fun x hx => ?_
  obtain ⟨y, hy, hurl⟩ := exists_mem_wanted_of_perm hperm hx
  rw [hi.rows_eq, hasEndpoint_insertAll_endpoints, ← hurl]
  cases hold : (rows u).hasEndpoint account.page.id y.url with
  | true => rfl
  | false =>
    have hnew : ⟨account.page.id, y.url, y.redirect⟩ ∈
        newRoutes (rows u) account.page (wanted entries) :=
      List.mem_map_of_mem (List.mem_filter.2 ⟨hy, by simp [hold]⟩)
    exact List.any_eq_true.2 ⟨_, hnew, by simp⟩

/-! ### Repeated entries -/

instance decidableEqResult {ε τ α : Type} [DecidableEq ε] [DecidableEq τ] [DecidableEq α] :
    DecidableEq (EStateM.Result ε τ α)
  | .ok a s, .ok b t => decidable_of_iff (a = b ∧ s = t) (by simp)
  | .error e s, .error f t => decidable_of_iff (e = f ∧ s = t) (by simp)
  | .ok _ _, .error _ _ => isFalse nofun
  | .error _ _, .ok _ _ => isFalse nofun

/-- A page that has the first of the urls already. -/
def startedPage : Database :=
  (Activity.entry "v" "a" [⟨"/api/x", "home"⟩]).after Database.empty

def repeatedEntries : List Entry :=
  [⟨" /api/x", "late"⟩, ⟨"\t", "none"⟩, ⟨"/api/y\u00a0", " first"⟩, ⟨"/api/y", "second"⟩]

/-- The third entry is the only one that is new, and no longer so in the opposite order. -/
theorem repeatedEntries_entered : ∃ t,
    (add " v" "a\t" repeatedEntries).run startedPage = .ok ⟨⟨1, "v", "a"⟩, false, 1, 3⟩ t ∧
      Entered startedPage ⟨"v", "a"⟩ repeatedEntries ⟨⟨1, "v", "a"⟩, false, 1, 3⟩ t ∧
      (rows t).endpoints = [⟨1, 1, "/api/x", "home"⟩, ⟨2, 1, "/api/y", "first"⟩] ∧
      (add " v" "a\t" repeatedEntries.reverse).run t = .ok ⟨⟨1, "v", "a"⟩, false, 0, 4⟩ t := by
  have hrun : (add " v" "a\t" repeatedEntries).run startedPage =
      .ok ⟨⟨1, "v", "a"⟩, false, 1, 3⟩ ⟨[⟨1, "v", "a"⟩], 1,
        [⟨1, 1, "/api/x", "home"⟩, ⟨2, 1, "/api/y", "first"⟩], 2, [], []⟩ := by
    decide +kernel
  have hentered := add_entered hrun
  exact ⟨_, hrun, hentered.1, rfl, hentered.2 _ (List.reverse_perm _)⟩

end Manual

end EndpointCatalog
