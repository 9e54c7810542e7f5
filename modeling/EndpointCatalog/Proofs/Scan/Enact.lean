import EndpointCatalog.Proofs.Scan.Plan
import EndpointCatalog.Proofs.Store.Insertions
import EndpointCatalog.Scan.Run

/-! A scan carries out its plan. Endpoints that wait count as rows that are there already,
so both ways of writing find the same endpoints to be new; they differ only in what is
inserted at once and what waits. -/

namespace EndpointCatalog.Scan

open StoreView

variable {σ : Type} [LawfulStore σ]

/-- The rows of the store with those that wait behind them. -/
def State.rows (st : State σ) : Rows :=
  (StoreView.rows st.store).insertAll (st.pending.records.map .endpoint)

/-- Nothing waits in an incremental scan. -/
def Ready (persistence : Persistence) (st : State σ) : Prop :=
  persistence = .incremental → st.pending = .empty

def enter (persistence : Persistence) (e : NewEndpoint) : ScanM σ Unit :=
  match persistence with
  | .incremental => onStore (insertRow (.endpoint e))
  | .batched => modify fun st => { st with pending := ⟨st.pending.records ++ [e]⟩ }

/-- Inserts the new page of an account and enters its new endpoints. -/
def enact (persistence : Persistence) (p : PageScan) : ScanM σ Unit := do
  p.opened.forM fun id => onStore (insertRow (.page id))
  p.news.forM (enter persistence)

omit [LawfulStore σ] in
theorem onStore_run {α : Type} (change : StoreM σ α) (st : State σ) :
    (onStore change).run st = match change.run st.store with
      | .ok a t => .ok a { st with store := t }
      | .error e t => .error (.store e) { st with store := t } := by
  change onStore change st = _
  unfold onStore
  cases change.run st.store <;> rfl

theorem hasEndpoint_insertAll_endpoints (r : Rows) (es : List NewEndpoint) (pageId : Int)
    (url : String) :
    (r.insertAll (es.map .endpoint)).hasEndpoint pageId url =
      (r.hasEndpoint pageId url || es.any fun e => e.pageId = pageId ∧ e.url = url) := by
  induction es generalizing r with
  | nil => simp
  | cons e es ih => simp [Rows.insert, ih, Bool.or_assoc]

theorem State.hasEndpoint_rows (st : State σ) (pageId : Int) (url : String) :
    st.rows.hasEndpoint pageId url =
      ((StoreView.rows st.store).hasEndpoint pageId url || st.pending.holds pageId url) :=
  hasEndpoint_insertAll_endpoints _ _ _ _

theorem State.rows_of_ready {st : State σ} (h : Ready .incremental st) :
    st.rows = StoreView.rows st.store := by
  rw [State.rows, h rfl]
  rfl

/-! ### Entering endpoints -/

theorem enter_ok {persistence : Persistence} {e : NewEndpoint} {st st' : State σ}
    (ready : Ready persistence st) (h : (enter persistence e).run st = .ok () st') :
    Ready persistence st' ∧ st'.rows = st.rows.addEndpoint e := by
  cases persistence with
  | incremental =>
    rw [enter, onStore_run] at h
    split at h
    next t ht =>
      cases h
      have ready' : Ready .incremental { st with store := t } := ready
      refine ⟨ready', ?_⟩
      rw [State.rows_of_ready ready, State.rows_of_ready ready']
      exact (insertRow_run_ok.1 ht).rows_eq
    next => cases h
  | batched =>
    cases h
    refine ⟨fun hp => (by cases hp), ?_⟩
    simp [State.rows, Rows.insert]

theorem addEndpoint_run {persistence : Persistence} {st : State σ} (ready : Ready persistence st)
    (e : NewEndpoint) :
    (addEndpoint persistence e).run st =
      if st.rows.hasEndpoint e.pageId e.url then .ok false st
      else (do enter persistence e; return true : ScanM σ Bool).run st := by
  simp only [addEndpoint, EStateM.run_bind, EStateM.run_get, LawfulStore.endpointExists_eq]
  rw [State.hasEndpoint_rows]
  cases hs : (StoreView.rows st.store).hasEndpoint e.pageId e.url with
  | true => rfl
  | false =>
    cases persistence with
    | incremental =>
      have hp : st.pending.holds e.pageId e.url = false := by rw [ready rfl]; rfl
      simp only [hp, enter, insertRow, onStore_run, run_discard, EStateM.run_bind, EStateM.run_pure,
        Bool.or_false, Bool.false_eq_true, ↓reduceIte]
      cases (Store.createEndpoint e).run st.store <;> rfl
    | batched =>
      cases hp : st.pending.holds e.pageId e.url <;> simp only [Pending.insert, hp] <;> rfl

/-- Bringing in routes is the same as planning them and entering what is new. -/
theorem addRoutes_run {persistence : Persistence} {st : State σ} (ready : Ready persistence st)
    (page : Page) (xs : List Route) :
    (xs.mapM (addRoute persistence page)).run st =
      (do (newsOf page (planRoutes page st.rows xs)).forM (enter persistence)
          return planRoutes page st.rows xs : ScanM σ (List Found)).run st := by
  induction xs generalizing st with
  | nil => rfl
  | cons x xs ih =>
    simp only [List.mapM_cons, addRoute, EStateM.run_bind, addEndpoint_run ready]
    cases hx : st.rows.hasEndpoint page.id x.url with
    | true =>
      rw [newsOf_planRoutes_old hx]
      simp only [planRoutes, hx, ↓reduceIte, EStateM.run_pure, ih ready, EStateM.run_bind]
      cases ((newsOf page (planRoutes page st.rows xs)).forM (enter persistence)).run st <;> rfl
    | false =>
      rw [newsOf_planRoutes_new hx]
      simp only [planRoutes, hx, Bool.false_eq_true, ↓reduceIte, List.forM_eq_forM, List.forM_cons,
        EStateM.run_bind, EStateM.run_pure]
      cases he : (enter persistence ⟨page.id, x.url, x.redirect⟩).run st with
      | error f st' => rfl
      | ok _ st' =>
        obtain ⟨ready', hrows⟩ := enter_ok ready he
        simp only [ih ready', hrows, List.forM_eq_forM, EStateM.run_bind]
        cases (forM (newsOf page (planRoutes page _ xs)) (enter persistence)).run st' <;> rfl

/-! ### Controllers and files -/

theorem State.page?_rows (st : State σ) (id : PageIdentity) :
    st.rows.page? id = (StoreView.rows st.store).page? id :=
  page?_insertAll_endpoints _ _ _

theorem nextPage_insertAll_endpoints (r : Rows) (es : List NewEndpoint) (id : PageIdentity) :
    (r.insertAll (es.map .endpoint)).nextPage id = r.nextPage id := by
  induction es generalizing r with
  | nil => rfl
  | cons e es ih => exact ih (r.addEndpoint e)

theorem openPage_ok {persistence : Persistence} {st : State σ} {t : σ} {id : PageIdentity}
    (ready : Ready persistence st) (h : Inserts st.store (.page id) t) :
    Ready persistence { st with store := t } ∧
      ({ st with store := t } : State σ).rows = st.rows.addPage id := by
  refine ⟨ready, ?_⟩
  simp only [State.rows, h.rows_eq]
  exact (insertAll_pages_endpoints _ [id] _).symm

/-- Bringing in a controller is the same as planning it and enacting its account. -/
theorem addController_run {persistence : Persistence} {st : State σ} (ready : Ready persistence st)
    (path : Path) (c : Controller) :
    (addController persistence path c).run st =
      (do enact persistence (planController st.rows path c)
          return planController st.rows path c : ScanM σ PageScan).run st := by
  simp only [addController, EStateM.run_bind, onStore_run, findOrCreatePage_run]
  cases hp : (StoreView.rows st.store).page? c.identity with
  | some page =>
    have hplan : planController st.rows path c = ⟨path, page, false,
        planRoutes page st.rows c.routes, c.resolved, c.skipped⟩ := by
      rw [planController, State.page?_rows, hp]
    simp only [hplan, enact, PageScan.opened, PageScan.news, Bool.false_eq_true, ↓reduceIte,
      addRoutes_run ready, EStateM.run_bind, List.forM_eq_forM, List.forM_nil, EStateM.run_pure]
    cases (forM (newsOf page (planRoutes page st.rows c.routes)) (enter persistence)).run st <;> rfl
  | none =>
    have hnext : st.rows.nextPage c.identity = (StoreView.rows st.store).nextPage c.identity :=
      nextPage_insertAll_endpoints _ _ _
    have hplan : planController st.rows path c = ⟨path, st.rows.nextPage c.identity, true,
        planRoutes (st.rows.nextPage c.identity) (st.rows.addPage c.identity) c.routes,
        c.resolved, c.skipped⟩ := by
      rw [planController, State.page?_rows, hp]
    simp only [hplan, enact, PageScan.opened, PageScan.news, ↓reduceIte, EStateM.run_bind,
      List.forM_eq_forM, List.forM_cons, List.forM_nil, Rows.nextPage_identity, onStore_run,
      insertRow, run_discard, EStateM.run_pure]
    rcases LawfulStore.createPage_attempts st.store c.identity with ⟨t, ht, hi⟩ | ⟨failure, hf, _⟩
    · obtain ⟨ready', hrows⟩ := openPage_ok ready hi
      simp only [ht, addRoutes_run ready', hrows, ← hnext, EStateM.run_bind, List.forM_eq_forM]
      cases (forM (newsOf (st.rows.nextPage c.identity) (planRoutes _ _ c.routes))
        (enter persistence)).run { st with store := t } <;> rfl
    · simp only [hf]

/-- What is inserted while an account is enacted. -/
def atOnce (persistence : Persistence) (p : PageScan) : List Insertion :=
  match persistence with
  | .incremental => p.insertions
  | .batched => p.opened.map .page

/-- The endpoints of an account that wait for the end of the scan. -/
def waiting (persistence : Persistence) (p : PageScan) : List NewEndpoint :=
  match persistence with
  | .incremental => []
  | .batched => p.news

theorem flatMap_atOnce_batched (ps : List PageScan) :
    ps.flatMap (atOnce .batched) = (ps.flatMap (·.opened)).map .page := by
  rw [List.map_flatMap]
  rfl

theorem flatMap_waiting_incremental (ps : List PageScan) :
    ps.flatMap (waiting .incremental) = [] :=
  List.flatMap_eq_nil_iff.2 fun _ _ => rfl

def wait (es : List NewEndpoint) : ScanM σ Unit :=
  modify fun st => { st with pending := ⟨st.pending.records ++ es⟩ }

omit [LawfulStore σ] in
theorem onStore_bind {α β : Type} (x : StoreM σ α) (f : α → StoreM σ β) :
    onStore (x >>= f) = onStore x >>= fun a => onStore (f a) := by
  funext st
  change (onStore (x >>= f)).run st = (onStore x >>= fun a => onStore (f a)).run st
  simp only [onStore_run, EStateM.run_bind]
  cases x.run st.store <;> rfl

theorem forM_onStore {α : Type} (f : α → Insertion) (as : List α) :
    (forM as fun a => onStore (insertRow (f a)) : ScanM σ Unit) =
      onStore (insertRows (as.map f)) := by
  induction as with
  | nil => rfl
  | cons a as ih =>
    rw [List.forM_cons, ih, List.map_cons, insertRows_cons, onStore_bind]

omit [LawfulStore σ] in
theorem wait_nil : (wait [] : ScanM σ Unit) = pure () := by
  funext st
  change EStateM.Result.ok () _ = EStateM.Result.ok () _
  simp

theorem forM_wait (es : List NewEndpoint) :
    (forM es (enter .batched) : ScanM σ Unit) = wait es := by
  induction es with
  | nil => exact wait_nil.symm
  | cons e es ih =>
    rw [List.forM_cons, ih]
    funext st
    change EStateM.Result.ok () _ = EStateM.Result.ok () _
    simp

/-- Enacting an account inserts some of its rows and makes the others wait. -/
theorem enact_eq (persistence : Persistence) (p : PageScan) :
    (enact persistence p : ScanM σ Unit) =
      (do onStore (insertRows (atOnce persistence p)); wait (waiting persistence p)) := by
  simp only [enact, List.forM_eq_forM, forM_onStore]
  cases persistence with
  | incremental =>
    have hnews : (forM p.news (enter .incremental) : ScanM σ Unit) =
        onStore (insertRows (p.news.map .endpoint)) := forM_onStore _ _
    simp only [hnews, waiting, wait_nil, bind_pure_unit, atOnce, PageScan.insertions,
      insertRows_append, onStore_bind]
  | batched => simp only [forM_wait, waiting, atOnce]

theorem enact_run_ok {persistence : Persistence} {p : PageScan} {st st' : State σ} :
    (enact persistence p).run st = .ok () st' ↔
      InsertsAll st.store (atOnce persistence p) st'.store ∧
        st' = ⟨st'.store, ⟨st.pending.records ++ waiting persistence p⟩, st.visited⟩ := by
  rw [enact_eq, EStateM.run_bind, onStore_run, ← insertRows_run_ok]
  cases h : (insertRows (atOnce persistence p)).run st.store with
  | ok _ t =>
    simp only [wait, EStateM.run_modify, EStateM.Result.ok.injEq, true_and]
    constructor
    · rintro rfl
      exact ⟨rfl, rfl⟩
    · rintro ⟨rfl, h'⟩
      exact h'.symm
  | error => simp

end EndpointCatalog.Scan
