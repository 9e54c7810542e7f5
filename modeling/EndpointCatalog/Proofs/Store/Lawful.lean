import EndpointCatalog.Proofs.Store.Rows
import EndpointCatalog.Store.Database
import EndpointCatalog.Store.Memory

/-! Stores seen through their rows. Whatever else a store holds, its setting, is changed
by no operation of the catalog and decides alone what the store refuses beyond the
rules of the rows. Questions are answered from the rows; an insertion either adds its
row or leaves the store as it was; a batch adds all of its rows or none. Both the
store in memory and the database are such stores. -/

namespace EndpointCatalog

/-- The state that a computation leaves behind, also when it fails. -/
def finalState {ε σ α : Type} (x : EStateM ε σ α) (s : σ) : σ :=
  match x.run s with
  | .ok _ t => t
  | .error _ t => t

/-- The change as a whole, or nothing of it if it fails. -/
def StoreM.atomically {σ α : Type} (change : StoreM σ α) : StoreM σ α := fun s =>
  match change.run s with
  | .ok a t => .ok a t
  | .error e _ => .error e s

theorem StoreM.atomically_run {σ α : Type} (change : StoreM σ α) (s : σ) :
    change.atomically.run s = match change.run s with
      | .ok a t => .ok a t
      | .error e _ => .error e s := rfl

/-- The rows of a store and what it holds beside them. -/
class StoreView (σ : Type) where
  rows : σ → Rows
  Setting : Type
  setting : σ → Setting
  refuses : Setting → Insertion → Bool

namespace StoreView

variable {σ : Type} [StoreView σ]

/-- Whether a store takes an insertion. -/
def Admits (s : σ) (i : Insertion) : Prop := (rows s).Fits i ∧ refuses (setting s) i = false

theorem not_admits_page {s : σ} {id : PageIdentity} {p : Page} (h : (rows s).page? id = some p) :
    ¬ Admits s (.page id) := by
  intro ha
  have hfree : (rows s).page? id = none := ha.1
  rw [h] at hfree
  cases hfree

theorem not_admits_of_no_page {s : σ} {e : NewEndpoint} (h : (rows s).hasPage e.pageId = false) :
    ¬ Admits s (.endpoint e) := by
  intro ha
  exact Bool.false_ne_true (h.symm.trans ha.1.1)

theorem not_admits_of_url {s : σ} {e : NewEndpoint}
    (h : (rows s).hasEndpoint e.pageId e.url = true) : ¬ Admits s (.endpoint e) := by
  intro ha
  exact Bool.false_ne_true (ha.1.2.symm.trans h)

theorem not_admits_of_refuses {s : σ} {i : Insertion} (h : refuses (setting s) i = true) :
    ¬ Admits s i := by
  intro ha
  exact Bool.false_ne_true (ha.2.symm.trans h)

/-- The step from a store to the one with one more row. -/
structure Inserts (s : σ) (i : Insertion) (t : σ) : Prop where
  admits : Admits s i
  rows_eq : rows t = (rows s).insert i
  setting_eq : setting t = setting s

/-- A change that either inserts a row and gives `a`, or fails and changes nothing. -/
def Attempts {α : Type} (change : StoreM σ α) (s : σ) (i : Insertion) (a : α) : Prop :=
  (∃ t, change.run s = .ok a t ∧ Inserts s i t) ∨
    ∃ failure, change.run s = .error failure s ∧ ¬ Admits s i

end StoreView

open StoreView

class LawfulStore (σ : Type) extends Store σ, StoreView σ where
  eq_of_rows_eq {s t : σ} : rows s = rows t → setting s = setting t → s = t
  findPage_eq (s : σ) (id : PageIdentity) : findPage s id.folder id.controller = (rows s).page? id
  endpointExists_eq (s : σ) (pageId : Int) (url : String) :
    endpointExists s pageId url = (rows s).hasEndpoint pageId url
  createPage_attempts (s : σ) (id : PageIdentity) :
    Attempts (createPage id.folder id.controller) s (.page id) ((rows s).nextPage id)
  createEndpoint_attempts (s : σ) (e : NewEndpoint) :
    Attempts (createEndpoint e) s (.endpoint e) ((rows s).nextEndpoint e)
  createEndpoints_eq (batch : List NewEndpoint) :
    createEndpoints batch = StoreM.atomically (batch.forM fun e => discard (createEndpoint e))

theorem run_discard {ε σ α : Type} (x : EStateM ε σ α) (s : σ) :
    (discard x).run s = match x.run s with
      | .ok _ t => .ok () t
      | .error e t => .error e t := rfl

theorem run_bind_ok {ε σ α β : Type} {x : EStateM ε σ α} {f : α → EStateM ε σ β} {s u : σ} {b : β} :
    (x >>= f).run s = .ok b u ↔ ∃ a t, x.run s = .ok a t ∧ (f a).run t = .ok b u := by
  rw [EStateM.run_bind]
  cases x.run s <;> simp

/-! ### The store in memory -/

namespace MemoryStore

instance : StoreView MemoryStore where
  rows s := ⟨s.pages, s.pages.length, s.endpoints, s.endpoints.length⟩
  Setting := Unit
  setting _ := ()
  refuses _ _ := false

theorem findPage_eq (s : MemoryStore) (id : PageIdentity) :
    s.findPage id.folder id.controller = (rows s).page? id := by
  simp [findPage, Rows.page?, rows, Page.identity_eq_iff]

theorem endpointExists_eq (s : MemoryStore) (pageId : Int) (url : String) :
    s.endpointExists pageId url = (rows s).hasEndpoint pageId url := rfl

theorem createPage_run (id : PageIdentity) (s : MemoryStore) :
    (createPage id.folder id.controller).run s =
      if ((rows s).page? id).isSome then
        .error (.constraint (.pageTaken id.folder id.controller)) s
      else .ok ((rows s).nextPage id) { s with pages := s.pages ++ [(rows s).nextPage id] } := by
  simp only [createPage, EStateM.run_bind, EStateM.run_get, findPage_eq]
  split <;> rfl

theorem createEndpoint_run (e : NewEndpoint) (s : MemoryStore) :
    (createEndpoint e).run s =
      if !(rows s).hasPage e.pageId then .error (.constraint (.unknownPage e.pageId)) s
      else if (rows s).hasEndpoint e.pageId e.url then
        .error (.constraint (.endpointTaken e.url e.pageId)) s
      else .ok ((rows s).nextEndpoint e)
        { s with endpoints := s.endpoints ++ [(rows s).nextEndpoint e] } := by
  change _ = if !s.pages.any (·.id = e.pageId) then _
    else if s.endpointExists e.pageId e.url then _ else _
  simp only [createEndpoint, EStateM.run_bind, EStateM.run_get]
  split
  · rfl
  · split <;> rfl

theorem createPage_attempts (s : MemoryStore) (id : PageIdentity) :
    Attempts (createPage id.folder id.controller) s (.page id) ((rows s).nextPage id) := by
  rw [Attempts, createPage_run]
  cases h : (rows s).page? id with
  | none =>
    refine .inl ⟨_, rfl, ⟨h, rfl⟩, ?_, rfl⟩
    simp [rows, Rows.insert, Rows.addPage]
  | some p => exact .inr ⟨_, rfl, not_admits_page h⟩

theorem createEndpoint_attempts (s : MemoryStore) (e : NewEndpoint) :
    Attempts (createEndpoint e) s (.endpoint e) ((rows s).nextEndpoint e) := by
  rw [Attempts, createEndpoint_run]
  cases hp : (rows s).hasPage e.pageId with
  | false => exact .inr ⟨_, rfl, not_admits_of_no_page hp⟩
  | true =>
    cases hu : (rows s).hasEndpoint e.pageId e.url with
    | true => exact .inr ⟨_, rfl, not_admits_of_url hu⟩
    | false =>
      refine .inl ⟨_, rfl, ⟨⟨hp, hu⟩, rfl⟩, ?_, rfl⟩
      simp [rows, Rows.insert, Rows.addEndpoint]

/-- A batch only adds endpoints, however far it comes. -/
theorem after_forM_createEndpoint (s : MemoryStore) (batch : List NewEndpoint) :
    ∃ more, finalState (batch.forM fun e => discard (createEndpoint e)) s =
      { s with endpoints := s.endpoints ++ more } := by
  induction batch generalizing s with
  | nil => exact ⟨[], by simp [finalState]⟩
  | cons e batch ih =>
    simp only [finalState, List.forM_eq_forM, List.forM_cons, EStateM.run_bind, run_discard,
      createEndpoint_run]
    split_ifs
    · exact ⟨[], by simp⟩
    · exact ⟨[], by simp⟩
    · obtain ⟨more, hm⟩ := ih { s with endpoints := s.endpoints ++ [(rows s).nextEndpoint e] }
      exact ⟨(rows s).nextEndpoint e :: more, by simpa [finalState] using hm⟩

theorem createEndpoints_eq (batch : List NewEndpoint) :
    createEndpoints batch = StoreM.atomically (batch.forM fun e => discard (createEndpoint e)) := by
  funext s
  obtain ⟨more, hm⟩ := after_forM_createEndpoint s batch
  simp only [finalState] at hm
  simp only [createEndpoints, StoreM.atomically]
  cases h : (batch.forM fun e => discard (createEndpoint e)).run s with
  | ok a t => rfl
  | error e t =>
    rw [h] at hm
    simp only at hm
    simp [hm]

instance : LawfulStore MemoryStore where
  eq_of_rows_eq {s t} h _ := by
    cases s
    cases t
    simp only [rows, Rows.mk.injEq] at h
    simp [h]
  findPage_eq := findPage_eq
  endpointExists_eq := endpointExists_eq
  createPage_attempts := createPage_attempts
  createEndpoint_attempts := createEndpoint_attempts
  createEndpoints_eq := createEndpoints_eq

end MemoryStore

/-! ### The database -/

namespace Database

/-- The guard that refuses an insertion, if there is one. -/
def guard? (guards : List Guard) : Insertion → Option Guard
  | .page _ => guards.find? fun g => g.table = .pages && (g.url.isNone || g.url = none)
  | .endpoint e =>
    guards.find? fun g => g.table = .endpoints && (g.url.isNone || g.url = some e.url)

instance : StoreView Database where
  rows db := ⟨db.pages, db.lastPageId, db.endpoints, db.lastEndpointId⟩
  Setting := List Session × List Guard
  setting db := (db.sessions, db.guards)
  refuses x i := (guard? x.2 i).isSome

theorem findPage_eq (db : Database) (id : PageIdentity) :
    db.findPage id.folder id.controller = (rows db).page? id := by
  simp [findPage, Rows.page?, rows, Page.identity_eq_iff]

theorem endpointExists_eq (db : Database) (pageId : Int) (url : String) :
    db.endpointExists pageId url = (rows db).hasEndpoint pageId url := rfl

theorem createPage_run (id : PageIdentity) (db : Database) :
    (createPage id.folder id.controller).run db =
      match guard? db.guards (.page id) with
      | some g => .error (.database (.refused g.message)) db
      | none =>
        if ((rows db).page? id).isSome then .error (.database .pageNotUnique) db
        else .ok ((rows db).nextPage id)
          { db with pages := db.pages ++ [(rows db).nextPage id],
                    lastPageId := db.lastPageId + 1 } := by
  simp only [createPage, checkGuards, EStateM.run_bind, EStateM.run_get, guard?]
  cases db.guards.find? fun g => g.table = .pages && (g.url.isNone || g.url = none) with
  | some g => rfl
  | none =>
    simp only [EStateM.run_pure, findPage_eq]
    split <;> rfl

theorem createEndpoint_run (e : NewEndpoint) (db : Database) :
    (createEndpoint e).run db =
      match guard? db.guards (.endpoint e) with
      | some g => .error (.database (.refused g.message)) db
      | none =>
        if (rows db).hasEndpoint e.pageId e.url then .error (.database .endpointNotUnique) db
        else if !(rows db).hasPage e.pageId then .error (.database .foreignKey) db
        else .ok ((rows db).nextEndpoint e)
          { db with endpoints := db.endpoints ++ [(rows db).nextEndpoint e],
                    lastEndpointId := db.lastEndpointId + 1 } := by
  simp only [createEndpoint, checkGuards, EStateM.run_bind, EStateM.run_get, guard?]
  cases db.guards.find? fun g => g.table = .endpoints && (g.url.isNone || g.url = some e.url) with
  | some g => rfl
  | none =>
    change _ = if db.endpointExists e.pageId e.url then _
      else if !db.pages.any (·.id = e.pageId) then _ else _
    simp only [EStateM.run_pure]
    split
    · rfl
    · split <;> rfl

theorem createPage_attempts (db : Database) (id : PageIdentity) :
    Attempts (createPage id.folder id.controller) db (.page id) ((rows db).nextPage id) := by
  rw [Attempts, createPage_run]
  cases hg : guard? db.guards (.page id) with
  | some g => exact .inr ⟨_, rfl, not_admits_of_refuses (by simp [refuses, setting, hg])⟩
  | none =>
    cases h : (rows db).page? id with
    | none =>
      refine .inl ⟨_, rfl, ⟨h, ?_⟩, rfl, rfl⟩
      simp [refuses, setting, hg]
    | some p => exact .inr ⟨_, rfl, not_admits_page h⟩

theorem createEndpoint_attempts (db : Database) (e : NewEndpoint) :
    Attempts (createEndpoint e) db (.endpoint e) ((rows db).nextEndpoint e) := by
  rw [Attempts, createEndpoint_run]
  cases hg : guard? db.guards (.endpoint e) with
  | some g => exact .inr ⟨_, rfl, not_admits_of_refuses (by simp [refuses, setting, hg])⟩
  | none =>
    cases hu : (rows db).hasEndpoint e.pageId e.url with
    | true => exact .inr ⟨_, rfl, not_admits_of_url hu⟩
    | false =>
      cases hp : (rows db).hasPage e.pageId with
      | false => exact .inr ⟨_, rfl, not_admits_of_no_page hp⟩
      | true =>
        refine .inl ⟨_, rfl, ⟨⟨hp, hu⟩, ?_⟩, rfl, rfl⟩
        simp [refuses, setting, hg]

theorem transaction_eq {α : Type} (change : StoreM Database α) :
    transaction change = change.atomically := by
  funext db
  simp only [transaction, StoreM.atomically]
  cases change.run db <;> rfl

instance : LawfulStore Database where
  eq_of_rows_eq {s t} h hs := by
    have h1 : s.sessions = t.sessions := congrArg Prod.fst hs
    have h2 : s.guards = t.guards := congrArg Prod.snd hs
    cases s
    cases t
    simp only [rows, Rows.mk.injEq] at h
    simp_all
  findPage_eq := findPage_eq
  endpointExists_eq := endpointExists_eq
  createPage_attempts := createPage_attempts
  createEndpoint_attempts := createEndpoint_attempts
  createEndpoints_eq _ := transaction_eq _

end Database

end EndpointCatalog
