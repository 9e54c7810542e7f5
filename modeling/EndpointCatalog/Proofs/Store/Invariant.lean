import EndpointCatalog.Proofs.Store.Reachable

/-! What holds of every store that operations lead to, however many of them fail: its rows
are sound, further operations leave every row where it is, and an operation that fails
leaves the whole store as it was. -/

namespace EndpointCatalog

open StoreView

theorem run_map_error {ε σ α β : Type} {x : EStateM ε σ α} {f : α → β} {s t : σ} {e : ε} :
    (x >>= fun a => pure (f a)).run s = .error e t ↔ x.run s = .error e t := by
  rw [EStateM.run_bind]
  cases x.run s <;> simp

variable {σ : Type} [LawfulStore σ]

theorem StoreView.Attempts.run_error {α : Type} {change : StoreM σ α} {s t : σ} {i : Insertion}
    {a : α} {e : StoreError} (h : Attempts change s i a) (he : change.run s = .error e t) :
    t = s := by
  rcases h with ⟨u, hu, _⟩ | ⟨failure, hf, _⟩
  · rw [hu] at he
    cases he
  · rw [hf] at he
    cases he
    rfl

theorem findOrCreatePage_run_error {id : PageIdentity} {s t : σ} {e : StoreError}
    (h : (Store.findOrCreatePage id.folder id.controller).run s = .error e t) : t = s := by
  rw [findOrCreatePage_run] at h
  split at h
  · cases h
  · exact (LawfulStore.createPage_attempts s id).run_error (run_map_error.1 h)

namespace Operation

theorem perform_run_error {o : Operation} {s t : σ} {e : StoreError}
    (h : o.perform.run s = .error e t) : t = s := by
  cases o with
  | findPage | pageEndpoints | endpointExists | pages => cases h
  | createPage id => exact (LawfulStore.createPage_attempts s id).run_error (run_map_error.1 h)
  | findOrCreatePage id => exact findOrCreatePage_run_error (run_map_error.1 h)
  | createEndpoint d => exact (LawfulStore.createEndpoint_attempts s d).run_error (run_map_error.1 h)
  | createEndpoints batch => exact createEndpoints_run_error (run_map_error.1 h)

/-- The store that operations lead to, one after the other. -/
def afterAll {σ : Type} [Store σ] (os : List Operation) (s : σ) : σ :=
  os.foldl (fun t o => o.after t) s

theorem extends_afterAll (os : List Operation) (s : σ) : Extends s (afterAll os s) := by
  induction os generalizing s with
  | nil => exact refl_of Extends s
  | cons o os ih => exact trans_of Extends (o.extends_after s) (ih _)

end Operation

/-- A store in good order, which operations that may fail neither change nor shrink. -/
structure Orderly (s : σ) : Prop where
  sound : (rows s).Sound
  grows : ∀ os, (rows s).Grows (rows (Operation.afterAll os s))
  unchanged : ∀ (o : Operation) (e : StoreError) (t : σ), o.perform.run s = .error e t → t = s

theorem Reachable.orderly {s : σ} (h : Reachable s) : Orderly s where
  sound := h.sound
  grows os := (Operation.extends_afterAll os s).grows
  unchanged _ _ _ he := Operation.perform_run_error he

/-- Both stores stay in good order through operations of every kind; the database does so
whatever its guards refuse and whichever sessions it records in between. -/
theorem reachable_stores_orderly :
    (∀ s : MemoryStore, Reachable s → Orderly s) ∧ ∀ db : Database, Reachable db → Orderly db :=
  ⟨fun _ h => h.orderly, fun _ h => h.orderly⟩

/-! ### Batches that fail at the end -/

def onePage {σ : Type} [Store σ] (s : σ) : σ := (Operation.createPage ⟨"v", "a"⟩).after s

def guardedPage : Database :=
  { onePage Database.empty with guards := [⟨.endpoints, some "/b", "not this one"⟩] }

/-- The store in memory refuses the repeated url, and the guard the second one. -/
theorem onePage_orderly :
    let batch := Operation.createEndpoints [⟨1, "/a", ""⟩, ⟨1, "/b", ""⟩, ⟨1, "/a", ""⟩]
    (Reachable (onePage MemoryStore.empty) ∧ Orderly (onePage MemoryStore.empty) ∧
      ∃ e, batch.perform.run (onePage MemoryStore.empty) = .error e (onePage MemoryStore.empty)) ∧
    Reachable guardedPage ∧ Orderly guardedPage ∧
      ∃ e, batch.perform.run guardedPage = .error e guardedPage := by
  intro batch
  have hmemory : Reachable (onePage MemoryStore.empty) := .operation _ .memory
  have hdatabase : Reachable guardedPage :=
    .setting (s := onePage Database.empty) rfl (.operation _ .database)
  have hs := reachable_stores_orderly.1 _ hmemory
  have hdb := reachable_stores_orderly.2 _ hdatabase
  obtain ⟨e, t, he⟩ : ∃ e t, batch.perform.run (onePage MemoryStore.empty) = .error e t :=
    ⟨_, _, rfl⟩
  obtain ⟨f, u, hf⟩ : ∃ e t, batch.perform.run guardedPage = .error e t := ⟨_, _, rfl⟩
  obtain rfl := hs.unchanged batch e t he
  obtain rfl := hdb.unchanged batch f u hf
  exact ⟨⟨hmemory, hs, e, he⟩, hdatabase, hdb, f, hf⟩

end EndpointCatalog
