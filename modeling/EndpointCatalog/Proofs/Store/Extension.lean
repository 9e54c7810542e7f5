import EndpointCatalog.Proofs.Store.Insertions

/-! Stores that extend others. A computation that fails leaves a state behind as well; it
follows a preorder if it takes every state only to states above it. Changes of a store
follow extension: whatever they do comes down to a list of insertions. -/

namespace EndpointCatalog

section Follows

variable {ε τ α β : Type} (R : τ → τ → Prop)

def Follows (x : EStateM ε τ α) : Prop := ∀ s, R s (finalState x s)

variable {R} [IsPreorder τ R]

theorem Follows.pure (a : α) : Follows R (Pure.pure a : EStateM ε τ α) := fun s => refl_of R s

theorem Follows.get : Follows R (get : EStateM ε τ τ) := fun s => refl_of R s

theorem Follows.throw (e : ε) : Follows R (throw e : EStateM ε τ α) := fun s => refl_of R s

theorem Follows.bind {x : EStateM ε τ α} {f : α → EStateM ε τ β} (hx : Follows R x)
    (hf : ∀ a, Follows R (f a)) : Follows R (x >>= f) := by
  intro s
  have h := hx s
  simp only [finalState, EStateM.run_bind] at h ⊢
  cases hs : x.run s with
  | ok a t =>
    rw [hs] at h
    exact trans_of R h (hf a t)
  | error e t =>
    rw [hs] at h
    exact h

theorem Follows.mapM {f : α → EStateM ε τ β} (h : ∀ a, Follows R (f a)) (as : List α) :
    Follows R (as.mapM f) := by
  induction as with
  | nil => exact Follows.pure []
  | cons a as ih =>
    rw [List.mapM_cons]
    exact (h a).bind fun b => ih.bind fun bs => Follows.pure (b :: bs)

end Follows

section Creates

variable {σ : Type} [Store σ]

/-- The operations of a store that create rows follow a relation. -/
structure Creates (R : σ → σ → Prop) : Prop where
  page (folder controller : String) :
    Follows R (Store.createPage folder controller : StoreM σ Page)
  endpoint (e : NewEndpoint) : Follows R (Store.createEndpoint e : StoreM σ Endpoint)
  endpoints (batch : List NewEndpoint) : Follows R (Store.createEndpoints batch : StoreM σ Unit)

theorem Follows.findOrCreatePage {R : σ → σ → Prop} [IsPreorder σ R] {folder controller : String}
    (h : Follows R (Store.createPage folder controller : StoreM σ Page)) :
    Follows R (Store.findOrCreatePage folder controller : StoreM σ (Page × Bool)) := by
  refine Follows.get.bind fun s => ?_
  cases Store.findPage s folder controller with
  | some page => exact Follows.pure _
  | none => exact h.bind fun page => Follows.pure _

end Creates

open StoreView

variable {σ : Type} [LawfulStore σ]

/-- The second store has the rows of the first and then more. -/
def Extends (s t : σ) : Prop := ∃ is, InsertsAll s is t

instance : IsPreorder σ Extends where
  refl s := ⟨[], InsertsAll.nil s⟩
  trans _ _ _ h h' := by
    obtain ⟨_, h⟩ := h
    obtain ⟨_, h'⟩ := h'
    exact ⟨_, h.append h'⟩

theorem Extends.grows {s t : σ} (h : Extends s t) : (rows s).Grows (rows t) :=
  h.elim fun _ hi => hi.grows

theorem Extends.sound {s t : σ} (h : Extends s t) (hs : (rows s).Sound) : (rows t).Sound :=
  h.elim fun _ hi => hi.sound hs

/-- An attempt at an insertion inserts that row or nothing. -/
theorem StoreView.Attempts.inserts {α : Type} {change : StoreM σ α} {s : σ} {i : Insertion} {a : α}
    (h : Attempts change s i a) :
    ∃ is, InsertsAll s is (finalState change s) ∧ ∀ j ∈ is, j = i := by
  rcases h with ⟨t, ht, hi⟩ | ⟨failure, hf, _⟩
  · rw [finalState, ht]
    exact ⟨[i], InsertsAll.cons hi (InsertsAll.nil t), by simp⟩
  · rw [finalState, hf]
    exact ⟨[], InsertsAll.nil s, by simp⟩

theorem createPage_follows (folder controller : String) :
    Follows Extends (Store.createPage folder controller : StoreM σ Page) :=
  fun s => (LawfulStore.createPage_attempts s ⟨folder, controller⟩).inserts.imp fun _ h => h.1

theorem createEndpoint_follows (e : NewEndpoint) :
    Follows Extends (Store.createEndpoint e : StoreM σ Endpoint) :=
  fun s => (LawfulStore.createEndpoint_attempts s e).inserts.imp fun _ h => h.1

theorem createEndpoints_follows (batch : List NewEndpoint) :
    Follows Extends (Store.createEndpoints batch : StoreM σ Unit) := by
  intro s
  rw [finalState]
  cases h : (Store.createEndpoints batch).run s with
  | ok _ t => exact ⟨_, createEndpoints_run_ok.1 h⟩
  | error failure t => exact ⟨[], createEndpoints_run_error h ▸ InsertsAll.nil s⟩

theorem creates_extends : Creates (Extends : σ → σ → Prop) where
  page := createPage_follows
  endpoint := createEndpoint_follows
  endpoints := createEndpoints_follows

end EndpointCatalog
