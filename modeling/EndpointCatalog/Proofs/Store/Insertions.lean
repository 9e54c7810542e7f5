import EndpointCatalog.Proofs.Store.Lawful

/-! Insertions one after the other. Where each row fits and none is refused, a list of
insertions goes through and leads to one store only, and a batch is such a list. -/

namespace EndpointCatalog

open StoreView

variable {σ : Type} [LawfulStore σ]

/-- The step from a store to the one with all of the rows. -/
structure InsertsAll (s : σ) (is : List Insertion) (t : σ) : Prop where
  fits : (rows s).FitAll is
  admitted : ∀ i ∈ is, refuses (setting s) i = false
  rows_eq : rows t = (rows s).insertAll is
  setting_eq : setting t = setting s

namespace InsertsAll

theorem nil (s : σ) : InsertsAll s [] s := ⟨trivial, by simp, rfl, rfl⟩

theorem cons {s t u : σ} {i : Insertion} {is : List Insertion} (h : Inserts s i t)
    (hs : InsertsAll t is u) : InsertsAll s (i :: is) u where
  fits := ⟨h.admits.1, h.rows_eq ▸ hs.fits⟩
  admitted := by
    simpa using ⟨h.admits.2, fun j hj => h.setting_eq ▸ hs.admitted j hj⟩
  rows_eq := by rw [hs.rows_eq, h.rows_eq, Rows.insertAll_cons]
  setting_eq := hs.setting_eq.trans h.setting_eq

theorem append {s t u : σ} {is js : List Insertion} (h : InsertsAll s is t)
    (hs : InsertsAll t js u) : InsertsAll s (is ++ js) u where
  fits := Rows.fitAll_append.2 ⟨h.fits, h.rows_eq ▸ hs.fits⟩
  admitted i hi := by
    rcases List.mem_append.1 hi with hi | hi
    · exact h.admitted i hi
    · exact h.setting_eq ▸ hs.admitted i hi
  rows_eq := by rw [hs.rows_eq, h.rows_eq, Rows.insertAll_append]
  setting_eq := hs.setting_eq.trans h.setting_eq

theorem inserts {s t : σ} {i : Insertion} (h : InsertsAll s [i] t) : Inserts s i t where
  admits := ⟨h.fits.1, h.admitted i List.mem_cons_self⟩
  rows_eq := h.rows_eq
  setting_eq := h.setting_eq

theorem unique {s t u : σ} {is : List Insertion} (h : InsertsAll s is t) (hu : InsertsAll s is u) :
    t = u :=
  LawfulStore.eq_of_rows_eq (h.rows_eq.trans hu.rows_eq.symm)
    (h.setting_eq.trans hu.setting_eq.symm)

theorem grows {s t : σ} {is : List Insertion} (h : InsertsAll s is t) : (rows s).Grows (rows t) :=
  h.rows_eq ▸ Rows.grows_insertAll _ _

theorem sound {s t : σ} {is : List Insertion} (h : InsertsAll s is t) (hs : (rows s).Sound) :
    (rows t).Sound :=
  h.rows_eq ▸ hs.insertAll h.fits

end InsertsAll

/-! ### Changes that insert rows -/

theorem StoreView.Attempts.ok_iff {α : Type} {change : StoreM σ α} {s t : σ} {i : Insertion}
    {a b : α} (h : Attempts change s i a) : change.run s = .ok b t ↔ b = a ∧ Inserts s i t := by
  rcases h with ⟨u, hu, hi⟩ | ⟨failure, hf, hn⟩
  · rw [hu]
    constructor
    · rintro ⟨rfl, rfl⟩
      exact ⟨rfl, hi⟩
    · rintro ⟨rfl, ht⟩
      rw [LawfulStore.eq_of_rows_eq (ht.rows_eq.trans hi.rows_eq.symm)
        (ht.setting_eq.trans hi.setting_eq.symm)]
  · rw [hf]
    constructor
    · rintro ⟨⟩
    · rintro ⟨rfl, ht⟩
      exact absurd ht.admits hn

theorem StoreView.Attempts.discard {α : Type} {change : StoreM σ α} {s : σ} {i : Insertion} {a : α}
    (h : Attempts change s i a) : Attempts (discard change) s i () := by
  rcases h with ⟨t, ht, hi⟩ | ⟨failure, hf, hn⟩
  · exact .inl ⟨t, by rw [run_discard, ht], hi⟩
  · exact .inr ⟨failure, by rw [run_discard, hf], hn⟩

def insertRow : Insertion → StoreM σ Unit
  | .page id => discard (Store.createPage id.folder id.controller)
  | .endpoint e => discard (Store.createEndpoint e)

theorem insertRow_attempts (s : σ) (i : Insertion) : Attempts (insertRow i) s i () := by
  cases i with
  | page id => exact (LawfulStore.createPage_attempts s id).discard
  | endpoint e => exact (LawfulStore.createEndpoint_attempts s e).discard

def insertRows (is : List Insertion) : StoreM σ Unit := is.forM insertRow

theorem insertRow_run_ok {s t : σ} {i : Insertion} :
    (insertRow i).run s = .ok () t ↔ Inserts s i t := by
  rw [(insertRow_attempts s i).ok_iff]
  simp

@[simp] theorem insertRows_cons (i : Insertion) (is : List Insertion) :
    (insertRows (i :: is) : StoreM σ Unit) = (do insertRow i; insertRows is) := by
  simp [insertRows]

theorem insertRows_append (is js : List Insertion) :
    (insertRows (is ++ js) : StoreM σ Unit) = (do insertRows is; insertRows js) := by
  simp [insertRows]

theorem insertRows_run_ok {s t : σ} {is : List Insertion} :
    (insertRows is).run s = .ok () t ↔ InsertsAll s is t := by
  induction is generalizing s with
  | nil =>
    constructor
    · intro h
      cases h
      exact InsertsAll.nil _
    · intro h
      rw [h.unique (InsertsAll.nil s)]
      rfl
  | cons i is ih =>
    rw [insertRows_cons, run_bind_ok]
    constructor
    · rintro ⟨_, u, hi, hs⟩
      exact InsertsAll.cons (insertRow_run_ok.1 hi) (ih.1 hs)
    · intro h
      rcases insertRow_attempts s i with ⟨u, hu, hi⟩ | ⟨_, _, hn⟩
      · refine ⟨(), u, hu, ih.2 ⟨?_, ?_, ?_, ?_⟩⟩
        · exact hi.rows_eq ▸ h.fits.2
        · exact fun j hj => hi.setting_eq ▸ h.admitted j (List.mem_cons_of_mem _ hj)
        · rw [h.rows_eq, hi.rows_eq, Rows.insertAll_cons]
        · rw [h.setting_eq, hi.setting_eq]
      · exact absurd ⟨h.fits.1, h.admitted i List.mem_cons_self⟩ hn

/-- Rows that fit and are not refused can be inserted. -/
theorem exists_insertsAll {s : σ} {is : List Insertion} (fits : (rows s).FitAll is)
    (admitted : ∀ i ∈ is, refuses (setting s) i = false) : ∃ t, InsertsAll s is t := by
  induction is generalizing s with
  | nil => exact ⟨s, InsertsAll.nil s⟩
  | cons i is ih =>
    rcases insertRow_attempts s i with ⟨u, _, hi⟩ | ⟨_, _, hn⟩
    · obtain ⟨t, ht⟩ := ih (s := u) (hi.rows_eq ▸ fits.2)
        fun j hj => hi.setting_eq ▸ admitted j (List.mem_cons_of_mem _ hj)
      exact ⟨t, InsertsAll.cons hi ht⟩
    · exact absurd ⟨fits.1, admitted i List.mem_cons_self⟩ hn

theorem InsertsAll.split {s t : σ} {is js : List Insertion} (h : InsertsAll s (is ++ js) t) :
    ∃ u, InsertsAll s is u ∧ InsertsAll u js t := by
  obtain ⟨hfits, hfits'⟩ := Rows.fitAll_append.1 h.fits
  obtain ⟨u, hu⟩ := exists_insertsAll hfits fun i hi => h.admitted i (List.mem_append_left _ hi)
  refine ⟨u, hu, hu.rows_eq ▸ hfits', ?_, ?_, h.setting_eq.trans hu.setting_eq.symm⟩
  · exact fun i hi => hu.setting_eq ▸ h.admitted i (List.mem_append_right _ hi)
  · rw [h.rows_eq, hu.rows_eq, Rows.insertAll_append]

theorem createEndpoints_run_ok {s t : σ} {batch : List NewEndpoint} :
    (Store.createEndpoints batch).run s = .ok () t ↔ InsertsAll s (batch.map .endpoint) t := by
  have hb : (batch.forM fun e => discard (Store.createEndpoint e) : StoreM σ Unit) =
      insertRows (batch.map .endpoint) := by
    simp only [insertRows, List.forM_eq_forM, List.forM_map]
    rfl
  rw [LawfulStore.createEndpoints_eq, hb, ← insertRows_run_ok]
  simp only [StoreM.atomically, EStateM.run]
  cases insertRows (batch.map Insertion.endpoint) s <;> simp

theorem createEndpoints_run_error {s t : σ} {batch : List NewEndpoint} {failure : StoreError}
    (h : (Store.createEndpoints batch).run s = .error failure t) : t = s := by
  rw [LawfulStore.createEndpoints_eq] at h
  simp only [StoreM.atomically, EStateM.run] at h
  split at h
  · cases h
  · cases h
    rfl

theorem findOrCreatePage_run (s : σ) (id : PageIdentity) :
    (Store.findOrCreatePage id.folder id.controller).run s =
      match (rows s).page? id with
      | some p => .ok (p, false) s
      | none =>
        (do return (← Store.createPage id.folder id.controller, true) : StoreM σ _).run s := by
  simp only [Store.findOrCreatePage, EStateM.run_bind, EStateM.run_get, LawfulStore.findPage_eq]
  cases (rows s).page? id <;> rfl

end EndpointCatalog
