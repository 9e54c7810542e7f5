import EndpointCatalog.Proofs.Scan.Outcome
import EndpointCatalog.Proofs.Store.Invariant

/-! Where a scan halts: at a row that the store rejects, at a file that cannot be read, or at
the end when the store rejects the batch. The plan of some files begins with the plan of
the files before the one that stops it. -/

namespace EndpointCatalog

open StoreView

theorem run_bind_error {ε σ α β : Type} {x : EStateM ε σ α} {f : α → EStateM ε σ β} {s u : σ}
    {e : ε} : (x >>= f).run s = .error e u ↔
      x.run s = .error e u ∨ ∃ a t, x.run s = .ok a t ∧ (f a).run t = .error e u := by
  rw [EStateM.run_bind]
  cases x.run s <;> simp

theorem run_discard_error {ε σ α : Type} {x : EStateM ε σ α} {s t : σ} {e : ε} :
    (discard x).run s = .error e t ↔ x.run s = .error e t := by
  rw [run_discard]
  cases x.run s <;> simp

variable {σ : Type} [LawfulStore σ]

/-- Insertions fail at the first row that the store rejects, with the rows before it. -/
theorem insertRows_run_error {s t : σ} {is : List Insertion} {e : StoreError}
    (h : (insertRows is).run s = .error e t) : ∃ before i after, is = before ++ i :: after ∧
      InsertsAll s before t ∧ (insertRow i).run t = .error e t := by
  induction is generalizing s with
  | nil => cases h
  | cons i is ih =>
    rw [insertRows_cons, run_bind_error] at h
    rcases h with h | ⟨_, u, hi, h⟩
    · obtain rfl := (insertRow_attempts s i).run_error h
      exact ⟨[], i, is, rfl, InsertsAll.nil t, h⟩
    · obtain ⟨before, j, after, rfl, hb, hj⟩ := ih h
      exact ⟨i :: before, j, after, rfl, InsertsAll.cons (insertRow_run_ok.1 hi) hb, hj⟩

namespace Scan

/-! ### Where a scan halts -/

theorem enact_run_error {persistence : Persistence} {p : PageScan} {st st' : State σ}
    {e : CatalogError} (h : (enact persistence p).run st = .error e st') :
    ∃ before i after f, atOnce persistence p = before ++ i :: after ∧ e = .store f ∧
      InsertsAll st.store before st'.store ∧ (insertRow i).run st'.store = .error f st'.store ∧
      st'.visited = st.visited := by
  rw [enact_eq, run_bind_error] at h
  rcases h with h | ⟨_, _, _, h⟩
  · rw [onStore_run] at h
    split at h
    next => cases h
    next f t ht =>
      cases h
      obtain ⟨before, i, after, his, hb, hi⟩ := insertRows_run_error ht
      exact ⟨before, i, after, f, his, rfl, hb, hi, rfl⟩
  · cases h

theorem enactAll_run_error {persistence : Persistence} {ps : List PageScan} {st st' : State σ}
    {e : CatalogError} (h : (enactAll persistence ps).run st = .error e st') :
    ∃ done p rest before i after f, ps = done ++ p :: rest ∧
      atOnce persistence p = before ++ i :: after ∧ e = .store f ∧
      InsertsAll st.store (done.flatMap (atOnce persistence) ++ before) st'.store ∧
      (insertRow i).run st'.store = .error f st'.store ∧
      st'.visited = st.visited ++ (done.map (·.path) ++ [p.path]) := by
  induction ps generalizing st with
  | nil => cases h
  | cons p ps ih =>
    rw [enactAll_cons, run_bind_error] at h
    rcases h with h | ⟨_, st₁, hv, h⟩
    · cases h
    · cases hv
      rcases run_bind_error.1 h with h | ⟨_, st₂, hp, h⟩
      · obtain ⟨before, i, after, f, his, he, hb, hi, hvisited⟩ := enact_run_error h
        exact ⟨[], p, ps, before, i, after, f, rfl, his, he, hb, hi, hvisited⟩
      · obtain ⟨done, q, rest, before, i, after, f, rfl, his, he, hb, hi, hvisited⟩ := ih h
        obtain ⟨hdone, hst₂⟩ := enact_run_ok.1 hp
        refine ⟨p :: done, q, rest, before, i, after, f, rfl, his, he, ?_, hi, ?_⟩
        · rw [List.flatMap_cons, List.append_assoc]
          exact hdone.append hb
        · rw [hvisited, hst₂, List.map_cons, List.cons_append, List.append_assoc,
            List.singleton_append]

theorem flush_run_error {st st' : State σ} {e : CatalogError}
    (h : (flush : ScanM σ Unit).run st = .error e st') : ∃ f, e = .store f ∧ st' = st ∧
      (Store.createEndpoints st.pending.records).run st.store = .error f st.store := by
  simp only [flush, EStateM.run_bind, EStateM.run_get] at h
  split at h
  · cases h
  · rw [onStore_run] at h
    split at h
    next => cases h
    next f t ht =>
      cases h
      obtain rfl := createEndpoints_run_error ht
      exact ⟨f, rfl, rfl, ht⟩

/-- How the enactment of accounts, up to an obstacle, halts with an error. -/
inductive Halts (persistence : Persistence) (ps : List PageScan) (obstacle : Option (Path × IoError))
    (s : σ) : Outcome σ → Prop
  | row {done rest : List PageScan} {p : PageScan} {before after : List Insertion} {i : Insertion}
      {e : StoreError} {t : σ} : ps = done ++ p :: rest →
      atOnce persistence p = before ++ i :: after →
      InsertsAll s (done.flatMap (atOnce persistence) ++ before) t →
      (insertRow i).run t = .error e t →
      Halts persistence ps obstacle s ⟨.error (.store e), t, done.map (·.path) ++ [p.path]⟩
  | file {path : Path} {e : IoError} {t : σ} : obstacle = some (path, e) →
      InsertsAll s (ps.flatMap (atOnce persistence)) t →
      Halts persistence ps obstacle s ⟨.error (.unreadable path e), t, ps.map (·.path) ++ [path]⟩
  | batch {e : StoreError} {t : σ} : obstacle = none →
      InsertsAll s (ps.flatMap (atOnce persistence)) t →
      (Store.createEndpoints (ps.flatMap (waiting persistence))).run t = .error e t →
      Halts persistence ps obstacle s ⟨.error (.store e), t, ps.map (·.path)⟩

omit [LawfulStore σ] in
theorem conclude_run_ok {ps qs : List PageScan} {o : Option (Path × IoError)} {st st' : State σ} :
    (conclude ps o).run st = .ok qs st' ↔ o = none ∧ ps = qs ∧ st = st' := by
  cases o with
  | none => simp [conclude]
  | some o =>
    refine iff_of_false (fun h => ?_) fun h => ?_
    · cases h
    · cases h.1

omit [LawfulStore σ] in
theorem conclude_run_error {ps : List PageScan} {o : Option (Path × IoError)} {st st' : State σ}
    {e : CatalogError} (h : (conclude ps o).run st = .error e st') : ∃ path f, o = some (path, f) ∧
      e = .unreadable path f ∧ st' = { st with visited := st.visited ++ [path] } := by
  cases o with
  | none => cases h
  | some o =>
    cases h
    exact ⟨_, _, rfl, rfl, rfl⟩

omit [LawfulStore σ] in
theorem Outcome.of_eq_error {scan : ScanM σ Summary} {s : σ} {e : CatalogError}
    (h : (Outcome.of scan s).result = .error e) : ∃ st', scan.run ⟨s, .empty, []⟩ = .error e st' ∧
      Outcome.of scan s = ⟨.error e, st'.store, st'.visited⟩ := by
  simp only [Outcome.of] at h ⊢
  cases hr : scan.run ⟨s, .empty, []⟩ with
  | ok summary st =>
    rw [hr] at h
    cases h
  | error f st =>
    rw [hr] at h
    cases h
    exact ⟨st, rfl, rfl⟩

theorem outcome_halts {tree : FileTree} {options : ScanOptions} {base : Path} {files : List Path}
    {s : σ} {e : CatalogError}
    (h : (Outcome.of (scanAll tree options base files) s).result = .error e) :
    Halts options.persistence
      (plan (rows s) (legible (Controller.read tree options base) (files.mergeSort Path.le)))
      (obstacle? (Controller.read tree options base) (files.mergeSort Path.le)) s
      (Outcome.of (scanAll tree options base files) s) := by
  have ready : Ready options.persistence (⟨s, .empty, []⟩ : State σ) := fun _ => rfl
  have hrows : (⟨s, .empty, []⟩ : State σ).rows = rows s := rfl
  obtain ⟨⟨t, pending, visited⟩, hrun, ho⟩ := Outcome.of_eq_error h
  rw [ho]
  simp only [scanAll, run_bind_error, scanFiles_run ready, hrows] at hrun
  rcases hrun with (henact | ⟨_, st₁, henact, hend⟩) | ⟨pages, st₂, hwalk, hflush | hpure⟩
  · obtain ⟨done, p, rest, before, i, after, f, hps, his, rfl, hb, hi, hvisited⟩ :=
      enactAll_run_error henact
    obtain rfl : visited = done.map (·.path) ++ [p.path] := hvisited
    exact .row hps his hb hi
  · obtain ⟨hi, hst₁⟩ := enactAll_run_ok.1 henact
    obtain ⟨path, f, hobstacle, rfl, hst⟩ := conclude_run_error hend
    rw [hst₁] at hst
    cases hst
    exact .file hobstacle hi
  · obtain ⟨_, st₁, henact, hend⟩ := run_bind_ok.1 hwalk
    obtain ⟨hi, hst₁⟩ := enactAll_run_ok.1 henact
    obtain ⟨hobstacle, _, rfl⟩ := conclude_run_ok.1 hend
    obtain ⟨f, rfl, hst, hf⟩ := flush_run_error hflush
    rw [hst₁] at hf hst
    cases hst
    exact .batch hobstacle hi hf
  · obtain ⟨_, _, _, hpure⟩ := hpure
    cases hpure

/-! ### Files and accounts -/

theorem Controller.read_eq_error {tree : FileTree} {options : ScanOptions} {base path : Path}
    {e : IoError} : Controller.read tree options base path = .error e ↔ tree.read path = .error e := by
  rw [Controller.read]
  cases tree.read path <;> simp [Except.map]

section Files

variable {read : Path → Except IoError Controller}

theorem obstacle?_eq_some {files : List Path} {path : Path} {e : IoError}
    (h : obstacle? read files = some (path, e)) : ∃ before after, files = before ++ path :: after ∧
      obstacle? read before = none ∧ read path = .error e ∧
      legible read files = legible read before := by
  induction files with
  | nil => cases h
  | cons file files ih =>
    rw [obstacle?] at h
    split at h
    next c hc =>
      obtain ⟨before, after, rfl, hbefore, hpath, hlegible⟩ := ih h
      refine ⟨file :: before, after, rfl, ?_, hpath, ?_⟩
      · rw [obstacle?, hc]
        exact hbefore
      · rw [legible, hc, legible, hc, hlegible]
    next f hf =>
      cases h
      exact ⟨[], files, rfl, rfl, hf, by simp only [legible, hf]⟩

theorem legible_eq_append_cons {files : List Path} {cs ds : List (Path × Controller)} {path : Path}
    {c : Controller} (h : legible read files = cs ++ (path, c) :: ds) : ∃ before after,
      files = before ++ path :: after ∧ obstacle? read before = none ∧ legible read before = cs ∧
      read path = .ok c := by
  induction files generalizing cs with
  | nil => exact absurd h (by simp [legible])
  | cons file files ih =>
    rw [legible] at h
    split at h
    next d hd =>
      rcases List.cons_eq_append_iff.1 h with ⟨rfl, hc⟩ | ⟨cs', rfl, hcs⟩
      · cases hc
        exact ⟨[], files, rfl, rfl, rfl, hd⟩
      · obtain ⟨before, after, rfl, hbefore, hlegible, hpath⟩ := ih hcs
        refine ⟨file :: before, after, rfl, ?_, ?_, hpath⟩
        · rw [obstacle?, hd]
          exact hbefore
        · rw [legible, hd, hlegible]
    next => exact absurd h (by simp)

end Files

theorem plan_append (r : Rows) (cs ds : List (Path × Controller)) :
    plan r (cs ++ ds) =
      plan r cs ++ plan (r.insertAll ((plan r cs).flatMap (·.insertions))) ds := by
  induction cs generalizing r with
  | nil => rfl
  | cons c cs ih =>
    obtain ⟨path, c⟩ := c
    simp only [List.cons_append, plan, ih, List.flatMap_cons, Rows.insertAll_append]

theorem plan_eq_append_cons {r : Rows} {cs : List (Path × Controller)} {done rest : List PageScan}
    {p : PageScan} (h : plan r cs = done ++ p :: rest) : ∃ before path c after,
      cs = before ++ (path, c) :: after ∧ plan r before = done ∧
      p = planController (r.insertAll (done.flatMap (·.insertions))) path c := by
  induction cs generalizing r done with
  | nil => exact absurd h (by simp [plan])
  | cons c cs ih =>
    obtain ⟨path, c⟩ := c
    rw [plan] at h
    rcases List.cons_eq_append_iff.1 h with ⟨rfl, hp⟩ | ⟨done', rfl, hrest⟩
    · obtain ⟨hp, _⟩ := List.cons.inj hp
      exact ⟨[], path, c, cs, rfl, rfl, hp⟩
    · obtain ⟨before, path', d, after, rfl, hbefore, hp⟩ := ih hrest
      refine ⟨(path, c) :: before, path', d, after, rfl, ?_, ?_⟩
      · rw [plan, hbefore]
      · rw [List.flatMap_cons, Rows.insertAll_append, ← hp]

end Scan

end EndpointCatalog
