import EndpointCatalog.Execution.Commands
import EndpointCatalog.Proofs.Scan.Outcome
import EndpointCatalog.Proofs.Scan.Recorded
import EndpointCatalog.Proofs.Store.Agreement

/-! Dry runs. A store that refuses nothing beyond the rules of the rows never stops a scan,
so that the result depends on the files and on the rows at the start alone. The store in
memory and the database start from the same rows: a dry run reports what a scan into a new
database does. -/

namespace EndpointCatalog

open StoreView

namespace Scan

section Unrefused

variable {σ : Type} [LawfulStore σ]

/-- The result of scanning files from some rows on, if nothing but a file stops the scan. -/
def reportOf (read : Path → Except IoError Controller) (r : Rows) (files : List Path) :
    Except CatalogError Summary :=
  match obstacle? read files with
  | none => .ok ⟨plan r (legible read files)⟩
  | some (path, e) => .error (.unreadable path e)

theorem enactAll_isOk {s : σ} (h : ∀ i, refuses (setting s) i = false) (persistence : Persistence)
    (cs : List (Path × Controller)) :
    ∃ st', (enactAll persistence (plan (rows s) cs)).run ⟨s, .empty, []⟩ = .ok () st' := by
  have fits := plan_fitAll (rows s) cs
  obtain ⟨t, ht⟩ := exists_insertsAll fits fun i _ => h i
  have hordered : InsertsAll s ((plan (rows s) cs).flatMap (atOnce persistence) ++
      ((plan (rows s) cs).flatMap (waiting persistence)).map .endpoint) t :=
    (insertsAll_in_any_order fits).2 ht
  obtain ⟨u, hu, _⟩ := hordered.split
  exact ⟨⟨u, _, _⟩, enactAll_run_ok.2 ⟨hu, rfl⟩⟩

theorem outcome_result {tree : FileTree} {options : ScanOptions} {base : Path} {files : List Path}
    {s : σ} (h : ∀ i, refuses (setting s) i = false) :
    (Outcome.of (scanAll tree options base files) s).result =
      reportOf (Controller.read tree options base) (rows s) (files.mergeSort Path.le) := by
  rw [reportOf]
  cases ho : obstacle? (Controller.read tree options base) (files.mergeSort Path.le) with
  | none =>
    obtain ⟨t, ht⟩ := exists_insertsAll (plan_fitAll (rows s) _) fun i _ => h i
    exact (outcome_ok_iff.2 ⟨ho, rfl, ht⟩).1
  | some o =>
    have ready : Ready options.persistence (⟨s, .empty, []⟩ : State σ) := fun _ => rfl
    have hrows : (⟨s, .empty, []⟩ : State σ).rows = rows s := rfl
    obtain ⟨st', henact⟩ := enactAll_isOk h options.persistence
      (legible (Controller.read tree options base) (files.mergeSort Path.le))
    simp only [Outcome.of, scanAll, EStateM.run_bind, scanFiles_run ready, hrows, henact, ho]
    rfl

/-- The result of a request from some rows on, if nothing but its files stops it. -/
def Request.report (tree : FileTree) (options : ScanOptions) (r : Rows) (q : Request) :
    Except CatalogError Summary :=
  q.files tree options.fileSuffix >>= reportOf (Controller.read tree options (q.base options)) r

theorem Request.run_result {s : σ} (h : ∀ i, refuses (setting s) i = false) (tree : FileTree)
    (options : ScanOptions) (q : Request) :
    (q.run tree options s).result = q.report tree options (rows s) := by
  cases q with
  | listed files => exact outcome_result h
  | below root =>
    simp only [run, scanRoot, report, Request.files]
    cases discover tree options.fileSuffix root with
    | error e => rfl
    | ok files => exact outcome_result h

end Unrefused

theorem discover_missing {tree : FileTree} {suffix : String} {root : Path}
    (h : tree.folder? root = none) : discover tree suffix root = .error (.rootNotFound root) := by
  rw [discover, h]

/-- A scan that is recorded in a new database has the result it has without the record. -/
theorem scanRecorded_result (tree : FileTree) (started ended : Int) (options : ScanOptions)
    (root : Path) : (scanRecorded tree started ended options root Database.empty).1 =
      (scanRoot tree options root Database.empty).result := by
  cases hroot : tree.folder? root with
  | none => simp [scanRecorded, hroot, scanRoot, discover_missing hroot]
  | some top =>
    have hopened (i : Insertion) :
        refuses (setting (Database.empty.opened started root.text)) i = false := by
      cases i <;> rfl
    have hempty (i : Insertion) : refuses (setting Database.empty) i = false := by
      cases i <;> rfl
    rw [scanRecorded_folder hroot]
    exact (close_result ended _ _).trans ((Request.run_result hopened tree options (.below root)).trans
      (Request.run_result hempty tree options (.below root)).symm)

end Scan

namespace Execution

/-- Work that only passes on what the files give. -/
theorem run_passOn (f : FileTree → Except CatalogError Scan.Summary) (c : Console) :
    (do match f (← get).tree with
        | .ok summary => return summary
        | .error e => throw (.catalog e) : Work Scan.Summary).run c =
      match f c.tree with
      | .ok summary => .ok summary c
      | .error e => .error (.catalog e) c := by
  simp only [EStateM.run_bind, EStateM.run_get]
  cases f c.tree <;> rfl

-- The scan is passed as a function so that no step has to look into it.
theorem dryScan_run (options : ScanOptions) (root : Path) (c : Console) :
    (dryScan options root).run c =
      match (Scan.scanRoot c.tree options root MemoryStore.empty).result with
      | .ok summary => .ok summary c
      | .error e => .error (.catalog e) c :=
  run_passOn (fun tree => (Scan.scanRoot tree options root MemoryStore.empty).result) c

end Execution

/-- From an empty start the store in memory and the database answer alike to operations of
every kind, and scans of every kind have one result on both; so a dry run reports what a
scan into a new database does. -/
theorem memory_database_agree :
    (∀ os : List Operation, List.Forall₂ (Option.Rel Answer.Agrees)
      (Operation.answers os MemoryStore.empty) (Operation.answers os Database.empty)) ∧
    (∀ (tree : FileTree) (options : ScanOptions) (q : Scan.Request),
      (q.run tree options MemoryStore.empty).result =
        (q.run tree options Database.empty).result) ∧
    ∀ (started ended : Int) (options : ScanOptions) (root : Path) (c : Execution.Console),
      (Execution.dryScan options root).run c =
        match (Scan.scanRecorded c.tree started ended options root Database.empty).1 with
        | .ok summary => .ok summary c
        | .error e => .error (.catalog e) c := by
  have same (tree : FileTree) (options : ScanOptions) (q : Scan.Request) :
      (q.run tree options MemoryStore.empty).result =
        (q.run tree options Database.empty).result := by
    have hmemory (i : Insertion) : refuses (setting MemoryStore.empty) i = false := rfl
    have hdatabase (i : Insertion) : refuses (setting Database.empty) i = false := by
      cases i <;> rfl
    rw [Scan.Request.run_result hmemory, Scan.Request.run_result hdatabase, alike_empty.rows_eq]
  refine ⟨fun os => Operation.answers_alike os alike_empty, same, fun started ended options root c => ?_⟩
  have hroot : (Scan.scanRoot c.tree options root MemoryStore.empty).result =
      (Scan.scanRoot c.tree options root Database.empty).result := same _ _ (.below root)
  rw [Execution.dryScan_run, Scan.scanRecorded_result, hroot]

end EndpointCatalog
