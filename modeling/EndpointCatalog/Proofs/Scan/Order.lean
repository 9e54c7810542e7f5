import EndpointCatalog.Proofs.Files.Lookup
import EndpointCatalog.Proofs.Scan.Outcome

/-! The order of a list of files. Scanning sorts the files, and files that compare equal
stand for the same page and have the same content, so that a scan does not depend on
the order in which its files are given. -/

namespace EndpointCatalog

theorem Path.pageIdentity_eq_of_components {p q : Path} (h : p.components = q.components) :
    p.pageIdentity = q.pageIdentity := by
  simp only [Path.pageIdentity, Path.folderName, Path.fileStem, Path.fileName, h]

namespace Scan

/-- An account of the same controller under another spelling of its path. -/
structure PageScan.Respelled (p q : PageScan) : Prop where
  components : p.path.components = q.path.components
  rest : q = { p with path := q.path }

/-! ### Files that compare equal -/

theorem Controller.read_eq_of_components {tree : FileTree} {options : ScanOptions}
    {base path path' : Path} (h : path.components = path'.components) {c d : Controller}
    (hc : Controller.read tree options base path = .ok c)
    (hd : Controller.read tree options base path' = .ok d) : c = d := by
  obtain ⟨bytes, hbytes, rfl⟩ := Controller.read_eq_ok hc
  obtain ⟨bytes', hbytes', rfl⟩ := Controller.read_eq_ok hd
  obtain rfl := FileTree.read_eq_of_components h hbytes hbytes'
  simp only [Controller.ofText, Path.pageIdentity_eq_of_components h]

/-- The same controllers, under other spellings of their paths. -/
def Respelled (cs ds : List (Path × Controller)) : Prop :=
  List.Forall₂ (fun c d => c.1.components = d.1.components ∧ c.2 = d.2) cs ds

theorem legible_respelled {tree : FileTree} {options : ScanOptions} {base : Path}
    {files files' : List Path} (h : files.map Path.components = files'.map Path.components)
    (hread : obstacle? (Controller.read tree options base) files = none)
    (hread' : obstacle? (Controller.read tree options base) files' = none) :
    Respelled (legible (Controller.read tree options base) files)
      (legible (Controller.read tree options base) files') := by
  induction files generalizing files' with
  | nil =>
    obtain rfl := List.map_eq_nil_iff.1 h.symm
    exact .nil
  | cons file files ih =>
    cases files' with
    | nil => cases h
    | cons file' files' =>
      obtain ⟨hfile, hfiles⟩ := List.cons.inj h
      obtain ⟨⟨c, hc⟩, hrest⟩ := List.forall_mem_cons.1 (obstacle?_eq_none.1 hread)
      obtain ⟨⟨d, hd⟩, hrest'⟩ := List.forall_mem_cons.1 (obstacle?_eq_none.1 hread')
      simp only [legible, hc, hd]
      exact .cons ⟨hfile, Controller.read_eq_of_components hfile hc hd⟩
        (ih hfiles (obstacle?_eq_none.2 hrest) (obstacle?_eq_none.2 hrest'))

/-! ### Plans -/

theorem planController_respelled (r : Rows) (path path' : Path) (c : Controller) :
    planController r path' c = { planController r path c with path := path' } := by
  unfold planController
  cases r.page? c.identity <;> rfl

theorem plan_respelled {cs ds : List (Path × Controller)} (h : Respelled cs ds) (r : Rows) :
    List.Forall₂ PageScan.Respelled (plan r cs) (plan r ds) := by
  induction h generalizing r with
  | nil => exact .nil
  | @cons c d cs ds hcd _ ih =>
    obtain ⟨path, c⟩ := c
    obtain ⟨path', d⟩ := d
    obtain ⟨hpath, rfl⟩ := hcd
    have hplan := planController_respelled r path path' c
    rw [plan, plan, hplan]
    refine .cons ⟨?_, rfl⟩ (ih _)
    rwa [planController_path]

theorem insertions_respelled {ps qs : List PageScan} (h : List.Forall₂ PageScan.Respelled ps qs) :
    ps.flatMap (·.insertions) = qs.flatMap (·.insertions) := by
  induction h with
  | nil => rfl
  | cons hpq _ ih =>
    rw [List.flatMap_cons, List.flatMap_cons, ih, hpq.rest]
    rfl

theorem map_path_plan (r : Rows) (cs : List (Path × Controller)) :
    (plan r cs).map (·.path) = cs.map (·.1) := by
  induction cs generalizing r with
  | nil => rfl
  | cons c cs ih =>
    obtain ⟨path, c⟩ := c
    simp only [plan, List.map_cons, planController_path, ih]

/-! ### The outcome -/

/-- Files that can be read are scanned by a store that refuses nothing. -/
theorem scanFiles_isOk {σ : Type} [LawfulStore σ] {s : σ}
    (accepts : ∀ i, StoreView.refuses (StoreView.setting s) i = false) {tree : FileTree}
    (options : ScanOptions) {files : List Path}
    (h : ∀ file ∈ files, ∃ bytes, tree.read file = .ok bytes) :
    ∃ summary, (scanFiles tree options files s).result = .ok summary := by
  have hread : obstacle? (Controller.read tree options (options.directiveRoot.getD ⟨"."⟩))
      (files.mergeSort Path.le) = none := by
    refine obstacle?_eq_none.2 fun file hf => ?_
    obtain ⟨bytes, hbytes⟩ := h file (List.mem_mergeSort.1 hf)
    exact ⟨_, congrArg (Except.map _) hbytes⟩
  obtain ⟨t, ht⟩ := exists_insertsAll (plan_fitAll (StoreView.rows s) _) fun i _ => accepts i
  exact ⟨_, (outcome_ok_iff.2 ⟨hread, rfl, ht⟩).1⟩

/-- A scan of some files succeeds in every order of them, with one store and, up to the
spelling of paths, one summary; it lists the files in the order of their paths. -/
theorem scanFiles_any_order {σ : Type} [LawfulStore σ] {s : σ} {tree : FileTree}
    {options : ScanOptions} {files files' : List Path} (same : files.Perm files')
    {summary : Summary} (h : (scanFiles tree options files s).result = .ok summary) :
    ∃ account : Summary, (scanFiles tree options files' s).result = .ok account ∧
      (scanFiles tree options files' s).store = (scanFiles tree options files s).store ∧
      List.Forall₂ PageScan.Respelled summary.pages account.pages ∧
      (summary.pages.map (·.path)).Pairwise (fun p q => p.le q = true) ∧
      (summary.pages.map (·.path)).Perm files ∧ summary.filesScanned = files.length := by
  set read := Controller.read tree options (options.directiveRoot.getD ⟨"."⟩)
  obtain ⟨hread, rfl, hi⟩ := outcome_ok_iff.1 ⟨h, rfl⟩
  have hread' : obstacle? read (files'.mergeSort Path.le) = none := by
    refine obstacle?_eq_none.2 fun file hf => obstacle?_eq_none.1 hread file ?_
    rwa [List.mem_mergeSort, same.mem_iff, ← @List.mem_mergeSort _ Path.le]
  have hplan := plan_respelled
    (legible_respelled (Path.map_components_mergeSort same) hread hread') (StoreView.rows s)
  have hpaths : (plan (StoreView.rows s) (legible read (files.mergeSort Path.le))).map (·.path) =
      files.mergeSort Path.le := by
    rw [map_path_plan, map_fst_legible hread]
  rw [Summary.insertions, insertions_respelled hplan] at hi
  obtain ⟨hresult, hstore⟩ := outcome_ok_iff.2 ⟨hread', rfl, hi⟩
  refine ⟨_, hresult, hstore, hplan, ?_, ?_, ?_⟩
  · rw [hpaths]
    exact Path.pairwise_mergeSort files
  · rw [hpaths]
    exact List.mergeSort_perm files Path.le
  · rw [Summary.filesScanned, ← List.length_map (·.path), hpaths, List.length_mergeSort]

/-- The shared page of a database, with a file that is listed in two spellings. -/
theorem sharedPage_any_order : ∃ summary account : Summary,
    (scanFiles sharedPage .standard [⟨"w/v/a.js"⟩, ⟨"v//a.js"⟩, ⟨"v/a.js"⟩] Database.empty).result =
      .ok summary ∧
    (scanFiles sharedPage .standard [⟨"v/a.js"⟩, ⟨"w/v/a.js"⟩, ⟨"v//a.js"⟩] Database.empty).result =
      .ok account ∧
    account.filesScanned = 3 := by
  have hread : ∀ file ∈ ([⟨"w/v/a.js"⟩, ⟨"v//a.js"⟩, ⟨"v/a.js"⟩] : List Path), ∃ bytes,
      sharedPage.read file = .ok bytes := by
    simp only [List.forall_mem_cons, List.not_mem_nil, false_implies, implies_true, and_true]
    exact ⟨⟨_, by cbv⟩, ⟨_, by cbv⟩, ⟨_, by cbv⟩⟩
  obtain ⟨summary, h⟩ := scanFiles_isOk (s := Database.empty) (fun i => by cases i <;> rfl)
    ScanOptions.standard hread
  have same : [⟨"w/v/a.js"⟩, ⟨"v//a.js"⟩, ⟨"v/a.js"⟩].Perm
      ([⟨"v/a.js"⟩, ⟨"w/v/a.js"⟩, ⟨"v//a.js"⟩] : List Path) := by decide
  obtain ⟨account, haccount, _, hpages, _, _, hcount⟩ := scanFiles_any_order same h
  exact ⟨summary, account, h, haccount, hpages.length_eq.symm.trans hcount⟩

end Scan

end EndpointCatalog
