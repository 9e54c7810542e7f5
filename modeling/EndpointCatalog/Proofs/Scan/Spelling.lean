import EndpointCatalog.Proofs.Scan.Discovered
import EndpointCatalog.Proofs.Scan.Pages
import EndpointCatalog.Proofs.Scan.Recovery

/-! Roots that name one folder. Two ways to write the root of a scan lead to one catalog
exactly if both of them end with the name of the folder or neither does, or no controller
lies directly in it: such a controller is known by the folder name that the root ends
with, and by none if the root ends otherwise. -/

namespace EndpointCatalog

open StoreView

namespace Scan

/-! ### Controllers alike -/

/-- Controllers that bring the same rows into a store. -/
structure Controller.Alike (c d : Controller) : Prop where
  identity : c.identity = d.identity
  routes : c.routes = d.routes

theorem insertions_planController_alike {c d : Controller} (h : c.Alike d) (r : Rows)
    (path path' : Path) :
    (planController r path c).insertions = (planController r path' d).insertions := by
  unfold planController
  rw [h.identity, h.routes]
  cases r.page? d.identity <;> rfl

theorem insertions_plan_alike {cs ds : List (Path × Controller)}
    (h : List.Forall₂ (fun c d => c.2.Alike d.2) cs ds) (r : Rows) :
    (plan r cs).flatMap (·.insertions) = (plan r ds).flatMap (·.insertions) := by
  induction h generalizing r with
  | nil => rfl
  | @cons c d cs ds hcd _ ih =>
    obtain ⟨path, c⟩ := c
    obtain ⟨path', d⟩ := d
    simp only [plan, List.flatMap_cons, insertions_planController_alike hcd r path path', ih]

theorem legible_forall₂ {read read' : Path → Except IoError Controller}
    {R : Controller → Controller → Prop} {files files' : List Path}
    (h : List.Forall₂ (fun file file' => ∃ c d, read file = .ok c ∧ read' file' = .ok d ∧ R c d)
      files files') :
    List.Forall₂ (fun c d => R c.2 d.2) (legible read files) (legible read' files') := by
  induction h with
  | nil => exact .nil
  | cons hfile _ ih =>
    obtain ⟨c, d, hc, hd, hR⟩ := hfile
    rw [legible, legible, hc, hd]
    exact .cons hR ih

/-! ### Scans that add nothing -/

theorem pagesCreated_eq_zero_iff {ps : List PageScan} :
    (⟨ps⟩ : Summary).pagesCreated = 0 ↔ ps.flatMap (·.opened) = [] := by
  simp [Summary.pagesCreated, PageScan.opened]

theorem endpointsAdded_eq_zero_iff {ps : List PageScan} :
    (⟨ps⟩ : Summary).endpointsAdded = 0 ↔ ps.flatMap (·.news) = [] := by
  simp only [Summary.endpointsAdded, List.countP_eq_zero, List.mem_flatMap, PageScan.news, newsOf,
    List.flatMap_eq_nil_iff, List.map_eq_nil_iff, List.filter_eq_nil_iff]
  constructor
  · intro h p hp f hf
    exact h f ⟨p, hp, hf⟩
  · rintro h f ⟨p, hp, hf⟩
    exact h p hp f hf

theorem opened_of_insertions {ps : List PageScan} (h : ps.flatMap (·.insertions) = []) :
    ps.flatMap (·.opened) = [] ∧ ps.flatMap (·.news) = [] := by
  simp only [List.flatMap_eq_nil_iff, PageScan.insertions, List.append_eq_nil_iff,
    List.map_eq_nil_iff] at h ⊢
  exact ⟨fun p hp => (h p hp).1, fun p hp => (h p hp).2⟩

end Scan

theorem Rows.page?_isSome_of_missing {r : Rows} {ids : List PageIdentity} (h : r.missing ids = [])
    {id : PageIdentity} (hid : id ∈ ids) : (r.page? id).isSome := by
  induction ids with
  | nil => cases hid
  | cons id' ids ih =>
    rw [missing] at h
    split at h
    next hold =>
      rcases List.mem_cons.1 hid with rfl | hid
      · exact hold
      · exact ih h hid
    next => cases h

/-- The endpoints of a catalog with the names of their pages, numbers aside. -/
def Rows.listing (r : Rows) : Set (PageIdentity × String × String) :=
  { x | ∃ p ∈ r.pages, ∃ e ∈ r.endpoints, e.pageId = p.id ∧ x = (p.identity, e.url, e.redirect) }

namespace Scan

variable {σ : Type} [LawfulStore σ]

/-! ### One root after the other -/

/-- Either root makes the same catalog of a store, and the second one after the first adds
nothing to it. -/
structure Interchangeable (tree : FileTree) (options : ScanOptions) (s : σ) (r r' : Path) : Prop where
  first : ∃ summary, (scanRoot tree options r s).result = .ok summary
  second : ∃ summary, (scanRoot tree options r' s).result = .ok summary
  listing : (rows (scanRoot tree options r s).store).listing =
    (rows (scanRoot tree options r' s).store).listing
  again : ∃ summary,
    (scanRoot tree options r' (scanRoot tree options r s).store).result = .ok summary ∧
      summary.pagesCreated = 0 ∧ summary.endpointsAdded = 0

section Roots

variable {tree : FileTree} {options : ScanOptions} {r r' : Path} {top : Location}

/-- The paths of the controllers below a root. -/
def controllerPaths (tree : FileTree) (options : ScanOptions) (top : Location) (r : Path) :
    List Path :=
  (controllersBelow tree options.fileSuffix top).map r.below

/-- What a scan of a root reads, file by file. -/
def rootRead (tree : FileTree) (options : ScanOptions) (r : Path) : Path → Except IoError Controller :=
  Controller.read tree options (options.directiveRoot.getD r)

/-- What the controllers below a root yield. -/
def yielded (tree : FileTree) (options : ScanOptions) (top : Location) (r : Path) :
    List (Path × Controller) :=
  legible (rootRead tree options r) (controllerPaths tree options top r)

theorem scanRoot_eq (ht : tree.Plain) (h : tree.folder? r = some top)
    (limits : WithinLimits tree options r) (s : σ) :
    scanRoot tree options r s = .of (scanAll tree options (options.directiveRoot.getD r)
      (controllerPaths tree options top r)) s := by
  rw [scanRoot, discover_eq ht h (limits.controllers h)]
  rfl

theorem rootRead_isOk (ht : tree.Plain) (hr : tree.folder? r = some top)
    (limits : WithinLimits tree options r) :
    obstacle? (rootRead tree options r) (controllerPaths tree options top r) = none := by
  refine obstacle?_eq_none.2 fun file hf => ?_
  obtain ⟨names, hnames, rfl⟩ := List.mem_map.1 hf
  obtain ⟨c, _, hc, _⟩ := read_controller ht hr hr limits limits hnames
  exact ⟨c, hc⟩

/-- A scan of a root goes through and leaves the rows of its plan. -/
theorem scanRoot_run (ht : tree.Plain) (hr : tree.folder? r = some top)
    (limits : WithinLimits tree options r) {s : σ} (accepts : ∀ i, refuses (setting s) i = false) :
    (scanRoot tree options r s).result = .ok ⟨plan (rows s) (yielded tree options top r)⟩ ∧
      InsertsAll s ((plan (rows s) (yielded tree options top r)).flatMap (·.insertions))
        (scanRoot tree options r s).store := by
  obtain ⟨t, hi⟩ := exists_insertsAll (plan_fitAll (rows s) (yielded tree options top r))
    fun i _ => accepts i
  have hsort : (controllerPaths tree options top r).mergeSort Path.le =
      controllerPaths tree options top r :=
    mergeSort_discovered ht (FileTree.text_ne_empty_of_folder? hr)
  have hscan : (scanRoot tree options r s).result =
        .ok ⟨plan (rows s) (yielded tree options top r)⟩ ∧ (scanRoot tree options r s).store = t := by
    rw [scanRoot_eq ht hr limits, outcome_ok_iff, hsort]
    exact ⟨rootRead_isOk ht hr limits, rfl, hi⟩
  rw [hscan.2]
  exact ⟨hscan.1, hi⟩

theorem accepts_scanRoot (ht : tree.Plain) (hr : tree.folder? r = some top)
    (limits : WithinLimits tree options r) {s : σ} (accepts : ∀ i, refuses (setting s) i = false) :
    ∀ i, refuses (setting (scanRoot tree options r s).store) i = false := by
  obtain ⟨_, hi⟩ := scanRoot_run ht hr limits accepts
  intro i
  rw [hi.setting_eq]
  exact accepts i

theorem yielded_alike (ht : tree.Plain) (hr : tree.folder? r = some top)
    (hr' : tree.folder? r' = some top) (limits : WithinLimits tree options r)
    (limits' : WithinLimits tree options r')
    (same : ∀ names ∈ controllersBelow tree options.fileSuffix top,
      (r.below names).pageIdentity = (r'.below names).pageIdentity) :
    List.Forall₂ (fun c d => c.2.Alike d.2) (yielded tree options top r)
      (yielded tree options top r') := by
  refine legible_forall₂ ?_
  rw [controllerPaths, controllerPaths, List.forall₂_map_left_iff, List.forall₂_map_right_iff,
    List.forall₂_same]
  intro names hnames
  obtain ⟨c, d, hc, hd, hroutes⟩ := read_controller ht hr hr' limits limits' hnames
  refine ⟨c, d, hc, hd, ?_, hroutes⟩
  obtain ⟨_, _, rfl⟩ := Controller.read_eq_ok hc
  obtain ⟨_, _, rfl⟩ := Controller.read_eq_ok hd
  exact same names hnames

/-! ### When the spelling makes no difference -/

theorem interchangeable_of_alike (ht : tree.Plain) (hr : tree.folder? r = some top)
    (hr' : tree.folder? r' = some top) (limits : WithinLimits tree options r)
    (limits' : WithinLimits tree options r') {s : σ} (accepts : ∀ i, refuses (setting s) i = false)
    (alike : List.Forall₂ (fun c d => c.2.Alike d.2) (yielded tree options top r)
      (yielded tree options top r')) : Interchangeable tree options s r r' := by
  obtain ⟨hfirst, hi⟩ := scanRoot_run ht hr limits accepts
  obtain ⟨hsecond, hi'⟩ := scanRoot_run ht hr' limits' accepts
  have hsame := insertions_plan_alike alike (rows s)
  have hstore : (scanRoot tree options r' s).store = (scanRoot tree options r s).store :=
    hi'.unique (hsame ▸ hi)
  obtain ⟨hagain, _⟩ := scanRoot_run ht hr' limits' (accepts_scanRoot ht hr limits accepts)
  have hquiet : (plan (rows (scanRoot tree options r s).store)
      (yielded tree options top r')).flatMap (·.insertions) = [] := by
    rw [hi.rows_eq, hsame]
    exact insertions_plan_of_hasAll fun c hc => hasAll_plan _ hc
  obtain ⟨hopened, hnews⟩ := opened_of_insertions hquiet
  exact ⟨⟨_, hfirst⟩, ⟨_, hsecond⟩, by rw [hstore], _, hagain,
    pagesCreated_eq_zero_iff.2 hopened, endpointsAdded_eq_zero_iff.2 hnews⟩

theorem pageIdentity_eq_of_fileName (ht : tree.Plain) (hr : tree.folder? r = some top)
    (hr' : tree.folder? r' = some top)
    (h : r.fileName = r'.fileName ∨ ∀ name, [name] ∉ controllersBelow tree options.fileSuffix top) :
    ∀ names ∈ controllersBelow tree options.fileSuffix top,
      (r.below names).pageIdentity = (r'.below names).pageIdentity := by
  intro names hnames
  have hne := FileTree.text_ne_empty_of_folder? hr
  have hne' := FileTree.text_ne_empty_of_folder? hr'
  rcases direct_or_deep hnames with ⟨name, rfl⟩ | ⟨front, folder, name, rfl⟩
  · rcases h with h | h
    · rw [pageIdentity_direct ht hne hnames, pageIdentity_direct ht hne' hnames, h]
    · exact absurd hnames (h name)
  · rw [pageIdentity_deep ht hne hnames, pageIdentity_deep ht hne' hnames]

/-! ### When it does -/

theorem folder_ne_empty (ht : tree.Plain) (hr : tree.folder? r = some top) {a : String}
    (hname : r.fileName = some a) {names : List String}
    (hnames : names ∈ controllersBelow tree options.fileSuffix top) :
    (r.below names).pageIdentity.folder ≠ "" := by
  have hne := FileTree.text_ne_empty_of_folder? hr
  rcases direct_or_deep hnames with ⟨name, rfl⟩ | ⟨front, folder, name, rfl⟩
  · rw [pageIdentity_direct ht hne hnames, hname]
    exact (FileTree.getLast?_of_fileName ht hr hname).2
  · rw [pageIdentity_deep ht hne hnames]
    have hfolder : FileTree.ProperName folder :=
      ht.properName (mem_filesBelow_of_controllersBelow hnames) (by simp)
    exact hfolder.ne_empty

/-- The pages that a scan of a root adds are those of its controllers. -/
theorem mem_pages_scanRoot (ht : tree.Plain) (hr : tree.folder? r = some top)
    (limits : WithinLimits tree options r) {s : σ} (accepts : ∀ i, refuses (setting s) i = false)
    {p : Page} (hp : p ∈ (rows (scanRoot tree options r s).store).pages) :
    p ∈ (rows s).pages ∨ ∃ names ∈ controllersBelow tree options.fileSuffix top,
      (r.below names).pageIdentity = p.identity := by
  obtain ⟨_, hi⟩ := scanRoot_run ht hr limits accepts
  have hopened : p ∈ ((rows s).insertAll (((rows s).missing
      ((controllerPaths tree options top r).map (·.pageIdentity))).map .page)).pages := by
    rw [hi.rows_eq] at hp
    rw [← map_identity_legible (rootRead_isOk ht hr limits), ← opened_plan,
      ← pages_insertAll_atOnce _ .incremental]
    exact hp
  refine (Rows.mem_pages_insertAll_pages hopened).imp_right fun hid => ?_
  obtain ⟨file, hfile, hidentity⟩ := List.mem_map.1 (Rows.missing_subset _ _ hid)
  obtain ⟨names, hnames, rfl⟩ := List.mem_map.1 hfile
  exact ⟨names, hnames, hidentity⟩

/-- A root without a name, scanned after one with a name, opens a page for each controller
directly in the folder. -/
theorem not_interchangeable (ht : tree.Plain) (hr : tree.folder? r = some top)
    (hr' : tree.folder? r' = some top) (limits : WithinLimits tree options r)
    (limits' : WithinLimits tree options r') {s : σ} (accepts : ∀ i, refuses (setting s) i = false)
    (empty : rows s = .empty) {a : String} (hname : r.fileName = some a)
    (hname' : r'.fileName = none) {name : String}
    (hdirect : [name] ∈ controllersBelow tree options.fileSuffix top) :
    ¬ Interchangeable tree options s r r' := by
  intro h
  obtain ⟨summary, hagain, hcreated, _⟩ := h.again
  obtain ⟨hrun, _⟩ := scanRoot_run ht hr' limits' (accepts_scanRoot ht hr limits accepts)
  cases hrun.symm.trans hagain
  rw [pagesCreated_eq_zero_iff, opened_plan, yielded, rootRead,
    map_identity_legible (rootRead_isOk ht hr' limits')] at hcreated
  have hid : (r'.below [name]).pageIdentity ∈
      (controllerPaths tree options top r').map (·.pageIdentity) :=
    List.mem_map_of_mem (List.mem_map_of_mem hdirect)
  obtain ⟨p, hp⟩ := Option.isSome_iff_exists.1 (Rows.page?_isSome_of_missing hcreated hid)
  obtain ⟨hmem, hidentity⟩ := Rows.page?_eq_some hp
  rcases mem_pages_scanRoot ht hr limits accepts hmem with hold | ⟨names, hnames, hsame⟩
  · rw [empty] at hold
    cases hold
  · refine folder_ne_empty ht hr hname hnames ?_
    rw [hsame, hidentity, pageIdentity_direct ht (FileTree.text_ne_empty_of_folder? hr') hdirect,
      hname']
    rfl

theorem no_direct_controller_iff : (∀ name, [name] ∉ controllersBelow tree options.fileSuffix top) ↔
    ∀ name content, tree.entry? (top ++ [name]) = some (.file content) →
      hasSuffix options.fileSuffix name = false := by
  refine forall_congr' fun name => ?_
  rw [controllersBelow, List.mem_filter, FileTree.mem_filesBelow, FileTree.holdsFile_iff]
  simp [FileTree.passable]

/-- Two paths to one folder that both end with a name end with the same one. -/
theorem fileName_eq_of_isSome (ht : tree.Plain) (hr : tree.folder? r = some top)
    (hr' : tree.folder? r' = some top) (h : r.fileName.isSome = r'.fileName.isSome) :
    r.fileName = r'.fileName := by
  cases hname : r.fileName with
  | none =>
    rw [hname, Option.isSome_none] at h
    have hname' : r'.fileName = none := by simpa using h.symm
    rw [hname']
  | some a =>
    rw [hname, Option.isSome_some] at h
    obtain ⟨b, hname'⟩ := Option.isSome_iff_exists.1 h.symm
    have ha : top.getLast? = some a := (FileTree.getLast?_of_fileName ht hr hname).1
    have hb : top.getLast? = some b := (FileTree.getLast?_of_fileName ht hr' hname').1
    rw [hname', ← ha, hb]

/-- Of two ways to write the root of a scan, either one makes the same catalog of an empty
store and adds nothing after the other exactly if both end with a name or neither does,
or no controller lies directly in the folder. -/
theorem roots_interchangeable_iff (ht : tree.Plain) (hr : tree.folder? r = some top)
    (hr' : tree.folder? r' = some top) (limits : WithinLimits tree options r)
    (limits' : WithinLimits tree options r') {s : σ} (accepts : ∀ i, refuses (setting s) i = false)
    (empty : rows s = .empty) :
    (Interchangeable tree options s r r' ∧ Interchangeable tree options s r' r) ↔
      r.fileName.isSome = r'.fileName.isSome ∨ ∀ name content,
        tree.entry? (top ++ [name]) = some (.file content) →
          hasSuffix options.fileSuffix name = false := by
  rw [← no_direct_controller_iff]
  constructor
  · rintro ⟨h, h'⟩
    by_contra hnot
    push Not at hnot
    obtain ⟨hends, name, hdirect⟩ := hnot
    cases hname : r.fileName with
    | some a =>
      cases hname' : r'.fileName with
      | some b => simp [hname, hname'] at hends
      | none =>
        exact not_interchangeable ht hr hr' limits limits' accepts empty hname hname' hdirect h
    | none =>
      cases hname' : r'.fileName with
      | some b =>
        exact not_interchangeable ht hr' hr limits' limits accepts empty hname' hname hdirect h'
      | none => simp [hname, hname'] at hends
  · intro h
    have hidentity : ∀ names ∈ controllersBelow tree options.fileSuffix top,
        (r.below names).pageIdentity = (r'.below names).pageIdentity :=
      pageIdentity_eq_of_fileName ht hr hr' (h.imp_left (fileName_eq_of_isSome ht hr hr'))
    constructor
    · exact interchangeable_of_alike ht hr hr' limits limits' accepts
        (yielded_alike ht hr hr' limits limits' hidentity)
    · exact interchangeable_of_alike ht hr' hr limits' limits accepts
        (yielded_alike ht hr' hr limits' limits fun names hnames => (hidentity names hnames).symm)

end Roots

/-! ### A controller directly in the working directory -/

def workTree : FileTree where
  entries := [(["work"], .folder),
    (["work", "acontroller.js"], .file (Text.Utf8.encode "'/api/x'".toList))]
  workDir := ["work"]

theorem workTree_plain : workTree.Plain where
  names := (by decide : workTree.ProperlyNamed)
  linkless := by simp [workTree]

theorem workTree_here : workTree.folder? ⟨"."⟩ = some ["work"] := by
  cbv

theorem workTree_beside : workTree.folder? ⟨"../work"⟩ = some ["work"] := by
  cbv

theorem workTree_controllers :
    controllersBelow workTree "controller.js" ["work"] = [["acontroller.js"]] := by
  cbv

theorem workTree_withinLimits {root : Path} (hr : workTree.folder? root = some ["work"])
    (hread : workTree.read (root.join "acontroller.js") =
      .ok (Text.Utf8.encode "'/api/x'".toList))
    (short : (root.join "acontroller.js").text.utf8ByteSize < FileTree.maxPathSize) :
    WithinLimits workTree .standard root := by
  have hcontrollers {top : Location} (htop : workTree.folder? root = some top) :
      ∀ names ∈ controllersBelow workTree "controller.js" top,
        (root.below names).text.utf8ByteSize < FileTree.maxPathSize := by
    cases hr.symm.trans htop
    rw [workTree_controllers]
    exact List.forall_mem_singleton.2 short
  refine ⟨hcontrollers, fun _ hfiles file hfile bytes hbytes t ht => ?_⟩
  have hfound := discover_eq workTree_plain hr (hcontrollers hr)
  rw [workTree_controllers] at hfound
  cases hfound.symm.trans hfiles
  obtain rfl := List.mem_singleton.1 hfile
  cases hread.symm.trans hbytes
  have hreferences : Directive.references (Text.Utf8.decodeLossy
      (Text.Utf8.encode "'/api/x'".toList)) = [] := by
    cbv
  rw [Directive.targets, hreferences] at ht
  cases ht

/-- Two roots that end with the name of the folder are interchangeable. -/
theorem workTree_interchangeable :
    workTree.folder? ⟨"../work"⟩ = some ["work"] ∧ workTree.folder? ⟨"./../work//"⟩ = some ["work"] ∧
      Interchangeable workTree .standard MemoryStore.empty ⟨"../work"⟩ ⟨"./../work//"⟩ ∧
      Interchangeable workTree .standard MemoryStore.empty ⟨"./../work//"⟩ ⟨"../work"⟩ := by
  have hr' : workTree.folder? ⟨"./../work//"⟩ = some ["work"] := by cbv
  have limits := workTree_withinLimits workTree_beside (by cbv) (by decide)
  have limits' := workTree_withinLimits hr' (by cbv) (by decide)
  have hends : (⟨"../work"⟩ : Path).fileName.isSome = (⟨"./../work//"⟩ : Path).fileName.isSome := by
    cbv
  obtain ⟨h, h'⟩ := (roots_interchangeable_iff workTree_plain workTree_beside hr' limits limits'
    (s := MemoryStore.empty) (fun _ => rfl) rfl).2 (.inl hends)
  exact ⟨workTree_beside, hr', h, h'⟩

theorem scanRoot_here : (scanRoot workTree .standard ⟨"."⟩ MemoryStore.empty).store =
    ⟨[⟨1, "", "acontroller"⟩], [⟨1, 1, "/api/x", ""⟩]⟩ := by
  cbv

theorem scanRoot_beside : (scanRoot workTree .standard ⟨"../work"⟩
    ⟨[⟨1, "", "acontroller"⟩], [⟨1, 1, "/api/x", ""⟩]⟩).store =
      (⟨[⟨1, "", "acontroller"⟩, ⟨2, "work", "acontroller"⟩],
        [⟨1, 1, "/api/x", ""⟩, ⟨2, 2, "/api/x", ""⟩]⟩ : MemoryStore) := by
  cbv

/-- The working directory as `.` and then by its name: one controller gets two pages. -/
theorem workTree_two_pages :
    workTree.Plain ∧ workTree.folder? ⟨"."⟩ = some ["work"] ∧
      workTree.folder? ⟨"../work"⟩ = some ["work"] ∧
      (scanRoot workTree .standard ⟨"../work"⟩
        (scanRoot workTree .standard ⟨"."⟩ MemoryStore.empty).store).store =
        ⟨[⟨1, "", "acontroller"⟩, ⟨2, "work", "acontroller"⟩],
          [⟨1, 1, "/api/x", ""⟩, ⟨2, 2, "/api/x", ""⟩]⟩ := by
  refine ⟨workTree_plain, workTree_here, workTree_beside, ?_⟩
  rw [scanRoot_here]
  exact scanRoot_beside

end Scan

end EndpointCatalog
