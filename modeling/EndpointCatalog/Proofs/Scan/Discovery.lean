import EndpointCatalog.Proofs.Scan.Discovered
import EndpointCatalog.Proofs.Scan.DryRun
import Mathlib.Data.List.Infix

/-! Discovery is exact. Below a folder it comes to the files with the suffix that real folders
lead to, each once and in the order of their paths. A folder whose path reaches the limit for
paths cannot be opened and hides what is in it; a link is never followed, but for one that
the root itself goes through. -/

namespace EndpointCatalog.Scan

open FileTree

variable {tree : FileTree} {suffix : String} {root : Path} {top : Location} {names : List String}

/-- Names that lead from a folder to a controller. Each name on the way is that of a folder, no
link, which is opened by its path from the root. -/
structure LeadsToController (tree : FileTree) (suffix : String) (root : Path) (top : Location)
    (names : List String) : Prop where
  file : ∃ content, tree.entry? (top ++ names) = some (.file content)
  folders : ∀ front, front <+: names → front ≠ names → tree.entry? (top ++ front) = some .folder ∧
    (root.below front).text.utf8ByteSize < maxPathSize
  suffix : ∃ name, names.getLast? = some name ∧
    Text.lowerChars suffix.toList <:+ Text.lowerChars name.toList

/-- The names by which a discovery comes to controllers, in order. -/
def discovered (tree : FileTree) (suffix : String) (root : Path) (top : Location) :
    List (List String) :=
  (tree.filesFrom root top).filter fun names => names.getLast?.any (hasSuffix suffix)

theorem discover_of_folder? (h : tree.folder? root = some top) :
    discover tree suffix root = .ok ((discovered tree suffix root top).map root.below) := by
  rw [discover, h]
  rfl

theorem discover_eq_error {e : CatalogError} : discover tree suffix root = .error e ↔
    e = .rootNotFound root ∧ tree.folder? root = none := by
  cases h : tree.folder? root with
  | none => rw [discover_missing h, Except.error.injEq, and_iff_left rfl, eq_comm]
  | some top =>
    rw [discover_of_folder? h]
    exact iff_of_false nofun nofun

/-! ### What is discovered -/

theorem any_hasSuffix_iff : names.getLast?.any (hasSuffix suffix) = true ↔
    ∃ name, names.getLast? = some name ∧
      Text.lowerChars suffix.toList <:+ Text.lowerChars name.toList := by
  rw [Option.any_eq_true]
  exact exists_congr fun name => and_congr_right fun _ => List.isSuffixOf_iff_suffix

theorem mem_discovered (h : tree.folder? root = some top) :
    names ∈ discovered tree suffix root top ↔ LeadsToController tree suffix root top names := by
  obtain ⟨-, htop⟩ := leads_of_resolve (folder?_eq_some.1 h)
  rw [discovered, List.mem_filter, mem_filesFrom, holdsFile_iff_folders htop, any_hasSuffix_iff]
  constructor
  · rintro ⟨⟨⟨-, hfile, hfolders⟩, hopens⟩, hsuffix⟩
    exact ⟨hfile, fun front hfront hne => ⟨hfolders front hfront hne, hopens front hfront hne⟩,
      hsuffix⟩
  · rintro ⟨hfile, hfolders, hsuffix⟩
    refine ⟨⟨⟨?_, hfile, fun front hfront hne => (hfolders front hfront hne).1⟩,
      fun front hfront hne => (hfolders front hfront hne).2⟩, hsuffix⟩
    rintro rfl
    obtain ⟨name, hlast, -⟩ := hsuffix
    cases hlast

/-! ### The order of what is discovered -/

theorem components_discovered (ht : tree.ProperlyNamed) (hr : root.text ≠ "")
    (h : names ∈ discovered tree suffix root top) :
    (root.below names).components = root.components ++ names.map Component.name :=
  components_below_named hr fun _ => ht.properName (mem_filesFrom.1 (List.mem_filter.1 h).1).1

theorem pairwise_discovered (suffix : String) (top : Location) (ht : tree.ProperlyNamed)
    (hr : root.text ≠ "") : ((discovered tree suffix root top).map root.below).Pairwise fun p q =>
      p.le q = true ∧ p.components ≠ q.components := by
  refine List.pairwise_map.2 (List.Pairwise.imp_of_mem (fun ha hb hlt => ?_)
    ((pairwise_filesFrom tree root top).filter _))
  rw [Path.le, components_discovered ht hr ha, components_discovered ht hr hb,
    Component.listLe_append_left]
  refine ⟨hlt.1, fun heq => hlt.2 ?_⟩
  exact List.map_injective_iff.2 (fun _ _ => Component.name.inj) (List.append_cancel_left heq)

/-- Discovery fails exactly if the root is no folder. Else it has exactly the files that the
suffix and the folders on the way call for, each once, in strictly ascending order of their
paths, so that sorting them again changes nothing. -/
theorem discover_exact (ht : tree.ProperlyNamed) (suffix : String) (root : Path) :
    (∀ e, discover tree suffix root = .error e ↔
      e = .rootNotFound root ∧ tree.folder? root = none) ∧
    ∀ top, tree.folder? root = some top → ∃ found : List (List String),
      discover tree suffix root = .ok (found.map root.below) ∧
      (∀ names, names ∈ found ↔ LeadsToController tree suffix root top names) ∧ found.Nodup ∧
      ((found.map root.below).Pairwise fun p q => p.le q = true ∧ p.components ≠ q.components) ∧
      (found.map root.below).mergeSort Path.le = found.map root.below := by
  refine ⟨fun e => discover_eq_error, fun top h => ?_⟩
  have hpairs := pairwise_discovered suffix top ht (text_ne_empty_of_folder? h)
  refine ⟨discovered tree suffix root top, discover_of_folder? h, fun names => mem_discovered h,
    ?_, hpairs, ?_⟩
  · exact ((pairwise_filesFrom tree root top).filter _).imp fun hlt => hlt.2
  · exact List.mergeSort_of_pairwise (hpairs.imp fun hlt => hlt.1)

/-! ### Links -/

/-- A root that is a link, and below it a folder, two controllers and links to both kinds. -/
def linkedTree : FileTree where
  entries := [(["views"], .folder), (["views", "a"], .folder),
    (["views", "acontroller.js"], .file []), (["views", "a", "BController.JS"], .file []),
    (["views", "lcontroller.js"], .link "acontroller.js"), (["views", "z"], .link "a"),
    (["root"], .link "views")]
  workDir := []

theorem linkedTree_leads : LeadsToController linkedTree "controller.js" ⟨"root"⟩ ["views"] names ↔
    names = ["a", "BController.JS"] ∨ names = ["acontroller.js"] := by
  have hfolders : ∀ names ∈ [["a", "BController.JS"], ["acontroller.js"]], ∀ front ∈ names.inits,
      front ≠ names → linkedTree.entry? (["views"] ++ front) = some .folder ∧
        ((⟨"root"⟩ : Path).below front).text.utf8ByteSize < maxPathSize := by decide
  constructor
  · rintro ⟨⟨content, hfile⟩, -, -⟩
    have hentry := mem_entries_of_found hfile (by simp)
    have hnames : (names = ["a", "BController.JS"] ∨ names = ["acontroller.js"]) ∧
        content = [] := by
      simpa [linkedTree, ← or_and_right, or_comm] using hentry
    exact hnames.1
  · rintro (rfl | rfl)
    · refine ⟨⟨[], by decide⟩, fun front hfront hne => ?_, "BController.JS", rfl, by decide +kernel⟩
      exact hfolders _ (by simp) front ((List.mem_inits _ _).2 hfront) hne
    · refine ⟨⟨[], by decide⟩, fun front hfront hne => ?_, "acontroller.js", rfl, by decide +kernel⟩
      exact hfolders _ (by simp) front ((List.mem_inits _ _).2 hfront) hne

theorem linkedTree_discovered : linkedTree.ProperlyNamed ∧
    linkedTree.folder? ⟨"root"⟩ = some ["views"] ∧
    ∃ files, discover linkedTree "controller.js" ⟨"root"⟩ = .ok files ∧
      (∀ p, p ∈ files ↔ p = ⟨"root/a/BController.JS"⟩ ∨ p = ⟨"root/acontroller.js"⟩) ∧
      files.mergeSort Path.le = files := by
  have hnames : linkedTree.ProperlyNamed := by decide
  have hroot : linkedTree.folder? ⟨"root"⟩ = some ["views"] := by cbv
  obtain ⟨found, hfound, hmem, -, -, hsort⟩ :=
    (discover_exact hnames "controller.js" ⟨"root"⟩).2 ["views"] hroot
  refine ⟨hnames, hroot, _, hfound, fun p => ?_, hsort⟩
  simp only [List.mem_map, hmem, linkedTree_leads, or_and_right, exists_or, exists_eq_left]
  exact or_congr eq_comm eq_comm

/-! ### Long paths -/

def deepTree : FileTree where
  entries := [(["t"], .folder), (["t", "views"], .folder),
    (["t", "views", "acontroller.js"], .file [])]
  workDir := []

/-- A path to the folder `t` that first stays where it is a number of times. -/
def roundabout : Nat → String
  | 0 => "t"
  | n + 1 => "./" ++ roundabout n

theorem utf8ByteSize_roundabout (n : Nat) : (roundabout n).utf8ByteSize = 2 * n + 1 := by
  induction n with
  | zero => decide
  | succ n ih =>
    have hstay : "./".utf8ByteSize = 2 := by decide
    rw [roundabout, String.utf8ByteSize_append, ih, hstay]
    omega

theorem leads_roundabout (n : Nat) :
    deepTree.Leads maxLinks [] (pieces (roundabout n)) maxLinks ["t"] := by
  induction n with
  | zero =>
    have hpieces : pieces (roundabout 0) = ["t"] := by decide
    rw [hpieces]
    exact .down rfl ⟨by decide, by decide, by decide⟩ (e := .folder) (by decide) nofun .done
  | succ n ih =>
    have hpieces : pieces (roundabout (n + 1)) = "." :: pieces (roundabout n) := by
      rw [roundabout, pieces, String.toList_append]
      exact congrArg (List.map String.ofList) (Text.split_append_separator ['.'] rfl _)
    rw [hpieces]
    exact .stay rfl (by decide) ih

theorem folder?_roundabout {n : Nat} (h : 2 * n + 1 < maxPathSize) :
    deepTree.folder? ⟨roundabout n⟩ = some ["t"] := by
  have hsize := utf8ByteSize_roundabout n
  have hnul (n : Nat) : '\x00' ∉ (roundabout n).toList := by
    induction n with
    | zero => decide
    | succ n ih =>
      rw [roundabout, String.toList_append, List.mem_append, not_or]
      exact ⟨by decide, ih⟩
  have hsought : Sought ⟨roundabout n⟩ := by
    refine ⟨?_, hnul n, hsize ▸ h⟩
    intro hempty
    rw [show roundabout n = "" from hempty] at hsize
    cases hsize
  refine folder?_eq_some.2 (resolve_eq_ok_iff.2 ⟨hsought, ⟨maxLinks, ?_⟩, by decide⟩)
  rw [start]
  split
  · exact leads_roundabout n
  · exact leads_roundabout n

theorem discover_roundabout {n : Nat} (h : 2 * n + 1 < maxPathSize)
    (hlong : maxPathSize ≤ 2 * n + 6) :
    discover deepTree "controller.js" ⟨roundabout n⟩ = .ok [] := by
  have hroot := folder?_roundabout h
  have hnone : discovered deepTree "controller.js" ⟨roundabout n⟩ ["t"] = [] := by
    refine List.eq_nil_iff_forall_not_mem.2 fun names hnames => ?_
    obtain ⟨⟨content, hfile⟩, hfolders, -⟩ := (mem_discovered hroot).1 hnames
    have hentry := mem_entries_of_found hfile (by simp)
    obtain ⟨rfl, -⟩ : names = ["views", "acontroller.js"] ∧ content = [] := by
      simpa [deepTree] using hentry
    have hopened := (hfolders ["views"] ⟨_, rfl⟩ (by decide)).2
    have hjoinable : Path.Joinable "views" := (by decide : ProperName "views").toJoinable
    have hbelow : (roundabout n).utf8ByteSize + "views".utf8ByteSize ≤
        ((⟨roundabout n⟩ : Path).below ["views"]).text.utf8ByteSize :=
      add_le_utf8ByteSize_join hjoinable
    have hname : "views".utf8ByteSize = 5 := by decide
    rw [utf8ByteSize_roundabout, hname] at hbelow
    omega
  rw [discover_of_folder? hroot, hnone]
  rfl

/-- The path of the folder `views` is too long, so that its controller is not discovered. -/
theorem deepTree_undiscovered : deepTree.ProperlyNamed ∧
    deepTree.folder? ⟨roundabout 2045⟩ = some ["t"] ∧
    deepTree.entry? ["t", "views"] = some .folder ∧
    deepTree.entry? ["t", "views", "acontroller.js"] = some (.file []) ∧
    discover deepTree "controller.js" ⟨roundabout 2045⟩ = .ok [] :=
  ⟨by decide, folder?_roundabout (by decide), by decide, by decide,
    discover_roundabout (by decide) (by decide)⟩

end EndpointCatalog.Scan
