import EndpointCatalog.Proofs.Files.Walk
import EndpointCatalog.Proofs.Scan.Order

/-! The controllers below a folder. However the path to the folder is written, a scan finds
the same controllers in the same order and reads the same from them and from the scripts
they refer to; only the folder name of a controller that lies directly in the folder is
taken from the path as it is written. -/

namespace EndpointCatalog.Scan

open FileTree

variable {tree : FileTree} {suffix : String} {r : Path} {top : Location} {names : List String}

/-- The controllers below a folder, each by the names on the way down to it. -/
def controllersBelow (tree : FileTree) (suffix : String) (top : Location) : List (List String) :=
  (tree.filesBelow top).filter fun names => names.getLast?.any (hasSuffix suffix)

theorem mem_filesBelow_of_controllersBelow (h : names ∈ controllersBelow tree suffix top) :
    names ∈ tree.filesBelow top := (List.mem_filter.1 h).1

theorem joinable_of_controllersBelow (ht : tree.Plain)
    (h : names ∈ controllersBelow tree suffix top) : ∀ name ∈ names, Path.Joinable name :=
  fun _ hname => (ht.properName (mem_filesBelow_of_controllersBelow h) hname).toJoinable

/-- A walk comes to the controllers below a folder, if none of them has too long a path. -/
theorem discover_eq (ht : tree.Plain) (h : tree.folder? r = some top)
    (short : ∀ names ∈ controllersBelow tree suffix top,
      (r.below names).text.utf8ByteSize < maxPathSize) :
    discover tree suffix r = .ok ((controllersBelow tree suffix top).map r.below) := by
  have hfiles : (tree.filesFrom r top).filter (fun names => names.getLast?.any (hasSuffix suffix)) =
      controllersBelow tree suffix top := by
    refine eq_of_pairwise_namesLt ((pairwise_filesFrom tree r top).filter _)
      ((pairwise_namesLt_filesBelow tree top).filter _) fun names => ?_
    constructor
    · intro hmem
      obtain ⟨hfile, hsuffix⟩ := List.mem_filter.1 hmem
      exact List.mem_filter.2 ⟨mem_filesBelow.2 (mem_filesFrom.1 hfile).1, hsuffix⟩
    · intro hmem
      obtain ⟨hfile, hsuffix⟩ := List.mem_filter.1 hmem
      have hopens := opens_of_short (joinable_of_controllersBelow ht hmem) (short names hmem)
      exact List.mem_filter.2 ⟨mem_filesFrom.2 ⟨mem_filesBelow.1 hfile, hopens⟩, hsuffix⟩
  rw [discover, h, ← hfiles]
  rfl

/-! ### Order -/

theorem innerComponents_of_named (h : ∀ name ∈ names, Named name) :
    Path.innerComponents names = names.map Component.name := by
  have hsteps : names.filter (· ≠ ".") = names := by
    refine List.filter_eq_self.2 fun name hname => ?_
    have hstep := (h name hname).isStep
    simp only [Path.isStep, Bool.and_eq_true] at hstep
    exact hstep.2
  rw [Path.innerComponents, hsteps]
  refine List.map_congr_left fun name hname => ?_
  rw [Component.ofPiece, if_neg (h name hname).ne_up]

theorem components_below_named (hr : r.text ≠ "") (h : ∀ name ∈ names, ProperName name) :
    (r.below names).components = r.components ++ names.map Component.name := by
  rw [Path.components_below hr fun name hname => (h name hname).toJoinable,
    innerComponents_of_named fun name hname => (h name hname).toNamed]

theorem components_controller (ht : tree.Plain) (hr : r.text ≠ "")
    (h : names ∈ controllersBelow tree suffix top) :
    (r.below names).components = r.components ++ names.map Component.name :=
  components_below_named hr fun _ => ht.properName (mem_filesBelow_of_controllersBelow h)

/-- The controllers are found in the order in which they are scanned. -/
theorem mergeSort_discovered (ht : tree.Plain) (hr : r.text ≠ "") :
    ((controllersBelow tree suffix top).map r.below).mergeSort Path.le =
      (controllersBelow tree suffix top).map r.below := by
  refine List.mergeSort_of_pairwise (List.pairwise_map.2 ?_)
  have hsorted := (pairwise_filesBelow tree top).filter
    fun names => names.getLast?.any (hasSuffix suffix)
  refine List.Pairwise.imp_of_mem (fun ha hb hab => ?_) hsorted
  rw [Path.le, components_controller ht hr ha, components_controller ht hr hb,
    Component.listLe_append_left]
  exact hab

/-! ### Names -/

theorem pageIdentity_of_components {p : Path} {cs : List Component} {name : String}
    (h : p.components = cs ++ [.name name]) :
    p.pageIdentity = ⟨(Path.lastName cs).getD "", Path.stem name⟩ := by
  simp only [Path.pageIdentity, Path.folderName, Path.fileStem, Path.fileName, h,
    List.dropLast_concat, Path.lastName, List.getLast?_concat, Option.map_some, Option.getD_some]

theorem pageIdentity_direct (ht : tree.Plain) (hr : r.text ≠ "") {name : String}
    (h : [name] ∈ controllersBelow tree suffix top) :
    (r.below [name]).pageIdentity = ⟨r.fileName.getD "", Path.stem name⟩ :=
  pageIdentity_of_components (components_controller ht hr h)

theorem pageIdentity_deep (ht : tree.Plain) (hr : r.text ≠ "") {front : List String}
    {folder name : String} (h : front ++ [folder, name] ∈ controllersBelow tree suffix top) :
    (r.below (front ++ [folder, name])).pageIdentity = ⟨folder, Path.stem name⟩ := by
  have hcomponents : (r.below (front ++ [folder, name])).components =
      (r.components ++ front.map Component.name ++ [.name folder]) ++ [.name name] := by
    rw [components_controller ht hr h]
    simp
  rw [pageIdentity_of_components hcomponents, Path.lastName, List.getLast?_concat]
  rfl

/-- A controller lies directly in the folder or in a folder below it. -/
theorem direct_or_deep (h : names ∈ controllersBelow tree suffix top) :
    (∃ name, names = [name]) ∨ ∃ front folder name, names = front ++ [folder, name] := by
  obtain ⟨_, hne, _⟩ := holdsFile_iff.1 (mem_filesBelow.1 (mem_filesBelow_of_controllersBelow h))
  obtain ⟨before, name, rfl⟩ := (List.eq_nil_or_concat' names).resolve_left hne
  rcases List.eq_nil_or_concat' before with rfl | ⟨front, folder, rfl⟩
  · exact .inl ⟨name, rfl⟩
  · exact .inr ⟨front, folder, name, by simp⟩

/-! ### References -/

theorem joinable_of_mem_splitPieces {reference piece : String}
    (h : piece ∈ Text.splitPieces Directive.isSeparator reference) : Path.Joinable piece := by
  obtain ⟨cs, hcs, rfl⟩ := List.mem_map.1 h
  obtain ⟨hsplit, hne⟩ := List.mem_filter.1 hcs
  constructor
  · intro hempty
    rw [String.ofList_eq_empty_iff.1 hempty] at hne
    cases hne
  · intro c hc
    rw [String.toList_ofList] at hc
    have hseparator := Text.not_separator_of_mem_split hsplit hc
    rw [Directive.isSeparator, Bool.or_eq_false_iff] at hseparator
    exact hseparator.1

/-- The references of a text without those whose path is that of an earlier one. -/
def distinctReferences (text : List Char) : List Located :=
  distinctBy (fun l => Path.innerComponents (Text.splitPieces Directive.isSeparator l.value))
    (Directive.references text)

/-- Which references a text has apart from repetitions does not depend on the base. -/
theorem targets_eq {base : Path} (hb : base.text ≠ "") (text : List Char) :
    Directive.targets base text = (distinctReferences text).map fun l =>
      ⟨l, base.below (Text.splitPieces Directive.isSeparator l.value)⟩ := by
  have hkey : (fun l : Located => (Directive.resolvePath base l.value).components) = fun l =>
      base.components ++ Path.innerComponents (Text.splitPieces Directive.isSeparator l.value) := by
    funext l
    exact Path.components_below hb fun _ => joinable_of_mem_splitPieces
  rw [Directive.targets, distinctBy_map, hkey,
    distinctBy_comp (List.append_right_injective base.components)]
  rfl

/-! ### Contents -/

/-- No path that a scan below a root looks up is too long to be looked up. -/
structure WithinLimits (tree : FileTree) (options : ScanOptions) (root : Path) : Prop where
  controllers {top : Location} : tree.folder? root = some top →
    ∀ names ∈ controllersBelow tree options.fileSuffix top,
      (root.below names).text.utf8ByteSize < maxPathSize
  scripts {files : List Path} : options.directiveRoot = none →
    discover tree options.fileSuffix root = .ok files → ∀ file ∈ files, ∀ bytes,
      tree.read file = .ok bytes → ∀ t ∈ Directive.targets root (Text.Utf8.decodeLossy bytes),
        t.path.text.utf8ByteSize < maxPathSize

section Roots

variable {r' : Path} {options : ScanOptions}

/-- Two ways to write the base of the references find the same endpoints. -/
theorem endpoints_resolve_eq (ht : tree.Plain) (hr : tree.folder? r = some top)
    (hr' : tree.folder? r' = some top) (letters : Directive.LetterCase) {text : List Char}
    (short : ∀ t ∈ Directive.targets r text, t.path.text.utf8ByteSize < maxPathSize)
    (short' : ∀ t ∈ Directive.targets r' text, t.path.text.utf8ByteSize < maxPathSize) :
    (Directive.resolve tree r letters text).endpoints =
      (Directive.resolve tree r' letters text).endpoints := by
  have htargets := targets_eq (text_ne_empty_of_folder? hr) text
  have htargets' := targets_eq (text_ne_empty_of_folder? hr') text
  have hread : ((Directive.targets r text).map (·.read tree letters)).filterMap (·.toOption) =
      ((Directive.targets r' text).map (·.read tree letters)).filterMap (·.toOption) := by
    rw [htargets, htargets', List.map_map, List.map_map, List.filterMap_map, List.filterMap_map]
    refine List.filterMap_congr fun l hl => ?_
    have hshort := short _ (htargets ▸ List.mem_map_of_mem hl)
    have hshort' := short' _ (htargets' ▸ List.mem_map_of_mem hl)
    have hsame := read_below_eq ht hr hr' (fun _ => joinable_of_mem_splitPieces) hshort hshort'
    simp only [Function.comp, Directive.Target.read, hsame]
    split <;> rfl
  simp only [Directive.resolve, hread]

/-- A controller of a folder can be read, and with the same routes whichever way the path to
the folder is written. -/
theorem read_controller (ht : tree.Plain) (hr : tree.folder? r = some top)
    (hr' : tree.folder? r' = some top) (limits : WithinLimits tree options r)
    (limits' : WithinLimits tree options r')
    (h : names ∈ controllersBelow tree options.fileSuffix top) : ∃ c d,
      Controller.read tree options (options.directiveRoot.getD r) (r.below names) = .ok c ∧
      Controller.read tree options (options.directiveRoot.getD r') (r'.below names) = .ok d ∧
      c.routes = d.routes := by
  have hfile : r.below names ∈ (controllersBelow tree options.fileSuffix top).map r.below :=
    List.mem_map_of_mem h
  have hfile' : r'.below names ∈ (controllersBelow tree options.fileSuffix top).map r'.below :=
    List.mem_map_of_mem h
  have short := limits.controllers hr names h
  have short' := limits'.controllers hr' names h
  obtain ⟨bytes, hbytes⟩ := read_below ht hr (mem_filesBelow_of_controllersBelow h) short
  have hbytes' : tree.read (r'.below names) = .ok bytes := by
    rw [← hbytes]
    exact read_below_eq ht hr' hr (joinable_of_controllersBelow ht h) short' short
  refine ⟨_, _, congrArg (Except.map _) hbytes, congrArg (Except.map _) hbytes', ?_⟩
  have hendpoints : (Directive.resolve tree (options.directiveRoot.getD r) options.letters
      (Text.Utf8.decodeLossy bytes)).endpoints =
        (Directive.resolve tree (options.directiveRoot.getD r') options.letters
          (Text.Utf8.decodeLossy bytes)).endpoints := by
    cases hroot : options.directiveRoot with
    | some d => rfl
    | none =>
      exact endpoints_resolve_eq ht hr hr' options.letters
        (limits.scripts hroot (discover_eq ht hr (limits.controllers hr)) _ hfile bytes hbytes)
        (limits'.scripts hroot (discover_eq ht hr' (limits'.controllers hr')) _ hfile' bytes hbytes')
  simp only [Controller.ofText, locatedEndpoints, hendpoints]

end Roots

end EndpointCatalog.Scan
