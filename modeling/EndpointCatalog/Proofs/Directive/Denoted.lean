import EndpointCatalog.Proofs.Directive.Account
import EndpointCatalog.Proofs.Directive.References
import EndpointCatalog.Proofs.Files.Alike
import EndpointCatalog.Proofs.Scan.Discovered
import Mathlib.Data.Finset.Card
import Mathlib.Data.List.Pairwise

/-! The files that the references of a text lead to. A resolution reads each path once, by its
components. It may read one file more than once, but only by paths that go up on the way. -/

namespace EndpointCatalog.Directive

/-- The files that the references of a text lead to. -/
def scriptFiles (tree : FileTree) (base : Path) (text : List Char) : Finset Location :=
  ((references text).filterMap fun r => tree.file? (resolvePath base r.value)).toFinset

/-! ### References in a row -/

theorem isReference_of_mem {text : List Char} {r : Located} (h : r ∈ references text) :
    IsReference r.value.toList := by
  obtain ⟨hit, hmem, hvalue⟩ := exists_mem_find_of_mem h
  obtain ⟨_, _, _, _, hmatch⟩ := Pattern.match?_of_mem_findFrom reference_consumes hmem
  obtain ⟨hbare, href, -⟩ := match?_reference hmatch
  have hform : hit.value = hit.text := congrArg Hit.value hbare
  rw [hvalue, String.toList_ofList, hform,
    Text.trimChars_eq_self fun c hc => (href.pathChar c hc).not_blank]
  exact href

theorem findFrom_of_not_pathChar {b : Char} (hb : ¬ IsPathChar b) (left : Option Char)
    (offset : Nat) (post : List Char) :
    Pattern.directiveReference.findFrom left offset (b :: post) =
      Pattern.directiveReference.findFrom (some b) (offset + b.utf8Size) post := by
  have hnone : Pattern.directiveReference.match? left (b :: post) = none := by
    rw [Option.eq_none_iff_forall_ne_some]
    intro hit hhit
    obtain ⟨-, back, hback⟩ := Pattern.match?_reads hhit
    rw [← hback] at hhit
    obtain ⟨-, href, -⟩ := match?_reference hhit
    obtain ⟨c, cs, htext⟩ := List.exists_cons_of_ne_nil href.ne_nil
    rw [htext] at hback href
    obtain ⟨rfl, -⟩ := List.cons.inj hback
    exact hb (href.pathChar c List.mem_cons_self)
  rw [Pattern.findFrom, hnone]

theorem findFrom_reference {form : List Char} {b : Char} (h : IsReference form)
    (hb : ¬ IsPathChar b) (left : Option Char) (offset : Nat) (post : List Char) :
    ∃ hit left' offset', hit.value = form ∧
      Pattern.directiveReference.findFrom left offset (form ++ b :: post) =
        (offset, hit) :: Pattern.directiveReference.findFrom left' offset' post := by
  obtain ⟨hit, hhit, rfl⟩ := h.match? hb left post
  have htext : hit.text = hit.value := by
    obtain ⟨⟨b', hb', hreads⟩, -⟩ := Pattern.match?_reads hhit
    obtain rfl := List.mem_singleton.1 hb'
    exact (congrArg Hit.value (hreads.eq_bare rfl rfl)).symm
  obtain ⟨c, cs, hform⟩ := List.exists_cons_of_ne_nil h.ne_nil
  have hrest : (cs ++ b :: post).drop (hit.text.length - 1) = b :: post := by
    rw [htext, hform, List.length_cons, Nat.add_sub_cancel, List.drop_left]
  have hfound := hhit
  rw [hform, List.cons_append] at hfound
  refine ⟨hit, some b, offset + Text.byteSize hit.text + b.utf8Size, rfl, ?_⟩
  rw [hform, List.cons_append, Pattern.findFrom, hfound]
  dsimp only
  rw [hrest, findFrom_of_not_pathChar hb]

/-- The references of a text in which a character of no path follows each of them. -/
theorem references_parted {forms : List (List Char)} {b : Char}
    (h : ∀ form ∈ forms, IsReference form) (hb : ¬ IsPathChar b) :
    (references (forms.flatMap (· ++ [b]))).map (·.value) =
      distinctBy id (forms.map String.ofList) := by
  have hfound (left : Option Char) (offset : Nat) :
      (Pattern.directiveReference.findFrom left offset (forms.flatMap (· ++ [b]))).map
        (·.2.value) = forms := by
    induction forms generalizing left offset with
    | nil => rw [List.flatMap_nil, Pattern.findFrom, List.map_nil]
    | cons form forms ih =>
      obtain ⟨hform, hforms⟩ := List.forall_mem_cons.1 h
      obtain ⟨hit, left', offset', hvalue, heq⟩ :=
        findFrom_reference hform hb left offset (forms.flatMap (· ++ [b]))
      rw [List.flatMap_cons, List.append_assoc, List.singleton_append, heq, List.map_cons, hvalue,
        ih hforms]
  have hvalue : ∀ found ∈ Pattern.directiveReference.find (forms.flatMap (· ++ [b])),
      Text.trimChars found.2.value = found.2.value ∧ found.2.value ≠ [] := by
    intro found hmem
    have href := h _ (hfound none 0 ▸ List.mem_map_of_mem hmem)
    exact ⟨Text.trimChars_eq_self fun c hc => (href.pathChar c hc).not_blank, href.ne_nil⟩
  have hvalues (ls : List Located) : (distinctBy (·.value) ls).map (·.value) =
      distinctBy id (ls.map (·.value)) := by
    rw [distinctBy_map]
    rfl
  rw [references, hvalues, List.map_filterMap]
  refine congrArg (distinctBy id) ?_
  conv_rhs => rw [← hfound none 0, List.map_map, ← List.filterMap_eq_map]
  refine List.filterMap_congr fun found hmem => ?_
  obtain ⟨htrim, hne⟩ := hvalue found hmem
  simp [htrim, hne]

/-! ### The last piece -/

theorem getLast?_pieces_resolvePath {value : String} (h : IsReference value.toList)
    (base : Path) : ∀ piece ∈ (FileTree.pieces (resolvePath base value).text).getLast?,
      Path.isStep piece = true := by
  obtain ⟨c, hlast, hword⟩ := h.getLast?
  have hseparator : isSeparator c = false := by
    rw [isSeparator, Bool.or_eq_false_iff, beq_eq_false_iff_ne, beq_eq_false_iff_ne]
    constructor <;> rintro rfl <;> exact absurd hword (by decide)
  obtain ⟨piece, hpiece, hc⟩ := Text.getLast?_split hseparator hlast
  obtain ⟨front, hsplit⟩ := List.getLast?_eq_some_iff.1 hpiece
  have hpieces : Text.splitPieces isSeparator value =
      ((front.filter (!·.isEmpty)).map String.ofList) ++ [String.ofList piece] := by
    rw [Text.splitPieces, hsplit, List.filter_append, List.map_append]
    cases piece with
    | nil => cases hc
    | cons d ds => rfl
  have hbelow := Path.getLast?_pieces_below base
    (fun _ => Scan.joinable_of_mem_splitPieces : ∀ q ∈ Text.splitPieces isSeparator value, _)
    (by simp [hpieces])
  intro last hlast
  change last ∈ (FileTree.pieces (base.below _).text).getLast? at hlast
  rw [hbelow, hpieces, List.getLast?_concat] at hlast
  obtain rfl := Option.some.inj hlast
  refine Path.isStep_ofList hc ?_
  rintro rfl
  exact absurd hword (by decide)

/-! ### Paths and files -/

section Files

variable {tree : FileTree} {base : Path} {text : List Char}

theorem exists_reference_of_paths {p : Path} (h : p ∈ paths base text) :
    ∃ r ∈ references text, resolvePath base r.value = p :=
  List.mem_map.1 (mem_of_mem_distinctBy h)

theorem exists_paths_of_reference {r : Located} (h : r ∈ references text) (base : Path) :
    ∃ p ∈ paths base text, p.components = (resolvePath base r.value).components :=
  exists_mem_distinctBy (fun p : Path => p.components) (List.mem_map_of_mem h)

/-- Each file that a reference leads to is one that a path of the text leads to. -/
theorem exists_file?_of_reference (ht : tree.Plain)
    (short : ∀ r ∈ references text,
      (resolvePath base r.value).text.utf8ByteSize < FileTree.maxPathSize)
    {r : Located} (hr : r ∈ references text) {loc : Location}
    (h : tree.file? (resolvePath base r.value) = some loc) :
    ∃ p ∈ paths base text, p.components = (resolvePath base r.value).components ∧
      tree.file? p = some loc := by
  obtain ⟨p, hp, hcomponents⟩ := exists_paths_of_reference hr base
  obtain ⟨r', hr', rfl⟩ := exists_reference_of_paths hp
  exact ⟨_, hp, hcomponents, FileTree.file?_eq_of_components ht hcomponents.symm (short r' hr')
    (getLast?_pieces_resolvePath (isReference_of_mem hr') base) h⟩

theorem scriptFiles_eq (ht : tree.Plain)
    (short : ∀ r ∈ references text,
      (resolvePath base r.value).text.utf8ByteSize < FileTree.maxPathSize) :
    scriptFiles tree base text = ((paths base text).filterMap tree.file?).toFinset := by
  ext loc
  rw [scriptFiles, List.mem_toFinset, List.mem_toFinset, List.mem_filterMap, List.mem_filterMap]
  constructor
  · rintro ⟨r, hr, h⟩
    obtain ⟨p, hp, -, hfile⟩ := exists_file?_of_reference ht short hr h
    exact ⟨p, hp, hfile⟩
  · rintro ⟨p, hp, h⟩
    obtain ⟨r, hr, rfl⟩ := exists_reference_of_paths hp
    exact ⟨r, hr, h⟩

theorem resolved_eq_length (tree : FileTree) (base : Path) (letters : LetterCase)
    (text : List Char) : (resolve tree base letters text).resolved =
      ((paths base text).filterMap tree.file?).length := by
  rw [resolve_resolved, List.length_filterMap_eq_countP]
  exact List.countP_congr fun p _ => by rw [FileTree.isSome_file?]

/-- No file is found by two paths with different components. -/
def FoundByOnePath (tree : FileTree) (base : Path) (text : List Char) : Prop :=
  ∀ r ∈ references text, ∀ r' ∈ references text, ∀ loc,
    tree.file? (resolvePath base r.value) = some loc →
    tree.file? (resolvePath base r'.value) = some loc →
      (resolvePath base r.value).components = (resolvePath base r'.value).components

theorem nodup_files_iff (ht : tree.Plain)
    (short : ∀ r ∈ references text,
      (resolvePath base r.value).text.utf8ByteSize < FileTree.maxPathSize) :
    ((paths base text).filterMap tree.file?).Nodup ↔ FoundByOnePath tree base text := by
  have hpaths : (paths base text).Pairwise fun p q => p.components ≠ q.components :=
    pairwise_distinctBy _
  rw [List.Nodup, List.pairwise_filterMap]
  constructor
  · intro hnodup r hr r' hr' loc h h'
    obtain ⟨p, hp, hcomponents, hfile⟩ := exists_file?_of_reference ht short hr h
    obtain ⟨p', hp', hcomponents', hfile'⟩ := exists_file?_of_reference ht short hr' h'
    have : Std.Symm fun p q : Path => ∀ b, tree.file? p = some b → ∀ b',
        tree.file? q = some b' → b ≠ b' := ⟨fun p q h b hb b' hb' => (h b' hb' b hb).symm⟩
    obtain rfl : p = p' := by
      by_contra hne
      exact hnodup.forall hp hp' hne loc hfile loc hfile' rfl
    exact hcomponents.symm.trans hcomponents'
  · intro hone
    refine hpaths.imp_of_mem fun hp hq hne loc hloc loc' hloc' => ?_
    rintro rfl
    obtain ⟨r, hr, rfl⟩ := exists_reference_of_paths hp
    obtain ⟨r', hr', rfl⟩ := exists_reference_of_paths hq
    exact hne (hone r hr r' hr' loc hloc hloc')

theorem foundByOnePath_of_no_ups (ht : tree.Plain) (hb : base.text ≠ "")
    (hups : ∀ r ∈ references text, ".." ∉ Text.splitPieces isSeparator r.value) :
    FoundByOnePath tree base text := by
  intro r hr r' hr' loc h h'
  have hjoin (value : String) : ∀ q ∈ Text.splitPieces isSeparator value, Path.Joinable q :=
    fun _ => Scan.joinable_of_mem_splitPieces
  have hsteps := FileTree.steps_eq_of_file? ht hb (hjoin r.value) (hjoin r'.value) (hups r hr)
    (hups r' hr') h h'
  change (base.below _).components = (base.below _).components
  rw [Path.components_eq, Path.components_eq, Path.front_below hb (hjoin _),
    Path.front_below hb (hjoin _), Path.steps_below hb (hjoin _), Path.steps_below hb (hjoin _),
    hsteps]

/-- In a tree without links, a resolution counts at least the files that the references of the
text lead to, and exactly these unless it finds one of them by two paths. This needs a
reference that goes up: separators and points in any mix make no difference. -/
theorem resolved_eq_files_iff (ht : tree.Plain) (letters : LetterCase)
    (short : ∀ r ∈ references text,
      (resolvePath base r.value).text.utf8ByteSize < FileTree.maxPathSize) :
    (scriptFiles tree base text).card ≤ (resolve tree base letters text).resolved ∧
      ((resolve tree base letters text).resolved = (scriptFiles tree base text).card ↔
        FoundByOnePath tree base text) ∧
      (base.text ≠ "" →
        (∀ r ∈ references text, ".." ∉ Text.splitPieces isSeparator r.value) →
          (resolve tree base letters text).resolved = (scriptFiles tree base text).card) := by
  have hfiles := scriptFiles_eq ht short
  have hcount := resolved_eq_length tree base letters text
  have hiff : (resolve tree base letters text).resolved = (scriptFiles tree base text).card ↔
      FoundByOnePath tree base text := by
    rw [hcount, hfiles, ← nodup_files_iff ht short, eq_comm]
    exact Multiset.toFinset_card_eq_card_iff_nodup
  refine ⟨?_, hiff, fun hb hups => hiff.2 (foundByOnePath_of_no_ups ht hb hups)⟩
  rw [hcount, hfiles]
  exact List.toFinset_card_le _

end Files

/-! ### A script that is referred to twice -/

def scriptTree : FileTree where
  entries := [(["directives"], .folder),
    (["directives", "w.js"], .file (Text.Utf8.encode "'/api/w'".toList))]
  workDir := []

theorem scriptTree_plain : scriptTree.Plain where
  names := (by decide : scriptTree.ProperlyNamed)
  linkless := by simp [scriptTree]

theorem isReference_script {lead : List Char} (h : ∀ c ∈ lead, IsPathChar c) :
    IsReference (lead ++ "directives/w.js".toList) := by
  have hscript : IsScript ("directives".toList ++ '/' :: ("w".toList ++ ".js".toList)) :=
    .mk (by decide) (by decide) (by decide) (by decide) (by decide)
  exact .mk h hscript

/-- A text with a reference to the script and another one with something in front. -/
def twoReferences (lead : String) : List Char :=
  ["directives/w.js".toList, lead.toList ++ "directives/w.js".toList].flatMap (· ++ [' '])

theorem values_twoReferences (lead : String) (h : ∀ c ∈ lead.toList, IsPathChar c) :
    (references (twoReferences lead)).map (·.value) = distinctBy id
      ["directives/w.js", String.ofList (lead.toList ++ "directives/w.js".toList)] := by
  have hforms : ∀ form ∈ ["directives/w.js".toList, lead.toList ++ "directives/w.js".toList],
      IsReference form := by
    simp only [List.forall_mem_cons]
    exact ⟨isReference_script (List.forall_mem_nil _), isReference_script h, nofun⟩
  exact references_parted hforms (by decide)

theorem respelled_resolved : scriptTree.Plain ∧
    (∀ r ∈ references (twoReferences "//.\\"),
      (resolvePath ⟨"."⟩ r.value).text.utf8ByteSize < FileTree.maxPathSize) ∧
    (resolve scriptTree ⟨"."⟩ .preserve (twoReferences "//.\\")).resolved =
      (scriptFiles scriptTree ⟨"."⟩ (twoReferences "//.\\")).card := by
  have hvalues := values_twoReferences "//.\\" (by decide)
  have hvalue : ∀ r ∈ references (twoReferences "//.\\"),
      r.value = "directives/w.js" ∨ r.value = "//.\\directives/w.js" := by
    intro r hr
    have hmem := mem_of_mem_distinctBy (hvalues ▸ List.mem_map_of_mem hr)
    simpa using hmem
  have short : ∀ r ∈ references (twoReferences "//.\\"),
      (resolvePath ⟨"."⟩ r.value).text.utf8ByteSize < FileTree.maxPathSize := by
    intro r hr
    rcases hvalue r hr with h | h <;> rw [h] <;> decide
  refine ⟨scriptTree_plain, short, (resolved_eq_files_iff scriptTree_plain .preserve short).2.2
    (by decide) fun r hr => ?_⟩
  rcases hvalue r hr with h | h <;> rw [h] <;> decide

/-- The script by its name and by way of the folder above it: one file counts twice. -/
theorem detour_resolved_twice :
    (resolve scriptTree ⟨"."⟩ .preserve (twoReferences "directives/../")).resolved = 2 ∧
      (scriptFiles scriptTree ⟨"."⟩ (twoReferences "directives/../")).card = 1 := by
  have hvalues := values_twoReferences "directives/../" (by decide)
  have hpaths : (references (twoReferences "directives/../")).map
      (fun r => resolvePath ⟨"."⟩ r.value) =
        [⟨"./directives/w.js"⟩, ⟨"./directives/../directives/w.js"⟩] := by
    have hmapped := congrArg (List.map (resolvePath ⟨"."⟩)) hvalues
    rw [List.map_map] at hmapped
    exact hmapped.trans (by decide)
  have hfile : scriptTree.file? ⟨"./directives/w.js"⟩ = some ["directives", "w.js"] := by cbv
  have hfile' : scriptTree.file? ⟨"./directives/../directives/w.js"⟩ =
      some ["directives", "w.js"] := by cbv
  have hdistinct : distinctBy (·.components)
      [⟨"./directives/w.js"⟩, (⟨"./directives/../directives/w.js"⟩ : Path)] =
        [⟨"./directives/w.js"⟩, ⟨"./directives/../directives/w.js"⟩] := by decide
  constructor
  · rw [resolved_eq_length, paths, hpaths, hdistinct]
    simp [hfile, hfile']
  · have hfiles : scriptFiles scriptTree ⟨"."⟩ (twoReferences "directives/../") =
        ([⟨"./directives/w.js"⟩, ⟨"./directives/../directives/w.js"⟩].filterMap
          scriptTree.file?).toFinset := by
      rw [← hpaths, List.filterMap_map]
      rfl
    rw [hfiles]
    simp [hfile, hfile']

end EndpointCatalog.Directive
