import EndpointCatalog.Proofs.Directive.Denoted

/-! Paths of references. However a reference is written, its path has all components of the
base and behind them the segments of the reference, one component for each. So the paths of two
references agree exactly if their segments do, and exactly then a resolution takes the
references for one script. -/

namespace EndpointCatalog

/-- There are as many distinct elements as there are keys. -/
theorem length_distinctBy {α κ : Type} [BEq κ] [LawfulBEq κ] [DecidableEq κ] (key : α → κ)
    (as : List α) : (distinctBy key as).length = (as.map key).toFinset.card := by
  have hnodup : ((distinctBy key as).map key).Nodup := List.pairwise_map.2 (pairwise_distinctBy as)
  have hkeys : ((distinctBy key as).map key).toFinset = (as.map key).toFinset := by
    ext k
    simp only [List.mem_toFinset, List.mem_map]
    constructor
    · rintro ⟨a, ha, rfl⟩
      exact ⟨a, mem_of_mem_distinctBy ha, rfl⟩
    · rintro ⟨a, ha, rfl⟩
      exact exists_mem_distinctBy key ha
  rw [← hkeys, List.toFinset_card_of_nodup hnodup, List.length_map]

namespace Directive

/-- The pieces of a reference between slashes and backslashes, apart from empty ones and `.`. -/
def segments (reference : String) : List String :=
  ((reference.toList.splitOnP fun c => c = '/' ∨ c = '\\').map String.ofList).filter
    fun piece => piece ≠ "" ∧ piece ≠ "."

theorem segments_eq (reference : String) :
    segments reference = (Text.splitPieces isSeparator reference).filter (· ≠ ".") := by
  have hseparator : (fun c : Char => decide (c = '/' ∨ c = '\\')) = isSeparator := by
    funext c
    rw [isSeparator, Bool.decide_or]
    rfl
  rw [segments, hseparator, Text.splitPieces, ← Text.split_eq_splitOnP, List.filter_map,
    List.filter_map, List.filter_filter]
  refine congrArg (List.map String.ofList) (List.filter_congr fun cs _ => ?_)
  cases cs with
  | nil => simp
  | cons c cs => simp

section Base

variable {base : Path} (hb : base.text ≠ "")
include hb

theorem components_resolvePath (reference : String) : (resolvePath base reference).components =
    base.components ++ (segments reference).map Component.ofPiece := by
  rw [segments_eq]
  exact Path.components_below hb fun _ => Scan.joinable_of_mem_splitPieces

theorem components_resolvePath_eq_iff (r r' : String) :
    (resolvePath base r).components = (resolvePath base r').components ↔
      segments r = segments r' := by
  rw [components_resolvePath hb, components_resolvePath hb, List.append_cancel_left_eq]
  exact (List.map_injective_iff.2 Component.ofPiece_injective).eq_iff

/-- The references of a text are told apart by their segments. -/
theorem targets_eq_segments (text : List Char) : targets base text =
    (distinctBy (segments ·.value) (references text)).map fun r =>
      ⟨r, resolvePath base r.value⟩ := by
  have hkey : (fun r : Located =>
      Path.innerComponents (Text.splitPieces isSeparator r.value)) =
        fun r => (segments r.value).map Component.ofPiece := by
    funext r
    rw [segments_eq, Path.innerComponents]
  rw [Scan.targets_eq hb, Scan.distinctReferences, hkey,
    distinctBy_comp (List.map_injective_iff.2 Component.ofPiece_injective)]
  rfl

end Base

/-! ### Resolutions -/

/-- A resolution reads or skips each path once. -/
theorem resolved_add_skipped (tree : FileTree) (base : Path) (letters : LetterCase)
    (text : List Char) : (resolve tree base letters text).resolved +
      (resolve tree base letters text).skipped.length = (targets base text).length := by
  have hpaths := congrArg List.length (map_path_targets base text)
  have hskipped := congrArg List.length (resolve_skipped tree base letters text)
  rw [List.length_map] at hpaths hskipped
  rw [resolve_resolved, hskipped, hpaths, ← List.countP_eq_length_filter,
    List.length_eq_countP_add_countP fun p => (tree.read p).isOk]
  simp

/-- A text with two references, each with the character `b` behind it. -/
def pairText (r r' : String) (b : Char) : List Char := [r.toList, r'.toList].flatMap (· ++ [b])

theorem segments_pairText {r r' : String} {b : Char} (hr : IsReference r.toList)
    (hr' : IsReference r'.toList) (hb : ¬ IsPathChar b) :
    ((references (pairText r r' b)).map (segments ·.value)).toFinset =
      {segments r, segments r'} := by
  have hforms : ∀ form ∈ [r.toList, r'.toList], IsReference form := by simp [hr, hr']
  have hvalues : (references (pairText r r' b)).map (·.value) = distinctBy id [r, r'] := by
    rw [pairText, references_parted hforms hb]
    simp
  have hmap : (references (pairText r r' b)).map (segments ·.value) =
      (distinctBy id [r, r']).map segments := by
    rw [← hvalues, List.map_map]
    rfl
  rw [hmap]
  rcases eq_or_ne r r' with rfl | hne
  · simp [distinctBy, distinctFrom]
  · simp [distinctBy, distinctFrom, hne.symm]

/-- What comes of joining references to a base. Their paths have the components of the base and
then their segments, and a resolution tells references apart by nothing but their segments. -/
structure Joins (base : Path) : Prop where
  components : ∀ reference, (resolvePath base reference).components =
    base.components ++ (segments reference).map Component.ofPiece
  same_iff : ∀ r r', (resolvePath base r).components = (resolvePath base r').components ↔
    segments r = segments r'
  targets : ∀ text, targets base text = (distinctBy (segments ·.value) (references text)).map
    fun r => ⟨r, resolvePath base r.value⟩
  counted : ∀ tree letters text, (resolve tree base letters text).resolved +
    (resolve tree base letters text).skipped.length =
      ((references text).map (segments ·.value)).toFinset.card
  paired : ∀ tree letters r r' b, IsReference r.toList → IsReference r'.toList → ¬ IsPathChar b →
    (resolve tree base letters (pairText r r' b)).resolved +
      (resolve tree base letters (pairText r r' b)).skipped.length =
        if segments r = segments r' then 1 else 2

theorem counted_segments {base : Path} (hb : base.text ≠ "") (tree : FileTree)
    (letters : LetterCase) (text : List Char) : (resolve tree base letters text).resolved +
      (resolve tree base letters text).skipped.length =
        ((references text).map (segments ·.value)).toFinset.card := by
  rw [resolved_add_skipped, targets_eq_segments hb, List.length_map, length_distinctBy]

/-- No reference replaces a base or cuts it short, and two references are one script exactly if
they have the same segments. -/
theorem resolvePath_joins {base : Path} (hb : base.text ≠ "") : Joins base where
  components := components_resolvePath hb
  same_iff := components_resolvePath_eq_iff hb
  targets := targets_eq_segments hb
  counted := counted_segments hb
  paired tree letters r r' b hr hr' hsep := by
    rw [counted_segments hb, segments_pairText hr hr' hsep]
    split
    next h => rw [h, Finset.pair_eq_singleton, Finset.card_singleton]
    next h => exact Finset.card_pair h

/-- A slash in front of a reference does not lead out of the base, and tells no script apart. -/
theorem rootedReference_joined : (⟨"/base/."⟩ : Path).text ≠ "" ∧ Joins ⟨"/base/."⟩ ∧
    (resolvePath ⟨"/base/."⟩ "/.\\..//directives/w.js").components =
      [.root, .name "base", .up, .name "directives", .name "w.js"] ∧
    ∀ tree letters, (resolve tree ⟨"/base/."⟩ letters
      (pairText "directives/w.js" "//.\\directives/w.js" ' ')).resolved +
        (resolve tree ⟨"/base/."⟩ letters
          (pairText "directives/w.js" "//.\\directives/w.js" ' ')).skipped.length = 1 := by
  have hjoins : Joins ⟨"/base/."⟩ := resolvePath_joins (by decide)
  have hplain : IsReference "directives/w.js".toList := isReference_script (List.forall_mem_nil _)
  have hrooted : IsReference "//.\\directives/w.js".toList :=
    @isReference_script "//.\\".toList (by decide)
  refine ⟨by decide, hjoins, ?_, fun tree letters => ?_⟩
  · rw [hjoins.components]
    decide
  · rw [hjoins.paired tree letters _ _ ' ' hplain hrooted (by decide)]
    decide

end Directive

end EndpointCatalog
