import EndpointCatalog.Proofs.Directive.Resolve

/-! The account of the scripts of a text. The text refers to some paths, each perhaps several
times and in several spellings. Each path is read once: what can be read counts, what cannot
is reported with its first reference, and an endpoint is located at the first reference to a
path that has it. -/

namespace EndpointCatalog.Directive

/-- The paths that a text refers to, in the order of the first references to them. -/
def paths (base : Path) (text : List Char) : List Path :=
  distinctBy (·.components) ((references text).map fun r => resolvePath base r.value)

/-- The endpoints of the script at a path. -/
def readEndpoints (tree : FileTree) (letters : LetterCase) (path : Path) :
    Except IoError (List String) :=
  (tree.read path).map (scriptEndpoints letters)

/-- The first reference of a text with a property. -/
def IsFirstReference (text : List Char) (P : Located → Prop) (r : Located) : Prop :=
  ∃ before after, references text = before ++ r :: after ∧ P r ∧ ∀ d ∈ before, ¬ P d

/-- A reference to the path, in this or another spelling. -/
def RefersTo (base path : Path) (r : Located) : Prop :=
  (resolvePath base r.value).components = path.components

/-- A reference to a path of the text whose script has the url. -/
def Supplies (tree : FileTree) (base : Path) (letters : LetterCase) (text : List Char)
    (url : String) (r : Located) : Prop :=
  ∃ path ∈ paths base text, RefersTo base path r ∧
    ∃ urls, readEndpoints tree letters path = .ok urls ∧ url ∈ urls

/-- A resolution has everything that the paths of a text call for. -/
structure Accounted (tree : FileTree) (base : Path) (letters : LetterCase) (text : List Char)
    (r : Resolution) : Prop where
  resolved : r.resolved = (paths base text).countP fun p => (tree.read p).isOk
  skipped : r.skipped.map (·.path) = (paths base text).filter fun p => !(tree.read p).isOk
  named : ∀ s ∈ r.skipped, tree.read s.path = .error s.cause ∧
    ∃ first, IsFirstReference text (RefersTo base s.path) first ∧ s.reference = first.value
  urls : r.endpoints.map (·.value) = distinctBy id
    ((paths base text).filterMap fun p => (readEndpoints tree letters p).toOption).flatten
  located : ∀ l ∈ r.endpoints, ∃ first,
    IsFirstReference text (Supplies tree base letters text l.value) first ∧ l.offset = first.offset

section Targets

variable {tree : FileTree} {letters : LetterCase} {base : Path} {text : List Char}

theorem map_path_targets (base : Path) (text : List Char) :
    (targets base text).map (·.path) = paths base text := by
  have hpaths : (references text).map (fun r => resolvePath base r.value) =
      ((references text).map fun r => (⟨r, resolvePath base r.value⟩ : Target)).map (·.path) := by
    rw [List.map_map]
    rfl
  rw [paths, hpaths, distinctBy_map]
  rfl

/-- A target has the first reference to its path. -/
theorem exists_first_of_targets {xs ys : List Target} {t : Target}
    (h : targets base text = xs ++ t :: ys) :
    ∃ before after, references text = before ++ t.reference :: after ∧
      RefersTo base t.path t.reference ∧ ∀ d ∈ before, ¬ RefersTo base t.path d ∧
        ∃ t' ∈ xs, RefersTo base t'.path d := by
  rw [targets] at h
  obtain ⟨front, back, hsplit, rfl, hfirst⟩ := distinctBy_eq_append_cons h
  obtain ⟨before, rest, hrefs, rfl, hrest⟩ := List.map_eq_append_iff.1 hsplit
  obtain ⟨r, after, rfl, rfl, -⟩ := List.map_eq_cons_iff.1 hrest
  refine ⟨before, after, hrefs, rfl, fun d hd => ?_⟩
  have hmem : (⟨d, resolvePath base d.value⟩ : Target) ∈
      before.map fun r => (⟨r, resolvePath base r.value⟩ : Target) := List.mem_map_of_mem hd
  have hne := hfirst _ hmem
  obtain ⟨t', ht', hkey⟩ := exists_mem_distinctBy (fun t : Target => t.path.components) hmem
  exact ⟨hne, t', ht', hkey.symm⟩

/-! ### The fields -/

theorem toOption_read (t : Target) : ((t.read tree letters).toOption).map (List.map (·.value)) =
    (readEndpoints tree letters t.path).toOption := by
  rw [Target.read, readEndpoints]
  cases tree.read t.path with
  | error e => rfl
  | ok script => simp [Except.toOption, Except.map, Function.comp_def]

theorem isSome_read (t : Target) :
    ((t.read tree letters).toOption).isSome = (tree.read t.path).isOk := by
  rw [Target.read]
  cases tree.read t.path <;> rfl

theorem resolve_resolved (tree : FileTree) (base : Path) (letters : LetterCase)
    (text : List Char) : (resolve tree base letters text).resolved =
      (paths base text).countP fun p => (tree.read p).isOk := by
  simp only [resolve]
  rw [List.filterMap_map, List.length_filterMap_eq_countP, ← map_path_targets, List.countP_map]
  exact List.countP_congr fun t _ => by simp [isSome_read]

theorem read_eq_error {t : Target} {s : Skipped} : t.read tree letters = .error s ↔
    s.reference = t.reference.value ∧ s.path = t.path ∧ tree.read t.path = .error s.cause := by
  rw [Target.read]
  cases tree.read t.path with
  | ok script => simp
  | error e =>
    cases s
    rw [Except.error.injEq, Skipped.mk.injEq, Except.error.injEq]
    exact and_congr eq_comm (and_congr eq_comm Iff.rfl)

theorem resolve_skipped (tree : FileTree) (base : Path) (letters : LetterCase)
    (text : List Char) : (resolve tree base letters text).skipped.map (·.path) =
      (paths base text).filter fun p => !(tree.read p).isOk := by
  simp only [resolve]
  rw [← map_path_targets]
  induction targets base text with
  | nil => rfl
  | cons t ts ih =>
    rw [List.map_cons, List.map_cons, List.filterMap_cons, List.filter_cons, ← ih, Target.read]
    cases tree.read t.path <;> rfl

theorem mem_skipped {s : Skipped} (h : s ∈ (resolve tree base letters text).skipped) :
    ∃ t ∈ targets base text, t.read tree letters = .error s := by
  obtain ⟨outcome, houtcome, hs⟩ := List.mem_filterMap.1 h
  obtain ⟨t, ht, rfl⟩ := List.mem_map.1 houtcome
  cases hread : t.read tree letters with
  | ok ls =>
    rw [hread] at hs
    cases hs
  | error s' =>
    rw [hread] at hs
    cases hs
    exact ⟨t, ht, hread⟩

theorem resolve_named {s : Skipped} (h : s ∈ (resolve tree base letters text).skipped) :
    tree.read s.path = .error s.cause ∧ ∃ first,
      IsFirstReference text (RefersTo base s.path) first ∧ s.reference = first.value := by
  obtain ⟨t, ht, hread⟩ := mem_skipped h
  obtain ⟨hreference, hpath, hcause⟩ := read_eq_error.1 hread
  obtain ⟨xs, ys, hsplit⟩ := List.append_of_mem ht
  obtain ⟨before, after, hrefs, hrefers, hbefore⟩ := exists_first_of_targets hsplit
  rw [hpath]
  exact ⟨hcause, t.reference, ⟨before, after, hrefs, hrefers, fun d hd => (hbefore d hd).1⟩,
    hreference⟩

theorem resolve_urls (tree : FileTree) (base : Path) (letters : LetterCase) (text : List Char) :
    (resolve tree base letters text).endpoints.map (·.value) = distinctBy id
      ((paths base text).filterMap fun p => (readEndpoints tree letters p).toOption).flatten := by
  simp only [resolve]
  rw [← map_path_targets, List.filterMap_map, List.filterMap_map]
  have hread : (targets base text).filterMap ((fun p => (readEndpoints tree letters p).toOption) ∘
      (·.path)) = ((targets base text).filterMap fun t =>
        (t.read tree letters).toOption).map (List.map (·.value)) := by
    rw [List.map_filterMap]
    exact congrArg (List.filterMap · (targets base text)) (funext fun t => (toOption_read t).symm)
  rw [hread, ← List.map_flatten, distinctBy_map]
  rfl

/-- The script of a target has a url if and only if the target adds it. -/
theorem has_iff {t : Target} {url : String} : t.Has tree letters url ↔
    ∃ urls, readEndpoints tree letters t.path = .ok urls ∧ url ∈ urls := by
  rw [Target.Has, readEndpoints]
  cases tree.read t.path with
  | error e => simp [Except.map]
  | ok script => simp [Except.map]

theorem resolve_located {l : Located} (h : l ∈ (resolve tree base letters text).endpoints) :
    ∃ first, IsFirstReference text (Supplies tree base letters text l.value) first ∧
      l.offset = first.offset := by
  have hfind : (resolve tree base letters text).endpoints.find? (·.value == l.value) = some l := by
    have hpairs : (resolve tree base letters text).endpoints.Pairwise
      fun a b => a.value ≠ b.value := pairwise_distinctBy _
    rw [← List.head?_filter, filter_eq_singleton hpairs h, List.head?_singleton]
  rw [find?_resolve, List.findSome?_eq_some_iff] at hfind
  obtain ⟨xs, t, ys, hsplit, hendpoint, hnone⟩ := hfind
  obtain ⟨hl, hhas⟩ := Target.endpoint?_eq_some.1 hendpoint
  have htargets : ∀ t' ∈ xs ++ t :: ys, t'.path ∈ paths base text := fun t' ht' => by
    rw [← map_path_targets, hsplit]
    exact List.mem_map_of_mem ht'
  obtain ⟨before, after, hrefs, hrefers, hbefore⟩ := exists_first_of_targets hsplit
  refine ⟨t.reference, ⟨before, after, hrefs, ?_, fun d hd => ?_⟩, by rw [hl]⟩
  · exact ⟨t.path, htargets t (by simp), hrefers, has_iff.1 hhas⟩
  · -- An earlier reference is to the path of an earlier target, which does not have the url.
    rintro ⟨path, hpath, hd', hurls⟩
    obtain ⟨-, t', ht', hrefers'⟩ := hbefore d hd
    have hpairs : (paths base text).Pairwise fun p q => p.components ≠ q.components :=
      pairwise_distinctBy _
    obtain rfl : t'.path = path := eq_of_key_eq hpairs hpath
      (htargets t' (List.mem_append_left _ ht')) (hrefers'.symm.trans hd')
    exact Target.endpoint?_eq_none.1 (hnone t' ht') (has_iff.2 hurls)

theorem resolve_accounted (tree : FileTree) (base : Path) (letters : LetterCase)
    (text : List Char) : Accounted tree base letters text (resolve tree base letters text) where
  resolved := resolve_resolved tree base letters text
  skipped := resolve_skipped tree base letters text
  named _ := resolve_named
  urls := resolve_urls tree base letters text
  located _ := resolve_located

end Targets

end EndpointCatalog.Directive
