import EndpointCatalog.Proofs.Distinct
import EndpointCatalog.Proofs.Files.Lookup

/-! Paths below a folder. Joining pieces to a path adds their components to it, and where no
links are in the way, what is found at the end depends on the folder and the pieces
alone, however the path to the folder is written. -/

namespace EndpointCatalog

/-! ### Splitting -/

namespace Text

variable {isSeparator : Char → Bool}

theorem split_eq_splitOnP (isSeparator : Char → Bool) (cs : List Char) :
    split isSeparator cs = cs.splitOnP isSeparator := by
  induction cs with
  | nil => rfl
  | cons c cs ih =>
    rw [split, ih, List.splitOnP_cons_eq_if_modifyHead]
    refine ite_congr rfl (fun _ => rfl) fun _ => ?_
    obtain ⟨piece, rest, hpieces⟩ :=
      List.exists_cons_of_ne_nil (List.splitOnP_ne_nil isSeparator cs)
    rw [hpieces]
    rfl

theorem split_ne_nil (cs : List Char) : split isSeparator cs ≠ [] := by
  rw [split_eq_splitOnP]
  exact List.splitOnP_ne_nil isSeparator cs

theorem split_append_separator (as : List Char) {c : Char} (hc : isSeparator c = true)
    (bs : List Char) :
    split isSeparator (as ++ c :: bs) = split isSeparator as ++ split isSeparator bs := by
  simp only [split_eq_splitOnP]
  exact List.splitOnP_append_cons as bs hc

theorem split_eq_singleton {cs : List Char} (h : ∀ c ∈ cs, isSeparator c = false) :
    split isSeparator cs = [cs] := by
  rw [split_eq_splitOnP]
  exact List.splitOnP_eq_singleton h

theorem not_separator_of_mem_split {cs piece : List Char} (h : piece ∈ split isSeparator cs)
    {c : Char} (hc : c ∈ piece) : isSeparator c = false := by
  induction cs generalizing piece with
  | nil =>
    obtain rfl := List.mem_singleton.1 h
    cases hc
  | cons d ds ih =>
    rw [split] at h
    split at h
    next =>
      rcases List.mem_cons.1 h with rfl | h
      · cases hc
      · exact ih h hc
    next hd =>
      cases hs : split isSeparator ds with
      | nil => exact absurd hs (split_ne_nil ds)
      | cons first rest =>
        rw [hs] at h
        rcases List.mem_cons.1 h with rfl | h
        · rcases List.mem_cons.1 hc with rfl | hc
          · simpa using hd
          · exact ih (hs ▸ List.mem_cons_self) hc
        · exact ih (hs ▸ List.mem_cons_of_mem first h) hc

end Text

namespace Path

/-! ### Joining pieces -/

/-- A piece that is joined to a path as it is: neither empty nor with a slash in it. -/
structure Joinable (piece : String) : Prop where
  ne_empty : piece ≠ ""
  no_slash : ∀ c ∈ piece.toList, isSlash c = false

/-- The path of some pieces below another one. -/
def below (p : Path) (pieces : List String) : Path := pieces.foldl join p

theorem below_nil (p : Path) : p.below [] = p := rfl

@[simp] theorem below_cons (p : Path) (piece : String) (pieces : List String) :
    p.below (piece :: pieces) = (p.join piece).below pieces := rfl

theorem Joinable.not_isAbsolute {piece : String} (h : Joinable piece) :
    isAbsolute ⟨piece⟩ = false := by
  rw [isAbsolute]
  cases hp : piece.toList with
  | nil => rfl
  | cons c cs => exact h.no_slash c (by rw [hp]; exact List.mem_cons_self)

/-- Joining puts one slash between a path and the piece. -/
theorem join_toList {p : Path} {piece : String} (h : Joinable piece) (hp : p.text ≠ "") :
    ∃ front, (p.text.toList = front ∨ p.text.toList = front ++ ['/']) ∧
      (p.join piece).text.toList = front ++ '/' :: piece.toList := by
  rw [join, h.not_isAbsolute]
  cases hlast : p.text.toList.getLast? with
  | none => exact absurd (String.toList_eq_nil_iff.1 (List.getLast?_eq_none_iff.1 hlast)) hp
  | some c =>
    obtain ⟨front, hfront⟩ := List.getLast?_eq_some_iff.1 hlast
    cases hc : isSlash c with
    | true =>
      obtain rfl : c = '/' := by simpa [isSlash] using hc
      refine ⟨front, .inr hfront, ?_⟩
      simp [hc, hfront]
    | false =>
      refine ⟨p.text.toList, .inl rfl, ?_⟩
      simp [hc]

theorem text_join_ne_empty {p : Path} {piece : String} (h : Joinable piece) (hp : p.text ≠ "") :
    (p.join piece).text ≠ "" := by
  obtain ⟨front, _, hjoin⟩ := join_toList h hp
  intro hempty
  rw [hempty] at hjoin
  simp at hjoin

theorem isAbsolute_join {p : Path} {piece : String} (h : Joinable piece) (hp : p.text ≠ "") :
    (p.join piece).isAbsolute = p.isAbsolute := by
  obtain ⟨front, hfront, hjoin⟩ := join_toList h hp
  rw [isAbsolute, isAbsolute, hjoin]
  cases front with
  | nil =>
    have hnil : p.text.toList ≠ [] := mt String.toList_eq_nil_iff.1 hp
    rcases hfront with hfront | hfront
    · exact absurd hfront hnil
    · rw [hfront]
      rfl
  | cons c front => rcases hfront with hfront | hfront <;> rw [hfront] <;> rfl

theorem pieces_join {p : Path} {piece : String} (h : Joinable piece) (hp : p.text ≠ "") :
    ∃ front, (FileTree.pieces p.text = front ∨ FileTree.pieces p.text = front ++ [""]) ∧
      FileTree.pieces (p.join piece).text = front ++ [piece] := by
  obtain ⟨front, hfront, hjoin⟩ := join_toList h hp
  refine ⟨(Text.split isSlash front).map String.ofList, hfront.imp ?_ ?_, ?_⟩
  · intro hfront
    rw [FileTree.pieces, hfront]
  · intro hfront
    rw [FileTree.pieces, hfront, Text.split_append_separator front rfl, List.map_append]
    rfl
  · rw [FileTree.pieces, hjoin, Text.split_append_separator front rfl,
      Text.split_eq_singleton h.no_slash, List.map_append, List.map_singleton,
      String.ofList_toList]

/-- The pieces of a path below `p` are those of `p`, but for an empty one behind a slash at
its end, and those that are joined. -/
theorem pieces_below {p : Path} (hp : p.text ≠ "") {ps : List String} (h : ∀ q ∈ ps, Joinable q) :
    ps ≠ [] → ∃ front,
      (FileTree.pieces p.text = front ∨ FileTree.pieces p.text = front ++ [""]) ∧
      FileTree.pieces (p.below ps).text = front ++ ps := by
  induction ps generalizing p with
  | nil => exact fun hne => absurd rfl hne
  | cons q qs ih =>
    intro _
    obtain ⟨hq, hqs⟩ := List.forall_mem_cons.1 h
    obtain ⟨front, hfront, hjoin⟩ := pieces_join hq hp
    rcases eq_or_ne qs [] with rfl | hne
    · exact ⟨front, hfront, hjoin⟩
    · obtain ⟨front', hfront', hbelow⟩ := ih (text_join_ne_empty hq hp) hqs hne
      refine ⟨front, hfront, ?_⟩
      -- The joined piece is not empty, so that all of the joined path stays.
      have hstays : front' = front ++ [q] := by
        rcases hfront' with h' | h'
        · exact h'.symm.trans hjoin
        · obtain ⟨_, hlast⟩ := List.append_inj' (h'.symm.trans hjoin) rfl
          exact absurd (List.singleton_inj.1 hlast).symm hq.ne_empty
      rw [below_cons, hbelow, hstays, List.append_assoc, List.singleton_append]

theorem isAbsolute_below {p : Path} (hp : p.text ≠ "") {ps : List String}
    (h : ∀ q ∈ ps, Joinable q) : (p.below ps).isAbsolute = p.isAbsolute := by
  induction ps generalizing p with
  | nil => rfl
  | cons q qs ih =>
    obtain ⟨hq, hqs⟩ := List.forall_mem_cons.1 h
    rw [below_cons, ih (text_join_ne_empty hq hp) hqs, isAbsolute_join hq hp]

theorem text_below_ne_empty {p : Path} (hp : p.text ≠ "") {ps : List String}
    (h : ∀ q ∈ ps, Joinable q) : (p.below ps).text ≠ "" := by
  induction ps generalizing p with
  | nil => exact hp
  | cons q qs ih =>
    obtain ⟨hq, hqs⟩ := List.forall_mem_cons.1 h
    exact ih (text_join_ne_empty hq hp) hqs

theorem mem_text_below {p : Path} (hp : p.text ≠ "") {ps : List String} (h : ∀ q ∈ ps, Joinable q)
    {c : Char} (hc : isSlash c = false) :
    c ∈ (p.below ps).text.toList ↔ c ∈ p.text.toList ∨ ∃ q ∈ ps, c ∈ q.toList := by
  induction ps generalizing p with
  | nil => simp [below_nil]
  | cons q qs ih =>
    obtain ⟨hq, hqs⟩ := List.forall_mem_cons.1 h
    obtain ⟨front, hfront, hjoin⟩ := join_toList hq hp
    have hslash : c ≠ '/' := by
      rintro rfl
      cases hc
    have hmem : c ∈ p.text.toList ↔ c ∈ front := by
      rcases hfront with hfront | hfront <;> simp [hfront, hslash]
    rw [below_cons, ih (text_join_ne_empty hq hp) hqs, hjoin, hmem]
    simp [hslash, or_assoc]

/-! ### Components -/

theorem lastName_eq_some {cs : List Component} {name : String} :
    lastName cs = some name ↔ cs.getLast? = some (.name name) := by
  rw [lastName]
  split
  next s hs => simp [hs]
  next h => exact iff_of_false (by simp) (h name)

theorem steps_below {p : Path} (hp : p.text ≠ "") {ps : List String} (h : ∀ q ∈ ps, Joinable q) :
    (p.below ps).steps = p.steps ++ ps.filter isStep := by
  rcases eq_or_ne ps [] with rfl | hne
  · rw [below_nil, List.filter_nil, List.append_nil]
  · obtain ⟨front, hfront, hbelow⟩ := pieces_below hp h hne
    rw [steps, steps, hbelow, List.filter_append]
    rcases hfront with hfront | hfront <;> simp [hfront, isStep]

/-- A relative path begins with a piece that is not empty. -/
theorem pieces_of_relative {p : Path} (hp : p.text ≠ "") (h : p.isAbsolute = false) :
    ∃ q rest, FileTree.pieces p.text = q :: rest ∧ q ≠ "" := by
  rw [isAbsolute] at h
  cases htext : p.text.toList with
  | nil => exact absurd (String.toList_eq_nil_iff.1 htext) hp
  | cons c cs =>
    have hc : isSlash c = false := by simpa [htext] using h
    rw [FileTree.pieces, htext, Text.split, hc]
    cases hsplit : Text.split isSlash cs with
    | nil => exact absurd hsplit (Text.split_ne_nil cs)
    | cons piece rest => exact ⟨_, _, rfl, by simp⟩

theorem front_below {p : Path} (hp : p.text ≠ "") {ps : List String} (h : ∀ q ∈ ps, Joinable q) :
    (p.below ps).front = p.front := by
  rcases eq_or_ne ps [] with rfl | hne
  · rfl
  · obtain ⟨front, hfront, hbelow⟩ := pieces_below hp h hne
    rw [Path.front, Path.front, isAbsolute_below hp h, splitPieces_eq, splitPieces_eq, hbelow]
    cases habs : p.isAbsolute with
    | true => rfl
    | false =>
      obtain ⟨q, rest, hpieces, hq⟩ := pieces_of_relative hp habs
      cases front with
      | nil =>
        rcases hfront with hfront | hfront
        · cases hpieces.symm.trans hfront
        · exact absurd (List.cons.inj (hpieces.symm.trans hfront)).1 hq
      | cons q' front =>
        have hfirst : q' = q := by
          rcases hfront with hfront | hfront
          · exact (List.cons.inj (hfront.symm.trans hpieces)).1
          · exact (List.cons.inj (hfront.symm.trans hpieces)).1
        rw [hpieces, hfirst, List.cons_append, List.filter_cons_of_pos (by simp [hq]),
          List.filter_cons_of_pos (by simp [hq])]
        by_cases hdot : q = "."
        · subst hdot
          rfl
        · simp [hdot]

theorem components_below {p : Path} (hp : p.text ≠ "") {ps : List String}
    (h : ∀ q ∈ ps, Joinable q) :
    (p.below ps).components = p.components ++ innerComponents ps := by
  have hsteps : ps.filter isStep = ps.filter (· ≠ ".") := by
    refine List.filter_congr fun q hq => ?_
    simp [isStep, (h q hq).ne_empty]
  rw [components_eq, components_eq, front_below hp h, steps_below hp h, hsteps, List.map_append,
    List.append_assoc, innerComponents]

end Path

namespace FileTree

variable {t : FileTree}

/-! ### Trees without links -/

/-- A name that a file system admits. -/
structure ProperName (name : String) : Prop extends Named name, Path.Joinable name where
  no_nul : '\x00' ∉ name.toList

theorem properName_iff {name : String} : ProperName name ↔ Path.isStep name = true ∧
    name ≠ ".." ∧ name.utf8ByteSize ≤ maxNameSize ∧
      name.toList.all (fun c => !Path.isSlash c && c != '\x00') = true := by
  constructor
  · refine fun h => ⟨h.isStep, h.ne_up, h.size_le, List.all_eq_true.2 fun c hc => ?_⟩
    have hnul : c ≠ '\x00' := fun heq => h.no_nul (heq ▸ hc)
    simp [h.no_slash c hc, hnul]
  · rintro ⟨hstep, hup, hsize, hchars⟩
    have hclear (c : Char) (hc : c ∈ name.toList) : Path.isSlash c = false ∧ c ≠ '\x00' := by
      simpa using List.all_eq_true.1 hchars c hc
    have hnamed : Named name := ⟨hstep, hup, hsize⟩
    exact ⟨hnamed, ⟨hnamed.ne_empty, fun c hc => (hclear c hc).1⟩, fun h => (hclear _ h).2 rfl⟩

instance : DecidablePred ProperName := fun _ => decidable_of_iff _ properName_iff.symm

/-- A tree in which every name is proper. -/
def ProperlyNamed (t : FileTree) : Prop := ∀ e ∈ t.entries, ∀ name ∈ e.1, ProperName name

instance (t : FileTree) : Decidable t.ProperlyNamed :=
  inferInstanceAs (Decidable (∀ e ∈ t.entries, ∀ name ∈ e.1, ProperName name))

/-- A tree that has no links and in which every name is proper. -/
structure Plain (t : FileTree) : Prop where
  names : ∀ e ∈ t.entries, ∀ name ∈ e.1, ProperName name
  linkless : ∀ e ∈ t.entries, ∀ target, e.2 ≠ .link target

theorem mem_entries_of_found {loc : Location} {e : Entry} (h : t.entry? loc = some e)
    (hloc : loc ≠ []) : (loc, e) ∈ t.entries := by
  unfold entry? at h
  rw [if_neg hloc] at h
  obtain ⟨before, after, hentries, _⟩ := List.lookup_eq_some_iff.1 h
  exact hentries ▸ List.mem_append_right before List.mem_cons_self

theorem Plain.not_link (h : t.Plain) (loc : Location) (target : String) :
    t.entry? loc ≠ some (.link target) := by
  intro he
  by_cases hloc : loc = []
  · subst hloc
    cases he
  · exact h.linkless _ (mem_entries_of_found he hloc) target rfl

theorem Leads.links_eq (ht : t.Plain) {n m : Nat} {here loc : Location} {path : List String}
    (h : t.Leads n here path m loc) : m = n := by
  induction h with
  | done => rfl
  | stay _ _ _ ih => exact ih
  | up _ _ ih => exact ih
  | follow _ _ he _ _ => exact absurd he (ht.not_link _ _)
  | down _ _ _ _ _ ih => exact ih

theorem Leads.of_idle {n m : Nat} {here loc : Location} {piece : String}
    (h : t.Leads n here [piece] m loc) (hp : Path.isStep piece = false) : n = m ∧ here = loc := by
  cases h with
  | stay _ _ h =>
    cases h
    exact ⟨rfl, rfl⟩
  | up => cases hp
  | follow _ hn => exact absurd (hn.isStep.symm.trans hp) (by simp)
  | down _ hn => exact absurd (hn.isStep.symm.trans hp) (by simp)

/-! ### Folders -/

section Folder

variable {r : Path} {top : Location}

theorem folder?_eq_some : t.folder? r = some top ↔ t.resolve r = .ok (top, .folder) := by
  rw [folder?]
  split
  next loc h => simp [h]
  next h =>
    refine iff_of_false (by simp) fun he => ?_
    exact h top he

theorem text_ne_empty_of_folder? (h : t.folder? r = some top) : r.text ≠ "" := by
  intro hr
  rw [folder?_eq_some, resolve_eq_ok, lookup, if_pos hr] at h
  cases h

theorem no_nul_of_folder? (h : t.folder? r = some top) : '\x00' ∉ r.text.toList := by
  intro hr
  have hne := text_ne_empty_of_folder? h
  rw [folder?_eq_some, resolve_eq_ok, lookup, if_neg hne, if_pos hr] at h
  cases h

/-- The last name of a path to a folder is the name of the folder. -/
theorem getLast?_of_fileName (ht : t.Plain) (h : t.folder? r = some top) {name : String}
    (hname : r.fileName = some name) : top.getLast? = some name ∧ name ≠ "" := by
  obtain ⟨⟨m, hl⟩, _⟩ := leads_of_resolve (folder?_eq_some.1 h)
  have hsteps : t.Leads maxLinks (start t.workDir r) r.steps m top := hl.filter
  have hlast : (r.front ++ r.steps.map Component.ofPiece).getLast? = some (.name name) := by
    rw [← Path.components_eq]
    exact Path.lastName_eq_some.1 hname
  rcases List.eq_nil_or_concat' r.steps with hnil | ⟨before, piece, hconcat⟩
  · rw [hnil, List.map_nil, List.append_nil, Path.front] at hlast
    split at hlast <;> simp at hlast
  · have hstep : Path.isStep piece = true := by
      have hmem : piece ∈ r.steps := hconcat ▸ List.mem_append_right _ (List.mem_singleton_self _)
      exact (List.mem_filter.1 hmem).2
    have hpiece : Component.ofPiece piece = .name name := by
      rw [hconcat] at hlast
      simpa using hlast
    rw [hconcat] at hsteps
    obtain ⟨k, mid, _, hend⟩ := hsteps.split
    cases hend with
    | stay _ hidle => exact absurd (hstep.symm.trans hidle) (by simp)
    | up => cases hpiece
    | follow _ _ he => exact absurd he (ht.not_link _ _)
    | down _ hn _ _ hdone =>
      cases hdone
      rw [Component.ofPiece, if_neg hn.ne_up] at hpiece
      cases hpiece
      exact ⟨by simp, hn.ne_empty⟩

/-- What pieces lead to below a folder. -/
def lookupBelow (t : FileTree) (top : Location) (ps : List String) : Except IoError Lookup :=
  if ∃ q ∈ ps, '\x00' ∈ q.toList then .error .nulInPath else t.walk .target maxLinks top ps

/-- However the path to a folder is written, paths below it lead to the same. -/
theorem lookup_below (ht : t.Plain) (h : t.folder? r = some top) {ps : List String}
    (hps : ∀ q ∈ ps, Path.Joinable q) (short : (r.below ps).text.utf8ByteSize < maxPathSize) :
    t.lookup .target (r.below ps) = t.lookupBelow top ps := by
  have hr := text_ne_empty_of_folder? h
  obtain ⟨⟨m, hl⟩, _⟩ := leads_of_resolve (folder?_eq_some.1 h)
  obtain rfl := hl.links_eq ht
  have hwalk : t.walk .target maxLinks (start t.workDir (r.below ps))
      (pieces (r.below ps).text) = t.walk .target maxLinks top ps := by
    rw [start, Path.isAbsolute_below hr hps, ← start]
    rcases eq_or_ne ps [] with rfl | hne
    · rw [Path.below, List.foldl_nil, ← List.append_nil (pieces r.text),
        hl.walk_append (.inl rfl)]
    · obtain ⟨front, hfront, hbelow⟩ := Path.pieces_below hr hps hne
      rw [hbelow]
      rcases hfront with hfront | hfront
      · exact (hfront ▸ hl).walk_append (.inl rfl)
      · obtain ⟨k, mid, hbefore, hslash⟩ := (hfront ▸ hl).split
        obtain ⟨rfl, rfl⟩ := hslash.of_idle rfl
        exact hbefore.walk_append (.inl rfl)
  have hnul : '\x00' ∈ (r.below ps).text.toList ↔ ∃ q ∈ ps, '\x00' ∈ q.toList := by
    rw [Path.mem_text_below hr hps rfl, or_iff_right (no_nul_of_folder? h)]
  rw [lookup, if_neg (Path.text_below_ne_empty hr hps), if_neg (not_le.2 short), hwalk, lookupBelow]
  simp only [hnul]

theorem read_below_eq (ht : t.Plain) {r' : Path} (h : t.folder? r = some top)
    (h' : t.folder? r' = some top) {ps : List String} (hps : ∀ q ∈ ps, Path.Joinable q)
    (short : (r.below ps).text.utf8ByteSize < maxPathSize)
    (short' : (r'.below ps).text.utf8ByteSize < maxPathSize) :
    t.read (r.below ps) = t.read (r'.below ps) := by
  rw [read, read, resolve, resolve, lookup_below ht h hps short, lookup_below ht h' hps short']

end Folder

/-! ### Files below a folder -/

/-- Whether every folder on the way from `top` down `names` is one, the last name aside. -/
def passable (t : FileTree) (top : Location) : List String → Bool
  | [] => true
  | [_] => true
  | name :: rest =>
    t.entry? (top ++ [name]) == some .folder && t.passable (top ++ [name]) rest

/-- Whether a file lies below `top` under the given names, with no link on the way. -/
def holdsFile (t : FileTree) (top : Location) (names : List String) : Bool :=
  t.passable top names &&
    match t.entry? (top ++ names) with
    | some (.file _) => !names.isEmpty
    | _ => false

def namesLe (a b : List String) : Bool :=
  Component.listLe (a.map Component.name) (b.map Component.name)

/-- The names that lead from `top` to each file below it, in order. -/
def filesBelow (t : FileTree) (top : Location) : List (List String) :=
  let below := t.entries.filterMap fun e =>
    if top.isPrefixOf e.1 then some (e.1.drop top.length) else none
  ((distinctBy id below).filter (t.holdsFile top)).mergeSort namesLe

section Files

variable {top : Location} {names : List String}

theorem holdsFile_iff : t.holdsFile top names = true ↔ t.passable top names = true ∧ names ≠ [] ∧
    ∃ content, t.entry? (top ++ names) = some (.file content) := by
  rw [holdsFile, Bool.and_eq_true, and_congr_right_iff]
  intro _
  split
  next content h => simp [h]
  next h => exact iff_of_false (by simp) fun ⟨_, content, hc⟩ => h content hc

theorem mem_filesBelow : names ∈ t.filesBelow top ↔ t.holdsFile top names = true := by
  rw [filesBelow, List.mem_mergeSort, List.mem_filter, and_iff_right_iff_imp]
  intro h
  obtain ⟨_, hne, content, he⟩ := holdsFile_iff.1 h
  have hentry := mem_entries_of_found he (by simp [hne])
  have hbelow : names ∈ t.entries.filterMap fun e =>
      if top.isPrefixOf e.1 then some (e.1.drop top.length) else none :=
    List.mem_filterMap.2 ⟨_, hentry, by simp⟩
  obtain ⟨names', hmem, hid⟩ := exists_mem_distinctBy id hbelow
  obtain rfl : names' = names := hid
  exact hmem

theorem pairwise_filesBelow (t : FileTree) (top : Location) :
    (t.filesBelow top).Pairwise fun a b => namesLe a b = true :=
  @List.pairwise_mergeSort _ namesLe (fun _ _ _ => Component.listLe_trans)
    (fun a b => Component.listLe_total (a.map .name) (b.map .name)) _

theorem ProperlyNamed.properName (ht : t.ProperlyNamed) (h : t.holdsFile top names = true)
    {name : String} (hname : name ∈ names) : ProperName name := by
  obtain ⟨_, hne, content, he⟩ := holdsFile_iff.1 h
  exact ht _ (mem_entries_of_found he (by simp [hne])) name (List.mem_append_right top hname)

theorem Plain.properName (ht : t.Plain) (h : names ∈ t.filesBelow top) {name : String}
    (hname : name ∈ names) : ProperName name :=
  ProperlyNamed.properName ht.names (mem_filesBelow.1 h) hname

theorem leads_of_passable {n : Nat} {e : Entry} (htop : t.entry? top = some .folder)
    (h : t.passable top names = true) (hnames : ∀ name ∈ names, Named name)
    (he : t.entry? (top ++ names) = some e) (hlink : ∀ target, e ≠ .link target) :
    t.Leads n top names n (top ++ names) := by
  induction names generalizing top with
  | nil =>
    rw [List.append_nil]
    exact .done
  | cons name rest ih =>
    obtain ⟨hname, hrest⟩ := List.forall_mem_cons.1 hnames
    cases rest with
    | nil => exact .down htop hname he hlink .done
    | cons name' rest =>
      rw [passable.eq_3 _ _ _ _ (by simp), Bool.and_eq_true, beq_iff_eq] at h
      have hsplit : top ++ name :: name' :: rest = (top ++ [name]) ++ name' :: rest := by simp
      rw [hsplit] at he ⊢
      exact .down htop hname h.1 (by simp) (ih h.1 h.2 hrest he)

theorem read_below {r : Path} (ht : t.Plain) (hr : t.folder? r = some top)
    (h : names ∈ t.filesBelow top) (short : (r.below names).text.utf8ByteSize < maxPathSize) :
    ∃ content, t.read (r.below names) = .ok content := by
  obtain ⟨hpass, _, content, he⟩ := holdsFile_iff.1 (mem_filesBelow.1 h)
  have hnames (name : String) (hname : name ∈ names) : ProperName name := ht.properName h hname
  have hnul : ¬ ∃ name ∈ names, '\x00' ∈ name.toList :=
    fun ⟨name, hname, hz⟩ => (hnames name hname).no_nul hz
  obtain ⟨_, htop⟩ := leads_of_resolve (folder?_eq_some.1 hr)
  have hleads : t.Leads maxLinks top names maxLinks (top ++ names) :=
    leads_of_passable htop hpass (fun name hname => (hnames name hname).toNamed) he (by simp)
  have hwalk := walk_eq_found_iff.2 ⟨⟨_, hleads⟩, he⟩
  refine ⟨content, read_eq_ok.2 ⟨top ++ names, resolve_eq_ok.2 ?_⟩⟩
  rw [lookup_below ht hr (fun name hname => (hnames name hname).toJoinable) short, lookupBelow,
    if_neg hnul, hwalk]

end Files

end FileTree

end EndpointCatalog
