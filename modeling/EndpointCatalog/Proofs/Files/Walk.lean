import EndpointCatalog.Files.Walk
import EndpointCatalog.Proofs.Files.Folders

/-! What a walk below a folder comes to. These are the files with real folders all the way down
to them, those behind a folder with too long a path aside; each comes once, and they come in
the order of the names on the way, compared one by one. -/

namespace EndpointCatalog.FileTree

variable {t : FileTree} {p : Path} {folder : Location} {names : List String}

/-! ### The order of names -/

theorem namesLe_cons {a b : String} {as bs : List String} :
    namesLe (a :: as) (b :: bs) = true ↔ a < b ∨ a = b ∧ namesLe as bs = true := by
  rw [namesLe, List.map_cons, List.map_cons, Component.listLe_cons, Component.before,
    decide_eq_true_eq, Component.name.injEq, namesLe]

theorem namesLe_antisymm {as bs : List String} (h : namesLe as bs = true)
    (h' : namesLe bs as = true) : as = bs :=
  List.map_injective_iff.2 (fun _ _ => Component.name.inj) (Component.listLe_antisymm h h')

/-- Names in order, and not the same. -/
def NamesLt (as bs : List String) : Prop := namesLe as bs = true ∧ as ≠ bs

theorem namesLt_cons {a : String} {as bs : List String} (h : NamesLt as bs) :
    NamesLt (a :: as) (a :: bs) :=
  ⟨namesLe_cons.2 (.inr ⟨rfl, h.1⟩), fun heq => h.2 (List.cons.inj heq).2⟩

theorem namesLt_of_lt {a b : String} (h : a < b) (as bs : List String) :
    NamesLt (a :: as) (b :: bs) :=
  ⟨namesLe_cons.2 (.inl h), fun heq => String.lt_irrefl a ((List.cons.inj heq).1 ▸ h)⟩

/-- Lists in this order are equal if they have the same members. -/
theorem eq_of_pairwise_namesLt {as bs : List (List String)} (ha : as.Pairwise NamesLt)
    (hb : bs.Pairwise NamesLt) (h : ∀ names, names ∈ as ↔ names ∈ bs) : as = bs := by
  have hnodup {cs : List (List String)} (hc : cs.Pairwise NamesLt) : cs.Nodup :=
    hc.imp fun hlt => hlt.2
  have hperm := (List.perm_ext_iff_of_nodup (hnodup ha) (hnodup hb)).2 h
  exact @List.Perm.eq_of_pairwise _ NamesLt _ _
    (fun _ _ _ _ hlt hgt => namesLe_antisymm hlt.1 hgt.1) ha hb hperm

/-! ### One folder -/

theorem mem_namesIn {name : String} :
    name ∈ t.namesIn folder ↔ ∃ e ∈ t.entries, e.1 = folder ++ [name] := by
  rw [namesIn, List.mem_mergeSort]
  have hplace {loc : Location} :
      (if loc.dropLast = folder then loc.getLast? else none) = some name ↔
        loc = folder ++ [name] := by
    constructor
    · intro h
      split_ifs at h with hfolder
      obtain ⟨front, rfl⟩ := List.getLast?_eq_some_iff.1 h
      rw [List.dropLast_concat] at hfolder
      rw [hfolder]
    · rintro rfl
      rw [List.dropLast_concat, if_pos rfl, List.getLast?_concat]
  constructor
  · intro h
    obtain ⟨e, he, hname⟩ := List.mem_filterMap.1 (mem_of_mem_distinctBy h)
    exact ⟨e, he, hplace.1 hname⟩
  · rintro ⟨e, he, hloc⟩
    have hmem : name ∈ t.entries.filterMap fun e =>
        if e.1.dropLast = folder then e.1.getLast? else none :=
      List.mem_filterMap.2 ⟨e, he, hplace.2 hloc⟩
    obtain ⟨name', hname', rfl⟩ := exists_mem_distinctBy id hmem
    exact hname'

theorem mem_namesIn_of_found {name : String} {e : Entry}
    (h : t.entry? (folder ++ [name]) = some e) : name ∈ t.namesIn folder :=
  mem_namesIn.2 ⟨_, mem_entries_of_found h (by simp), rfl⟩

theorem pairwise_namesIn (t : FileTree) (folder : Location) :
    (t.namesIn folder).Pairwise (· < ·) := by
  have hsorted : (t.namesIn folder).Pairwise (· ≤ ·) := by
    refine (List.pairwise_mergeSort ?_ ?_ _).imp fun h => of_decide_eq_true h
    · exact fun a b c hab hbc => decide_eq_true
        (String.le_trans (of_decide_eq_true hab) (of_decide_eq_true hbc))
    · intro a b
      simpa using String.le_total a b
  have hnodup : (t.namesIn folder).Nodup :=
    (List.mergeSort_perm _ _).nodup_iff.2 (pairwise_distinctBy _)
  exact (hsorted.and hnodup).imp fun h => lt_of_le_of_ne h.1 h.2

/-! ### One step down -/

/-- What a walk comes to by way of one name in a folder. -/
def filesAt (t : FileTree) (p : Path) (folder : Location) (name : String) : List (List String) :=
  match t.entry? (folder ++ [name]) with
  | some .folder => (t.filesFrom (p.join name) (folder ++ [name])).map (name :: ·)
  | some (.file _) => [[name]]
  | _ => []

theorem filesFrom_eq (t : FileTree) (p : Path) (folder : Location) : t.filesFrom p folder =
    if maxPathSize ≤ p.text.utf8ByteSize then []
    else (t.namesIn folder).flatMap (t.filesAt p folder) := by
  rw [filesFrom]
  refine if_congr Iff.rfl rfl (congrArg (List.flatMap · _) (funext fun name => ?_))
  rw [filesAt]
  split
  next he => rw [he]
  next he => rw [he]
  next hfolder hfile =>
    split
    next he => exact absurd he hfolder
    next content he => exact absurd he (hfile content)
    next => rfl

theorem mem_filesAt {name : String} : names ∈ t.filesAt p folder name ↔
    ∃ rest, names = name :: rest ∧
      (rest = [] ∧ (∃ content, t.entry? (folder ++ [name]) = some (.file content)) ∨
        t.entry? (folder ++ [name]) = some .folder ∧
          rest ∈ t.filesFrom (p.join name) (folder ++ [name])) := by
  rw [filesAt]
  split
  next he =>
    rw [he, List.mem_map]
    simp [eq_comm, and_comm]
  next content he =>
    rw [he, List.mem_singleton]
    simp
  next hfolder hfile =>
    refine iff_of_false List.not_mem_nil ?_
    rintro ⟨rest, -, ⟨-, content, he⟩ | ⟨he, -⟩⟩
    · exact hfile content he
    · exact hfolder he

theorem mem_filesFrom_cons {name : String} {rest : List String} :
    name :: rest ∈ t.filesFrom p folder ↔ p.text.utf8ByteSize < maxPathSize ∧
      (rest = [] ∧ (∃ content, t.entry? (folder ++ [name]) = some (.file content)) ∨
        t.entry? (folder ++ [name]) = some .folder ∧
          rest ∈ t.filesFrom (p.join name) (folder ++ [name])) := by
  rw [filesFrom_eq]
  split_ifs with hlong
  · simp [Nat.not_lt.2 hlong]
  · rw [and_iff_right (Nat.not_le.1 hlong), List.mem_flatMap]
    constructor
    · rintro ⟨name', -, hmem⟩
      obtain ⟨rest', heq, hrest⟩ := mem_filesAt.1 hmem
      obtain ⟨rfl, rfl⟩ := List.cons.inj heq
      exact hrest
    · intro hrest
      have hfound : ∃ e, t.entry? (folder ++ [name]) = some e := by
        rcases hrest with ⟨-, content, he⟩ | ⟨he, -⟩
        · exact ⟨_, he⟩
        · exact ⟨_, he⟩
      obtain ⟨e, he⟩ := hfound
      exact ⟨name, mem_namesIn_of_found he, mem_filesAt.2 ⟨rest, rfl, hrest⟩⟩

theorem nil_not_mem_filesFrom : [] ∉ t.filesFrom p folder := by
  rw [filesFrom_eq]
  split_ifs
  · exact List.not_mem_nil
  · rw [List.mem_flatMap]
    rintro ⟨name, -, hmem⟩
    obtain ⟨rest, heq, -⟩ := mem_filesAt.1 hmem
    cases heq

theorem holdsFile_cons {top : Location} {name : String} {rest : List String} :
    t.holdsFile top (name :: rest) = true ↔
      rest = [] ∧ (∃ content, t.entry? (top ++ [name]) = some (.file content)) ∨
        t.entry? (top ++ [name]) = some .folder ∧ t.holdsFile (top ++ [name]) rest = true := by
  cases rest with
  | nil => simp [holdsFile_iff, passable]
  | cons name' rest =>
    rw [holdsFile_iff, holdsFile_iff, passable.eq_3 _ _ _ _ (by simp), Bool.and_eq_true,
      beq_iff_eq, List.append_assoc, List.singleton_append]
    simp [and_assoc]

/-- The fronts of some names are the empty one and those that begin with the first name. -/
theorem forall_front_cons {P : List String → Prop} {name : String} {rest : List String} :
    (∀ front, front <+: name :: rest → front ≠ name :: rest → P front) ↔
      P [] ∧ ∀ front, front <+: rest → front ≠ rest → P (name :: front) := by
  constructor
  · refine fun h => ⟨h [] List.nil_prefix nofun, fun front hfront hne => ?_⟩
    exact h (name :: front) ((List.prefix_cons_inj name).2 hfront)
      fun heq => hne (List.cons.inj heq).2
  · rintro ⟨hnil, hrest⟩ front hfront hne
    rcases List.prefix_cons_iff.1 hfront with rfl | ⟨front', rfl, hfront'⟩
    · exact hnil
    · exact hrest front' hfront' fun heq => hne (congrArg _ heq)

/-- The folders on the way down to a file are those of all fronts of its names. -/
theorem holdsFile_iff_folders {top : Location} (htop : t.entry? top = some .folder) :
    t.holdsFile top names = true ↔ names ≠ [] ∧
      (∃ content, t.entry? (top ++ names) = some (.file content)) ∧
        ∀ front, front <+: names → front ≠ names → t.entry? (top ++ front) = some .folder := by
  induction names generalizing top with
  | nil => simp [holdsFile_iff]
  | cons name rest ih =>
    rw [holdsFile_cons, forall_front_cons, List.append_nil, and_iff_right htop]
    obtain ⟨place, hplace⟩ : ∃ place, top ++ [name] = place := ⟨_, rfl⟩
    have hbelow (names : List String) : top ++ name :: names = place ++ names := by
      rw [List.append_cons, hplace]
    simp only [hplace, hbelow]
    rcases eq_or_ne rest [] with rfl | hne
    · simp [holdsFile_iff]
    · constructor
      · rintro (⟨hnil, -⟩ | ⟨hfolder, hholds⟩)
        · exact absurd hnil hne
        · exact ⟨nofun, ((ih hfolder).1 hholds).2⟩
      · rintro ⟨-, hfile, hfolders⟩
        have hfolder : t.entry? place = some .folder := by
          simpa using hfolders [] List.nil_prefix hne.symm
        exact .inr ⟨hfolder, (ih hfolder).2 ⟨hne, hfile, hfolders⟩⟩

/-! ### The whole walk -/

/-- A walk from a path can open each folder on the way down some names. -/
def Opens (p : Path) (names : List String) : Prop :=
  ∀ front, front <+: names → front ≠ names → (p.below front).text.utf8ByteSize < maxPathSize

theorem opens_nil (p : Path) : Opens p [] :=
  fun _ hfront hne => absurd (List.prefix_nil.1 hfront) hne

theorem opens_cons {name : String} {rest : List String} :
    Opens p (name :: rest) ↔ p.text.utf8ByteSize < maxPathSize ∧ Opens (p.join name) rest :=
  forall_front_cons

theorem mem_filesFrom :
    names ∈ t.filesFrom p folder ↔ t.holdsFile folder names = true ∧ Opens p names := by
  induction names generalizing p folder with
  | nil => simp [nil_not_mem_filesFrom, holdsFile_iff]
  | cons name rest ih =>
    rw [mem_filesFrom_cons, holdsFile_cons, opens_cons]
    constructor
    · rintro ⟨hp, ⟨rfl, hfile⟩ | ⟨hfolder, hrest⟩⟩
      · exact ⟨.inl ⟨rfl, hfile⟩, hp, opens_nil _⟩
      · obtain ⟨hholds, hopens⟩ := ih.1 hrest
        exact ⟨.inr ⟨hfolder, hholds⟩, hp, hopens⟩
    · rintro ⟨⟨rfl, hfile⟩ | ⟨hfolder, hholds⟩, hp, hopens⟩
      · exact ⟨hp, .inl ⟨rfl, hfile⟩⟩
      · exact ⟨hp, .inr ⟨hfolder, ih.2 ⟨hholds, hopens⟩⟩⟩

/-- Files of one folder come in the order of their names, and so do the folders in it with
all that is below them. -/
theorem pairwise_filesFrom (t : FileTree) (p : Path) (folder : Location) :
    (t.filesFrom p folder).Pairwise NamesLt := by
  induction p, folder using filesFrom.induct t with
  | case1 p folder hlong =>
    rw [filesFrom_eq, if_pos hlong]
    exact .nil
  | case2 p folder hshort ih =>
    rw [filesFrom_eq, if_neg hshort, List.pairwise_flatMap]
    refine ⟨fun name _ => ?_, (pairwise_namesIn t folder).imp fun hlt as ha bs hb => ?_⟩
    · rw [filesAt]
      split
      next he => exact List.pairwise_map.2 ((ih name he).imp namesLt_cons)
      next => exact List.pairwise_singleton _ _
      next => exact .nil
    · obtain ⟨as, rfl, -⟩ := mem_filesAt.1 ha
      obtain ⟨bs, rfl, -⟩ := mem_filesAt.1 hb
      exact namesLt_of_lt hlt as bs

/-! ### Walks that nothing stops -/

theorem utf8ByteSize_le_below (p : Path) (h : ∀ name ∈ names, Path.Joinable name) :
    p.text.utf8ByteSize ≤ (p.below names).text.utf8ByteSize := by
  induction names generalizing p with
  | nil => exact Nat.le_refl _
  | cons name rest ih =>
    obtain ⟨hname, hrest⟩ := List.forall_mem_cons.1 h
    exact Nat.le_trans (utf8ByteSize_join hname) (ih (p.join name) hrest)

theorem add_le_utf8ByteSize_join {name : String} (h : Path.Joinable name) :
    p.text.utf8ByteSize + name.utf8ByteSize ≤ (p.join name).text.utf8ByteSize := by
  rw [Path.join, h.not_isAbsolute]
  cases p.text.toList.getLast?.all Path.isSlash with
  | true => rw [String.utf8ByteSize_append]
  | false =>
    rw [String.utf8ByteSize_append, String.utf8ByteSize_append]
    omega

theorem opens_of_short (h : ∀ name ∈ names, Path.Joinable name)
    (short : (p.below names).text.utf8ByteSize < maxPathSize) : Opens p names := by
  rintro front ⟨back, rfl⟩ -
  have hbelow : p.below (front ++ back) = (p.below front).below back := List.foldl_append
  rw [hbelow] at short
  exact Nat.lt_of_le_of_lt
    (utf8ByteSize_le_below _ fun name hname => h name (List.mem_append_right front hname)) short

theorem pairwise_namesLt_filesBelow (t : FileTree) (top : Location) :
    (t.filesBelow top).Pairwise NamesLt := by
  have hnodup : (t.filesBelow top).Nodup := by
    refine (List.mergeSort_perm _ _).nodup_iff.2 (List.Nodup.filter _ ?_)
    exact pairwise_distinctBy _
  exact ((pairwise_filesBelow t top).and hnodup).imp fun h => ⟨h.1, h.2⟩

end EndpointCatalog.FileTree
