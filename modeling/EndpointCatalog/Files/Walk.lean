import EndpointCatalog.Distinct
import EndpointCatalog.Files.Tree

/-! The files below a folder. A walk lists the names in a folder in order and goes down into
each folder it comes to before it goes on; links are not followed and are not files. A folder
is opened by its path, as it is written from where the walk begins; one whose path is too
long is passed over. -/

namespace EndpointCatalog.FileTree

/-- The names of the entries of a folder, in order. -/
def namesIn (t : FileTree) (folder : Location) : List String :=
  (distinctBy id (t.entries.filterMap fun e =>
    if e.1.dropLast = folder then e.1.getLast? else none)).mergeSort fun a b => a ≤ b

/-- The number of names on the way to the deepest entry. -/
def depth (t : FileTree) : Nat := t.entries.foldr (fun e d => max e.1.length d) 0

theorem length_le_depth {t : FileTree} {entry : Location × Entry} (h : entry ∈ t.entries) :
    entry.1.length ≤ t.depth := by
  rw [depth]
  generalize t.entries = entries at h
  induction entries with
  | nil => cases h
  | cons e entries ih =>
    rw [List.foldr_cons]
    rcases List.mem_cons.1 h with rfl | h
    · exact Nat.le_max_left _ _
    · exact Nat.le_trans (ih h) (Nat.le_max_right _ _)

theorem length_le_of_found {t : FileTree} {folder : Location} {name : String} {e : Entry}
    (h : t.entry? (folder ++ [name]) = some e) : folder.length < t.depth := by
  unfold entry? at h
  rw [if_neg (by simp)] at h
  obtain ⟨before, after, hentries, -⟩ := List.lookup_eq_some_iff.1 h
  have hmem : (folder ++ [name], e) ∈ t.entries := by
    rw [hentries]
    exact List.mem_append_right before List.mem_cons_self
  have hlength := length_le_depth hmem
  rw [List.length_append, List.length_singleton] at hlength
  exact hlength

/-- The files in and below a folder, each by the names on the way down to it. -/
def filesFrom (t : FileTree) (p : Path) (folder : Location) : List (List String) :=
  if maxPathSize ≤ p.text.utf8ByteSize then []
  else (t.namesIn folder).flatMap fun name =>
    match _h : t.entry? (folder ++ [name]) with
    | some .folder => (t.filesFrom (p.join name) (folder ++ [name])).map (name :: ·)
    | some (.file _) => [[name]]
    | _ => []
termination_by t.depth - folder.length
decreasing_by
  rw [List.length_append, List.length_singleton]
  have hdeep := length_le_of_found _h
  omega

end EndpointCatalog.FileTree
