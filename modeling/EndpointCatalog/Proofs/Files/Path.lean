import EndpointCatalog.Files.Tree
import Mathlib.Data.String.Basic

/-! Paths by their components. Components are ordered totally and so are lists of them,
so that sorted lists of paths agree up to spelling when they hold the same paths. The
components of a path are what it starts with and then its steps. -/

namespace EndpointCatalog

namespace Component

/-! ### The order of components -/

theorem before_irrefl (a : Component) : a.before a = false := by
  cases a <;> simp [before]

theorem before_trans {a b c : Component} (hab : a.before b = true) (hbc : b.before c = true) :
    a.before c = true := by
  cases a <;> cases b <;> cases c <;> simp_all [before, rank, -String.lt_iff_ltb]
  exact String.lt_trans hab hbc

theorem eq_of_not_before {a b : Component} (hab : a.before b = false) (hba : b.before a = false) :
    a = b := by
  cases a <;> cases b <;> simp_all [before, rank, -String.lt_iff_ltb]
  exact String.le_antisymm hba hab

theorem not_before_of_before {a b : Component} (h : a.before b = true) : b.before a = false := by
  by_contra hba
  have haa := before_trans h (by simpa using hba)
  rw [before_irrefl] at haa
  cases haa

theorem listLe_cons {a b : Component} {as bs : List Component} :
    listLe (a :: as) (b :: bs) = true ↔ a.before b = true ∨ a = b ∧ listLe as bs = true := by
  rw [listLe, Bool.or_eq_true, Bool.and_eq_true, Bool.not_eq_true']
  constructor
  · rintro (h | ⟨hba, h⟩)
    · exact .inl h
    · cases hab : a.before b with
      | true => exact .inl rfl
      | false => exact .inr ⟨eq_of_not_before hab hba, h⟩
  · rintro (h | ⟨rfl, h⟩)
    · exact .inl h
    · exact .inr ⟨before_irrefl a, h⟩

theorem listLe_total (as bs : List Component) : (listLe as bs || listLe bs as) = true := by
  rw [Bool.or_eq_true]
  induction as generalizing bs with
  | nil => exact .inl rfl
  | cons a as ih =>
    cases bs with
    | nil => exact .inr rfl
    | cons b bs =>
      rw [listLe_cons, listLe_cons]
      by_cases hab : a.before b = true
      · exact .inl (.inl hab)
      · by_cases hba : b.before a = true
        · exact .inr (.inl hba)
        · obtain rfl := eq_of_not_before (by simpa using hab) (by simpa using hba)
          rcases ih bs with h | h
          · exact .inl (.inr ⟨rfl, h⟩)
          · exact .inr (.inr ⟨rfl, h⟩)

theorem listLe_trans {as bs cs : List Component} (hab : listLe as bs = true)
    (hbc : listLe bs cs = true) : listLe as cs = true := by
  induction as generalizing bs cs with
  | nil => rfl
  | cons a as ih =>
    cases bs with
    | nil => cases hab
    | cons b bs =>
      cases cs with
      | nil => cases hbc
      | cons c cs =>
        rw [listLe_cons] at hab hbc ⊢
        rcases hab with hab | ⟨rfl, hab⟩
        · rcases hbc with hbc | ⟨rfl, hbc⟩
          · exact .inl (before_trans hab hbc)
          · exact .inl hab
        · rcases hbc with hbc | ⟨rfl, hbc⟩
          · exact .inl hbc
          · exact .inr ⟨rfl, ih hab hbc⟩

theorem listLe_antisymm {as bs : List Component} (hab : listLe as bs = true)
    (hba : listLe bs as = true) : as = bs := by
  induction as generalizing bs with
  | nil =>
    cases bs with
    | nil => rfl
    | cons b bs => cases hba
  | cons a as ih =>
    cases bs with
    | nil => cases hab
    | cons b bs =>
      rw [listLe_cons] at hab hba
      have hlt (h : a.before b = true) : False := by
        have hn := not_before_of_before h
        rcases hba with hba | ⟨rfl, _⟩
        · exact Bool.false_ne_true (hn.symm.trans hba)
        · exact Bool.false_ne_true (hn.symm.trans h)
      rcases hab with hab | ⟨rfl, hab⟩
      · exact (hlt hab).elim
      · rcases hba with hba | ⟨_, hba⟩
        · exact (hlt hba).elim
        · rw [ih hab hba]

theorem ofPiece_injective : Function.Injective ofPiece := by
  intro a b h
  simp only [ofPiece] at h
  split at h <;> split at h <;> simp_all

theorem listLe_append_left (front as bs : List Component) :
    listLe (front ++ as) (front ++ bs) = listLe as bs := by
  induction front with
  | nil => rfl
  | cons c front ih => simp [listLe, before_irrefl, ih]

/-- Whether a component is a step, rather than what a path starts with. -/
def isStep : Component → Bool
  | root | here => false
  | up | name _ => true

theorem isStep_ofPiece (piece : String) : (ofPiece piece).isStep = true := by
  rw [ofPiece]
  split <;> rfl

end Component

namespace Path

/-! ### Sorted paths -/

theorem pairwise_mergeSort (ps : List Path) :
    (ps.mergeSort le).Pairwise fun p q => p.le q = true :=
  @List.pairwise_mergeSort _ le (fun _ _ _ => Component.listLe_trans)
    (fun p q => Component.listLe_total p.components q.components) ps

/-- Sorting the same paths in another order leads to the same list, up to spelling. -/
theorem map_components_mergeSort {ps qs : List Path} (h : ps.Perm qs) :
    (ps.mergeSort le).map components = (qs.mergeSort le).map components := by
  have hperm : (ps.mergeSort le).Perm (qs.mergeSort le) :=
    (List.mergeSort_perm ps le).trans (h.trans (List.mergeSort_perm qs le).symm)
  refine @List.Perm.eq_of_pairwise _ (fun as bs => Component.listLe as bs = true) _ _
    (fun _ _ _ _ => Component.listLe_antisymm) ?_ ?_ (hperm.map components)
  · exact List.pairwise_map.2 (pairwise_mergeSort ps)
  · exact List.pairwise_map.2 (pairwise_mergeSort qs)

/-! ### Steps -/

/-- Whether a piece of a path leads anywhere: an empty one and `.` do not. -/
def isStep (piece : String) : Bool := piece ≠ "" && piece ≠ "."

theorem isStep_eq_true {piece : String} : isStep piece = true ↔ ¬ (piece = "" ∨ piece = ".") := by
  simp [isStep]

theorem isStep_eq_false {piece : String} : isStep piece = false ↔ piece = "" ∨ piece = "." := by
  rw [← Bool.not_eq_true, isStep_eq_true, not_not]

theorem isStep_ofList {cs : List Char} {c : Char} (hc : c ∈ cs) (hdot : c ≠ '.') :
    isStep (String.ofList cs) = true := by
  rw [isStep_eq_true, not_or]
  constructor
  · exact mt String.ofList_eq_empty_iff.1 (List.ne_nil_of_mem hc)
  · intro hpoint
    obtain rfl : cs = ".".toList := by rw [← hpoint, String.toList_ofList]
    exact hdot (List.mem_singleton.1 hc)

/-- The steps of a path are its pieces without those that lead nowhere. -/
def steps (p : Path) : List String := (FileTree.pieces p.text).filter isStep

/-- What a path starts with: the root, or a `.` that it is written with. -/
def front (p : Path) : List Component :=
  match p.isAbsolute, Text.splitPieces isSlash p.text with
  | true, _ => [.root]
  | false, "." :: _ => [.here]
  | false, _ => []

theorem splitPieces_eq (text : String) :
    Text.splitPieces isSlash text = (FileTree.pieces text).filter (· ≠ "") := by
  rw [Text.splitPieces, FileTree.pieces, List.filter_map]
  congr 1
  refine List.filter_congr fun cs _ => ?_
  cases cs <;> simp

theorem innerComponents_splitPieces (p : Path) :
    innerComponents (Text.splitPieces isSlash p.text) = p.steps.map Component.ofPiece := by
  rw [innerComponents, splitPieces_eq, steps, List.filter_filter]
  congr 2
  funext piece
  simp [isStep, Bool.and_comm]

theorem components_eq (p : Path) : p.components = p.front ++ p.steps.map Component.ofPiece := by
  rw [← innerComponents_splitPieces, components, front]
  cases p.isAbsolute with
  | true => rfl
  | false =>
    cases Text.splitPieces isSlash p.text with
    | nil => rfl
    | cons piece rest =>
      by_cases h : piece = "."
      · subst h
        simp [innerComponents]
      · simp [innerComponents, h]

theorem root_mem_components {p : Path} : .root ∈ p.components ↔ p.isAbsolute = true := by
  have hsteps : .root ∉ p.steps.map Component.ofPiece := by
    intro h
    obtain ⟨piece, _, hp⟩ := List.mem_map.1 h
    exact absurd (hp ▸ Component.isStep_ofPiece piece) (by simp [Component.isStep])
  rw [components_eq, List.mem_append, or_iff_left hsteps, front]
  cases p.isAbsolute with
  | true => simp
  | false =>
    simp only [Bool.false_eq_true, iff_false]
    split <;> simp_all

theorem map_ofPiece_steps (p : Path) :
    p.steps.map Component.ofPiece = p.components.filter Component.isStep := by
  have hfront : p.front.filter Component.isStep = [] := by
    rw [front]
    split <;> rfl
  have hsteps : (p.steps.map Component.ofPiece).filter Component.isStep =
      p.steps.map Component.ofPiece := by
    rw [List.filter_eq_self]
    intro c hc
    obtain ⟨piece, _, rfl⟩ := List.mem_map.1 hc
    exact Component.isStep_ofPiece piece
  rw [components_eq, List.filter_append, hfront, hsteps, List.nil_append]

/-- Paths with the same components start at one place and take the same steps. -/
theorem steps_eq_of_components {p q : Path} (h : p.components = q.components) :
    p.isAbsolute = q.isAbsolute ∧ p.steps = q.steps := by
  constructor
  · rw [Bool.eq_iff_iff, ← root_mem_components, ← root_mem_components, h]
  · refine List.map_injective_iff.2 Component.ofPiece_injective ?_
    rw [map_ofPiece_steps, map_ofPiece_steps, h]

end Path

end EndpointCatalog
