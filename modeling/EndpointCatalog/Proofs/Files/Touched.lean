import EndpointCatalog.Proofs.Files.Changes

/-! Trees that differ where they are touched. A path that follows no link at some locations leads
on to where it led, whatever becomes of what is not a folder there. -/

namespace EndpointCatalog.FileTree

variable {t t' : FileTree} {ls : List Location} {loc : Location} {p : Path}

/-! ### Doing without links -/

def isLink (t : FileTree) (loc : Location) : Bool :=
  match t.entry? loc with
  | some (.link _) => true
  | _ => false

theorem isLink_eq_false {e : Entry} (h : t.entry? loc = some e)
    (hlink : ∀ target, e ≠ .link target) : t.isLink loc = false := by
  rw [isLink, h]
  cases e with
  | link target => exact absurd rfl (hlink target)
  | _ => rfl

/-- A tree without the links at some locations. -/
def unlinked (ls : List Location) (t : FileTree) : FileTree :=
  { t with entries := t.entries.filter fun entry => !(entry.1 ∈ ls && t.isLink entry.1) }

theorem entry?_unlinked : entry? (t.unlinked ls) loc =
    if loc ∈ ls ∧ t.isLink loc = true then none else t.entry? loc := by
  rcases eq_or_ne loc [] with rfl | hroot
  · rw [if_neg (by simp [isLink_eq_false (rfl : t.entry? [] = some .folder) nofun])]
    rfl
  · unfold entry?
    rw [if_neg hroot, if_neg hroot, unlinked,
      lookup_filter fun place => !(place ∈ ls && t.isLink place)]
    by_cases h : loc ∈ ls ∧ t.isLink loc = true
    · rw [if_pos h, if_neg (by simp [h])]
    · rw [if_neg h, if_pos (by simpa [imp_iff_not_or] using h)]

theorem entry?_unlinked_of_not_link {e : Entry} (h : t.entry? loc = some e)
    (hlink : ∀ target, e ≠ .link target) : entry? (t.unlinked ls) loc = some e := by
  rw [entry?_unlinked, if_neg (by simp [isLink_eq_false h hlink]), h]

theorem entry?_of_unlinked {e : Entry} (h : entry? (t.unlinked ls) loc = some e) :
    t.entry? loc = some e := by
  rw [entry?_unlinked] at h
  split_ifs at h
  exact h

theorem unlinked_stays (ls : List Location) (t : FileTree) : Stays (t.unlinked ls) t :=
  ⟨rfl, entry?_of_unlinked, entry?_of_unlinked⟩

/-- Without the links at some locations, only the other ones need to stay. -/
theorem stays_unlinked (hworkDir : t'.workDir = t.workDir)
    (hfolder : ∀ {loc}, t.entry? loc = some .folder → t'.entry? loc = some .folder)
    (hlink : ∀ {loc target}, loc ∉ ls → t.entry? loc = some (.link target) →
      t'.entry? loc = some (.link target)) : Stays (t.unlinked ls) (t'.unlinked ls) := by
  refine ⟨hworkDir, fun hf => entry?_unlinked_of_not_link (hfolder (entry?_of_unlinked hf)) nofun,
    fun {loc target} hl => ?_⟩
  have hloc : loc ∉ ls := by
    intro hmem
    have hentry := entry?_of_unlinked hl
    rw [entry?_unlinked, if_pos ⟨hmem, by rw [isLink, hentry]⟩] at hl
    cases hl
  rw [entry?_unlinked, if_neg fun h => hloc h.1]
  exact hlink hloc (entry?_of_unlinked hl)

theorem Stays.unlinked (h : Stays t t') (ls : List Location) :
    Stays (t.unlinked ls) (t'.unlinked ls) :=
  stays_unlinked h.workDir_eq h.folder fun _ => h.link

/-! ### Changes at some locations -/

/-- Only what stands at some locations differs, and no folder is gone. -/
structure Touches (ls : List Location) (t t' : FileTree) : Prop where
  workDir_eq : t'.workDir = t.workDir
  entry?_eq {loc : Location} (h : loc ∉ ls) : t'.entry? loc = t.entry? loc
  folder {loc : Location} (h : t.entry? loc = some .folder) : t'.entry? loc = some .folder

instance (ls : List Location) : IsPreorder FileTree (Touches ls) where
  refl _ := ⟨rfl, fun _ => rfl, id⟩
  trans _ _ _ h h' := ⟨h'.workDir_eq.trans h.workDir_eq,
    fun hloc => (h'.entry?_eq hloc).trans (h.entry?_eq hloc), fun hf => h'.folder (h.folder hf)⟩

theorem touches_put {content : Text.Utf8.Bytes} (hloc : loc ∈ ls)
    (h : t.entry? loc = none ∨ ∃ old, t.entry? loc = some (.file old)) :
    Touches ls t (t.put loc (.file content)) := by
  refine ⟨rfl, fun {other} hother => ?_, (stays_put h).folder⟩
  rw [entry?_put (ne_nil_of_free h), if_neg]
  rintro rfl
  exact hother hloc

theorem Touches.unlinked_stays (h : Touches ls t t') : Stays (t.unlinked ls) (t'.unlinked ls) :=
  stays_unlinked h.workDir_eq h.folder fun hloc hl => (h.entry?_eq hloc).trans hl

end EndpointCatalog.FileTree
