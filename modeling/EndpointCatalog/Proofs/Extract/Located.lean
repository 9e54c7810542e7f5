import EndpointCatalog.Extract.Located
import EndpointCatalog.Proofs.Distinct
import EndpointCatalog.Proofs.Text.Basic

/-! Located values. A value is listed once, at the first place where the candidates have
it, so what is listed are the first places of the values. -/

namespace EndpointCatalog.Extract

/-- A place where a value stands first. -/
structure IsFirst (found : List Located) (l : Located) : Prop where
  mem : l ∈ found
  le : ∀ d ∈ found, d.value = l.value → l.offset ≤ d.offset

theorem IsFirst.unique {found : List Located} {l m : Located} (hl : IsFirst found l)
    (hm : IsFirst found m) (h : l.value = m.value) : l = m := by
  have hle := hl.le m hm.mem h.symm
  have hge := hm.le l hl.mem h
  cases l
  cases m
  simp only [Located.mk.injEq] at h ⊢
  exact ⟨h, Nat.le_antisymm hle hge⟩

theorem foldl_min_le (ls : List Located) (n : Nat) :
    ls.foldl (min · ·.offset) n ≤ n ∧ ∀ l ∈ ls, ls.foldl (min · ·.offset) n ≤ l.offset := by
  induction ls generalizing n with
  | nil => exact ⟨Nat.le_refl n, by simp⟩
  | cons l ls ih =>
    obtain ⟨hn, hls⟩ := ih (min n l.offset)
    rw [List.foldl_cons]
    refine ⟨by omega, List.forall_mem_cons.2 ⟨by omega, hls⟩⟩

theorem foldl_min_eq (ls : List Located) (n : Nat) :
    ls.foldl (min · ·.offset) n = n ∨ ∃ l ∈ ls, ls.foldl (min · ·.offset) n = l.offset := by
  induction ls generalizing n with
  | nil => exact .inl rfl
  | cons l ls ih =>
    rw [List.foldl_cons]
    rcases ih (min n l.offset) with h | ⟨d, hd, h⟩
    · rcases Nat.le_total n l.offset with hle | hle
      · exact .inl (h.trans (Nat.min_eq_left hle))
      · exact .inr ⟨l, List.mem_cons_self, h.trans (Nat.min_eq_right hle)⟩
    · exact .inr ⟨d, List.mem_cons_of_mem l hd, h⟩

theorem isFirst_earliest {found : List Located} {l : Located} (h : l ∈ found) :
    IsFirst found (earliest found l) := by
  obtain ⟨_, hle⟩ := foldl_min_le (found.filter (·.value == l.value)) l.offset
  constructor
  · rcases foldl_min_eq (found.filter (·.value == l.value)) l.offset with heq | ⟨d, hd, heq⟩
    · rw [earliest, heq]
      exact h
    · obtain ⟨hd, hv⟩ := List.mem_filter.1 hd
      have hv : d.value = l.value := by simpa using hv
      rw [earliest, heq, ← hv]
      exact hd
  · intro d hd hv
    exact hle d (List.mem_filter.2 ⟨hd, by simpa [earliest] using hv⟩)

/-- The located values are the first places of the values. -/
theorem mem_locate_iff {cs : List Candidate} {l : Located} :
    l ∈ locate cs ↔ IsFirst (trimmed cs) l := by
  rw [locate, List.mem_map]
  constructor
  · rintro ⟨a, ha, rfl⟩
    exact isFirst_earliest (mem_of_mem_distinctBy ha)
  · intro h
    obtain ⟨a, ha, hv⟩ := exists_mem_distinctBy (fun x : Located => x.value) h.mem
    have hfirst := isFirst_earliest (mem_of_mem_distinctBy ha)
    exact ⟨a, ha, hfirst.unique h hv⟩

theorem exists_isFirst {found : List Located} {d : Located} (h : d ∈ found) :
    ∃ l, IsFirst found l ∧ l.value = d.value :=
  ⟨earliest found d, isFirst_earliest h, rfl⟩

/-- Each value that is not blank is listed. -/
theorem exists_mem_locate {cs : List Candidate} {c : Candidate} (hc : c ∈ cs)
    (hne : Text.trimChars c.value ≠ []) :
    ∃ l ∈ locate cs, l.value = String.ofList (Text.trimChars c.value) := by
  have htrimmed : (⟨String.ofList (Text.trimChars c.value), c.start⟩ : Located) ∈ trimmed cs :=
    List.mem_filterMap.2 ⟨c, hc, by simp [hne]⟩
  obtain ⟨l, hl, hvalue⟩ := exists_isFirst htrimmed
  exact ⟨l, mem_locate_iff.2 hl, hvalue⟩

theorem map_value_locate (cs : List Candidate) :
    (locate cs).map (·.value) = distinctBy id ((trimmed cs).map (·.value)) := by
  rw [distinctBy_map, locate, List.map_map]
  rfl

theorem map_value_trimmed {cs : List Candidate}
    (h : ∀ c ∈ cs, c.value ≠ [] ∧ ∀ d ∈ c.value, Text.isBlank d = false) :
    (trimmed cs).map (·.value) = cs.map fun c => String.ofList c.value := by
  induction cs with
  | nil => rfl
  | cons c cs ih =>
    obtain ⟨⟨hne, hclean⟩, hcs⟩ := List.forall_mem_cons.1 h
    have htrim : Text.trimChars c.value = c.value := Text.trimChars_eq_self hclean
    rw [List.map_cons, ← ih hcs, trimmed, trimmed, List.filterMap_cons]
    simp [htrim, hne]

theorem locate_eq_nil {cs : List Candidate} : locate cs = [] ↔ trimmed cs = [] := by
  constructor
  · intro h
    rw [List.eq_nil_iff_forall_not_mem]
    intro d hd
    obtain ⟨l, hl, _⟩ := exists_isFirst hd
    rw [← mem_locate_iff, h] at hl
    cases hl
  · intro h
    simp [locate, h, distinctBy, distinctFrom]

theorem pairwise_locate (cs : List Candidate) :
    (locate cs).Pairwise fun l m => l.value ≠ m.value :=
  List.pairwise_map.2 (pairwise_distinctBy _)

theorem value_ne_of_mem_trimmed {cs : List Candidate} {l : Located} (h : l ∈ trimmed cs) :
    l.value ≠ "" := by
  obtain ⟨c, _, hc⟩ := List.mem_filterMap.1 h
  dsimp only at hc
  split at hc
  next => cases hc
  next hne =>
    cases hc
    simpa using hne

end EndpointCatalog.Extract
