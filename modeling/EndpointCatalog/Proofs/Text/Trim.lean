import EndpointCatalog.Proofs.Text.Basic
import EndpointCatalog.Text.LowerCase
import Mathlib.Data.List.DropRight

/-! Trimmed texts have no white space at either end. Trimming makes a text so, and lower case
keeps it so: no character but white space has white space for its small form. -/

namespace EndpointCatalog.Text

structure Trimmed (cs : List Char) : Prop where
  head : ∀ c ∈ cs.head?, isBlank c = false
  last : ∀ c ∈ cs.getLast?, isBlank c = false

theorem Trimmed.nil : Trimmed [] := ⟨nofun, nofun⟩

/-! ### Trimming -/

theorem not_of_mem_head?_dropWhile {p : Char → Bool} {cs : List Char} {c : Char}
    (h : c ∈ (cs.dropWhile p).head?) : p c = false := by
  induction cs with
  | nil => cases h
  | cons d cs ih =>
    rw [List.dropWhile_cons] at h
    split at h
    · exact ih h
    · next hd =>
      obtain rfl : d = c := by simpa using h
      simpa using hd

theorem trimmed_trimChars (cs : List Char) : Trimmed (trimChars cs) := by
  refine ⟨fun c hc => ?_, fun c hc => ?_⟩
  · -- What is left of a text when its end is dropped has the head of the text.
    have hfront : trimChars cs <+: cs.dropWhile isBlank := by
      rw [trimChars, dropWhileEnd, ← List.reverse_suffix, List.reverse_reverse]
      exact List.dropWhile_suffix isBlank
    obtain ⟨dropped, hcs⟩ := hfront
    have hc' : c ∈ (cs.dropWhile isBlank).head? :=
      hcs ▸ List.mem_head?_append_of_mem_head? hc
    exact not_of_mem_head?_dropWhile hc'
  · rw [trimChars, dropWhileEnd, List.getLast?_reverse] at hc
    exact not_of_mem_head?_dropWhile hc

theorem trimmed_trim (s : String) : Trimmed (trim s).toList := by
  rw [trim, String.toList_ofList]
  exact trimmed_trimChars s.toList

section

variable {p : Char → Bool} {cs front back : List Char}

theorem dropWhileEnd_append (h : ∀ c ∈ back, p c = true) :
    dropWhileEnd p (front ++ back) = dropWhileEnd p front := by
  have hback : back.reverse.dropWhile p = [] :=
    List.dropWhile_eq_nil_iff.2 fun c hc => h c (List.mem_reverse.1 hc)
  rw [dropWhileEnd, List.reverse_append, List.dropWhile_append, hback, List.isEmpty_nil, if_pos rfl,
    dropWhileEnd]

theorem dropWhileEnd_eq_self (h : ∀ c ∈ cs.getLast?, p c = false) : dropWhileEnd p cs = cs := by
  refine List.rdropWhile_eq_self_iff.2 fun hne => ?_
  rw [h _ (List.getLast?_eq_some_getLast hne)]
  exact Bool.false_ne_true

theorem exists_dropWhileEnd_append (p : Char → Bool) (cs : List Char) :
    ∃ back, dropWhileEnd p cs ++ back = cs ∧ ∀ c ∈ back, p c = true :=
  ⟨cs.rtakeWhile p, List.rdropWhile_append_rtakeWhile, fun _ => List.mem_rtakeWhile_imp⟩

theorem mem_of_mem_dropWhileEnd {c : Char} (h : c ∈ dropWhileEnd p cs) : c ∈ cs := by
  obtain ⟨back, hcs, -⟩ := exists_dropWhileEnd_append p cs
  exact hcs ▸ List.mem_append_left back h

theorem not_of_mem_getLast?_dropWhileEnd {c : Char} (h : c ∈ (dropWhileEnd p cs).getLast?) :
    p c = false := by
  rw [dropWhileEnd, List.getLast?_reverse] at h
  exact not_of_mem_head?_dropWhile h

theorem exists_trimChars (cs : List Char) :
    ∃ front back, front ++ trimChars cs ++ back = cs ∧ ∀ c ∈ back, isBlank c = true := by
  obtain ⟨back, hcs, hback⟩ := exists_dropWhileEnd_append isBlank (cs.dropWhile isBlank)
  refine ⟨cs.takeWhile isBlank, back, ?_, hback⟩
  rw [List.append_assoc, trimChars, hcs, List.takeWhile_append_dropWhile]

theorem mem_of_mem_trimChars {c : Char} (h : c ∈ trimChars cs) : c ∈ cs :=
  (List.dropWhile_suffix isBlank).subset (mem_of_mem_dropWhileEnd h)

theorem Trimmed.trimChars_eq (h : Trimmed cs) : trimChars cs = cs := by
  have hfront : cs.dropWhile isBlank = cs := by
    cases cs with
    | nil => rfl
    | cons c cs => exact List.dropWhile_cons_of_neg (by simp [h.head c rfl])
  rw [trimChars, hfront, dropWhileEnd_eq_self h.last]

/-- Trimming keeps what reaches from one character that is no white space to another. -/
theorem exists_trimChars_append (front mid : List Char) {q : Char} (hq : isBlank q = false)
    (hlast : ∀ c ∈ (q :: mid).getLast?, isBlank c = false) (hback : ∀ c ∈ back, isBlank c = true) :
    ∃ front', trimChars (front ++ q :: mid ++ back) = front' ++ q :: mid := by
  refine ⟨front.dropWhile isBlank, ?_⟩
  have hfront : (front ++ q :: mid ++ back).dropWhile isBlank =
      front.dropWhile isBlank ++ q :: mid ++ back := by
    rw [List.append_assoc, List.cons_append, List.dropWhile_append,
      List.dropWhile_cons_of_neg (by simp [hq]), List.append_assoc, List.cons_append]
    split
    next hall => rw [List.isEmpty_iff.1 hall, List.nil_append]
    next => rfl
  rw [trimChars, hfront, dropWhileEnd_append hback]
  refine dropWhileEnd_eq_self fun c hc => hlast c ?_
  rwa [List.getLast?_append_of_ne_nil _ (List.cons_ne_nil q mid)] at hc

end

/-! ### Lower case -/

/-- No run of capitals has white space among its small forms. -/
def smallApart (runs : List CaseRun) : Bool :=
  runs.all fun r => blankRanges.all fun b =>
    b.last < r.small || r.small + (r.last - r.first) < b.first

theorem caseRuns_smallApart : smallApart caseRuns = true := by
  decide +kernel

theorem covers_of_lower {runs : List CaseRun} (h : smallApart runs = true) {n : Nat}
    (hn : CodeRange.covers blankRanges (CaseRun.lower runs n) = true) :
    CodeRange.covers blankRanges n = true := by
  induction runs with
  | nil => exact hn
  | cons r runs ih =>
    rw [smallApart, List.all_cons, Bool.and_eq_true] at h
    obtain ⟨hr, hruns⟩ := h
    rw [CaseRun.lower] at hn
    split at hn
    · exact hn
    · split at hn
      next hlt hin =>
        obtain ⟨b, hb, hfirst, hlast⟩ := CodeRange.exists_of_covers hn
        have hapart := List.all_eq_true.1 hr b hb
        simp only [Bool.or_eq_true, decide_eq_true_eq, Bool.and_eq_true] at hapart hin
        omega
      next => exact ih hruns hn

theorem isBlank_ofNat {n : Nat} (h : isBlank (Char.ofNat n) = true) :
    CodeRange.covers blankRanges n = true := by
  by_cases hvalid : n.isValidChar
  · have hofNat : Char.ofNat n = Char.ofNatAux n hvalid := dif_pos hvalid
    rw [hofNat] at h
    exact h
  · have hofNat : Char.ofNat n = '\x00' := dif_neg hvalid
    rw [hofNat] at h
    exact absurd h (by decide)

theorem isBlank_of_mem_lowerChar {c d : Char} (h : d ∈ lowerChar c) (hd : isBlank d = true) :
    isBlank c = true := by
  rw [lowerChar] at h
  split at h
  · exfalso
    rcases List.mem_cons.1 h with rfl | h
    · exact absurd hd (by decide)
    · obtain rfl := List.mem_singleton.1 h
      exact absurd hd (by decide)
  · obtain rfl := List.mem_singleton.1 h
    exact covers_of_lower caseRuns_smallApart (isBlank_ofNat hd)

theorem lowerChar_ne_nil (c : Char) : lowerChar c ≠ [] := by
  rw [lowerChar]
  split <;> simp

/-- What a character can stand for in lower case, a capital sigma in two ways. -/
def smalls (c : Char) : List (List Char) := if c = 'Σ' then [['ς'], ['σ']] else [lowerChar c]

theorem lowerAfter_eq (before : List Char) (c : Char) (rest : List Char) :
    ∃ small ∈ smalls c, lowerAfter before (c :: rest) = small ++ lowerAfter (c :: before) rest := by
  rw [lowerAfter, smalls]
  split_ifs <;> simp

theorem ne_nil_of_mem_smalls {c : Char} {small : List Char} (h : small ∈ smalls c) :
    small ≠ [] := by
  rw [smalls] at h
  split_ifs at h
  · rintro rfl
    simp at h
  · rw [List.mem_singleton.1 h]
    exact lowerChar_ne_nil c

theorem isBlank_of_mem_smalls {c d : Char} {small : List Char} (h : small ∈ smalls c)
    (hd : d ∈ small) (hblank : isBlank d = true) : isBlank c = true := by
  rw [smalls] at h
  split_ifs at h
  · have hsmall : small = ['ς'] ∨ small = ['σ'] := by simpa using h
    rcases hsmall with rfl | rfl
    · rw [List.mem_singleton.1 hd] at hblank
      exact absurd hblank (by decide)
    · rw [List.mem_singleton.1 hd] at hblank
      exact absurd hblank (by decide)
  · rw [List.mem_singleton.1 h] at hd
    exact isBlank_of_mem_lowerChar hd hblank

theorem lowerAfter_ne_nil (before : List Char) {cs : List Char} (h : cs ≠ []) :
    lowerAfter before cs ≠ [] := by
  obtain ⟨c, rest, rfl⟩ := List.exists_cons_of_ne_nil h
  obtain ⟨small, hsmall, heq⟩ := lowerAfter_eq before c rest
  rw [heq]
  exact List.append_ne_nil_of_left_ne_nil (ne_nil_of_mem_smalls hsmall) _

theorem mem_head?_lowerAfter {before cs : List Char} {d : Char}
    (h : d ∈ (lowerAfter before cs).head?) : ∃ c ∈ cs.head?, ∃ small ∈ smalls c, d ∈ small := by
  cases cs with
  | nil => cases h
  | cons c rest =>
    obtain ⟨small, hsmall, heq⟩ := lowerAfter_eq before c rest
    rw [heq, List.head?_append_of_ne_nil _ (ne_nil_of_mem_smalls hsmall)] at h
    exact ⟨c, rfl, small, hsmall, List.mem_of_mem_head? h⟩

theorem mem_getLast?_lowerAfter {before cs : List Char} {d : Char}
    (h : d ∈ (lowerAfter before cs).getLast?) :
    ∃ c ∈ cs.getLast?, ∃ small ∈ smalls c, d ∈ small := by
  induction cs generalizing before with
  | nil => cases h
  | cons c rest ih =>
    obtain ⟨small, hsmall, heq⟩ := lowerAfter_eq before c rest
    rw [heq] at h
    rcases eq_or_ne rest [] with rfl | hrest
    · rw [lowerAfter, List.append_nil] at h
      exact ⟨c, rfl, small, hsmall, List.mem_of_mem_getLast? h⟩
    · rw [List.getLast?_append_of_ne_nil _ (lowerAfter_ne_nil _ hrest)] at h
      rw [List.getLast?_cons_of_ne_nil hrest]
      exact ih h

theorem Trimmed.lowerChars {cs : List Char} (h : Trimmed cs) : Trimmed (lowerChars cs) := by
  have hblank {ends : Option Char} (hends : ∀ c ∈ ends, isBlank c = false) {d : Char}
      (hd : ∃ c ∈ ends, ∃ small ∈ smalls c, d ∈ small) : isBlank d = false := by
    obtain ⟨c, hc, small, hsmall, hmem⟩ := hd
    rw [← Bool.not_eq_true]
    intro hd
    exact Bool.false_ne_true ((hends c hc).symm.trans (isBlank_of_mem_smalls hsmall hmem hd))
  exact ⟨fun d hd => hblank h.head (mem_head?_lowerAfter hd),
    fun d hd => hblank h.last (mem_getLast?_lowerAfter hd)⟩

end EndpointCatalog.Text
