import EndpointCatalog.Proofs.Extract.Calls
import EndpointCatalog.Proofs.Extract.Mentions
import EndpointCatalog.Proofs.Text.Trim
import Mathlib.Order.Bounds.Defs

/-! What is listed of a text. The list has each value that some candidate shows, trimmed and
once, in the order in which the candidates show the values first. A value is located where
the earliest of its candidates starts, and there it stands in the text, behind white space
at most. -/

namespace EndpointCatalog

/-- What a candidate shows in a list: its value, trimmed. -/
def Candidate.shown (c : Candidate) : String := String.ofList (Text.trimChars c.value)

namespace Extract

/-- A list of located values that has what the candidates of a text call for. -/
structure Listing (text : List Char) (cs : List Candidate) (ls : List Located) : Prop where
  distinct : ls.Pairwise fun l m => l.value ≠ m.value
  clean : ∀ l ∈ ls, l.value ≠ "" ∧ Text.Trimmed l.value.toList
  stands : ∀ l ∈ ls, ∃ front back, text = front ++ back ∧ l.offset = Text.byteSize front ∧
    l.value.toList <+: back.dropWhile Text.isBlank
  earliest : ∀ l ∈ ls, IsLeast {o | ∃ c ∈ cs, c.shown = l.value ∧ c.start = o} l.offset
  complete : ∀ c ∈ cs, c.shown ≠ "" → ∃ l ∈ ls, l.value = c.shown
  ordered : (ls.map (·.value)).Pairwise fun v w =>
    (cs.map (·.shown)).idxOf v < (cs.map (·.shown)).idxOf w

/-! ### Trimmed candidates -/

section Trimmed

variable {cs : List Candidate}

theorem mem_trimmed_iff {l : Located} :
    l ∈ trimmed cs ↔ l.value ≠ "" ∧ ∃ c ∈ cs, c.shown = l.value ∧ c.start = l.offset := by
  rw [trimmed, List.mem_filterMap]
  constructor
  · rintro ⟨c, hc, h⟩
    dsimp only at h
    split at h
    next => cases h
    next hne =>
      cases h
      exact ⟨by simpa using hne, c, hc, rfl, rfl⟩
  · rintro ⟨hne, c, hc, hshown, hstart⟩
    obtain ⟨value, offset⟩ := l
    obtain rfl : c.shown = value := hshown
    obtain rfl : c.start = offset := hstart
    have hvalue : (Text.trimChars c.value).isEmpty = false := by
      simpa [Candidate.shown] using hne
    exact ⟨c, hc, by simp [hvalue, Candidate.shown]⟩

theorem map_value_trimmed_eq (cs : List Candidate) :
    (trimmed cs).map (·.value) = (cs.map (·.shown)).filter (· ≠ "") := by
  induction cs with
  | nil => rfl
  | cons c cs ih =>
    rw [trimmed] at ih ⊢
    rw [List.filterMap_cons, List.map_cons, List.filter_cons, ← ih, Candidate.shown]
    cases Text.trimChars c.value with
    | nil => rfl
    | cons d ds => simp

theorem isLeast_of_isFirst {l : Located} (h : IsFirst (trimmed cs) l) :
    IsLeast {o | ∃ c ∈ cs, c.shown = l.value ∧ c.start = o} l.offset := by
  obtain ⟨hne, hshows⟩ := mem_trimmed_iff.1 h.mem
  refine ⟨hshows, ?_⟩
  rintro o ⟨c, hc, hshown, rfl⟩
  exact h.le ⟨l.value, c.start⟩ (mem_trimmed_iff.2 ⟨hne, c, hc, hshown, rfl⟩) rfl

end Trimmed

/-! ### Places in the text -/

/-- A candidate has the value that stands where it starts. -/
theorem stands_of_mem_candidates {ps : List Pattern} (hps : ∀ p ∈ ps, p.Consumes)
    {text : List Char} {c : Candidate} (h : c ∈ candidates ps text) :
    ∃ front back, text = front ++ (c.value ++ back) ∧ c.start = Text.byteSize front := by
  obtain ⟨p, hp, hc⟩ := List.mem_flatMap.1 (List.mem_filter.1 h).1
  obtain ⟨_, _, hit, _, front, back, rfl, hvalue, hstart⟩ := Pattern.mem_candidates (hps p hp) hc
  refine ⟨front ++ hit.before, hit.after ++ back, ?_, hstart⟩
  simp [hvalue, Hit.text]

/-- Behind its white space a text begins with the trimmed form of any of its fronts. -/
theorem trimChars_prefix_dropWhile {value : List Char} (h : Text.trimChars value ≠ [])
    (back : List Char) :
    Text.trimChars value <+: (value ++ back).dropWhile Text.isBlank := by
  have hne : value.dropWhile Text.isBlank ≠ [] := by
    intro hnil
    rw [Text.trimChars, hnil] at h
    exact h rfl
  obtain ⟨dropped, hcs, -⟩ :=
    Text.exists_dropWhileEnd_append Text.isBlank (value.dropWhile Text.isBlank)
  rw [List.dropWhile_append, if_neg (by simpa using hne)]
  exact List.IsPrefix.trans ⟨dropped, hcs⟩ (List.prefix_append _ back)

/-! ### Lists -/

theorem listing_locate {ps : List Pattern} (hps : ∀ p ∈ ps, p.Consumes) (text : List Char) :
    Listing text (candidates ps text) (locate (candidates ps text)) where
  distinct := pairwise_locate _
  clean l hl := by
    obtain ⟨hne, c, _, hshown, _⟩ := mem_trimmed_iff.1 (mem_locate_iff.1 hl).mem
    refine ⟨hne, ?_⟩
    rw [← hshown, Candidate.shown, String.toList_ofList]
    exact Text.trimmed_trimChars c.value
  stands l hl := by
    obtain ⟨hne, c, hc, hshown, hstart⟩ := mem_trimmed_iff.1 (mem_locate_iff.1 hl).mem
    obtain ⟨front, back, htext, hfront⟩ := stands_of_mem_candidates hps hc
    refine ⟨front, c.value ++ back, htext, hstart.symm.trans hfront, ?_⟩
    rw [← hshown] at hne ⊢
    rw [Candidate.shown, String.toList_ofList]
    exact trimChars_prefix_dropWhile (by simpa [Candidate.shown] using hne) back
  earliest l hl := isLeast_of_isFirst (mem_locate_iff.1 hl)
  complete c hc hne := exists_mem_locate hc (by simpa [Candidate.shown] using hne)
  ordered := by
    rw [map_value_locate, map_value_trimmed_eq]
    exact pairwise_idxOf_distinctFrom (· ≠ "") [] _

/-- The endpoints and the redirects of a text are listed soundly and completely: distinct
trimmed values, each where its earliest candidate starts, in the order of the candidates. -/
theorem endpoints_redirects_listing (text : List Char) :
    Listing text (candidates Pattern.endpoints text) (endpoints text) ∧
      Listing text (candidates Pattern.redirects text) (redirects text) :=
  ⟨listing_locate all_endpoints_consume text,
    listing_locate (fun _ hp => redirects_consumes hp) text⟩

end Extract

end EndpointCatalog
