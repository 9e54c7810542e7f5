import EndpointCatalog.Proofs.Extract.Calls
import EndpointCatalog.Scan.Controller
import Mathlib

/-! The nearest redirect. Each target of a text counts only where it is called first, so
an endpoint takes the target that was called last for the first time. That is the target
of the closest call unless the text has come back to a target after calling a new one. -/

namespace EndpointCatalog

open Extract

/-- Of the places at or before an offset, one that is not before any other. -/
structure IsClosest (found : List Located) (offset : Nat) (l : Located) : Prop where
  mem : l ∈ found
  le : l.offset ≤ offset
  greatest : ∀ d ∈ found, d.offset ≤ offset → d.offset ≤ l.offset

namespace RedirectPolicy

theorem foldl_later_some (ls : List Located) (b : Located) :
    ∃ l, ls.foldl later (some b) = some l ∧ l ∈ b :: ls ∧ ∀ d ∈ b :: ls, d.offset ≤ l.offset := by
  induction ls generalizing b with
  | nil => exact ⟨b, rfl, List.mem_cons_self, by simp⟩
  | cons c ls ih =>
    rw [List.foldl_cons, later]
    split
    next hbc =>
      obtain ⟨l, hl, hm, hmax⟩ := ih c
      have hc := hmax c List.mem_cons_self
      refine ⟨l, hl, List.mem_cons_of_mem b hm, List.forall_mem_cons.2 ⟨by omega, hmax⟩⟩
    next hcb =>
      obtain ⟨l, hl, hm, hmax⟩ := ih b
      obtain ⟨hb, hls⟩ := List.forall_mem_cons.1 hmax
      refine ⟨l, hl, ?_, List.forall_mem_cons.2 ⟨hb, List.forall_mem_cons.2 ⟨by omega, hls⟩⟩⟩
      rcases List.mem_cons.1 hm with rfl | hm
      · exact List.mem_cons_self
      · exact List.mem_cons_of_mem b (List.mem_cons_of_mem c hm)

theorem preceding_eq_none {redirects : List Located} {offset : Nat}
    (h : ∀ l ∈ redirects, offset < l.offset) : preceding redirects offset = none := by
  have hnone : redirects.filter (·.offset ≤ offset) = [] := by
    simpa [List.filter_eq_nil_iff] using h
  rw [preceding, hnone]
  rfl

theorem exists_preceding {redirects : List Located} {offset : Nat} {d : Located}
    (hd : d ∈ redirects) (h : d.offset ≤ offset) :
    ∃ l, preceding redirects offset = some l ∧ IsClosest redirects offset l := by
  have hd : d ∈ redirects.filter (·.offset ≤ offset) := List.mem_filter.2 ⟨hd, by simpa using h⟩
  rw [preceding]
  cases hls : redirects.filter (·.offset ≤ offset) with
  | nil =>
    rw [hls] at hd
    cases hd
  | cons b ls =>
    obtain ⟨l, hl, hm, hmax⟩ := foldl_later_some ls b
    rw [← hls] at hm hmax
    obtain ⟨hm, hle⟩ := List.mem_filter.1 hm
    refine ⟨l, hl, hm, by simpa using hle, fun c hc hco => ?_⟩
    exact hmax c (List.mem_filter.2 ⟨hc, by simpa using hco⟩)

theorem choose_nearest_of_none {redirects : List Located} {offset : Nat}
    (h : ∀ l ∈ redirects, offset < l.offset) :
    nearest.choose redirects offset = (redirects.head?.map (·.value)).getD "" := by
  simp only [choose, preceding_eq_none h, Option.none_or]
  cases redirects <;> rfl

theorem choose_nearest_of_some {redirects : List Located} {offset : Nat} {d : Located}
    (hd : d ∈ redirects) (h : d.offset ≤ offset) :
    ∃ l, IsClosest redirects offset l ∧ nearest.choose redirects offset = l.value := by
  obtain ⟨l, hl, hclosest⟩ := exists_preceding hd h
  refine ⟨l, hclosest, ?_⟩
  simp only [choose, hl, Option.some_or]
  rfl

end RedirectPolicy

/-- The target of a closest call is the newest: when it is called first, every target that
is called up to the offset has been called. -/
def ClosestIsNewest (found : List Located) (offset : Nat) : Prop :=
  ∃ c first, IsClosest found offset c ∧ IsFirst found first ∧ first.value = c.value ∧
    ∀ d ∈ found, d.offset ≤ offset → ∃ e ∈ found, e.value = d.value ∧ e.offset ≤ first.offset

variable {text : List Char} {offset : Nat}

/-- Of the targets that are called up to an offset, the newest. -/
structure IsNewest (found : List Located) (offset : Nat) (first : Located) : Prop where
  isFirst : IsFirst found first
  le : first.offset ≤ offset
  greatest : ∀ d, IsFirst found d → d.offset ≤ offset → d.offset ≤ first.offset

theorem isNewest_of_isClosest {l : Located} (h : IsClosest (redirects text) offset l) :
    IsNewest (calls text) offset l where
  isFirst := mem_redirects_iff.1 h.mem
  le := h.le
  greatest d hd := h.greatest d (mem_redirects_iff.2 hd)

theorem closestIsNewest_iff {newest : Located} (h : IsNewest (calls text) offset newest) :
    (∃ c, IsClosest (calls text) offset c ∧ c.value = newest.value) ↔
      ClosestIsNewest (calls text) offset := by
  constructor
  · rintro ⟨c, hc, hv⟩
    refine ⟨c, newest, hc, h.isFirst, hv.symm, fun d hd hdo => ?_⟩
    obtain ⟨e, he, hev⟩ := exists_isFirst hd
    have heo : e.offset ≤ offset := Nat.le_trans (he.le d hd hev.symm) hdo
    exact ⟨e, he.mem, hev, h.greatest e he heo⟩
  · rintro ⟨c, first, hc, hfirst, hv, hall⟩
    -- The newest target has been called when `first` is, so both begin at one place.
    obtain ⟨e, he, hev, heo⟩ := hall newest h.isFirst.mem h.le
    have hle : newest.offset ≤ first.offset := Nat.le_trans (h.isFirst.le e he hev) heo
    have hco : first.offset ≤ offset := Nat.le_trans (hfirst.le c hc.mem hv.symm) hc.le
    have hge : first.offset ≤ newest.offset := h.greatest first hfirst hco
    have heq : newest = first :=
      eq_of_offset_eq h.isFirst.mem hfirst.mem (Nat.le_antisymm hle hge)
    exact ⟨c, hc, by rw [heq, hv]⟩

namespace Scan

/-- The one route of a controller with the url of an endpoint of its text. -/
theorem routes_filter_url {tree : FileTree} {options : ScanOptions} {base path : Path}
    {l : Located} (hl : l ∈ endpoints text) :
    (Controller.ofText tree options base path text).routes.filter (·.url = l.value) =
      [⟨l.value, options.policy.choose (redirects text) l.offset⟩] := by
  let scripts := (Directive.resolve tree base options.letters text).endpoints
  have hdirect : (endpoints text).filter (·.value == l.value) = [l] :=
    filter_eq_singleton (pairwise_locate _) hl
  have hfind : (endpoints text ++ scripts).find? (·.value == l.value) = some l := by
    rw [List.find?_append, ← List.head?_filter, hdirect]
    rfl
  have hmem : l ∈ distinctBy (·.value) (endpoints text ++ scripts) := by
    rw [← find?_distinctBy] at hfind
    exact List.mem_of_find?_eq_some hfind
  have hfilter : (distinctBy (·.value) (endpoints text ++ scripts)).filter
      (fun m => decide (m.value = l.value)) = [l] := by
    simpa only [beq_eq_decide] using filter_eq_singleton (pairwise_distinctBy _) hmem
  rw [Controller.ofText, List.filter_map]
  exact congrArg (List.map _) hfilter

/-- The nearest redirect of an endpoint is the newest target up to it. That is the target
of the closest call exactly if no target is called for the first time after it. Where no
call precedes the endpoint, it is the first redirect of the text, if there is any. -/
theorem nearest_redirect_iff (tree : FileTree) (options : ScanOptions) (base path : Path)
    {l : Located} (hl : l ∈ endpoints text) :
    ∃ redirect,
      (Controller.ofText tree { options with policy := .nearest } base path text).routes.filter
        (·.url = l.value) = [⟨l.value, redirect⟩] ∧
      ((∃ c ∈ calls text, c.offset ≤ l.offset) →
        (∃ newest, IsNewest (calls text) l.offset newest ∧ newest.value = redirect) ∧
        ((∃ c, IsClosest (calls text) l.offset c ∧ c.value = redirect) ↔
          ClosestIsNewest (calls text) l.offset)) ∧
      ((∀ c ∈ calls text, l.offset < c.offset) →
        redirect = ((redirects text).head?.map (·.value)).getD "" ∧
        (redirect = "" ↔ calls text = [])) := by
  refine ⟨_, routes_filter_url hl, ?_, ?_⟩
  · rintro ⟨d, hd, hdo⟩
    obtain ⟨first, hfirst, hv⟩ := exists_isFirst hd
    have hfo : first.offset ≤ l.offset := Nat.le_trans (hfirst.le d hd hv.symm) hdo
    obtain ⟨newest, hclosest, hchosen⟩ :=
      RedirectPolicy.choose_nearest_of_some (mem_redirects_iff.2 hfirst) hfo
    have hnewest := isNewest_of_isClosest hclosest
    rw [hchosen]
    exact ⟨⟨newest, hnewest, rfl⟩, closestIsNewest_iff hnewest⟩
  · intro hafter
    have hnone : ∀ r ∈ redirects text, l.offset < r.offset :=
      fun r hr => hafter r (mem_redirects_iff.1 hr).mem
    rw [RedirectPolicy.choose_nearest_of_none hnone]
    refine ⟨rfl, ?_⟩
    cases hr : redirects text with
    | nil => simp [calls, locate_eq_nil.1 hr]
    | cons r rs =>
      have hmem : r ∈ calls text := (mem_redirects_iff.1 (hr ▸ List.mem_cons_self)).mem
      have hvalue : r.value ≠ "" := value_ne_of_mem_trimmed hmem
      simpa [hvalue] using List.ne_nil_of_mem hmem

/-- A text that comes back to the target `a` before its endpoint. -/
def returningText : List Char := "$state.go('a');$state.go('b');$state.go('a');'/api/x'".toList

-- Mathlib is imported whole, as `cbv` takes equations of library functions from all over it.
theorem endpoints_returningText : endpoints returningText = [⟨"/api/x", 46⟩] := by cbv

theorem calls_returningText : calls returningText = [⟨"a", 11⟩, ⟨"b", 26⟩, ⟨"a", 41⟩] := by cbv

/-- The newest target before the endpoint is `b`, though `a` is called closest to it. -/
theorem nearest_redirect_returningText : ∃ redirect,
    (Controller.ofText ⟨[], []⟩ { ScanOptions.standard with policy := .nearest } ⟨"."⟩ ⟨"v/a.js"⟩
      returningText).routes.filter (·.url = "/api/x") = [⟨"/api/x", redirect⟩] ∧
      ∃ newest, IsNewest (calls returningText) 46 newest ∧ newest.value = redirect := by
  have hl : (⟨"/api/x", 46⟩ : Located) ∈ endpoints returningText := by
    simp [endpoints_returningText]
  obtain ⟨redirect, hroute, hpreceded, _⟩ :=
    nearest_redirect_iff ⟨[], []⟩ ScanOptions.standard ⟨"."⟩ ⟨"v/a.js"⟩ hl
  have hcall : ∃ c ∈ calls returningText, c.offset ≤ 46 :=
    ⟨⟨"a", 11⟩, by simp [calls_returningText], by decide⟩
  exact ⟨redirect, hroute, (hpreceded hcall).1⟩

/-- A repeated call does not count, so the redirect is not that of the closest call. -/
theorem returningText_not_closest :
    (Controller.ofText ⟨[], []⟩ { ScanOptions.standard with policy := .nearest } ⟨"."⟩ ⟨"v/a.js"⟩
        returningText).routes = [⟨"/api/x", "b"⟩] ∧
      (∃ c, IsClosest (calls returningText) 46 c) ∧
      ¬ ∃ c, IsClosest (calls returningText) 46 c ∧ c.value = "b" := by
  refine ⟨by cbv, ⟨⟨"a", 41⟩, ?_, ?_, ?_⟩, ?_⟩
  · simp [calls_returningText]
  · decide
  · simp [calls_returningText]
  · rintro ⟨c, hc, hv⟩
    have hlast := hc.greatest ⟨"a", 41⟩ (by simp [calls_returningText]) (by decide)
    have hmem := hc.mem
    simp only [calls_returningText, List.mem_cons, List.not_mem_nil, or_false] at hmem
    rcases hmem with rfl | rfl | rfl
    · exact absurd hv (by decide)
    · exact absurd hlast (by decide)
    · exact absurd hv (by decide)

end Scan

end EndpointCatalog
