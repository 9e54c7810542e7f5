import EndpointCatalog.Proofs.Extract.Mentions
import Mathlib.Data.List.Nodup

/-! Routes in quotes. A route in plain notation between two quotes is an endpoint of the
text, whole and listed once, even where a quote before it pairs up with the quote that
opens it. Only a template that began before the route could take the route in. -/

namespace EndpointCatalog.Extract

/-- A route in plain notation, with or without a slash in front, in any letter case. -/
def PlainRoute (route : List Char) : Prop :=
  ∃ lead tail, route = lead ++ tail ∧
    (lead.map Char.toLower = "/api/".toList ∨ lead.map Char.toLower = "api/".toList) ∧
    tail ≠ [] ∧ ∀ c ∈ tail, Pattern.routeChar c = true

theorem isStop_of_mem_quotes {q : Char} (h : q ∈ Pattern.quotes) : isStop q = true :=
  isStop_of_opening List.mem_cons_self (by simpa [CallForm.opening, CharSet.oneOf] using h)

theorem inside_of_mem_quotes {q : Char} (h : q ∈ Pattern.quotes) :
    CallForm.quoted.inside q = false := by
  simpa [CallForm.inside, CharSet.noneOf] using h

theorem isStop_of_routeChar {c : Char} (h : Pattern.routeChar c = true) : isStop c = false := by
  have hstops : ∀ d ∈ ['\x27', '\x22', '\x60', '?', ';', ',', ')'], Pattern.routeChar d = false := by
    decide
  have hblank : Text.isBlank c = false := by
    rw [← Bool.not_eq_true]
    intro hblank
    simp only [Pattern.routeChar, Text.isWordChar_of_isBlank hblank, Bool.false_or,
      Bool.or_eq_true, beq_iff_eq] at h
    rcases h with rfl | rfl <;> cases hblank
  rw [isStop, hblank, Bool.or_false, ← Bool.not_eq_true, List.contains_iff_mem]
  intro hc
  rw [hstops c hc] at h
  cases h

namespace PlainRoute

variable {route pre post value : List Char} {q q' : Char}

theorem ne_nil (h : PlainRoute route) : route ≠ [] := by
  obtain ⟨lead, tail, rfl, -, htail, -⟩ := h
  simp [htail]

theorem not_stop (h : PlainRoute route) : ∀ c ∈ route, isStop c = false := by
  obtain ⟨lead, tail, rfl, hlead, -, htail⟩ := h
  intro c hc
  rcases List.mem_append.1 hc with hc | hc
  · rcases hlead with hlead | hlead
    · exact (not_stop_of_toLower (by simp) hlead).2 c hc
    · exact (not_stop_of_toLower (by simp) hlead).2 c hc
  · exact isStop_of_routeChar (htail c hc)

theorem upToStop_append (h : PlainRoute route) (hq' : q' ∈ Pattern.quotes) :
    upToStop (route ++ q' :: post) = route := by
  have hfree : ∀ c ∈ route, (!isStop c) = true := fun c hc => by rw [h.not_stop c hc]; rfl
  have hend : (!isStop q') = false := by rw [isStop_of_mem_quotes hq']; rfl
  rw [upToStop, List.takeWhile_append_of_pos hfree, List.takeWhile_cons_of_neg (by simp [hend]),
    List.append_nil]

/-- Behind a quote a word begins, so the route is mentioned with or without its slash. -/
theorem mention (h : PlainRoute route) (hq : q ∈ Pattern.quotes) :
    Mention (pre ++ [q]) (route ++ post) := by
  obtain ⟨lead, tail, rfl, hlead, hne, htail⟩ := h
  obtain ⟨c, tail, rfl⟩ := List.exists_cons_of_ne_nil hne
  refine ⟨lead, c, tail ++ post, by simp, isStop_of_routeChar (htail c List.mem_cons_self), ?_⟩
  rcases hlead with hlead | hlead
  · exact .inl hlead
  · refine .inr ⟨?_, hlead⟩
    cases lead with
    | nil => cases hlead
    | cons d lead =>
      have hd : d = 'a' ∨ d = 'A' := Text.eq_of_toLower_eq (List.cons.inj hlead).1
      have hword : ∀ q ∈ Pattern.quotes, ∀ d ∈ ['a', 'A'],
          Text.isBoundary (some q) (some d) = true := by decide
      simpa using hword q hq d (by simpa using hd)

/-- Whatever has the mention of a quoted route in it has nothing else, unless a template
began before. -/
theorem eq_of_covers (h : PlainRoute route) (hq : q ∈ Pattern.quotes) (hq' : q' ∈ Pattern.quotes)
    (hpre : '\x60' ∉ pre) (hcovers : Covers (pre ++ [q]) (route ++ q' :: post) value) :
    value = route := by
  have hroute : upToStop (route ++ q' :: post) = route := h.upToStop_append hq'
  cases hcovers with
  | @bare before mid hfront hmid =>
    -- The quote stops what is read bare.
    obtain rfl := Text.eq_nil_of_concat_eq hfront hmid (by simp [isStop_of_mem_quotes hq])
    rw [List.nil_append, hroute]
  | @marked f l r before x y after hf hfront hback hl hr hinside =>
    rw [hroute] at hback hinside ⊢
    rcases List.mem_cons.1 hf with rfl | hf
    · have hx : x = [] := by
        rw [List.append_cons before l x] at hfront
        refine Text.eq_nil_of_concat_eq hfront (fun c hc => hinside c ?_) ?_
        · exact List.mem_append_left _ hc
        · simp [inside_of_mem_quotes hq]
      have hy : y = [] := by
        cases y with
        | nil => rfl
        | cons d y =>
          obtain ⟨rfl, -⟩ := List.cons.inj (List.append_cancel_left hback)
          have hd := hinside q' (by simp)
          rw [inside_of_mem_quotes hq'] at hd
          cases hd
      rw [hx, hy, List.append_nil, List.nil_append]
    · -- A template would have begun before the route.
      obtain rfl := List.mem_singleton.1 hf
      have hmem : l ∈ pre ++ [q] := hfront ▸ List.mem_append_right before List.mem_cons_self
      rw [CallForm.opening_template hl] at hmem
      rcases List.mem_append.1 hmem with hmem | hmem
      · exact absurd hmem hpre
      · rw [← List.mem_singleton.1 hmem] at hq
        exact absurd hq (by decide)

end PlainRoute

/-- A route in quotes is listed, whole and once, unless a template began before it. -/
theorem count_quoted_route {pre route post : List Char} {q q' : Char} (hroute : PlainRoute route)
    (hq : q ∈ Pattern.quotes) (hq' : q' ∈ Pattern.quotes) (hpre : '\x60' ∉ pre) :
    ((endpoints (pre ++ [q] ++ route ++ [q'] ++ post)).map (·.value)).count
      (String.ofList route) = 1 := by
  have hmention : Mention (pre ++ [q]) (route ++ q' :: post) := hroute.mention hq
  obtain ⟨c, hc, hcovers⟩ := hmention.exists_covers
  have hvalue : Text.trimChars c.value = route := by
    rw [hroute.eq_of_covers hq hq' hpre hcovers]
    exact Text.trimChars_eq_self fun d hd => isBlank_of_not_stop (hroute.not_stop d hd)
  have htext : pre ++ [q] ++ route ++ [q'] ++ post = pre ++ [q] ++ (route ++ q' :: post) := by simp
  obtain ⟨l, hl, hlv⟩ := exists_mem_endpoints hc (by rw [hvalue]; exact hroute.ne_nil)
  rw [hvalue] at hlv
  rw [htext]
  exact List.count_eq_one_of_mem (List.pairwise_map.2 (pairwise_locate _))
    (List.mem_map.2 ⟨l, hl, hlv⟩)

/-- A quote before the route pairs up with the one that opens it. -/
theorem count_quoted_route_paired :
    PlainRoute "API/new-item".toList ∧ '\x27' ∈ Pattern.quotes ∧ '\x22' ∈ Pattern.quotes ∧
      '\x60' ∉ "go('/api/old".toList ∧
      ((endpoints ("go('/api/old".toList ++ ['\x27'] ++ "API/new-item".toList ++ ['\x22'] ++
        " + x".toList)).map (·.value)).count (String.ofList "API/new-item".toList) = 1 := by
  have hroute : PlainRoute "API/new-item".toList :=
    ⟨"API/".toList, "new-item".toList, rfl, .inr rfl, by decide, by decide⟩
  have hpre : '\x60' ∉ "go('/api/old".toList := by decide
  exact ⟨hroute, by decide, by decide, hpre,
    count_quoted_route hroute (by decide) (by decide) hpre⟩

end EndpointCatalog.Extract
