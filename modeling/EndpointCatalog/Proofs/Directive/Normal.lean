import EndpointCatalog.Proofs.Directive.LineByLine
import EndpointCatalog.Proofs.Scan.Clean

/-! Endpoints of scripts in normal form. An endpoint is trimmed and names no template. It is
its own normal form as well, unless the route it comes from ends in quotes with white space
between them: the quotes behind the last white space are dropped and those before it stay. -/

namespace EndpointCatalog.Directive

open Text.Utf8 (decodeLossy)

variable {letters : LetterCase}

/-- What normalization leaves as it is. -/
structure Normal (letters : LetterCase) (url : String) : Prop extends CleanUrl url where
  unquoted : ∀ c ∈ url.toList.getLast?, isClosingQuote c = false
  no_template : isTemplate url.toList = false
  normalize_eq : normalize letters url.toList = some url.toList

/-- A route with a closing quote that only white space parts from the quotes at its end. -/
inductive HidesQuote : List Char → Prop
  | intro (front : List Char) {q : Char} {gap quotes back : List Char}
      (hq : isClosingQuote q = true)
      (hgap : ∀ c ∈ gap, Text.isBlank c = true) (hgap' : gap ≠ [])
      (hquotes : ∀ c ∈ quotes, isClosingQuote c = true) (hquotes' : quotes ≠ [])
      (hback : ∀ c ∈ back, Text.isBlank c = true) :
      HidesQuote (front ++ q :: (gap ++ quotes) ++ back)

/-! ### Quotes -/

theorem isClosingQuote_iff {c : Char} :
    isClosingQuote c = true ↔ c = '\x27' ∨ c = '\x22' ∨ c = '\x60' := by
  simp only [isClosingQuote, Bool.or_eq_true, beq_iff_eq, or_assoc]

theorem isBlank_of_isClosingQuote {c : Char} (h : isClosingQuote c = true) :
    Text.isBlank c = false := by
  rcases isClosingQuote_iff.1 h with rfl | rfl | rfl <;> decide

theorem isClosingQuote_of_isBlank {c : Char} (h : Text.isBlank c = true) :
    isClosingQuote c = false := by
  rw [← Bool.not_eq_true]
  intro hq
  exact Bool.false_ne_true ((isBlank_of_isClosingQuote hq).symm.trans h)

/-- A closing quote is a small form of itself only, and has no other. -/
theorem isClosingQuote_smalls {c d : Char} {small : List Char} (h : small ∈ Text.smalls c)
    (hd : d ∈ small) : isClosingQuote d = isClosingQuote c := by
  rw [Bool.eq_iff_iff]
  constructor
  · intro hq
    have heq : c = d := by
      rcases isClosingQuote_iff.1 hq with rfl | rfl | rfl <;>
        exact Text.eq_of_mem_smalls h hd (by decide) (by decide) (by decide)
    rwa [heq]
  · intro hq
    have hself : Text.smalls c = [[c]] := by
      rcases isClosingQuote_iff.1 hq with rfl | rfl | rfl <;> decide +kernel
    rw [hself, List.mem_singleton] at h
    rw [h, List.mem_singleton] at hd
    rwa [hd]

/-! ### Letter case -/

theorem LetterCase.apply_apply (letters : LetterCase) (cs : List Char) :
    letters.apply (letters.apply cs) = letters.apply cs := by
  cases letters with
  | preserve => rfl
  | lower => exact Text.lowerChars_lowerChars cs

theorem LetterCase.unquoted_apply_iff (letters : LetterCase) {cs : List Char} :
    (∀ d ∈ (letters.apply cs).getLast?, isClosingQuote d = false) ↔
      ∀ c ∈ cs.getLast?, isClosingQuote c = false := by
  cases letters with
  | preserve => rfl
  | lower =>
    constructor
    · intro h c hc
      have hne : Text.lowerChars cs ≠ [] :=
        Text.lowerAfter_ne_nil [] (List.ne_nil_of_mem (List.mem_of_mem_getLast? hc))
      obtain ⟨d, hd⟩ := Option.ne_none_iff_exists'.1 (mt List.getLast?_eq_none_iff.1 hne)
      obtain ⟨c', hc', small, hsmall, hmem⟩ := Text.mem_getLast?_lowerAfter hd
      obtain rfl : c' = c := Option.mem_unique hc' hc
      rw [← isClosingQuote_smalls hsmall hmem]
      exact h d hd
    · intro h d hd
      obtain ⟨c, hc, small, hsmall, hmem⟩ := Text.mem_getLast?_lowerAfter hd
      rw [isClosingQuote_smalls hsmall hmem]
      exact h c hc

/-! ### Templates -/

theorem isTemplate_iff {route : List Char} :
    isTemplate route = true ↔ ∃ ds, ds <:+ route ∧ ds.map Char.toLower = ".html".toList := by
  rw [isTemplate, List.isSuffixOf_iff_suffix, List.suffix_map_iff]
  exact exists_congr fun ds => and_congr_right fun _ => eq_comm

theorem isTemplate_of_lowerChars {route : List Char}
    (h : isTemplate (Text.lowerChars route) = true) : isTemplate route = true := by
  obtain ⟨ds, hsuffix, hds⟩ := isTemplate_iff.1 h
  have hascii : ∀ d ∈ ds, d.toNat < 0x80 ∧ d ∉ ['\x00', 'i', 'k'] := by
    intro d hd
    have hletter : d.toLower ∈ ".html".toList := hds ▸ List.mem_map_of_mem hd
    have hletters : ∀ l ∈ ".html".toList, ∀ c ∈ [l, Char.ofNat (l.toNat - 32)],
        c.toNat < 0x80 ∧ c ∉ ['\x00', 'i', 'k'] := by
      decide
    refine hletters _ hletter d ?_
    rcases Text.eq_of_toLower_eq (rfl : d.toLower = d.toLower) with heq | heq
    · exact heq ▸ List.mem_cons_self
    · exact List.mem_cons_of_mem _ (List.mem_singleton.2 heq)
  obtain ⟨es, hes, hmap⟩ := Text.exists_suffix_of_lowerAfter hsuffix hascii
  exact isTemplate_iff.2 ⟨es, hes, hmap.trans hds⟩

theorem LetterCase.isTemplate_apply (letters : LetterCase) {route : List Char}
    (h : isTemplate route = false) : isTemplate (letters.apply route) = false := by
  cases letters with
  | preserve => exact h
  | lower =>
    rw [← Bool.not_eq_true] at h ⊢
    exact mt isTemplate_of_lowerChars h

theorem not_isTemplate_of_quoted {route : List Char} {c : Char} (hc : c ∈ route.getLast?)
    (hq : isClosingQuote c = true) : isTemplate route = false := by
  rw [← Bool.not_eq_true, isTemplate_iff]
  rintro ⟨ds, ⟨front, rfl⟩, hds⟩
  have hne : ds ≠ [] := by
    rintro rfl
    cases hds
  rw [List.getLast?_append_of_ne_nil _ hne] at hc
  have hlast : (ds.map Char.toLower).getLast? = some c.toLower := by
    rw [List.getLast?_map, hc]
    rfl
  rw [hds] at hlast
  rcases isClosingQuote_iff.1 hq with rfl | rfl | rfl <;> exact absurd hlast (by decide)

/-! ### Routes -/

theorem bareRoute_eq_self {route : List Char} (h : Text.Trimmed route)
    (hq : ∀ c ∈ route.getLast?, isClosingQuote c = false) : bareRoute route = route := by
  rw [bareRoute, h.trimChars_eq, Text.dropWhileEnd_eq_self hq, h.trimChars_eq]

theorem HidesQuote.bareRoute {raw : List Char} (h : HidesQuote raw) :
    ∃ c ∈ (bareRoute raw).getLast?, isClosingQuote c = true := by
  obtain @⟨front, q, gap, quotes, back, hq, hgap, hgap', hquotes, hquotes', hback⟩ := h
  have hblank := isBlank_of_isClosingQuote hq
  have hlast : ∀ c ∈ (q :: (gap ++ quotes)).getLast?, Text.isBlank c = false := by
    intro c hc
    rw [← List.cons_append, List.getLast?_append_of_ne_nil _ hquotes'] at hc
    exact isBlank_of_isClosingQuote (hquotes c (List.mem_of_mem_getLast? hc))
  obtain ⟨front₁, htrim₁⟩ := Text.exists_trimChars_append front (gap ++ quotes) hblank hlast hback
  have hdrop : Text.dropWhileEnd isClosingQuote (front₁ ++ q :: (gap ++ quotes)) =
      front₁ ++ [q] ++ gap := by
    rw [← List.cons_append, ← List.append_assoc, Text.dropWhileEnd_append hquotes,
      List.append_assoc, List.singleton_append]
    refine Text.dropWhileEnd_eq_self fun c hc => ?_
    rw [List.getLast?_append_of_ne_nil _ (List.cons_ne_nil q gap),
      List.getLast?_cons_of_ne_nil hgap'] at hc
    exact isClosingQuote_of_isBlank (hgap c (List.mem_of_mem_getLast? hc))
  have hlast' : ∀ c ∈ [q].getLast?, Text.isBlank c = false := by
    rintro c ⟨⟩
    exact hblank
  obtain ⟨front₂, htrim₂⟩ := Text.exists_trimChars_append front₁ [] hblank hlast' hgap
  refine ⟨q, ?_, hq⟩
  rw [Directive.bareRoute, htrim₁, hdrop, htrim₂, List.getLast?_concat]
  rfl

theorem hidesQuote_of_bareRoute {raw : List Char} {c : Char} (hc : c ∈ (bareRoute raw).getLast?)
    (hq : isClosingQuote c = true) : HidesQuote raw := by
  have htrimmed := Text.trimmed_trimChars raw
  obtain ⟨front, back, hraw, hback⟩ := Text.exists_trimChars raw
  obtain ⟨quotes, htrim, hquotes⟩ :=
    Text.exists_dropWhileEnd_append isClosingQuote (Text.trimChars raw)
  obtain ⟨lead, gap, hdrop, hgap⟩ :=
    Text.exists_trimChars (Text.dropWhileEnd isClosingQuote (Text.trimChars raw))
  change lead ++ bareRoute raw ++ gap = _ at hdrop
  obtain ⟨body, hbody⟩ := List.getLast?_eq_some_iff.1 hc
  rw [hbody] at hdrop
  have hgap' : gap ≠ [] := by
    rintro rfl
    have hlast : c ∈ (Text.dropWhileEnd isClosingQuote (Text.trimChars raw)).getLast? := by
      rw [← hdrop, List.append_nil, ← List.append_assoc, List.getLast?_concat]
      rfl
    rw [Text.not_of_mem_getLast?_dropWhileEnd hlast] at hq
    cases hq
  have hquotes' : quotes ≠ [] := by
    rintro rfl
    obtain ⟨b, hb⟩ := Option.ne_none_iff_exists'.1 (mt List.getLast?_eq_none_iff.1 hgap')
    have hlast : b ∈ (Text.trimChars raw).getLast? := by
      rw [← htrim, List.append_nil, ← hdrop, List.getLast?_append_of_ne_nil _ hgap', hb]
      rfl
    have hblank := hgap b (List.mem_of_mem_getLast? hb)
    rw [htrimmed.last b hlast] at hblank
    cases hblank
  have hform : raw = front ++ lead ++ body ++ c :: (gap ++ quotes) ++ back := by
    rw [← hraw, ← htrim, ← hdrop]
    simp only [List.append_assoc, List.cons_append, List.nil_append]
  rw [hform]
  exact .intro _ hq hgap hgap' hquotes hquotes' hback

theorem unquoted_bareRoute_iff {raw : List Char} :
    (∀ c ∈ (bareRoute raw).getLast?, isClosingQuote c = false) ↔ ¬ HidesQuote raw := by
  constructor
  · intro h hhides
    obtain ⟨c, hc, hq⟩ := hhides.bareRoute
    exact Bool.false_ne_true ((h c hc).symm.trans hq)
  · intro h c hc
    rw [← Bool.not_eq_true]
    exact fun hq => h (hidesQuote_of_bareRoute hc hq)

theorem normal_iff {raw route : List Char} (h : normalize letters raw = some route) :
    Normal letters (String.ofList route) ↔ ¬ HidesQuote raw := by
  have hclean := clean_of_normalize h
  obtain ⟨hne, htemplate, rfl⟩ := normalize_eq_some.1 h
  rw [← unquoted_bareRoute_iff, ← letters.unquoted_apply_iff]
  constructor
  · intro hnormal
    have hunquoted := hnormal.unquoted
    rwa [String.toList_ofList] at hunquoted
  · intro hunquoted
    have htemplate' := letters.isTemplate_apply htemplate
    have htrimmed := hclean.trimmed
    rw [String.toList_ofList] at htrimmed
    have hbare := bareRoute_eq_self htrimmed hunquoted
    refine ⟨hclean, ?_, ?_, ?_⟩ <;> rw [String.toList_ofList]
    · exact hunquoted
    · exact htemplate'
    · refine normalize_eq_some.2 ?_
      rw [hbare, letters.apply_apply]
      refine ⟨fun hnil => hclean.ne_empty (congrArg String.ofList hnil), htemplate', rfl⟩

/-! ### Scripts -/

/-- The endpoints of a script are trimmed and name no template, and they are all in normal
form exactly when no line has a closing quote that is hidden behind other ones. -/
theorem endpoints_normal_iff (letters : LetterCase) (script : Text.Utf8.Bytes) :
    (∀ url ∈ scriptEndpoints letters script, CleanUrl url ∧ isTemplate url.toList = false) ∧
      ((∀ url ∈ scriptEndpoints letters script, Normal letters url) ↔
        ∀ line ∈ Text.lines (decodeLossy script), ∀ raw, firstRoute line = some raw →
          ¬ HidesQuote raw) := by
  have hmem {url : String} : url ∈ scriptEndpoints letters script ↔
      ∃ line ∈ Text.lines (decodeLossy script), lineEndpoint letters line = some url :=
    List.mem_filterMap
  refine ⟨fun url hurl => ⟨clean_of_mem_scriptEndpoints hurl, ?_⟩, fun h => ?_, fun h => ?_⟩
  · obtain ⟨line, -, hline⟩ := hmem.1 hurl
    obtain ⟨raw, route, -, hroute, rfl⟩ := lineEndpoint_eq_some.1 hline
    obtain ⟨-, htemplate, rfl⟩ := normalize_eq_some.1 hroute
    rw [String.toList_ofList]
    exact letters.isTemplate_apply htemplate
  · intro line hline raw hraw hhides
    obtain ⟨c, hc, hq⟩ := hhides.bareRoute
    have hroute : normalize letters raw = some (letters.apply (bareRoute raw)) := by
      refine normalize_eq_some.2 ⟨?_, not_isTemplate_of_quoted hc hq, rfl⟩
      intro hnil
      rw [hnil] at hc
      cases hc
    have hurl := hmem.2 ⟨line, hline, lineEndpoint_eq_some.2 ⟨raw, _, hraw, hroute, rfl⟩⟩
    exact (normal_iff hroute).1 (h _ hurl) hhides
  · intro url hurl
    obtain ⟨line, hline, hurl⟩ := hmem.1 hurl
    obtain ⟨raw, route, hraw, hroute, rfl⟩ := lineEndpoint_eq_some.1 hurl
    exact (normal_iff hroute).2 (h line hline raw hraw)

/-- Two quotes with a space between them, of which the first stays. -/
theorem spacedQuotes_not_normal :
    scriptEndpoints .preserve (Text.Utf8.encode "api/x\x60 \x60".toList) = ["api/x\x60"] ∧
      normalize .preserve "api/x\x60".toList = some "api/x".toList := by
  have hlines : Text.lines (decodeLossy (Text.Utf8.encode "api/x\x60 \x60".toList)) =
      ["api/x\x60 \x60".toList] := by decide
  have hroute : firstRoute "api/x\x60 \x60".toList = some "api/x\x60 \x60".toList := by cbv
  refine ⟨?_, by decide⟩
  rw [scriptEndpoints_eq, hlines]
  simp only [List.filterMap_cons, List.filterMap_nil, lineEndpoint, hroute]
  decide

end EndpointCatalog.Directive
