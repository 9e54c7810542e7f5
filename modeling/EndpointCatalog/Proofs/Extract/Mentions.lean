import EndpointCatalog.Proofs.Extract.Forms
import EndpointCatalog.Proofs.Extract.Located
import EndpointCatalog.Proofs.Extract.Reconciled

/-! Mentions of routes. Wherever a text mentions a route, some endpoint of the text has all
of the mention in it: the loose search reads the mention whole, and where its match is
dropped, it lies within the value that it overlaps. -/

namespace EndpointCatalog

open CharSet

namespace Extract

/-! ### Mentions -/

/-- The characters at which a mention of a route ends. -/
def isStop (c : Char) : Bool :=
  ['\x27', '\x22', '\x60', '?', ';', ',', ')'].contains c || Text.isBlank c

/-- The characters from a place up to the next one at which a mention ends. -/
def upToStop (cs : List Char) : List Char := cs.takeWhile (!isStop ·)

/-- Between two parts of a text starts a mention of a route: `/api/`, or `api/` at a word
boundary, in any letter case and with something behind it. -/
def Mention (front back : List Char) : Prop :=
  ∃ lead c tail, back = lead ++ c :: tail ∧ isStop c = false ∧
    (lead.map Char.toLower = "/api/".toList ∨
      Text.isBoundary front.getLast? back.head? = true ∧ lead.map Char.toLower = "api/".toList)

theorem bareChar_eq (c : Char) :
    andNotBlank (noneOf Pattern.stopChars) c = !isStop c := by
  rw [isStop, Bool.not_or]
  rfl

theorem isBlank_of_not_stop {c : Char} (h : isStop c = false) : Text.isBlank c = false :=
  (Bool.or_eq_false_iff.1 h).2

theorem isStop_of_small {c l : Char} (hl : l ∈ ['/', 'a', 'p', 'i']) (h : c.toLower = l) :
    isStop c = false := by
  have hletter : ∀ l ∈ ['/', 'a', 'p', 'i'],
      isStop l = false ∧ isStop (Char.ofNat (l.toNat - 32)) = false := by decide
  rcases Text.eq_of_toLower_eq h with rfl | rfl
  · exact (hletter _ hl).1
  · exact (hletter l hl).2

theorem small_letters {w : String} (hw : w ∈ ["/api/", "api/"]) :
    ∀ l ∈ w.toList, l ∈ ['/', 'a', 'p', 'i'] := by
  revert w
  decide

/-- No spelling of the start of a route has a stop in it. -/
theorem not_stop_of_toLower {w : String} (hw : w ∈ ["/api/", "api/"]) {lead : List Char}
    (h : lead.map Char.toLower = w.toList) : lead ≠ [] ∧ ∀ c ∈ lead, isStop c = false := by
  constructor
  · rintro rfl
    have hwords : ∀ w ∈ ["/api/", "api/"], w.toList ≠ [] := by decide
    exact hwords w hw h.symm
  · intro c hc
    exact isStop_of_small (small_letters hw _ (h ▸ List.mem_map_of_mem hc)) rfl

theorem spells_route_iff {w : String} (hw : w ∈ ["/api/", "api/"]) {lead : List Char} :
    Atom.Spells w lead ↔ lead.map Char.toLower = w.toList := by
  refine Atom.spells_iff fun l hl => ?_
  have hsmall : ∀ l ∈ ['/', 'a', 'p', 'i'], l ≠ 's' ∧ l ≠ 'k' := by decide
  exact hsmall l (small_letters hw l hl)

/-! ### The loose search -/

theorem barePath_branches :
    Pattern.barePath.branches = Pattern.looseRoute (andNotBlank (noneOf Pattern.stopChars)) := rfl

theorem barePath_match? {left : Option Char} {rest : List Char} {hit : Hit}
    (h : Pattern.barePath.match? left rest = some hit) : hit = ⟨[], upToStop rest, []⟩ := by
  obtain ⟨hhit, w, hw, lead, c, tail, rfl, hlead, hc, hroute⟩ :=
    Pattern.loose_match? barePath_branches h
  have hset : andNotBlank (noneOf Pattern.stopChars) = (!isStop ·) := funext bareChar_eq
  have hfree : ∀ d ∈ lead, (!isStop d) = true := by
    intro d hd
    rw [(not_stop_of_toLower hw ((spells_route_iff hw).1 hlead)).2 d hd]
    rfl
  rw [hhit, hroute, hset, upToStop, List.takeWhile_append_of_pos hfree]

theorem Mention.isSome_match? {front back : List Char} (h : Mention front back) :
    (Pattern.barePath.match? front.getLast? back).isSome := by
  obtain ⟨lead, c, tail, rfl, hc, hlead⟩ := h
  have hc : andNotBlank (noneOf Pattern.stopChars) c = true := by rw [bareChar_eq, hc]; rfl
  rcases hlead with hlead | ⟨hboundary, hlead⟩
  · have hspells := (spells_route_iff (by simp)).2 hlead
    exact Pattern.loose_isSome barePath_branches (.inl ⟨lead, c, tail, rfl, hspells, hc, rfl⟩)
  · have hspells := (spells_route_iff (by simp)).2 hlead
    exact Pattern.loose_isSome barePath_branches
      (.inr ⟨hboundary, lead, c, tail, rfl, hspells, hc, rfl⟩)

/-- The loose search reads a mention whole, perhaps from an earlier place on. -/
theorem Mention.exists_candidate {front back : List Char} (h : Mention front back) :
    ∃ front' mid c, front = front' ++ mid ∧ (∀ d ∈ mid ++ upToStop back, isStop d = false) ∧
      c ∈ Pattern.barePath.candidates (front ++ back) ∧ c.value = mid ++ upToStop back ∧
      c.start = Text.byteSize front' ∧ c.stop = Text.byteSize (front' ++ c.value) := by
  obtain ⟨front', mid, hit, rfl, hlt, hmatch, hmem⟩ :=
    Pattern.exists_mem_find (Pattern.loose_consumes barePath_branches) h.isSome_match?
  have hhit := barePath_match? hmatch
  have htext : hit.text = upToStop (mid ++ back) := by
    rw [hhit]
    simp [Hit.text]
  have hfree : ∀ d ∈ upToStop (mid ++ back), isStop d = false := fun d hd => by
    simpa using List.all_eq_true.1 List.all_takeWhile d hd
  have hmidText : mid <+: upToStop (mid ++ back) := by
    rw [← htext]
    exact List.prefix_of_prefix_length_le (List.prefix_append mid back)
      (htext ▸ List.takeWhile_prefix _) (Nat.le_of_lt hlt)
  have hmid : upToStop (mid ++ back) = mid ++ upToStop back := by
    refine List.takeWhile_append_of_pos fun d hd => ?_
    rw [hfree d (hmidText.subset hd)]
    rfl
  rw [hmid] at hfree hhit
  refine ⟨front', mid, _, rfl, hfree, List.mem_map_of_mem hmem, ?_, ?_, ?_⟩
  · rw [hhit]
  · rw [hhit]
    rfl
  · rw [hhit, Text.byteSize_append]
    rfl

/-! ### The other searches -/

theorem relativeRoute_hasForm {lead : List Atom} {b : Branch} (hb : b ∈ Pattern.relativeRoute lead) :
    b.HasForm .quoted := by
  have hrun : Atom.Fills (Atom.run (noneOf ('?' :: Pattern.quotes))) (noneOf Pattern.quotes) :=
    Atom.fills_run (by decide)
  rcases List.mem_cons.1 hb with rfl | hb
  · exact hasForm_marked .quoted lead [] ((Atom.fills_word (by decide) (by decide)).append hrun)
  · obtain rfl := List.mem_singleton.1 hb
    exact hasForm_marked .quoted lead [] ((Atom.fills_word (by decide) (by decide)).append hrun)

/-- All searches but the loose one look for values in quotes or between backticks. -/
theorem endpoints_hasForm {p : Pattern} (hp : p ∈ Pattern.endpoints) (hf : p.fallback = false)
    {b : Branch} (hb : b ∈ p.branches) : ∃ f ∈ [CallForm.quoted, .template], b.HasForm f := by
  have hapi : Atom.Fills (Atom.word "/api/") (noneOf Pattern.quotes) :=
    Atom.fills_word (by decide) (by decide)
  have hrest : Atom.Fills (Atom.run (noneOf Pattern.quotes)) (noneOf Pattern.quotes) :=
    Atom.fills_run (by decide)
  simp only [Pattern.endpoints, List.mem_cons, List.not_mem_nil, or_false] at hp
  rcases hp with rfl | rfl | rfl | rfl | rfl | rfl | rfl
  · obtain rfl := List.mem_singleton.1 hb
    exact ⟨.quoted, by simp,
      hasForm_marked .quoted [] [] (hapi.append (Atom.fills_run (by decide)))⟩
  · obtain rfl := List.mem_singleton.1 hb
    have hquery : Atom.Fills (Atom.word "?") (noneOf Pattern.quotes) :=
      Atom.fills_word (by decide) (by decide)
    have hpath : Atom.Fills (Atom.run (noneOf ('?' :: Pattern.quotes))) (noneOf Pattern.quotes) :=
      Atom.fills_run (by decide)
    exact ⟨.quoted, by simp,
      hasForm_marked .quoted [] [] (((hapi.append hpath).append hquery).append hrest)⟩
  · obtain rfl := List.mem_singleton.1 hb
    exact ⟨.template, by simp, hasForm_marked .template [] []
      ((Atom.fills_word (by decide) (by decide)).append (Atom.fills_run (by decide)))⟩
  · obtain rfl := List.mem_singleton.1 hb
    exact ⟨.quoted, by simp, hasForm_marked .quoted _ [] hrest⟩
  · exact ⟨.quoted, by simp, relativeRoute_hasForm hb⟩
  · exact ⟨.quoted, by simp, relativeRoute_hasForm hb⟩
  · cases hf

theorem all_endpoints_consume : ∀ p ∈ Pattern.endpoints, p.Consumes :=
  fun _ hp => (Pattern.BuiltIn.of_endpoint hp).consumes

/-! ### What stands around a mention -/

theorem encloses_of_mem_endpoints {p : Pattern} (hp : p ∈ Pattern.endpoints)
    (hf : p.fallback = false) {text : List Char} {c : Candidate} (hc : c ∈ p.candidates text) :
    ∃ f ∈ [CallForm.quoted, .template], f.Encloses text c.start c.value := by
  obtain ⟨b, hb, hit, hreads, front, back, rfl, hvalue, hstart⟩ :=
    Pattern.mem_candidates (all_endpoints_consume p hp) hc
  obtain ⟨f, hfm, hform⟩ := endpoints_hasForm hp hf hb
  exact ⟨f, hfm, hvalue ▸ hstart ▸ hform.encloses hreads front back⟩

theorem isStop_of_opening {f : CallForm} (hf : f ∈ [CallForm.quoted, .template]) {c : Char}
    (h : f.opening c = true) : isStop c = true := by
  rcases List.mem_cons.1 hf with rfl | hf
  · rcases CallForm.opening_quoted h with rfl | rfl <;> decide
  · obtain rfl := List.mem_singleton.1 hf
    rw [CallForm.opening_template h]
    decide

/-- The marks of quoted values and of templates are no part of a mention. -/
theorem not_mark_of_not_stop {f : CallForm} (hf : f ∈ [CallForm.quoted, .template]) {c : Char}
    (hc : isStop c = false) : f.opening c = false ∧ f.closing c = false := by
  have hclosing : f.closing = f.opening := by
    rcases List.mem_cons.1 hf with rfl | hf
    · rfl
    · obtain rfl := List.mem_singleton.1 hf
      rfl
  have hopening : f.opening c = false := by
    rw [← Bool.not_eq_true]
    intro h
    rw [isStop_of_opening hf h] at hc
    cases hc
  exact ⟨hopening, hclosing ▸ hopening⟩

/-- How a value has the mention between two parts of a text in it: it reads the mention
bare, from an earlier place on, or it stands between marks that are around the mention. -/
inductive Covers (front back : List Char) : List Char → Prop
  | bare {before mid : List Char} : front = before ++ mid → (∀ c ∈ mid, isStop c = false) →
      Covers front back (mid ++ upToStop back)
  | marked {f : CallForm} {l r : Char} {before x y after : List Char} :
      f ∈ [CallForm.quoted, .template] → front = before ++ l :: x →
      back = upToStop back ++ (y ++ r :: after) → f.opening l = true → f.closing r = true →
      (∀ c ∈ x ++ (upToStop back ++ y), f.inside c = true) →
      Covers front back (x ++ (upToStop back ++ y))

theorem Covers.upToStop_infix {front back value : List Char} (h : Covers front back value) :
    upToStop back <:+: value := by
  cases h with
  | @bare _ mid => exact (List.suffix_append mid (upToStop back)).isInfix
  | @marked _ _ _ _ x y => exact ⟨x, y, List.append_assoc x (upToStop back) y⟩

/-- A mention is in some candidate: where its own match is dropped, the value that the match
overlaps has all of it. -/
theorem Mention.exists_covers {front back : List Char} (h : Mention front back) :
    ∃ c ∈ candidates Pattern.endpoints (front ++ back), Covers front back c.value := by
  obtain ⟨front', mid, c, rfl, hfree, hc, hvalue, hstart, hstop⟩ := h.exists_candidate
  have hmid : ∀ d ∈ mid, isStop d = false := fun d hd => hfree d (List.mem_append_left _ hd)
  have hback : upToStop back ++ back.dropWhile (!isStop ·) = back := List.takeWhile_append_dropWhile
  have hbare : Pattern.barePath ∈ Pattern.endpoints := by simp [Pattern.endpoints]
  rcases mem_candidates_or_overlaps hbare hc with
    hkept | ⟨p, hp, hf, d, hd, hmem, hoverlaps⟩
  · exact ⟨c, hkept, hvalue ▸ .bare rfl hmid⟩
  · obtain ⟨f, hfm, henc⟩ := encloses_of_mem_endpoints hp hf hd
    have htext : front' ++ mid ++ back =
        front' ++ ((mid ++ upToStop back) ++ back.dropWhile (!isStop ·)) := by
      simp [hback]
    simp only [Candidate.overlaps, Bool.and_eq_true, decide_eq_true_eq] at hoverlaps
    rw [htext] at henc
    rw [Pattern.stop_eq hd, hstart, hstop, hvalue] at hoverlaps
    obtain ⟨before, l, x, y, r, after, rfl, hdvalue, hafter, hl, hr, hinside⟩ :=
      henc.append_of_overlap (fun d hd => not_mark_of_not_stop hfm (hfree d hd)) hoverlaps.2
        hoverlaps.1
    rw [← List.append_assoc, ← List.append_assoc, List.append_assoc (x ++ mid)] at hdvalue
    have hfront : before ++ l :: x ++ mid = before ++ l :: (x ++ mid) := by simp
    refine ⟨d, hmem, ?_⟩
    rw [hdvalue] at hinside ⊢
    exact .marked hfm hfront (by rw [← hafter, hback]) hl hr hinside

/-! ### Endpoints -/

theorem exists_mem_endpoints {text : List Char} {c : Candidate}
    (hc : c ∈ candidates Pattern.endpoints text) (hne : Text.trimChars c.value ≠ []) :
    ∃ l ∈ endpoints text, l.value = String.ofList (Text.trimChars c.value) :=
  exists_mem_locate hc hne

theorem Mention.upToStop_ne_nil {front back : List Char} (h : Mention front back) :
    upToStop back ≠ [] := by
  obtain ⟨lead, c, tail, rfl, -, hlead⟩ := h
  obtain ⟨hne, hfree⟩ : lead ≠ [] ∧ ∀ d ∈ lead, isStop d = false := by
    rcases hlead with hlead | ⟨-, hlead⟩
    · exact not_stop_of_toLower (by simp) hlead
    · exact not_stop_of_toLower (by simp) hlead
  obtain ⟨d, lead, rfl⟩ := List.exists_cons_of_ne_nil hne
  have hd := hfree d List.mem_cons_self
  rw [upToStop, List.cons_append, List.takeWhile_cons_of_pos (by rw [hd]; rfl)]
  exact List.cons_ne_nil d _

/-- Wherever a text mentions a route, some endpoint of the text has all of the mention. -/
theorem mention_within_endpoint {front back : List Char} (h : Mention front back) :
    ∃ l ∈ endpoints (front ++ back), upToStop back <:+: l.value.toList := by
  obtain ⟨c, hc, hcovers⟩ := h.exists_covers
  have hblank : ∀ d ∈ upToStop back, Text.isBlank d = false := by
    intro d hd
    have hstop : (!isStop d) = true := List.all_eq_true.1 List.all_takeWhile d hd
    exact isBlank_of_not_stop (by simpa using hstop)
  have hinfix := Text.infix_trimChars hcovers.upToStop_infix hblank
  have hne : Text.trimChars c.value ≠ [] := fun hnil =>
    h.upToStop_ne_nil (List.infix_nil.1 (hnil ▸ hinfix))
  obtain ⟨l, hl, hvalue⟩ := exists_mem_endpoints hc hne
  exact ⟨l, hl, by rwa [hvalue, String.toList_ofList]⟩

/-- A route in quotes that stand in the query of a template. -/
theorem nested_within_endpoint :
    Mention "\x60/api/list?next='".toList "API/by-name'\x60".toList ∧
      ∃ l ∈ endpoints ("\x60/api/list?next='".toList ++ "API/by-name'\x60".toList),
        upToStop "API/by-name'\x60".toList <:+: l.value.toList := by
  have hmention : Mention "\x60/api/list?next='".toList "API/by-name'\x60".toList :=
    ⟨"API/".toList, 'b', "y-name'\x60".toList, by decide, by decide, .inr ⟨by decide, by decide⟩⟩
  exact ⟨hmention, mention_within_endpoint hmention⟩

end Extract

end EndpointCatalog
