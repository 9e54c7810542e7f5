import EndpointCatalog.Proofs.Pattern.Search
import Mathlib.Order.Interval.Set.LinearOrder

/-! Reconciled matches. A match of a fallback pattern stays beside those of the other patterns
exactly if it shares no byte with any of them. So what a pattern contributes to the
candidates depends on which patterns there are, but not on their order and not on how often
they are repeated. -/

namespace EndpointCatalog

namespace Candidate

variable {c d : Candidate}

/-- The bytes that a candidate takes up. -/
def span (c : Candidate) : Set Nat := Set.Ico c.start c.stop

theorem span_inter_eq_empty (hc : c.start < c.stop) (hd : d.start < d.stop) :
    c.span ∩ d.span = ∅ ↔ c.stop ≤ d.start ∨ d.stop ≤ c.start := by
  rw [span, span, Set.Ico_inter_Ico, Set.Ico_eq_empty_iff]
  omega

theorem overlaps_eq_false (hc : c.start < c.stop) (hd : d.start < d.stop) :
    d.overlaps c = false ↔ c.span ∩ d.span = ∅ := by
  rw [span_inter_eq_empty hc hd, overlaps, Bool.and_eq_false_iff, decide_eq_false_iff_not,
    decide_eq_false_iff_not, not_lt, not_lt]

end Candidate

/-- Whether an atom reads one character of a set. -/
def Atom.isOne : Atom → Bool
  | one _ => true
  | many _ | boundary => false

namespace Pattern

variable {p : Pattern} {text : List Char} {c : Candidate}

theorem fallback_eq (h : c ∈ p.candidates text) : c.fallback = p.fallback := by
  obtain ⟨_, _, rfl⟩ := List.mem_map.1 h
  rfl

theorem stop_eq (h : c ∈ p.candidates text) : c.stop = c.start + Text.byteSize c.value := by
  obtain ⟨_, _, rfl⟩ := List.mem_map.1 h
  rfl

/-- The values that a pattern finds stand one behind the other. -/
theorem pairwise_candidates (consumes : p.Consumes) (text : List Char) :
    (p.candidates text).Pairwise fun c d => c.stop ≤ d.start := by
  refine List.pairwise_map.2 ((pairwise_findFrom consumes none 0 text).imp fun {a b} hab => ?_)
  rw [Hit.text, Text.byteSize_append, Text.byteSize_append] at hab
  dsimp only
  omega

/-! ### Built-in patterns -/

/-- A built-in pattern, with or without the mark of a fallback. -/
def BuiltIn (p : Pattern) : Prop :=
  ∃ q ∈ endpoints ++ redirects, ∃ fallback, p = { q with fallback }

namespace BuiltIn

theorem of_endpoint (h : p ∈ endpoints) : p.BuiltIn :=
  ⟨p, List.mem_append_left _ h, p.fallback, rfl⟩

theorem of_redirect (h : p ∈ redirects) : p.BuiltIn :=
  ⟨p, List.mem_append_right _ h, p.fallback, rfl⟩

/-- A value of a built-in pattern has room for a character. -/
theorem exists_one (h : p.BuiltIn) : ∀ b ∈ p.branches, ∃ set, Atom.one set ∈ b.value := by
  have hone : ∀ q ∈ endpoints ++ redirects, ∀ b ∈ q.branches, b.value.any Atom.isOne = true := by
    decide
  obtain ⟨q, hq, _, rfl⟩ := h
  intro b hb
  obtain ⟨a, ha, hset⟩ := List.any_eq_true.1 (hone q hq b hb)
  cases a with
  | one set => exact ⟨set, ha⟩
  | many set => cases hset
  | boundary => cases hset

theorem consumes (h : p.BuiltIn) : p.Consumes := consumes_of_one h.exists_one

/-- A built-in pattern finds no empty value. -/
theorem start_lt_stop (h : p.BuiltIn) (hc : c ∈ p.candidates text) : c.start < c.stop := by
  obtain ⟨b, hb, hit, hreads, -, -, -, hvalue, -⟩ := mem_candidates h.consumes hc
  obtain ⟨set, hset⟩ := h.exists_one b hb
  obtain ⟨d, hd, -⟩ := Atom.exists_mem_of_readAll hset hreads.value
  obtain ⟨front, back, hsplit⟩ := List.append_of_mem hd
  have hsize := d.utf8Size_pos
  rw [stop_eq hc, hvalue, hsplit, Text.byteSize_append, Text.byteSize_cons]
  omega

end BuiltIn

end Pattern

namespace Extract

variable {ps qs : List Pattern} {text : List Char}

/-- The matches that fallback matches give way to. -/
theorem mem_claimed {d : Candidate} : d ∈ (ps.flatMap (·.candidates text)).filter (!·.fallback) ↔
    ∃ q ∈ ps, q.fallback = false ∧ d ∈ q.candidates text := by
  rw [List.mem_filter, List.mem_flatMap, Bool.not_eq_true']
  constructor
  · rintro ⟨⟨q, hq, hd⟩, hf⟩
    exact ⟨q, hq, Pattern.fallback_eq hd ▸ hf, hd⟩
  · rintro ⟨q, hq, hf, hd⟩
    exact ⟨⟨q, hq, hd⟩, (Pattern.fallback_eq hd).trans hf⟩

/-- Whether a match is kept depends on which patterns there are. -/
theorem mem_candidates_iff {c : Candidate} : c ∈ candidates ps text ↔
    (∃ p ∈ ps, c ∈ p.candidates text) ∧ (c.fallback = true →
      ∀ q ∈ ps, q.fallback = false → ∀ d ∈ q.candidates text, d.overlaps c = false) := by
  simp only [candidates]
  rw [List.mem_filter, List.mem_flatMap]
  refine and_congr_right fun _ => ?_
  rw [Bool.or_eq_true, Bool.not_eq_true', Bool.not_eq_true', List.any_eq_false]
  constructor
  · intro hkept hfallback q hq hf d hd
    have hclear := hkept.resolve_left (by simp [hfallback])
    simpa using hclear d (mem_claimed.2 ⟨q, hq, hf, hd⟩)
  · intro hkept
    cases hfallback : c.fallback with
    | false => exact .inl rfl
    | true =>
      refine .inr fun d hd => ?_
      obtain ⟨q, hq, hf, hdq⟩ := mem_claimed.1 hd
      simp [hkept hfallback q hq hf d hdq]

/-- Only matches of fallback patterns are ever dropped. -/
theorem mem_candidates_of_not_fallback {p : Pattern} (hp : p ∈ ps) (hf : p.fallback = false)
    {c : Candidate} (hc : c ∈ p.candidates text) : c ∈ candidates ps text := by
  refine mem_candidates_iff.2 ⟨⟨p, hp, hc⟩, fun hfallback => ?_⟩
  rw [Pattern.fallback_eq hc, hf] at hfallback
  cases hfallback

/-- A match that is not among the candidates overlaps one that is and no fallback. -/
theorem mem_candidates_or_overlaps {p : Pattern} (hp : p ∈ ps) {c : Candidate}
    (hc : c ∈ p.candidates text) : c ∈ candidates ps text ∨
      ∃ q ∈ ps, q.fallback = false ∧ ∃ d ∈ q.candidates text,
        d ∈ candidates ps text ∧ d.overlaps c = true := by
  refine or_iff_not_imp_left.2 fun hdropped => ?_
  by_contra hclear
  refine hdropped (mem_candidates_iff.2 ⟨⟨p, hp, hc⟩, fun _ q hq hf d hd => ?_⟩)
  by_contra hoverlaps
  exact hclear ⟨q, hq, hf, d, hd, mem_candidates_of_not_fallback hq hf hd, by simpa using hoverlaps⟩

/-! ### Blocks -/

/-- What a pattern contributes to the candidates of a set of patterns. -/
def block (ps : List Pattern) (text : List Char) (p : Pattern) : List Candidate :=
  (p.candidates text).filter (· ∈ candidates ps text)

theorem candidates_eq_flatMap (ps : List Pattern) (text : List Char) :
    candidates ps text = ps.flatMap (block ps text) := by
  -- Which matches are kept does not matter here, only that each is judged by itself.
  obtain ⟨keeps, hkeeps⟩ : ∃ keeps : Candidate → Bool,
      candidates ps text = (ps.flatMap (·.candidates text)).filter keeps := ⟨_, rfl⟩
  rw [hkeeps, List.filter_flatMap]
  refine List.flatMap_congr fun p hp => List.filter_congr fun c hc => ?_
  have hall : c ∈ ps.flatMap (·.candidates text) := List.mem_flatMap.2 ⟨p, hp, hc⟩
  rw [hkeeps, Bool.eq_iff_iff, decide_eq_true_eq, List.mem_filter, and_iff_right hall]

theorem block_of_not_fallback {p : Pattern} (hp : p ∈ ps) (hf : p.fallback = false)
    (text : List Char) : block ps text p = p.candidates text := by
  refine List.filter_eq_self.2 fun c hc => ?_
  rw [decide_eq_true_eq]
  exact mem_candidates_of_not_fallback hp hf hc

theorem block_congr (h : ∀ p, p ∈ qs ↔ p ∈ ps) (text : List Char) :
    block qs text = block ps text := by
  funext p
  refine List.filter_congr fun c _ => ?_
  simp only [mem_candidates_iff, h]

theorem candidates_congr (h : ∀ p, p ∈ qs ↔ p ∈ ps) (text : List Char) :
    candidates qs text = qs.flatMap (block ps text) := by
  rw [candidates_eq_flatMap, block_congr h]

/-- The candidates of a set of patterns are the matches that the rule for fallback patterns
keeps, in the order of the patterns and of the text; and each pattern contributes the same to
any order of the patterns and when one of them is repeated. -/
structure Reconciled (ps : List Pattern) (text : List Char) : Prop where
  listed : candidates ps text = ps.flatMap (block ps text)
  whole : ∀ p ∈ ps, p.fallback = false → block ps text p = p.candidates text
  kept : ∀ p ∈ ps, p.fallback = true → ∀ c ∈ p.candidates text, (c ∈ candidates ps text ↔
    ∀ q ∈ ps, q.fallback = false → ∀ d ∈ q.candidates text, c.span ∩ d.span = ∅)
  filled : ∀ c ∈ candidates ps text, c.start < c.stop
  ordered : ∀ p ∈ ps, (block ps text p).Pairwise fun c d =>
    c.start < d.start ∧ c.span ∩ d.span = ∅
  permuted : ∀ qs, ps.Perm qs → candidates qs text = qs.flatMap (block ps text)
  repeated : ∀ front back, ps = front ++ back → ∀ p ∈ ps, candidates (front ++ p :: back) text =
    front.flatMap (block ps text) ++ (block ps text p ++ back.flatMap (block ps text))

/-- Whichever built-in patterns there are, in whatever order, how often and with whichever of them
as fallbacks: their matches are reconciled. -/
theorem candidates_reconciled (h : ∀ p ∈ ps, p.BuiltIn) (text : List Char) :
    Reconciled ps text where
  listed := candidates_eq_flatMap ps text
  whole _ hp hf := block_of_not_fallback hp hf text
  kept p hp hf c hc := by
    rw [mem_candidates_iff, and_iff_right ⟨p, hp, hc⟩, Pattern.fallback_eq hc, hf,
      forall_prop_of_true rfl]
    have hfilled := (h p hp).start_lt_stop hc
    refine forall₄_congr fun q hq _ d => forall_congr' fun hd => ?_
    exact Candidate.overlaps_eq_false hfilled ((h q hq).start_lt_stop hd)
  filled c hc := by
    obtain ⟨⟨p, hp, hmem⟩, -⟩ := mem_candidates_iff.1 hc
    exact (h p hp).start_lt_stop hmem
  ordered p hp := by
    have hapart := (Pattern.pairwise_candidates (h p hp).consumes text).filter
      (· ∈ candidates ps text)
    refine hapart.imp_of_mem fun {c d} hc hd hcd => ?_
    have hfilled := (h p hp).start_lt_stop (List.mem_filter.1 hc).1
    have hfilled' := (h p hp).start_lt_stop (List.mem_filter.1 hd).1
    exact ⟨by omega, (Candidate.span_inter_eq_empty hfilled hfilled').2 (.inl hcd)⟩
  permuted qs hperm := candidates_congr (fun p => hperm.symm.mem_iff) text
  repeated front back hps p hp := by
    have hmem (q : Pattern) : q ∈ front ++ p :: back ↔ q ∈ ps := by
      rw [List.perm_middle.mem_iff, List.mem_cons, ← hps, or_iff_right_iff_imp]
      rintro rfl
      exact hp
    rw [candidates_congr hmem, List.flatMap_append, List.flatMap_cons]

/-- A set with fallback patterns in front of and behind a pattern that is there twice. -/
def mixedSet : List Pattern :=
  [.barePath, .templatePath, { Pattern.quotedRelative with fallback := true }, .templatePath]

theorem mixedSet_reconciled : (∀ p ∈ mixedSet, p.BuiltIn) ∧
    Reconciled mixedSet "\x60/api/a?next='api/b'\x60 api/c".toList := by
  have hbuiltIn : ∀ p ∈ mixedSet, p.BuiltIn := by
    simp only [mixedSet, List.forall_mem_cons]
    refine ⟨⟨.barePath, by simp [Pattern.endpoints], true, rfl⟩,
      ⟨.templatePath, by simp [Pattern.endpoints], false, rfl⟩,
      ⟨.quotedRelative, by simp [Pattern.endpoints], true, rfl⟩,
      ⟨.templatePath, by simp [Pattern.endpoints], false, rfl⟩, List.forall_mem_nil _⟩
  exact ⟨hbuiltIn, candidates_reconciled hbuiltIn _⟩

example : (candidates mixedSet "\x60/api/a?next='api/b'\x60 api/c".toList).map
    (fun c => (c.pattern, c.start, c.stop)) =
      [("bare_api_path", 22, 27), ("template_api_path", 1, 20), ("template_api_path", 1, 20)] := by
  cbv

end Extract

end EndpointCatalog
