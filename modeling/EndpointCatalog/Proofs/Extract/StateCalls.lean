import EndpointCatalog.Proofs.Extract.Calls
import EndpointCatalog.Proofs.Extract.Located
import EndpointCatalog.Proofs.Pattern.Decided
import Mathlib.Data.List.Nodup

/-! State transitions. A call of `$state.go` names a state in quotes, alone or with
arguments behind it, or by an identifier. Two calls of one form never overlap, even where
a name has the text of a call in it, so a search finds every call there is. -/

namespace EndpointCatalog

namespace Extract

/-! ### Calls -/

/-- A character of a name in quotes. -/
def InName (c : Char) : Prop :=
  c ∉ Pattern.quotes ∧ c ≠ ',' ∧ c ≠ ')' ∧ Text.isBlank c = false

instance : DecidablePred InName := fun _ => inferInstanceAs (Decidable (_ ∧ _))

/-- A call with a name in quotes, up to the character that comes next. -/
inductive QuotedCall (next : Char) : Hit → Prop
  | mk {lead name blanks : List Char} {q q' : Char} : Atom.Spells "$state.go(" lead →
      q ∈ Pattern.quotes → name ≠ [] → (∀ c ∈ name, InName c) → q' ∈ Pattern.quotes →
      (∀ c ∈ blanks, Text.isBlank c = true) →
      QuotedCall next ⟨lead ++ [q], name, q' :: (blanks ++ [next])⟩

/-- A call with an identifier. -/
inductive IdentifierCall : Hit → Prop
  | mk {lead blanks name blanks' : List Char} : Atom.Spells "$state.go(" lead →
      (∀ c ∈ blanks, Text.isBlank c = true) → name ≠ [] →
      (∀ c ∈ name, Text.isWordChar c = true) → (∀ c ∈ blanks', Text.isBlank c = true) →
      IdentifierCall ⟨lead ++ blanks, name, blanks' ++ [')']⟩

/-- How a call names a state. -/
inductive Transition
  | quoted
  | quotedArgs
  | identifier

namespace Transition

def pattern : Transition → Pattern
  | quoted => .goQuoted
  | quotedArgs => .goQuotedArgs
  | identifier => .goIdentifier

/-- A call of the form, cut into what stands before the name, the name and the rest. -/
def Spells : Transition → Hit → Prop
  | quoted => QuotedCall ')'
  | quotedArgs => QuotedCall ','
  | identifier => IdentifierCall

end Transition

/-! ### What the searches read -/

theorem inName_iff {c : Char} :
    CharSet.andNotBlank (CharSet.noneOf (Pattern.quotes ++ [',', ')'])) c = true ↔ InName c := by
  simp [CharSet.andNotBlank, CharSet.noneOf, InName, and_assoc]

theorem readAll_blanks {cs : List Char} :
    Atom.ReadAll Pattern.blanks cs ↔ ∀ c ∈ cs, Text.isBlank c = true :=
  Atom.readAll_singleton

/-- The symbols of a call have one spelling. -/
theorem spelling_symbol {s : Char} (hs : s ∈ ['$', ')', ',']) {c : Char} :
    CharSet.spelling s c = true ↔ c = s := by
  have hone : ∀ s ∈ ['$', ')', ','], s.isLower = false ∧ CharSet.spelling s s = true := by decide
  exact ⟨Atom.eq_of_spelling (hone s hs).1, fun h => h ▸ (hone s hs).2⟩

theorem readAll_symbol {s : Char} (hs : s ∈ ['$', ')', ',']) {cs : List Char} :
    Atom.ReadAll [.one (CharSet.spelling s)] cs ↔ cs = [s] := by
  rw [Atom.readAll_singleton]
  simp only [Atom.Reads, spelling_symbol hs, exists_eq_right]

def quotedBranch (next : Char) : Branch :=
  ⟨Pattern.call ++ Pattern.quote, Pattern.plainTarget,
    Pattern.quote ++ Pattern.blanks ++ [.one (CharSet.spelling next)]⟩

def identifierBranch : Branch :=
  ⟨Pattern.call ++ Pattern.blanks, Atom.run Text.isWordChar,
    Pattern.blanks ++ [.one (CharSet.spelling ')')]⟩

theorem quotedBranch_reads {next : Char} (hnext : next ∈ ['$', ')', ',']) {hit : Hit} :
    (quotedBranch next).Reads hit ↔ QuotedCall next hit := by
  constructor
  · rintro ⟨hbefore, hvalue, hafter⟩
    obtain ⟨lead, _, hlead, hspells, hquote⟩ := Atom.readAll_append.1 hbefore
    obtain ⟨front, _, hrest, hfront, hend⟩ := Atom.readAll_append.1 hafter
    obtain ⟨_, blanks, rfl, hmark, hblanks⟩ := Atom.readAll_append.1 hfront
    obtain ⟨q, hq, rfl⟩ := readAll_quote.1 hquote
    obtain ⟨q', hq', rfl⟩ := readAll_quote.1 hmark
    obtain rfl := (readAll_symbol hnext).1 hend
    obtain ⟨hne, hname⟩ := Atom.readAll_run.1 hvalue
    cases hit
    cases hlead
    cases hrest
    exact .mk (Atom.readAll_word.1 hspells) hq hne (fun c hc => inName_iff.1 (hname c hc)) hq'
      (readAll_blanks.1 hblanks)
  · rintro ⟨hlead, hq, hne, hname, hq', hblanks⟩
    constructor
    · exact Atom.readAll_append.2
        ⟨_, _, rfl, Atom.readAll_word.2 hlead, readAll_quote.2 ⟨_, hq, rfl⟩⟩
    · exact Atom.readAll_run.2 ⟨hne, fun c hc => inName_iff.2 (hname c hc)⟩
    · exact Atom.readAll_append.2 ⟨_ :: _, _, rfl,
        Atom.readAll_append.2
          ⟨[_], _, rfl, readAll_quote.2 ⟨_, hq', rfl⟩, readAll_blanks.2 hblanks⟩,
        (readAll_symbol hnext).2 rfl⟩

theorem identifierBranch_reads {hit : Hit} : identifierBranch.Reads hit ↔ IdentifierCall hit := by
  constructor
  · rintro ⟨hbefore, hvalue, hafter⟩
    obtain ⟨lead, blanks, hlead, hspells, hblanks⟩ := Atom.readAll_append.1 hbefore
    obtain ⟨blanks', _, hrest, hblanks', hend⟩ := Atom.readAll_append.1 hafter
    obtain rfl := (readAll_symbol (by simp)).1 hend
    obtain ⟨hne, hname⟩ := Atom.readAll_run.1 hvalue
    cases hit
    cases hlead
    cases hrest
    exact .mk (Atom.readAll_word.1 hspells) (readAll_blanks.1 hblanks) hne hname
      (readAll_blanks.1 hblanks')
  · rintro ⟨hlead, hblanks, hne, hname, hblanks'⟩
    constructor
    · exact Atom.readAll_append.2
        ⟨_, _, rfl, Atom.readAll_word.2 hlead, readAll_blanks.2 hblanks⟩
    · exact Atom.readAll_run.2 ⟨hne, hname⟩
    · exact Atom.readAll_append.2
        ⟨_, _, rfl, readAll_blanks.2 hblanks', (readAll_symbol (by simp)).2 rfl⟩

/-! ### Calls lie apart -/

/-- The front of a call begins with its only dollar sign. -/
theorem lead_eq {lead : List Char} (h : Atom.Spells "$state.go(" lead) :
    ∃ tail, lead = '$' :: tail ∧ '$' ∉ tail := by
  have hword : "$state.go(".toList = '$' :: "state.go(".toList := by decide
  rw [Atom.Spells, hword] at h
  obtain ⟨c, tail, hc, htail, rfl⟩ := List.forall₂_cons_left_iff.1 h
  obtain rfl := (spelling_symbol (by simp)).1 hc
  refine ⟨tail, rfl, fun hmem => ?_⟩
  obtain ⟨l, hl, hspelling⟩ := Atom.exists_of_forall₂ htail hmem
  have hnone : ∀ l ∈ "state.go(".toList, CharSet.spelling l '$' = false := by decide
  rw [hnone l hl] at hspelling
  cases hspelling

theorem quote_not_mem_lead {lead : List Char} (h : Atom.Spells "$state.go(" lead) {q : Char}
    (hq : q ∈ Pattern.quotes) : q ∉ lead := by
  intro hmem
  obtain ⟨l, hl, hspelling⟩ := Atom.exists_of_forall₂ h hmem
  have hnone : ∀ l ∈ "$state.go(".toList, ∀ q ∈ Pattern.quotes, CharSet.spelling l q = false := by
    decide
  rw [hnone l hl q hq] at hspelling
  cases hspelling

/-- Behind the closing quote of a call there is no name and no other call. -/
theorem gap_of_mem {next : Char} (hnext : next ∈ [')', ',']) {blanks : List Char}
    (hblanks : ∀ c ∈ blanks, Text.isBlank c = true) {c : Char} (hc : c ∈ blanks ++ [next]) :
    c ≠ '$' ∧ ¬ InName c := by
  rcases List.mem_append.1 hc with hc | hc
  · have hblank := hblanks c hc
    refine ⟨?_, fun hname => ?_⟩
    · rintro rfl
      cases hblank
    · rw [hname.2.2.2] at hblank
      cases hblank
  · obtain rfl := List.mem_singleton.1 hc
    rcases List.mem_cons.1 hnext with rfl | hnext
    · exact ⟨by decide, fun hname => hname.2.2.1 rfl⟩
    · obtain rfl := List.mem_singleton.1 hnext
      exact ⟨by decide, fun hname => hname.2.1 rfl⟩

/-- A call that begins within another one would begin in its name. There the quotes of the two
would be one, but no name can stand behind the closing quote of a call. -/
theorem quotedBranch_apart {next : Char} (hnext : next ∈ [')', ',']) :
    (quotedBranch next).Apart := by
  intro hit hit' h h' mid back back' htext hlt
  have hsymbol : next ∈ ['$', ')', ','] := List.mem_cons_of_mem '$' hnext
  obtain @⟨lead, name, blanks, q, q', hlead, hq, -, hname, hq', hblanks⟩ :=
    (quotedBranch_reads hsymbol).1 h
  obtain @⟨lead', name', blanks', r, r', hlead', hr, hne, hname', -, -⟩ :=
    (quotedBranch_reads hsymbol).1 h'
  obtain ⟨tail', htail', -⟩ := lead_eq hlead'
  have hlead_ne : lead' ≠ [] := by simp [htail']
  simp only [Hit.text, List.append_assoc, List.cons_append, List.nil_append] at htext
  rcases hlead.eq_nil_or_behind hlead' hlead_ne (quote_not_mem_lead hlead' hq) htext with
    hmid | ⟨rest, rfl, hbehind⟩
  · exact hmid
  rcases Text.before_or_behind hbehind hlead_ne (quote_not_mem_lead hlead' hq') with
    ⟨rest', rfl, hrest⟩ | ⟨rest', rfl, hgap⟩
  · cases rest' with
    | cons c rest' =>
      obtain ⟨rfl, -⟩ := List.cons.inj hrest
      exact absurd hr (hname r (by simp)).1
    | nil =>
      obtain ⟨-, hrest⟩ := List.cons.inj hrest
      obtain ⟨c, name', rfl⟩ := List.exists_cons_of_ne_nil hne
      rw [List.append_cons blanks] at hrest
      have hmem : c ∈ blanks ++ [next] :=
        Text.mem_of_append_eq (hrest.symm.trans (List.nil_append _).symm) (by simp)
      exact absurd (hname' c List.mem_cons_self) (gap_of_mem hnext hblanks hmem).2
  · rw [htail', List.append_cons blanks] at hgap
    have hmem : '$' ∈ blanks ++ [next] := by
      refine Text.mem_of_append_eq hgap ?_
      simp only [Hit.text, List.length_append, List.length_cons, List.length_nil] at hlt ⊢
      omega
    exact absurd rfl (gap_of_mem hnext hblanks hmem).1

/-- Only the first character of a call with an identifier is a dollar sign. -/
theorem identifierBranch_apart : identifierBranch.Apart := by
  intro hit hit' h h' mid back back' htext hlt
  obtain @⟨lead, blanks, name, blanks', hlead, hblanks, -, hname, hblanks'⟩ :=
    identifierBranch_reads.1 h
  obtain ⟨hlead'⟩ := identifierBranch_reads.1 h'
  obtain ⟨tail, rfl, htail⟩ := lead_eq hlead
  obtain ⟨tail', rfl, -⟩ := lead_eq hlead'
  cases mid with
  | nil => rfl
  | cons c mid =>
    simp only [Hit.text, List.cons_append, List.cons.injEq] at htext
    have hmem := Text.mem_of_append_eq htext.2 (by simpa [Hit.text] using hlt)
    have hblank : Text.isBlank '$' = false := by decide
    have hword : Text.isWordChar '$' = false := by decide
    simp only [List.mem_append, List.mem_singleton] at hmem
    rcases hmem with ((hmem | hmem) | hmem) | hmem | hmem
    · exact absurd hmem htail
    · exact absurd (hblanks _ hmem) (by simp [hblank])
    · exact absurd (hname _ hmem) (by simp [hword])
    · exact absurd (hblanks' _ hmem) (by simp [hblank])
    · cases hmem

/-! ### Searches for calls -/

theorem quotedBranch_decided {next : Char} (hnext : next ∈ [')', ',']) :
    Atom.Decided (quotedBranch next).atoms := by
  have hname : ∀ c, CharSet.oneOf Pattern.quotes c = true →
      CharSet.andNotBlank (CharSet.noneOf (Pattern.quotes ++ [',', ')'])) c = false := by
    intro c hc
    rw [← Bool.not_eq_true, inName_iff]
    exact fun h => h.1 (by simpa [CharSet.oneOf] using hc)
  have hblank : ∀ c, CharSet.spelling next c = true → Text.isBlank c = false := by
    intro c hc
    have hsymbols : ∀ s ∈ [')', ','], Text.isBlank s = false := by decide
    rw [(spelling_symbol (List.mem_cons_of_mem '$' hnext)).1 hc, hsymbols next hnext]
  rw [Branch.atoms, quotedBranch, Pattern.call, List.append_assoc, List.append_assoc]
  exact Atom.decided_word (Atom.decided_run hname ⟨hblank, trivial⟩)

theorem identifierBranch_decided : Atom.Decided identifierBranch.atoms := by
  have hclose : ∀ c, CharSet.spelling ')' c = true → c = ')' :=
    fun c => (spelling_symbol (by simp)).1
  have hcloseWord : ∀ c, CharSet.spelling ')' c = true → Text.isWordChar c = false := by
    intro c hc
    rw [hclose c hc]
    decide
  have hcloseBlank : ∀ c, CharSet.spelling ')' c = true → Text.isBlank c = false := by
    intro c hc
    rw [hclose c hc]
    decide
  rw [Branch.atoms, identifierBranch, Pattern.call, List.append_assoc, List.append_assoc]
  exact Atom.decided_word ⟨fun c => Text.isBlank_of_isWordChar,
    Atom.decided_run ⟨fun c => Text.isWordChar_of_isBlank, hcloseWord⟩ ⟨hcloseBlank, trivial⟩⟩

theorem Transition.exists_branch (t : Transition) :
    ∃ b, t.pattern.branches = [b] ∧ Atom.Decided b.atoms ∧ b.Apart ∧
      ∀ hit, b.Reads hit ↔ t.Spells hit := by
  cases t with
  | quoted =>
    exact ⟨quotedBranch ')', rfl, quotedBranch_decided (by simp), quotedBranch_apart (by simp),
      fun _ => quotedBranch_reads (by simp)⟩
  | quotedArgs =>
    exact ⟨quotedBranch ',', rfl, quotedBranch_decided (by simp), quotedBranch_apart (by simp),
      fun _ => quotedBranch_reads (by simp)⟩
  | identifier =>
    exact ⟨identifierBranch, rfl, identifierBranch_decided, identifierBranch_apart,
      fun _ => identifierBranch_reads⟩

theorem Transition.pattern_mem (t : Transition) :
    t.pattern ∈ Pattern.redirects ∧ t.pattern.fallback = false := by
  cases t <;> simp [pattern, Pattern.redirects] <;> rfl

theorem Transition.mem_find_iff (t : Transition) {text : List Char} {o : Nat} {hit : Hit} :
    (o, hit) ∈ t.pattern.find text ↔ t.Spells hit ∧
      ∃ front back, text = front ++ (hit.text ++ back) ∧ o = Text.byteSize front := by
  obtain ⟨b, hb, decided, apart, hreads⟩ := t.exists_branch
  rw [Pattern.mem_find_iff hb (redirects_consumes t.pattern_mem.1) decided apart, hreads]

theorem Transition.name_clean {t : Transition} {hit : Hit} (h : t.Spells hit) :
    hit.value ≠ [] ∧ ∀ c ∈ hit.value, Text.isBlank c = false := by
  cases t with
  | quoted =>
    obtain ⟨-, -, hne, hname, -, -⟩ := h
    exact ⟨hne, fun c hc => (hname c hc).2.2.2⟩
  | quotedArgs =>
    obtain ⟨-, -, hne, hname, -, -⟩ := h
    exact ⟨hne, fun c hc => (hname c hc).2.2.2⟩
  | identifier =>
    obtain ⟨-, -, hne, hname, -⟩ := h
    exact ⟨hne, fun c hc => Text.isBlank_of_isWordChar (hname c hc)⟩

/-- A search for calls of a form finds all of them, from left to right and with their names,
and each name is among the redirects of the text, once. -/
theorem Transition.calls_found (t : Transition) (text : List Char) :
    ∃ calls : List (Nat × Hit),
      (∀ o hit, (o, hit) ∈ calls ↔ t.Spells hit ∧
        ∃ front back, text = front ++ (hit.text ++ back) ∧ o = Text.byteSize front) ∧
      calls.Pairwise (fun a b => a.1 + Text.byteSize a.2.text ≤ b.1) ∧
      t.pattern.candidates text = calls.map (fun (o, hit) =>
        { pattern := t.pattern.name, value := hit.value, start := o + Text.byteSize hit.before,
          stop := o + Text.byteSize hit.before + Text.byteSize hit.value, fallback := false }) ∧
      ∀ call ∈ calls, ((redirects text).map (·.value)).count (String.ofList call.2.value) = 1 := by
  have consumes := redirects_consumes t.pattern_mem.1
  have hcandidates : t.pattern.candidates text = (t.pattern.find text).map fun (o, hit) =>
      { pattern := t.pattern.name, value := hit.value, start := o + Text.byteSize hit.before,
        stop := o + Text.byteSize hit.before + Text.byteSize hit.value, fallback := false } := by
    cases t <;> rfl
  refine ⟨t.pattern.find text, fun o hit => t.mem_find_iff,
    Pattern.pairwise_findFrom consumes _ _ _, hcandidates, fun call hcall => ?_⟩
  obtain ⟨hne, hclean⟩ := name_clean (t.mem_find_iff.1 hcall).1
  have hmem := mem_candidates_of_not_fallback t.pattern_mem.1 t.pattern_mem.2
    (hcandidates ▸ List.mem_map_of_mem hcall)
  have htrim : Text.trimChars call.2.value = call.2.value := Text.trimChars_eq_self hclean
  obtain ⟨l, hl, hvalue⟩ := exists_mem_locate hmem (by rwa [htrim])
  rw [htrim] at hvalue
  exact List.count_eq_one_of_mem (List.pairwise_map.2 (pairwise_locate _))
    (List.mem_map.2 ⟨l, hl, hvalue⟩)

/-- The name of the first call has the front of a call in it. -/
theorem nestedCall_found :
    ((redirects "$state.go('$STATE.go(' )$state.go('b')".toList).map (·.value)).count
      (String.ofList "$STATE.go(".toList) = 1 := by
  obtain ⟨calls, hcalls, -, -, hcount⟩ :=
    Transition.quoted.calls_found "$state.go('$STATE.go(' )$state.go('b')".toList
  have hcall : QuotedCall ')' ⟨"$state.go(".toList ++ ['\x27'], "$STATE.go(".toList,
      '\x27' :: ([' '] ++ [')'])⟩ :=
    .mk (by decide) (by decide) (by decide) (by decide) (by decide) (by decide)
  have hmem := (hcalls 0 _).2 ⟨hcall, [], "$state.go('b')".toList, by decide, rfl⟩
  exact hcount _ hmem

end Extract

end EndpointCatalog
