import EndpointCatalog.Proofs.Text.Trim

/-! Lower case twice. Small forms are no capitals, so that lower case changes nothing about a
text in lower case; and a small form of one byte stands for that letter or its capital, but
for the dotted capital `İ` and the kelvin sign. -/

namespace EndpointCatalog.Text

/-! ### One code point -/

/-- Whether the small forms of one run are no capitals of another. Runs that take every
second code point may lie between one another. -/
def CaseRun.clear (r r' : CaseRun) : Bool :=
  Nat.blt (r.small + (r.last - r.first)) r'.first || Nat.blt r'.last r.small ||
    (r'.step == 2 && (r.first == r.last || r.step == 2) && (r.small + r'.first) % 2 == 1)

/-- The code point is one of the capitals of the run. -/
def CaseRun.Has (r : CaseRun) (n : Nat) : Prop :=
  r.first ≤ n ∧ n ≤ r.last ∧ (n - r.first) % r.step = 0

/-- The small forms of the built-in runs are no capitals, and none is the dotted capital. -/
theorem caseRuns_clear :
    (caseRuns.all fun r => r.clear ⟨0x130, 0x130, 1, 0⟩ && caseRuns.all r.clear) = true := by
  decide +kernel

/-- Two runs have letters of one byte for their small forms. -/
theorem caseRuns_ascii : (caseRuns.all fun r =>
    Nat.ble 0x80 r.small || r.first == 0x41 && r.last == 0x5A && r.small == 0x61 ||
      r.first == r.last && r.small == 0x6B) = true := by
  decide +kernel

namespace CaseRun

theorem lower_eq (runs : List CaseRun) (n : Nat) : lower runs n = n ∨
    ∃ r ∈ runs, r.Has n ∧ lower runs n = n - r.first + r.small := by
  fun_induction lower runs n with
  | case1 => exact .inl rfl
  | case2 => exact .inl rfl
  | case3 r rest hfirst hin =>
    rw [Bool.and_eq_true, decide_eq_true_eq, beq_iff_eq] at hin
    exact .inr ⟨r, List.mem_cons_self, ⟨by omega, hin.1, hin.2⟩, rfl⟩
  | case4 r rest hfirst hin ih =>
    refine ih.imp_right ?_
    rintro ⟨r', hr', h⟩
    exact ⟨r', List.mem_cons_of_mem r hr', h⟩

theorem lower_eq_self {runs : List CaseRun} {n : Nat} (h : ∀ r ∈ runs, ¬ r.Has n) :
    lower runs n = n := by
  refine (lower_eq runs n).resolve_right ?_
  rintro ⟨r, hr, hhas, -⟩
  exact h r hr hhas

theorem not_has_of_clear {r r' : CaseRun} (h : r.clear r' = true) {n : Nat} (hn : r.Has n) :
    ¬ r'.Has (n - r.first + r.small) := by
  obtain ⟨hfirst, hlast, hstep⟩ := hn
  rintro ⟨hfirst', hlast', hstep'⟩
  simp only [clear, Bool.or_eq_true, Bool.and_eq_true, beq_iff_eq, Nat.blt_eq] at h
  rcases h with (h | h) | ⟨⟨htwo, h | h⟩, hodd⟩
  · omega
  · omega
  · rw [htwo] at hstep'
    omega
  · rw [htwo] at hstep'
    rw [h] at hstep
    omega

end CaseRun

/-! ### One character -/

theorem mem_lowerAfter {before cs : List Char} {d : Char} (h : d ∈ lowerAfter before cs) :
    ∃ c ∈ cs, ∃ small ∈ smalls c, d ∈ small := by
  induction cs generalizing before with
  | nil => cases h
  | cons c rest ih =>
    obtain ⟨small, hsmall, heq⟩ := lowerAfter_eq before c rest
    rw [heq] at h
    rcases List.mem_append.1 h with h | h
    · exact ⟨c, List.mem_cons_self, small, hsmall, h⟩
    · obtain ⟨c', hc', hmem⟩ := ih h
      exact ⟨c', List.mem_cons_of_mem c hc', hmem⟩

/-- The small form of a character that is neither `İ` nor a capital sigma: the character
itself, or what a run of capitals has for it. -/
theorem smalls_cases {c d : Char} {small : List Char} (h : small ∈ smalls c) (hd : d ∈ small) :
    c = 'Σ' ∧ (d = 'ς' ∨ d = 'σ') ∨ c = 'İ' ∧ (d = 'i' ∨ d = '\u0307') ∨
      c ≠ 'Σ' ∧ c ≠ 'İ' ∧ small = [d] ∧ d = Char.ofNat (CaseRun.lower caseRuns c.toNat) := by
  rw [smalls] at h
  split_ifs at h with hsigma
  · refine .inl ⟨hsigma, ?_⟩
    simp only [List.mem_cons, List.not_mem_nil, or_false] at h
    rcases h with rfl | rfl
    · exact .inl (List.mem_singleton.1 hd)
    · exact .inr (List.mem_singleton.1 hd)
  · obtain rfl := List.mem_singleton.1 h
    rw [lowerChar] at hd ⊢
    split_ifs at hd ⊢ with hdotted
    · exact .inr (.inl ⟨hdotted, by simpa using hd⟩)
    · exact .inr (.inr ⟨hsigma, hdotted, by rw [List.mem_singleton.1 hd], List.mem_singleton.1 hd⟩)

/-! ### Twice -/

/-- A character that is a small form has itself for its small form. -/
def Settled (c : Char) : Prop := c ≠ 'Σ' ∧ lowerChar c = [c]

theorem settled_ofNat {n : Nat} (hdotted : n ≠ 0x130) (h : ∀ r ∈ caseRuns, ¬ r.Has n) :
    Settled (Char.ofNat n) := by
  by_cases hzero : Char.ofNat n = '\x00'
  · rw [hzero]
    exact ⟨by decide, by decide⟩
  · have htoNat : n = (Char.ofNat n).toNat := eq_of_ofNat_eq rfl hzero
    have hself := CaseRun.lower_eq_self h
    constructor
    · intro hsigma
      rw [hsigma] at htoNat
      have hcapital : CaseRun.lower caseRuns 'Σ'.toNat ≠ 'Σ'.toNat := by decide +kernel
      exact hcapital (htoNat ▸ hself)
    · have hne : Char.ofNat n ≠ 'İ' := by
        intro hdot
        rw [hdot] at htoNat
        exact hdotted htoNat
      rw [lowerChar, if_neg hne, ← htoNat, hself]

theorem settled_of_mem_smalls {c d : Char} {small : List Char} (h : small ∈ smalls c)
    (hd : d ∈ small) : Settled d := by
  rcases smalls_cases h hd with ⟨-, rfl | rfl⟩ | ⟨-, rfl | rfl⟩ | ⟨hsigma, hdotted, -, rfl⟩
  · exact ⟨by decide, by decide +kernel⟩
  · exact ⟨by decide, by decide +kernel⟩
  · exact ⟨by decide, by decide +kernel⟩
  · exact ⟨by decide, by decide +kernel⟩
  · rcases CaseRun.lower_eq caseRuns c.toNat with heq | ⟨r, hr, hhas, heq⟩
    · rw [heq, Char.ofNat_toNat]
      refine ⟨hsigma, ?_⟩
      rw [lowerChar, if_neg hdotted, heq, Char.ofNat_toNat]
    · have hclear := List.all_eq_true.1 caseRuns_clear r hr
      rw [Bool.and_eq_true, List.all_eq_true] at hclear
      rw [heq]
      refine settled_ofNat ?_ fun r' hr' => CaseRun.not_has_of_clear (hclear.2 r' hr') hhas
      intro hdot
      refine CaseRun.not_has_of_clear hclear.1 hhas ?_
      rw [hdot]
      exact ⟨Nat.le_refl _, Nat.le_refl _, rfl⟩

theorem lowerAfter_settled {before cs : List Char} (h : ∀ c ∈ cs, Settled c) :
    lowerAfter before cs = cs := by
  induction cs generalizing before with
  | nil => rfl
  | cons c rest ih =>
    obtain ⟨⟨hsigma, hlower⟩, hrest⟩ := List.forall_mem_cons.1 h
    rw [lowerAfter, if_neg hsigma, hlower, ih hrest]
    rfl

theorem lowerChars_lowerChars (cs : List Char) : lowerChars (lowerChars cs) = lowerChars cs := by
  refine lowerAfter_settled fun d hd => ?_
  obtain ⟨c, -, small, hsmall, hmem⟩ := mem_lowerAfter hd
  exact settled_of_mem_smalls hsmall hmem

/-! ### Letters of one byte -/

/-- A small form of one byte, other than `i` and `k`, comes from a letter of one byte. -/
theorem ascii_of_mem_smalls {c d : Char} {small : List Char} (h : small ∈ smalls c)
    (hd : d ∈ small) (hascii : d.toNat < 0x80) (hd' : d ∉ ['\x00', 'i', 'k']) :
    small = [d] ∧ c.toLower = d.toLower := by
  simp only [List.mem_cons, List.not_mem_nil, or_false, not_or] at hd'
  obtain ⟨hzero, hi, hk⟩ := hd'
  rcases smalls_cases h hd with ⟨-, rfl | rfl⟩ | ⟨-, rfl | rfl⟩ | ⟨-, -, hsmall, hlower⟩
  · exact absurd hascii (by decide)
  · exact absurd hascii (by decide)
  · exact absurd rfl hi
  · exact absurd hascii (by decide)
  · refine ⟨hsmall, ?_⟩
    rcases CaseRun.lower_eq caseRuns c.toNat with heq | ⟨r, hr, ⟨hfirst, hlast, -⟩, heq⟩
    · rw [hlower, heq, Char.ofNat_toNat]
    · rw [heq] at hlower
      have htoNat := eq_of_ofNat_eq hlower.symm hzero
      have hrun := List.all_eq_true.1 caseRuns_ascii r hr
      simp only [Bool.or_eq_true, Bool.and_eq_true, beq_iff_eq, Nat.ble_eq] at hrun
      rcases hrun with (hfar | ⟨⟨hA, hZ⟩, ha⟩) | ⟨hsingle, hkelvin⟩
      · omega
      · have hletters : ∀ n < 0x5B, 0x41 ≤ n →
            (Char.ofNat n).toLower = (Char.ofNat (n + 0x20)).toLower := by decide
        have hn : d.toNat = c.toNat + 0x20 := by omega
        rw [← Char.ofNat_toNat c, ← Char.ofNat_toNat d, hn]
        exact hletters c.toNat (by omega) (by omega)
      · refine absurd ?_ hk
        rw [hlower, hkelvin]
        have hfirst' : c.toNat - r.first = 0 := by omega
        rw [hfirst']

/-- A small form that is a sign of one byte is its own. -/
theorem eq_of_mem_smalls {c d : Char} {small : List Char} (h : small ∈ smalls c) (hd : d ∈ small)
    (hascii : d.toNat < 0x80) (hd' : d ∉ ['\x00', 'i', 'k']) (hsign : d.isAlpha = false) :
    c = d := by
  obtain ⟨-, hlower⟩ := ascii_of_mem_smalls h hd hascii hd'
  obtain ⟨hupper, hsmall⟩ : d.isUpper = false ∧ d.isLower = false :=
    Bool.or_eq_false_iff.1 hsign
  have hself : d.toLower = d := by
    delta Char.toLower
    delta Char.isUpper at hupper
    grind
  rw [hself] at hlower
  exact eq_of_toLower hlower hsmall

theorem mem_of_mem_lowerChars {cs : List Char} {d : Char} (h : d ∈ lowerChars cs)
    (hascii : d.toNat < 0x80) (hd : d ∉ ['\x00', 'i', 'k']) (hsign : d.isAlpha = false) :
    d ∈ cs := by
  obtain ⟨c, hc, small, hsmall, hmem⟩ := mem_lowerAfter h
  exact eq_of_mem_smalls hsmall hmem hascii hd hsign ▸ hc

theorem length_le_lowerAfter (before cs : List Char) :
    cs.length ≤ (lowerAfter before cs).length := by
  induction cs generalizing before with
  | nil => exact Nat.zero_le _
  | cons c rest ih =>
    obtain ⟨small, hsmall, heq⟩ := lowerAfter_eq before c rest
    have hpos := List.length_pos_of_ne_nil (ne_nil_of_mem_smalls hsmall)
    have hrest := ih (c :: before)
    rw [heq, List.length_append, List.length_cons]
    omega

/-- Letters of one byte at the end of a text in lower case are at its end in one case or the
other. -/
theorem exists_suffix_of_lowerAfter {before cs ds : List Char} (h : ds <:+ lowerAfter before cs)
    (hds : ∀ d ∈ ds, d.toNat < 0x80 ∧ d ∉ ['\x00', 'i', 'k']) :
    ∃ es, es <:+ cs ∧ es.map Char.toLower = ds.map Char.toLower := by
  induction cs generalizing before ds with
  | nil => exact ⟨[], List.suffix_rfl, by rw [List.suffix_nil.1 h]⟩
  | cons c rest ih =>
    obtain ⟨small, hsmall, heq⟩ := lowerAfter_eq before c rest
    rw [heq] at h
    rcases List.suffix_or_suffix_of_suffix h (List.suffix_append _ _) with hshort | ⟨front, rfl⟩
    · obtain ⟨es, hes, hmap⟩ := ih hshort hds
      exact ⟨es, hes.trans (List.suffix_cons c rest), hmap⟩
    · obtain ⟨hfront, hrest⟩ := List.forall_mem_append.1 hds
      obtain ⟨es, hes, hmap⟩ := ih List.suffix_rfl hrest
      rcases front.eq_nil_or_concat' with rfl | ⟨front, d, rfl⟩
      · exact ⟨es, hes.trans (List.suffix_cons c rest), hmap⟩
      · -- The rest of the text is used up, so that what is in front stands for this character.
        have hlength : rest.length ≤ es.length := by
          have hmapped := congrArg List.length hmap
          rw [List.length_map, List.length_map] at hmapped
          exact hmapped ▸ length_le_lowerAfter _ _
        obtain rfl : es = rest := hes.eq_of_length_le hlength
        obtain ⟨lead, hlead⟩ := h
        rw [← List.append_assoc, List.append_left_inj, ← List.append_assoc] at hlead
        obtain ⟨hascii, hd⟩ := hfront d (by simp)
        have hmem : d ∈ small := hlead ▸ by simp
        obtain ⟨rfl, hlower⟩ := ascii_of_mem_smalls hsmall hmem hascii hd
        obtain ⟨-, rfl⟩ := List.append_eq_nil_iff.1 (List.append_left_eq_self.1 hlead)
        exact ⟨c :: es, List.suffix_rfl, by simp [hlower, hmap]⟩

end EndpointCatalog.Text
