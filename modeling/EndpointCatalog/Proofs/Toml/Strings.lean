import EndpointCatalog.Toml.Write
import Mathlib.Data.List.Basic
import Mathlib.Tactic.SplitIfs

/-! Strings of a TOML document. What is written is read back as the same text, in each of the
forms, if no further quote stands behind it. -/

namespace EndpointCatalog.Toml

/-- No quote of either kind is next. -/
structure Unquoted (rest : List Char) : Prop where
  double : '\x22' ∉ rest.head?
  single : '\x27' ∉ rest.head?

theorem isPlain_of_not_isControl {c : Char} (h : isControl c = false) :
    c = '\n' ∨ isPlain c = true := by
  simp only [isControl, Bool.or_eq_false_iff, Bool.and_eq_false_iff, decide_eq_false_iff_not,
    bne_eq_false_iff_eq, beq_eq_false_iff_ne] at h
  simp only [isPlain, Bool.or_eq_true, Bool.and_eq_true, decide_eq_true_eq, beq_iff_eq,
    bne_iff_ne]
  rcases h.1 with (h1 | h1) | h1
  · exact .inr (.inr ⟨by omega, h.2⟩)
  · exact .inr (.inl h1)
  · exact .inl h1

/-! ### Escapes -/

/-- The escapes that stand for a character. -/
inductive Escape (c : Char) : List Char → Prop
  | letter {l : Char} (h : escapeLetter l = some c) : Escape c ['\\', l]
  | digits {x y z w : Char} (h : scalar [x, y, z, w] = some c) : Escape c ['\\', 'u', x, y, z, w]

/-- No such letter begins a longer escape, nor does one end a line. -/
theorem escapeLetter_eq_some {l c : Char} (h : escapeLetter l = some c) :
    l ≠ 'u' ∧ l ≠ 'U' ∧ l ≠ '\r' ∧ l ≠ '\n' ∧ isInlineBlank l = false := by
  have hne {m : Char} (hm : escapeLetter m = none) : l ≠ m := by
    rintro rfl
    cases h.symm.trans hm
  refine ⟨hne rfl, hne rfl, hne rfl, hne rfl, ?_⟩
  rw [isInlineBlank, beq_false_of_ne (hne rfl), beq_false_of_ne (hne rfl), Bool.or_false]

theorem scalar_upperHex : ∀ {n : Nat}, n < 0x80 →
    scalar ['0', '0', escapeOf?.upperHex (n / 16), escapeOf?.upperHex (n % 16)] =
      some (Char.ofNat n) := by
  decide

theorem escape_of_escapeOf? {c : Char} {e : List Char} (h : escapeOf? c = some e) : Escape c e := by
  rw [escapeOf?] at h
  split_ifs at h with h1 h2 h3 h4 h5 hcontrol
  · cases h; exact .letter (by rw [h1]; rfl)
  · cases h; exact .letter (by rw [h2]; rfl)
  · cases h; exact .letter (by rw [h3]; rfl)
  · cases h; exact .letter (by rw [h4]; rfl)
  · cases h; exact .letter (by rw [h5]; rfl)
  · cases h
    have hsmall : c.toNat < 0x80 := by
      simp only [isControl, Bool.or_eq_true, Bool.and_eq_true, decide_eq_true_eq,
        beq_iff_eq] at hcontrol
      rcases hcontrol with ⟨⟨hlow, -⟩, -⟩ | rfl
      · omega
      · decide
    exact .digits ((scalar_upperHex hsmall).trans (congrArg some (Char.ofNat_toNat c)))

theorem of_escapeOf?_none {c : Char} (h : escapeOf? c = none) :
    c ≠ '\\' ∧ c ≠ '\r' ∧ (c = '\n' ∨ isPlain c = true) := by
  rw [escapeOf?] at h
  split_ifs at h with h1 h2 h3 h4 h5 hcontrol
  exact ⟨h1, h5, isPlain_of_not_isControl (by simpa using hcontrol)⟩

theorem readBasic_escape {c : Char} {e : List Char} (h : Escape c e) (rest : List Char) :
    readBasic (e ++ rest) = (readBasic rest).map (Rest.cons c) := by
  cases h with
  | letter h =>
    obtain ⟨hu, hU, -⟩ := escapeLetter_eq_some h
    rw [List.cons_append, List.singleton_append, readBasic, h, Option.bind_some]
    · exact fun _ _ _ _ _ hl => absurd hl hu
    · exact fun _ _ _ _ _ _ _ _ _ hl => absurd hl hU
  | digits h =>
    simp only [List.cons_append, List.nil_append]
    rw [readBasic, h, Option.bind_some]

theorem readMultiBasic_escape {c : Char} {e : List Char} (h : Escape c e) (rest : List Char) :
    readMultiBasic .none (e ++ rest) = (readMultiBasic .none rest).map (Rest.cons c) := by
  cases h with
  | letter h =>
    obtain ⟨hu, hU, hr, hn, hblank⟩ := escapeLetter_eq_some h
    rw [List.cons_append, List.singleton_append, readMultiBasic]
    · simp [hn, hblank, h]
    all_goals simp [hu, hU, hr]
  | digits h =>
    simp only [List.cons_append, List.nil_append]
    rw [readMultiBasic]
    · simp [h]
    · simp

/-! ### One line -/

/-- A character in double quotes on one line, as the writer puts it. -/
theorem readBasic_body_cons (c : Char) (cs rest : List Char) :
    readBasic (basicBody (c :: cs) ++ rest) =
      (readBasic (basicBody cs ++ rest)).map (Rest.cons c) := by
  rw [basicBody, List.flatMap_cons, List.append_assoc, ← basicBody]
  split_ifs with hquote hline
  · exact readBasic_escape (.letter (by rw [hquote]; rfl)) _
  · exact readBasic_escape (.letter (by rw [hline]; rfl)) _
  · cases he : escapeOf? c with
    | some e => exact readBasic_escape (escape_of_escapeOf? he) _
    | none =>
      obtain ⟨hslash, -, hplain⟩ := of_escapeOf?_none he
      rw [Option.getD_none, List.singleton_append, readBasic, if_neg hquote,
        if_pos (hplain.resolve_left hline)]
      all_goals simp [hslash]

theorem readBasic_body (cs rest : List Char) :
    readBasic (basicBody cs ++ '\x22' :: rest) = some (cs, rest) := by
  induction cs with
  | nil => rfl
  | cons c cs ih => rw [readBasic_body_cons, ih]; rfl

theorem readLiteral_append {cs : List Char} (h : Form.literal.holds cs = true)
    (rest : List Char) : readLiteral (cs ++ '\x27' :: rest) = some (cs, rest) := by
  induction cs with
  | nil => rfl
  | cons c cs ih =>
    simp only [Form.holds, List.any_cons, Bool.not_or, Bool.and_eq_true, Bool.not_eq_true',
      beq_eq_false_iff_ne] at h
    obtain ⟨⟨⟨hquote, hline⟩, hcontrol⟩, hrest⟩ := h
    have hplain := (isPlain_of_not_isControl hcontrol).resolve_left hline
    rw [List.cons_append, readLiteral, if_neg hquote, if_pos hplain,
      ih (by rw [Form.holds, hrest]; rfl)]
    rfl

/-! ### Three quotes -/

theorem closing_eq_none {q c : Char} (h : c ≠ q) (cs : List Char) : closing q (c :: cs) = none := by
  unfold closing
  split
  next heq =>
    cases heq
    rw [if_neg fun hq => h hq.1]
  next => rfl

/-- Quotes right before the closing ones belong to the content, unless there are three. -/
theorem closing_append {q : Char} {body rest : List Char} (hrest : q ∉ rest.head?)
    (hbody : ¬ [q, q, q] <+: body) :
    closing q (body ++ q :: q :: q :: rest) =
      if body.all (· = q) then some (body, rest) else none := by
  match body with
  | [] =>
    match rest with
    | [] => simp [closing]
    | [d] => simp_all [closing]
    | d :: e :: ds => simp_all [closing]
  | [a] =>
    rcases eq_or_ne a q with rfl | ha
    · cases rest <;> simp_all [closing]
    · simp [closing, ha]
  | [a, b] =>
    rcases eq_or_ne a q with rfl | ha
    · rcases eq_or_ne b a with rfl | hb
      · simp [closing]
      · simp [closing, hb]
    · simp [closing, ha]
  | a :: b :: c :: cs =>
    have hfew : ¬ (a = q ∧ b = q ∧ c = q) := by
      rintro ⟨rfl, rfl, rfl⟩
      exact hbody ⟨cs, rfl⟩
    simp only [List.cons_append, closing, if_neg hfew]
    exact (if_neg fun h => hfew (by simp_all)).symm

theorem closing_three {q : Char} {rest : List Char} (hrest : q ∉ rest.head?) :
    closing q (q :: q :: q :: rest) = some ([], rest) := by
  have hbody : ¬ [q, q, q] <+: [] := by simp
  exact (closing_append hrest hbody).trans (if_pos rfl)

/-! ### Several lines, with escapes -/

/-- What stands for a character begins with a backslash, or is the character. -/
theorem escapeOf?_getD (c : Char) : ∃ d ds, (escapeOf? c).getD [c] = d :: ds ∧
    (d = '\\' ∨ d = c ∧ c ≠ '\r') := by
  cases he : escapeOf? c with
  | none => exact ⟨c, [], rfl, .inr ⟨rfl, (of_escapeOf?_none he).2.1⟩⟩
  | some e =>
    cases escape_of_escapeOf? he with
    | letter => exact ⟨_, _, rfl, .inl rfl⟩
    | digits => exact ⟨_, _, rfl, .inl rfl⟩

theorem escapeOf?_getD_of_ne {c : Char} (h : c ≠ '\x22') :
    ∃ d ds, (escapeOf? c).getD [c] = d :: ds ∧ d ≠ '\x22' := by
  obtain ⟨d, ds, heq, rfl | ⟨rfl, -⟩⟩ := escapeOf?_getD c
  · exact ⟨_, ds, heq, by decide⟩
  · exact ⟨d, ds, heq, h⟩

/-- No three quotes are next to each other in what the writer puts, counting those before. -/
theorem not_prefix_multiBasicBody {run : Nat} (hrun : run ≤ 2) (cs : List Char) :
    ¬ List.replicate (3 - run) '\x22' <+: multiBasicBody run cs := by
  have hsome : 3 - run = 2 - run + 1 := by omega
  rw [hsome, List.replicate_succ]
  induction cs generalizing run with
  | nil => simp [multiBasicBody]
  | cons c cs ih =>
    rw [multiBasicBody]
    split_ifs with hquote hfew
    · rw [List.cons_prefix_cons, not_and]
      intro _
      have hnext : 2 - run = 2 - (run + 1) + 1 := by omega
      rw [hnext, List.replicate_succ]
      exact ih (by omega) (by omega)
    · simp
    · obtain ⟨d, ds, heq, hd⟩ := escapeOf?_getD_of_ne hquote
      rw [heq, List.cons_append, List.cons_prefix_cons]
      exact fun h => hd h.1.symm

theorem not_three_prefix_multiBasicBody {run : Nat} (hrun : run < 2) (cs : List Char) :
    ¬ ['\x22', '\x22', '\x22'] <+: multiBasicBody run cs := by
  have hfewer : List.replicate (3 - run) '\x22' <+: List.replicate 3 '\x22' :=
    List.prefix_replicate_iff.2 ⟨by simp, by simp⟩
  exact fun h => not_prefix_multiBasicBody (by omega) cs (hfewer.trans h)

theorem multiBasicBody_eq_self {run : Nat} {cs : List Char}
    (h : ∀ c ∈ multiBasicBody run cs, c = '\x22') : multiBasicBody run cs = cs := by
  induction cs generalizing run with
  | nil => rfl
  | cons c cs ih =>
    rw [multiBasicBody] at h ⊢
    split_ifs at h ⊢ with hquote hfew
    · rw [ih fun x hx => h x (List.mem_cons_of_mem c hx)]
    · exact absurd (h '\\' (by simp)) (by decide)
    · obtain ⟨d, ds, heq, hd⟩ := escapeOf?_getD_of_ne hquote
      rw [heq] at h
      exact absurd (h d (by simp)) hd

/-- A character that is neither escaped nor a line end stands for itself, unless it is a quote
that closes. -/
theorem readMultiBasic_cons {c : Char} (hreturn : c ≠ '\r') (hline : c ≠ '\n')
    (hslash : c ≠ '\\') (rest : List Char) :
    readMultiBasic .none (c :: rest) = match closing '\x22' (c :: rest) with
      | some done => some done
      | none => if isPlain c then (readMultiBasic .none rest).map (Rest.cons c) else none := by
  rw [readMultiBasic.eq_def]
  split
  next heq => cases heq
  next heq => exact absurd (List.cons.inj heq).1 hreturn
  next heq =>
    cases heq
    simp only [if_neg hline, if_neg hslash, ne_eq, not_true_eq_false, false_and, if_false]
    rfl

theorem readMultiBasic_lineEnd (rest : List Char) :
    readMultiBasic .none ('\n' :: rest) = (readMultiBasic .none rest).map (Rest.cons '\n') := by
  rw [readMultiBasic.eq_def]
  split
  next heq => cases heq
  next heq => exact absurd (List.cons.inj heq).1 (by decide)
  next heq =>
    cases heq
    rfl

theorem readMultiBasic_body (run : Nat) (cs : List Char) {rest : List Char}
    (hrest : '\x22' ∉ rest.head?) :
    readMultiBasic .none (multiBasicBody run cs ++ '\x22' :: '\x22' :: '\x22' :: rest) =
      some (cs, rest) := by
  induction cs generalizing run with
  | nil =>
    rw [multiBasicBody, List.nil_append,
      readMultiBasic_cons (by decide) (by decide) (by decide), closing_three hrest]
  | cons c cs ih =>
    by_cases hfew : c = '\x22' ∧ run < 2
    · obtain ⟨rfl, hrun⟩ := hfew
      have hbody : multiBasicBody run ('\x22' :: cs) = '\x22' :: multiBasicBody (run + 1) cs := by
        rw [multiBasicBody, if_pos rfl, if_pos hrun]
      have hclosing := closing_append hrest (not_three_prefix_multiBasicBody hrun ('\x22' :: cs))
      rw [hbody, List.cons_append] at hclosing ⊢
      rw [readMultiBasic_cons (by decide) (by decide) (by decide), hclosing]
      by_cases hquotes : ('\x22' :: multiBasicBody (run + 1) cs).all (· = '\x22') = true
      · rw [if_pos hquotes, ← hbody, multiBasicBody_eq_self (hbody ▸ by simpa using hquotes)]
      · rw [if_neg hquotes, ih]
        rfl
    · rw [multiBasicBody]
      split_ifs with hquote hrun
      · exact absurd ⟨hquote, hrun⟩ hfew
      · have hescape : Escape c ['\\', '\x22'] := .letter (by rw [hquote]; rfl)
        rw [List.append_assoc, readMultiBasic_escape hescape, ih]
        rfl
      · cases he : escapeOf? c with
        | some e =>
          rw [Option.getD_some, List.append_assoc,
            readMultiBasic_escape (escape_of_escapeOf? he), ih]
          rfl
        | none =>
          obtain ⟨hslash, hreturn, hplain⟩ := of_escapeOf?_none he
          rw [Option.getD_none, List.append_assoc, List.singleton_append]
          rcases eq_or_ne c '\n' with rfl | hline
          · rw [readMultiBasic_lineEnd, ih]
            rfl
          · rw [readMultiBasic_cons hreturn hline hslash, closing_eq_none hquote]
            simp [ih, Rest.cons, hplain.resolve_left hline]

/-! ### Several lines, without escapes -/

theorem not_prefix_of_longestRun {q : Char} {cs : List Char} (h : longestRun q cs ≤ 2) :
    ¬ [q, q, q] <+: cs := by
  rintro ⟨ds, rfl⟩
  have hrun : (([q, q, q] ++ ds).takeWhile (· == q)).length ≤ 2 :=
    Nat.le_trans (Nat.le_max_left ..) h
  rw [List.takeWhile_append_of_pos (by simp), List.length_append, List.length_cons] at hrun
  simp only [List.length_cons] at hrun
  omega

theorem longestRun_le_of_cons {q c : Char} {cs : List Char} (h : longestRun q (c :: cs) ≤ 2) :
    longestRun q cs ≤ 2 :=
  Nat.le_trans (Nat.le_max_right ..) h

theorem readMultiLiteral_cons {c : Char} (hreturn : c ≠ '\r') (rest : List Char) :
    readMultiLiteral (c :: rest) = match closing '\x27' (c :: rest) with
      | some done => some done
      | none =>
        if c = '\n' ∨ isPlain c then (readMultiLiteral rest).map (Rest.cons c) else none := by
  rw [readMultiLiteral.eq_def]
  split
  next heq => cases heq
  next heq => exact absurd (List.cons.inj heq).1 hreturn
  next heq =>
    cases heq
    rfl

theorem readMultiLiteral_append {cs rest : List Char} (h : Form.multiLiteral.holds cs = true)
    (hrest : '\x27' ∉ rest.head?) :
    readMultiLiteral (cs ++ '\x27' :: '\x27' :: '\x27' :: rest) = some (cs, rest) := by
  simp only [Form.holds, Bool.and_eq_true, Bool.not_eq_true', decide_eq_true_eq] at h
  obtain ⟨hcontrol, hrun⟩ := h
  induction cs with
  | nil =>
    rw [List.nil_append, readMultiLiteral_cons (by decide), closing_three hrest]
  | cons c cs ih =>
    rw [List.any_cons, Bool.or_eq_false_iff] at hcontrol
    have hreturn : c ≠ '\r' := by
      rintro rfl
      exact absurd hcontrol.1 (by decide)
    have hclosing := closing_append hrest (not_prefix_of_longestRun hrun)
    rw [List.cons_append] at hclosing ⊢
    rw [readMultiLiteral_cons hreturn, hclosing]
    by_cases hquotes : (c :: cs).all (· = '\x27') = true
    · rw [if_pos hquotes]
    · rw [if_neg hquotes, if_pos (isPlain_of_not_isControl hcontrol.1),
        ih hcontrol.2 (longestRun_le_of_cons hrun)]
      rfl

/-! ### All forms -/

theorem Form.holds_of {cs : List Char} {f : Form} (h : Form.of cs = f) :
    f.holds cs = true ∨ f = .basic ∨ f = .multiBasic := by
  unfold Form.of at h
  cases hfind : [basic, literal, multiBasic, multiLiteral].find? (·.holds cs) with
  | some g =>
    rw [hfind] at h
    exact .inl (h ▸ List.find?_some hfind)
  | none =>
    rw [hfind, Option.getD_none] at h
    split_ifs at h
    · exact .inr (.inr h.symm)
    · exact .inr (.inl h.symm)

/-- A string that does not begin with two more quotes keeps to one line. -/
theorem readString.content_line {q : Char} {cs : List Char} (h : ¬ [q, q] <+: cs) :
    content (q :: cs) =
      if q = '\x22' then readBasic cs else if q = '\x27' then readLiteral cs else none := by
  match cs with
  | [] | [a] => rfl
  | a :: b :: cs =>
    have hsingle : ¬ (a = q ∧ b = q) := by
      rintro ⟨rfl, rfl⟩
      exact h ⟨cs, rfl⟩
    rw [content]
    split_ifs <;> simp_all

theorem not_prefix_append {q : Char} {body rest : List Char} (hbody : q ∉ body.head?)
    (hrest : q ∉ rest.head?) : ¬ [q, q] <+: body ++ q :: rest := by
  cases body with
  | nil =>
    rw [List.nil_append, List.cons_prefix_cons, not_and]
    rintro - ⟨ds, rfl⟩
    exact hrest rfl
  | cons c cs =>
    rw [List.cons_append, List.cons_prefix_cons]
    rintro ⟨rfl, -⟩
    exact hbody rfl

theorem head?_basicBody (cs : List Char) : '\x22' ∉ (basicBody cs).head? := by
  cases cs with
  | nil => exact nofun
  | cons c cs =>
    rw [basicBody, List.flatMap_cons]
    split_ifs with hquote
    · simp
    · simp
    · obtain ⟨d, ds, heq, hd⟩ := escapeOf?_getD_of_ne hquote
      rw [heq]
      exact fun h => hd (Option.some.inj h)

theorem head?_literal {cs : List Char} (h : Form.literal.holds cs = true) :
    '\x27' ∉ cs.head? := by
  intro hquote
  have hmem := List.mem_of_mem_head? hquote
  simp only [Form.holds, Bool.not_eq_true', List.any_eq_false] at h
  exact absurd (h _ hmem) (by decide)

/-- A character that begins no line end. -/
def NoLineEnd (c : Char) : Prop := c ≠ '\n' ∧ c ≠ '\r'

theorem noLineEnd_multiBasicBody {cs : List Char} (hline : '\n' ∉ cs) (rest : List Char) :
    ∀ c ∈ (multiBasicBody 0 cs ++ '\x22' :: rest).head?, NoLineEnd c := by
  rintro x hx
  cases cs with
  | nil =>
    cases hx
    exact ⟨by decide, by decide⟩
  | cons c cs =>
    rw [multiBasicBody] at hx
    split_ifs at hx with hquote hrun
    · cases hx
      exact ⟨List.ne_of_not_mem_cons hline |>.symm, by rw [hquote]; decide⟩
    · exact absurd Nat.two_pos hrun
    · obtain ⟨d, ds, heq, hd⟩ := escapeOf?_getD c
      rw [heq] at hx
      cases hx
      rcases hd with rfl | ⟨rfl, hreturn⟩
      · exact ⟨by decide, by decide⟩
      · exact ⟨List.ne_of_not_mem_cons hline |>.symm, hreturn⟩

theorem noLineEnd_literal {cs : List Char} (hcs : Form.multiLiteral.holds cs = true)
    (hline : '\n' ∉ cs) (rest : List Char) :
    ∀ c ∈ (cs ++ '\x27' :: rest).head?, NoLineEnd c := by
  rintro x hx
  cases cs with
  | nil =>
    cases hx
    exact ⟨by decide, by decide⟩
  | cons c cs =>
    cases hx
    refine ⟨List.ne_of_not_mem_cons hline |>.symm, ?_⟩
    rintro rfl
    simp [Form.holds, isControl] at hcs

/-- The line end that the writer puts in front of several lines is the one that is dropped. -/
theorem dropLineEnd_tripled {cs body : List Char} (rest : List Char)
    (h : '\n' ∉ cs → ∀ c ∈ (body ++ rest).head?, NoLineEnd c) :
    dropLineEnd ((if cs.contains '\n' then ['\n'] else []) ++ body ++ rest) = body ++ rest := by
  split_ifs with hline
  · rfl
  · rw [List.nil_append]
    have hhead := h (by simpa using hline)
    unfold dropLineEnd
    split
    next heq => exact absurd rfl (hhead '\n' (by rw [heq]; rfl)).1
    next heq => exact absurd rfl (hhead '\r' (by rw [heq]; rfl)).2
    next => rfl

theorem readString_writeChars (cs : List Char) {rest : List Char} (h : Unquoted rest) :
    readString (writeChars cs ++ rest) = some (String.ofList cs, rest) := by
  suffices hcontent : readString.content (writeChars cs ++ rest) = some (cs, rest) by
    rw [readString, hcontent]
    rfl
  have hform := Form.holds_of (Eq.refl (Form.of cs))
  rw [writeChars]
  cases hof : Form.of cs with
  | basic =>
    simp only [List.cons_append, List.append_assoc, List.nil_append]
    rw [readString.content_line (not_prefix_append (head?_basicBody cs) h.double), if_pos rfl,
      readBasic_body]
  | literal =>
    have hholds : Form.literal.holds cs = true := by simpa [hof] using hform
    simp only [List.cons_append, List.append_assoc, List.nil_append]
    rw [readString.content_line (not_prefix_append (head?_literal hholds) h.single),
      if_neg (by decide), if_pos rfl, readLiteral_append hholds]
  | multiBasic =>
    simp only [tripled, List.cons_append, List.append_assoc, List.nil_append]
    rw [readString.content, if_pos rfl, if_pos ⟨rfl, rfl⟩, ← List.append_assoc,
      dropLineEnd_tripled, readMultiBasic_body 0 cs h.double]
    exact fun hline => noLineEnd_multiBasicBody hline _
  | multiLiteral =>
    have hholds : Form.multiLiteral.holds cs = true := by simpa [hof] using hform
    simp only [tripled, List.cons_append, List.append_assoc, List.nil_append]
    rw [readString.content, if_neg (by decide), if_pos rfl, if_pos ⟨rfl, rfl⟩,
      ← List.append_assoc, dropLineEnd_tripled, readMultiLiteral_append hholds h.single]
    exact fun hline => noLineEnd_literal hholds hline _

end EndpointCatalog.Toml
