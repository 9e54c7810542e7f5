import EndpointCatalog.Proofs.Text.Basic
import EndpointCatalog.Proofs.Text.Lines
import EndpointCatalog.Text.Line
import Mathlib.Data.List.Basic

/-! Texts at a line break. A byte of one character ends whatever the decoder was within, so
that bytes are decoded on its two sides on their own; and a line end closes the lines in
front of it, so that the lines behind it are those of the rest. -/

namespace EndpointCatalog.Text

namespace Utf8

/-! ### Bytes of one character -/

/-- What a decoder is within goes on with a byte that is no character of its own, and comes
out above the controls. -/
def State.Sound : State → Prop
  | .between => True
  | .within _ bits low _ => 0x80 ≤ low ∧ 16 ≤ bits * 64 + (low - 0x80)

theorem sound_start (b : Nat) : (start b).2.Sound := by
  unfold start
  split_ifs <;> simp only [State.Sound] <;> omega

theorem sound_step {s : State} (h : s.Sound) (b : Nat) : (step s b).2.Sound := by
  cases s with
  | between => exact sound_start b
  | within missing bits low high =>
    obtain ⟨hlow, hbits⟩ := h
    simp only [step]
    split_ifs
    · exact trivial
    · exact ⟨Nat.le_refl _, by omega⟩
    · exact sound_start b

theorem start_single {b : Nat} (h : b < 0x80) : start b = ([some (Char.ofNat b)], .between) :=
  if_pos h

/-- A byte of one character cuts off the character before it. -/
theorem run_single {s : State} (h : s.Sound) {b : UInt8} (hb : b.toNat < 0x80) (rest : Bytes) :
    run s (b :: rest) = run s [] ++ some (Char.ofNat b.toNat) :: run .between rest := by
  rw [run_cons]
  cases s with
  | between =>
    simp only [step, start_single hb]
    rfl
  | within missing bits low high =>
    obtain ⟨hlow, -⟩ := h
    have hcut : ¬ (low ≤ b.toNat ∧ b.toNat ≤ high) := by omega
    simp only [step, if_neg hcut, start_single hb]
    rfl

/-- Some bytes leave some pieces and a state behind. -/
theorem exists_run_append {s : State} (h : s.Sound) (bytes : Bytes) :
    ∃ done t, t.Sound ∧ ∀ rest, run s (bytes ++ rest) = done ++ run t rest := by
  induction bytes generalizing s with
  | nil => exact ⟨[], s, h, fun _ => rfl⟩
  | cons b bytes ih =>
    obtain ⟨done, t, ht, hrun⟩ := ih (sound_step h b.toNat)
    refine ⟨(step s b.toNat).1 ++ done, t, ht, fun rest => ?_⟩
    rw [List.cons_append, run_cons, hrun, List.append_assoc]

theorem pieces_append_single (bytes : Bytes) {b : UInt8} (hb : b.toNat < 0x80) (rest : Bytes) :
    pieces (bytes ++ b :: rest) = pieces bytes ++ some (Char.ofNat b.toNat) :: pieces rest := by
  obtain ⟨done, t, ht, hrun⟩ := exists_run_append (s := .between) trivial bytes
  have hbytes := hrun []
  rw [List.append_nil] at hbytes
  rw [pieces, hrun, run_single ht hb, ← List.append_assoc, ← hbytes]
  rfl

theorem decodeLossy_append_single (bytes : Bytes) {b : UInt8} (hb : b.toNat < 0x80)
    (rest : Bytes) : decodeLossy (bytes ++ b :: rest) =
      decodeLossy bytes ++ Char.ofNat b.toNat :: decodeLossy rest := by
  rw [decodeLossy, pieces_append_single bytes hb, List.map_append]
  rfl

theorem decode?_append_single {bytes : Bytes} {b : UInt8} (hb : b.toNat < 0x80) {rest : Bytes}
    {cs : List Char} : decode? (bytes ++ b :: rest) = some cs ↔ ∃ front back,
      decode? bytes = some front ∧ decode? rest = some back ∧
        cs = front ++ Char.ofNat b.toNat :: back := by
  rw [decode?, pieces_append_single bytes hb, List.mapM_append, List.mapM_cons]
  simp only [id_eq, Option.pure_def, Option.bind_eq_bind, Option.bind_eq_some_iff,
    Option.some.injEq, decode?]
  constructor
  · rintro ⟨front, hfront, _, ⟨_, rfl, back, hback, rfl⟩, rfl⟩
    exact ⟨front, back, hfront, hback, rfl⟩
  · rintro ⟨front, back, hfront, hback, rfl⟩
    exact ⟨front, hfront, _, ⟨_, rfl, back, hback, rfl⟩, rfl⟩

/-! ### Controls -/

theorem mem_start {b : Nat} {c : Char} (h : some c ∈ (start b).1) : c = Char.ofNat b := by
  unfold start at h
  split_ifs at h <;> simp_all

/-- A control comes from the byte that it is. -/
theorem mem_step {s : State} (hs : s.Sound) {b : Nat} {c : Char} (hc : c ≠ '\x00')
    (hlow : c.toNat < 16) (h : some c ∈ (step s b).1) : b = c.toNat := by
  cases s with
  | between => exact eq_of_ofNat_eq (mem_start h).symm hc
  | within missing bits low high =>
    obtain ⟨-, hbits⟩ := hs
    simp only [step] at h
    split_ifs at h with hnext hlast
    · have hchar : c = Char.ofNat (bits * 64 + (b - 0x80)) := by simpa using h
      have := eq_of_ofNat_eq hchar.symm hc
      omega
    · simp at h
    · exact eq_of_ofNat_eq (mem_start (by simpa using h)).symm hc

theorem mem_run {s : State} (hs : s.Sound) {c : Char} (hc : c ≠ '\x00') (hlow : c.toNat < 16)
    {bytes : Bytes} (h : some c ∈ run s bytes) : ∃ b ∈ bytes, b.toNat = c.toNat := by
  induction bytes generalizing s with
  | nil => cases s <;> simp [run] at h
  | cons b bytes ih =>
    rw [run_cons] at h
    rcases List.mem_append.1 h with h | h
    · exact ⟨b, List.mem_cons_self, mem_step hs hc hlow h⟩
    · obtain ⟨b', hb', heq⟩ := ih (sound_step hs b.toNat) h
      exact ⟨b', List.mem_cons_of_mem b hb', heq⟩

theorem mem_decodeLossy {c : Char} (hc : c ≠ '\x00') (hlow : c.toNat < 16) {bytes : Bytes}
    (h : c ∈ decodeLossy bytes) : ∃ b ∈ bytes, b.toNat = c.toNat := by
  obtain ⟨piece, hpiece, hchar⟩ := List.mem_map.1 h
  cases piece with
  | none =>
    subst hchar
    exact absurd hlow (by decide)
  | some d =>
    obtain rfl : d = c := hchar
    exact mem_run (s := .between) trivial hc hlow hpiece

theorem step_ne {s : State} {b : Nat} (h : (step s b).1 = []) : (step s b).2 ≠ .between := by
  have hstart (h : (start b).1 = []) : (start b).2 ≠ .between := by
    unfold start at h ⊢
    split_ifs <;> simp_all
  cases s with
  | between => exact hstart h
  | within missing bits low high =>
    simp only [step] at h ⊢
    split_ifs at h ⊢
    simp

/-- The last character of a text, if a control, comes from the last byte. -/
theorem getLast?_decodeLossy {c : Char} (hc : c ≠ '\x00') (hlow : c.toNat < 16) {bytes : Bytes}
    (h : (decodeLossy bytes).getLast? = some c) :
    ∃ b, bytes.getLast? = some b ∧ b.toNat = c.toNat := by
  rcases List.eq_nil_or_concat' bytes with rfl | ⟨front, b, rfl⟩
  · cases h
  · obtain ⟨done, t, ht, hrun⟩ := exists_run_append (s := .between) trivial front
    have hne : run t [b] ≠ [] := by
      rw [run_cons]
      intro hnil
      obtain ⟨hstep, hrest⟩ := List.append_eq_nil_iff.1 hnil
      cases hnext : (step t b.toNat).2 with
      | between => exact step_ne hstep hnext
      | within => simp [hnext, run] at hrest
    rw [decodeLossy, pieces, hrun, List.getLast?_map, List.getLast?_append_of_ne_nil _ hne,
      ← List.getLast?_map] at h
    obtain ⟨piece, hpiece, hchar⟩ := List.mem_map.1 (List.mem_of_getLast? h)
    cases piece with
    | none =>
      subst hchar
      exact absurd hlow (by decide)
    | some d =>
      obtain rfl : d = c := hchar
      obtain ⟨b', hb', heq⟩ := mem_run ht hc hlow hpiece
      obtain rfl := List.mem_singleton.1 hb'
      exact ⟨b', List.getLast?_concat, heq⟩

end Utf8

/-! ### Line ends -/

/-- The two ways to end a line after some characters. A carriage return in front of a line
feed belongs to the end of the line. -/
inductive EndsLine (front : List Char) : List Char → Prop
  | lineFeed : front.getLast? ≠ some '\r' → EndsLine front ['\n']
  | both : EndsLine front ['\r', '\n']

theorem EndsLine.tail {c : Char} {front ending : List Char} (h : EndsLine (c :: front) ending) :
    EndsLine front ending := by
  cases h with
  | both => exact .both
  | lineFeed h =>
    refine .lineFeed fun hfront => h ?_
    rw [List.getLast?_cons, hfront]
    rfl

theorem lines_cons {c : Char} (hc : c ≠ '\n') {rest : List Char}
    (h : c = '\r' → rest.head? ≠ some '\n') : lines (c :: rest) = consHead c (lines rest) := by
  rw [lines]
  · rintro rest' rfl rfl
    exact h rfl rfl
  · exact hc

theorem consHead_ne_nil (c : Char) (pieces : List (List Char)) : consHead c pieces ≠ [] := by
  cases pieces <;> simp [consHead]

theorem lines_ne_nil {cs : List Char} (h : cs ≠ []) : lines cs ≠ [] := by
  fun_induction lines cs with
  | case1 => exact absurd rfl h
  | case2 => simp
  | case3 => simp
  | case4 => exact consHead_ne_nil _ _

theorem lines_of_endsLine {front ending : List Char} (h : EndsLine front ending)
    (back : List Char) : lines (ending ++ back) = [] :: lines back := by
  cases h <;> rfl

/-- A line end closes the lines in front of it, or an empty line if there is none to close. -/
theorem lines_append {front ending : List Char} (h : EndsLine front ending) (back : List Char) :
    lines (front ++ (ending ++ back)) = lines front ++ lines back ∨
      lines (front ++ (ending ++ back)) = lines front ++ [] :: lines back := by
  fun_induction lines front with
  | case1 => exact .inr (lines_of_endsLine h back)
  | case2 rest ih =>
    have hcons (cs : List Char) : lines ('\r' :: '\n' :: cs) = [] :: lines cs := rfl
    rw [List.cons_append, List.cons_append, hcons, List.cons_append, List.cons_append]
    exact (ih h.tail.tail).imp (congrArg _) (congrArg _)
  | case3 rest ih =>
    have hcons (cs : List Char) : lines ('\n' :: cs) = [] :: lines cs := rfl
    rw [List.cons_append, hcons, List.cons_append, List.cons_append]
    exact (ih h.tail).imp (congrArg _) (congrArg _)
  | case4 c rest hboth hc ih =>
    have hcons : lines (c :: (rest ++ (ending ++ back))) =
        consHead c (lines (rest ++ (ending ++ back))) := by
      refine lines_cons hc ?_
      rintro rfl
      cases rest with
      | nil =>
        cases h with
        | both => simp
        | lineFeed h => exact absurd rfl h
      | cons d ds =>
        intro hd
        exact hboth ds rfl (by rw [Option.some.inj hd])
    rw [List.cons_append, hcons]
    cases rest with
    | nil =>
      -- The character has no line to join but the one that is closed.
      rw [List.nil_append, lines_of_endsLine h]
      exact .inl rfl
    | cons d ds =>
      cases hlines : lines (d :: ds) with
      | nil => exact absurd hlines (lines_ne_nil (List.cons_ne_nil d ds))
      | cons first others =>
        rw [hlines] at ih
        refine (ih h.tail).imp (fun heq => ?_) (fun heq => ?_) <;> rw [heq] <;> rfl

/-- The lines behind a line end are read on their own, if an empty line yields nothing. -/
theorem filterMap_lines_append {α : Type} {f : List Char → Option α} (hf : f [] = none)
    {front ending : List Char} (h : EndsLine front ending) (back : List Char) :
    (lines (front ++ (ending ++ back))).filterMap f =
      (lines front).filterMap f ++ (lines back).filterMap f := by
  rcases lines_append h back with heq | heq <;> rw [heq, List.filterMap_append]
  rw [List.filterMap_cons_none hf]

theorem lineFeed_not_mem_lines {cs line : List Char} (h : line ∈ lines cs) : '\n' ∉ line := by
  fun_induction lines cs generalizing line with
  | case1 => cases h
  | case2 rest ih =>
    rcases List.mem_cons.1 h with rfl | h
    · exact List.not_mem_nil
    · exact ih h
  | case3 rest ih =>
    rcases List.mem_cons.1 h with rfl | h
    · exact List.not_mem_nil
    · exact ih h
  | case4 c rest hboth hc ih =>
    have hc' : '\n' ≠ c := Ne.symm hc
    cases hlines : lines rest with
    | nil =>
      rw [hlines] at h
      obtain rfl := List.mem_singleton.1 h
      simpa using hc'
    | cons first others =>
      rw [hlines] at h ih
      rcases List.mem_cons.1 h with rfl | h
      · exact mt List.mem_cons.1 (not_or.2 ⟨hc', ih List.mem_cons_self⟩)
      · exact ih (List.mem_cons_of_mem first h)

/-- A text without a line feed has one line at most. -/
theorem length_lines_le {cs : List Char} (h : '\n' ∉ cs) : (lines cs).length ≤ 1 := by
  fun_induction lines cs with
  | case1 => exact Nat.zero_le 1
  | case2 => simp at h
  | case3 => simp at h
  | case4 c rest hboth hc ih =>
    have hle := ih fun hmem => h (List.mem_cons_of_mem c hmem)
    cases hlines : lines rest with
    | nil => exact Nat.le_refl 1
    | cons first others =>
      rw [hlines] at hle
      exact hle

/-! ### Inputs -/

theorem rawLines_last {bytes : Utf8.Bytes} (h : 10 ∉ bytes) (hne : bytes ≠ []) :
    rawLines bytes = [bytes] := by
  induction bytes with
  | nil => contradiction
  | cons b bytes ih =>
    obtain ⟨hb, hbytes⟩ := not_or.1 (mt List.mem_cons.2 h)
    rw [rawLines, if_neg (Ne.symm hb)]
    cases bytes with
    | nil => rfl
    | cons b' bytes => rw [ih hbytes (List.cons_ne_nil b' bytes)]

/-- An input that is valid as a whole has no line that cannot be read, and its lines make up
its text. -/
theorem ofBytes_of_decode? {bytes : Utf8.Bytes} {text : List Char}
    (h : Utf8.decode? bytes = some text) :
    ∃ lines : List String, Input.ofBytes bytes = ⟨lines, false⟩ ∧
      lines.length = (rawLines bytes).length ∧ lines.flatMap (·.toList) = text := by
  by_cases hfeed : 10 ∈ bytes
  · obtain ⟨front, rest, rfl, hfront⟩ := List.eq_append_cons_of_mem hfeed
    obtain ⟨cs, ds, hcs, hds, rfl⟩ := (Utf8.decode?_append_single (by decide)).1 h
    have hline : Utf8.decode? (front ++ [10]) = some (cs ++ ['\n']) :=
      (Utf8.decode?_append_single (by decide)).2 ⟨cs, [], hcs, rfl, rfl⟩
    obtain ⟨lines, hlines, hlength, hjoin⟩ := ofBytes_of_decode? hds
    refine ⟨String.ofList (cs ++ ['\n']) :: lines, ?_, ?_, ?_⟩
    · rw [Input.ofBytes] at hlines ⊢
      simp only [rawLines_line hfront, Input.ofLines, hline, hlines]
    · rw [rawLines_line hfront, List.length_cons, List.length_cons, hlength]
    · rw [List.flatMap_cons, hjoin, String.toList_ofList, List.append_assoc]
      rfl
  · rcases eq_or_ne bytes [] with rfl | hne
    · obtain rfl : [] = text := Option.some.inj h
      exact ⟨[], rfl, rfl, rfl⟩
    · refine ⟨[String.ofList text], ?_, ?_, ?_⟩
      · simp only [Input.ofBytes, rawLines_last hfeed hne, Input.ofLines, h]
      · rw [rawLines_last hfeed hne]
        rfl
      · simp
termination_by bytes.length

end EndpointCatalog.Text
