import EndpointCatalog.Proofs.Text.Basic
import EndpointCatalog.Text.Input
import Mathlib.Tactic.SplitIfs

/-! Lines of encoded text. What is written character by character is read back as the same
characters, and no character but the line feed has its byte; so the lines of an input are
those that were written. -/

namespace EndpointCatalog.Text

namespace Utf8

/-! ### One character -/

/-- The first of two bytes. -/
theorem start_two : ∀ {b : Nat}, b < 32 → 2 ≤ b →
    start (0xC0 + b) = ([], .within 1 b 0x80 0xBF) := by
  decide

/-- The first of three bytes. After the lowest of them the next one is high, so that no shorter
form exists, and after `0xED` it is low, as surrogates are no characters. -/
theorem start_three : ∀ {b : Nat}, b < 16 →
    start (0xE0 + b) = ([], .within 2 b (if b = 0 then 0xA0 else 0x80)
      (if b = 0xD then 0x9F else 0xBF)) := by
  decide

/-- The first of four bytes. -/
theorem start_four : ∀ {b : Nat}, b < 5 →
    start (0xF0 + b) = ([], .within 3 b (if b = 0 then 0x90 else 0x80)
      (if b = 4 then 0x8F else 0xBF)) := by
  decide

theorem step_within {missing bits low high d : Nat} (hlow : low ≤ 0x80 + d)
    (hhigh : 0x80 + d ≤ high) :
    step (.within (missing + 2) bits low high) (0x80 + d) =
      ([], .within (missing + 1) (bits * 64 + d) 0x80 0xBF) := by
  simp [step, hlow, hhigh]

theorem step_last {bits low high d : Nat} (hlow : low ≤ 0x80 + d) (hhigh : 0x80 + d ≤ high) :
    step (.within 1 bits low high) (0x80 + d) =
      ([some (Char.ofNat (bits * 64 + d))], .between) := by
  simp [step, hlow, hhigh]

theorem run_cons (s : State) (b : UInt8) (rest : Bytes) :
    run s (b :: rest) = (step s b.toNat).1 ++ run (step s b.toNat).2 rest := by
  cases s <;> rfl

theorem toNat_ofNat {n : Nat} (h : n < 256) : (UInt8.ofNat n).toNat = n :=
  (UInt8.toNat_ofNat' ..).trans (Nat.mod_eq_of_lt h)

/-- The bytes of a character complete it and nothing else. -/
theorem run_encodeChar (c : Char) (rest : Bytes) :
    run .between (encodeChar c ++ rest) = some c :: run .between rest := by
  have hvalid : c.toNat < 0xD800 ∨ 0xDFFF < c.toNat ∧ c.toNat < 0x110000 := c.valid
  have hdone (n : Nat) (h : n = c.toNat) : Char.ofNat n = c := h ▸ Char.ofNat_toNat c
  have htail (k : Nat) : (UInt8.ofNat (0x80 + c.toNat / k % 64)).toNat = 0x80 + c.toNat / k % 64 :=
    toNat_ofNat (by omega)
  rw [encodeChar]
  split_ifs with hone htwo hthree
  · rw [List.singleton_append, run_cons, toNat_ofNat (by omega), step, start, if_pos hone,
      Char.ofNat_toNat]
    rfl
  · simp only [List.cons_append, List.nil_append, run_cons, htail]
    rw [toNat_ofNat (by omega), step, start_two (by omega) (by omega),
      step_last (by omega) (by omega), hdone _ (by omega)]
    rfl
  · simp only [List.cons_append, List.nil_append, run_cons, htail]
    rw [toNat_ofNat (by omega), step, start_three (by omega),
      step_within (by split <;> omega) (by split <;> omega), step_last (by omega) (by omega),
      hdone _ (by omega)]
    rfl
  · simp only [List.cons_append, List.nil_append, run_cons, htail]
    rw [toNat_ofNat (by omega), step, start_four (by omega),
      step_within (by split <;> omega) (by split <;> omega), step_within (by omega) (by omega),
      step_last (by omega) (by omega), hdone _ (by omega)]
    rfl

theorem lineFeed_of_mem_encodeChar {c : Char} (h : 10 ∈ encodeChar c) : c = '\n' := by
  have hvalid : c.toNat < 0xD800 ∨ 0xDFFF < c.toNat ∧ c.toNat < 0x110000 := c.valid
  have hbyte {n : Nat} (hn : n < 256) (h : 10 = UInt8.ofNat n) : n = 10 :=
    (toNat_ofNat hn).symm.trans (congrArg UInt8.toNat h).symm
  rw [encodeChar] at h
  split_ifs at h with hone htwo hthree <;> simp only [List.mem_cons, List.not_mem_nil, or_false] at h
  · rw [← Char.ofNat_toNat c, hbyte (by omega) h]
  · rcases h with h | h <;> have := hbyte (by omega) h <;> omega
  · rcases h with h | h | h <;> have := hbyte (by omega) h <;> omega
  · rcases h with h | h | h | h <;> have := hbyte (by omega) h <;> omega

/-! ### Texts -/

theorem encode_append (cs ds : List Char) : encode (cs ++ ds) = encode cs ++ encode ds :=
  List.flatMap_append

theorem pieces_encode (cs : List Char) : pieces (encode cs) = cs.map some := by
  have hrun (cs : List Char) : run .between (encode cs ++ []) = cs.map some := by
    induction cs with
    | nil => rfl
    | cons c cs ih =>
      rw [encode, List.flatMap_cons, List.append_assoc, run_encodeChar, List.map_cons]
      exact congrArg _ ih
  rw [pieces, ← hrun cs, List.append_nil]

/-- A text that has been written can be read back. -/
theorem decode?_encode (cs : List Char) : decode? (encode cs) = some cs := by
  rw [decode?, pieces_encode]
  induction cs with
  | nil => rfl
  | cons c cs ih => rw [List.map_cons, List.mapM_cons, ih]; rfl

theorem lineFeed_not_mem_encode {cs : List Char} (h : '\n' ∉ cs) : 10 ∉ encode cs := by
  intro hmem
  obtain ⟨c, hc, hbyte⟩ := List.mem_flatMap.1 hmem
  exact h (lineFeed_of_mem_encodeChar hbyte ▸ hc)

end Utf8

/-! ### Lines -/

theorem rawLines_line {bytes : Utf8.Bytes} (h : 10 ∉ bytes) (rest : Utf8.Bytes) :
    rawLines (bytes ++ 10 :: rest) = (bytes ++ [10]) :: rawLines rest := by
  induction bytes with
  | nil => rfl
  | cons b bytes ih =>
    obtain ⟨hb, hbytes⟩ := not_or.1 (mt List.mem_cons.2 h)
    rw [List.cons_append, rawLines, if_neg (Ne.symm hb), ih hbytes]
    rfl

/-- The bytes of a line with the line feed that ends it. -/
def lineBytes (line : String) : Utf8.Bytes := Utf8.encode (line ++ "\n").toList

/-- A line that has been written is the first one to be read. -/
theorem ofBytes_line {line : String} (h : '\n' ∉ line.toList) (rest : Utf8.Bytes) :
    Input.ofBytes (lineBytes line ++ rest) =
      ⟨(line ++ "\n") :: (Input.ofBytes rest).lines, (Input.ofBytes rest).broken⟩ := by
  have hbytes : lineBytes line = Utf8.encode line.toList ++ [10] := by
    rw [lineBytes, String.toList_append, Utf8.encode_append]
    rfl
  have hraw : rawLines (lineBytes line ++ rest) = lineBytes line :: rawLines rest := by
    rw [hbytes, List.append_assoc]
    exact rawLines_line (Utf8.lineFeed_not_mem_encode h) rest
  have hline : Utf8.decode? (lineBytes line) = some (line ++ "\n").toList := Utf8.decode?_encode _
  simp only [Input.ofBytes, hraw, Input.ofLines, hline, String.ofList_toList]

theorem ofBytes_lines {lines : List String} (h : ∀ line ∈ lines, '\n' ∉ line.toList)
    (rest : Utf8.Bytes) : Input.ofBytes (lines.flatMap lineBytes ++ rest) =
      ⟨lines.map (· ++ "\n") ++ (Input.ofBytes rest).lines, (Input.ofBytes rest).broken⟩ := by
  induction lines with
  | nil => rfl
  | cons line lines ih =>
    obtain ⟨hline, hlines⟩ := List.forall_mem_cons.1 h
    rw [List.flatMap_cons, List.append_assoc, ofBytes_line hline, ih hlines]
    rfl

/-! ### Trimming -/

theorem isBlank_lineFeed : isBlank '\n' = true := by decide

theorem trimChars_append_blank (cs : List Char) {b : Char} (h : isBlank b = true) :
    trimChars (cs ++ [b]) = trimChars cs := by
  have hb : [b].dropWhile isBlank = [] := by rw [List.dropWhile_cons_of_pos h, List.dropWhile_nil]
  rw [trimChars, trimChars, List.dropWhile_append]
  split
  next hall => rw [List.isEmpty_iff.1 hall, hb]
  next => rw [dropWhileEnd, List.reverse_append, List.reverse_singleton, List.singleton_append,
      List.dropWhile_cons_of_pos h, dropWhileEnd]

theorem trim_line (line : String) : trim (line ++ "\n") = trim line := by
  rw [trim, String.toList_append]
  exact congrArg String.ofList (trimChars_append_blank line.toList isBlank_lineFeed)

end EndpointCatalog.Text
