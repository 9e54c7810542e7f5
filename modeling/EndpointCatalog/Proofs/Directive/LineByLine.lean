import EndpointCatalog.Directive.Script
import EndpointCatalog.Proofs.Pattern.Search
import EndpointCatalog.Proofs.Text.LineBreak
import EndpointCatalog.Proofs.Text.Lower
import Mathlib

/-! Scripts line by line. A script that is cut at a line end has the endpoints of its two
parts, whatever bytes stand at the cut, and a line has one endpoint at most, which does not
go beyond it. -/

namespace EndpointCatalog.Directive

open Text.Utf8 (decodeLossy)

variable {letters : LetterCase} {line : List Char} {url : String}

/-! ### One line -/

/-- The endpoint of a line, if it has one. -/
def lineEndpoint (letters : LetterCase) (line : List Char) : Option String :=
  ((firstRoute line).bind (normalize letters)).map String.ofList

theorem scriptEndpoints_eq (letters : LetterCase) (script : Text.Utf8.Bytes) :
    scriptEndpoints letters script =
      (Text.lines (decodeLossy script)).filterMap (lineEndpoint letters) := rfl

theorem lineEndpoint_nil (letters : LetterCase) : lineEndpoint letters [] = none := by
  rw [lineEndpoint, firstRoute, Pattern.find, Pattern.findFrom]
  rfl

theorem lineEndpoint_eq_some : lineEndpoint letters line = some url ↔
    ∃ raw route, firstRoute line = some raw ∧ normalize letters raw = some route ∧
      url = String.ofList route := by
  simp only [lineEndpoint, Option.map_eq_some_iff, Option.bind_eq_some_iff]
  constructor
  · rintro ⟨route, ⟨raw, hraw, hroute⟩, rfl⟩
    exact ⟨raw, route, hraw, hroute, rfl⟩
  · rintro ⟨raw, route, hraw, hroute, rfl⟩
    exact ⟨route, ⟨raw, hraw, hroute⟩, rfl⟩

/-! ### Characters -/

theorem mem_of_mem_bareRoute {raw : List Char} {c : Char} (h : c ∈ bareRoute raw) : c ∈ raw :=
  Text.mem_of_mem_trimChars (Text.mem_of_mem_dropWhileEnd (Text.mem_of_mem_trimChars h))

theorem mem_of_mem_firstRoute {raw : List Char} (h : firstRoute line = some raw) {c : Char}
    (hc : c ∈ raw) : c ∈ line := by
  obtain ⟨⟨o, hit⟩, hhit, rfl⟩ := Option.map_eq_some_iff.1 h
  have hmem : (o, hit) ∈ Pattern.directiveEndpoint.find line := List.mem_of_mem_head? hhit
  obtain ⟨-, front, back, rfl, -⟩ := Pattern.mem_findFrom (Pattern.loose_consumes rfl) hmem
  simp only [Hit.text, List.mem_append]
  exact .inr (.inl (.inl (.inr hc)))

theorem normalize_eq_some {raw route : List Char} : normalize letters raw = some route ↔
    bareRoute raw ≠ [] ∧ isTemplate (bareRoute raw) = false ∧
      route = letters.apply (bareRoute raw) := by
  rw [normalize]
  split_ifs with h
  · refine iff_of_false nofun fun hroute => ?_
    rw [Bool.or_eq_true, List.isEmpty_iff] at h
    rcases h with h | h
    · exact hroute.1 h
    · exact Bool.false_ne_true (hroute.2.1.symm.trans h)
  · rw [Bool.or_eq_true, List.isEmpty_iff, not_or, Bool.not_eq_true] at h
    rw [Option.some.injEq, and_iff_right h.1, and_iff_right h.2, eq_comm]

theorem lineFeed_not_mem_endpoint (hline : '\n' ∉ line)
    (h : lineEndpoint letters line = some url) : '\n' ∉ url.toList := by
  obtain ⟨raw, route, hraw, hroute, rfl⟩ := lineEndpoint_eq_some.1 h
  obtain ⟨-, -, rfl⟩ := normalize_eq_some.1 hroute
  rw [String.toList_ofList]
  intro hmem
  refine hline (mem_of_mem_firstRoute hraw (mem_of_mem_bareRoute ?_))
  cases letters with
  | preserve => exact hmem
  | lower => exact Text.mem_of_mem_lowerChars hmem (by decide) (by decide) (by decide)

/-! ### Cuts -/

variable (letters)

theorem scriptEndpoints_lineFeed {a : Text.Utf8.Bytes} (h : a.getLast? ≠ some 13)
    (b : Text.Utf8.Bytes) :
    scriptEndpoints letters (a ++ 10 :: b) =
      scriptEndpoints letters a ++ scriptEndpoints letters b := by
  have hends : Text.EndsLine (decodeLossy a) ['\n'] := by
    refine .lineFeed fun hlast => h ?_
    obtain ⟨byte, hbyte, hreturn⟩ :=
      Text.Utf8.getLast?_decodeLossy (by decide) (by decide) hlast
    rw [hbyte, UInt8.toNat_inj.1 (hreturn.trans (by decide : '\r'.toNat = (13 : UInt8).toNat))]
  have hcut : decodeLossy (a ++ 10 :: b) = decodeLossy a ++ (['\n'] ++ decodeLossy b) :=
    Text.Utf8.decodeLossy_append_single a (by decide) b
  rw [scriptEndpoints_eq, hcut, Text.filterMap_lines_append (lineEndpoint_nil letters) hends]
  rfl

theorem scriptEndpoints_both (a b : Text.Utf8.Bytes) :
    scriptEndpoints letters (a ++ 13 :: 10 :: b) =
      scriptEndpoints letters a ++ scriptEndpoints letters b := by
  have hcut : decodeLossy (a ++ 13 :: 10 :: b) =
      decodeLossy a ++ (['\r', '\n'] ++ decodeLossy b) := by
    have hfeed : decodeLossy (10 :: b) = '\n' :: decodeLossy b :=
      Text.Utf8.decodeLossy_append_single [] (by decide) b
    rw [Text.Utf8.decodeLossy_append_single a (by decide) (10 :: b), hfeed]
    rfl
  rw [scriptEndpoints_eq, hcut, Text.filterMap_lines_append (lineEndpoint_nil letters) .both]
  rfl

theorem length_scriptEndpoints_le {line : Text.Utf8.Bytes} (h : 10 ∉ line) :
    (scriptEndpoints letters line).length ≤ 1 := by
  have hline : '\n' ∉ decodeLossy line := by
    intro hmem
    obtain ⟨byte, hbyte, hfeed⟩ := Text.Utf8.mem_decodeLossy (by decide) (by decide) hmem
    obtain rfl : byte = 10 :=
      UInt8.toNat_inj.1 (hfeed.trans (by decide : '\n'.toNat = (10 : UInt8).toNat))
    exact h hbyte
  exact Nat.le_trans (List.length_filterMap_le _ _) (Text.length_lines_le hline)

/-- A script with a carriage return before each line feed. -/
def withReturns (script : Text.Utf8.Bytes) : Text.Utf8.Bytes :=
  script.flatMap fun b => if b = 10 then [13, 10] else [b]

theorem scriptEndpoints_withReturns {script : Text.Utf8.Bytes} (h : 13 ∉ script) :
    scriptEndpoints letters (withReturns script) = scriptEndpoints letters script := by
  -- The bytes of the line that is being read are kept in front.
  have hfront (script : Text.Utf8.Bytes) (h : 13 ∉ script) :
      ∀ front : Text.Utf8.Bytes, front.getLast? ≠ some 13 →
        scriptEndpoints letters (front ++ withReturns script) =
          scriptEndpoints letters (front ++ script) := by
    induction script with
    | nil => exact fun _ _ => rfl
    | cons b rest ih =>
      obtain ⟨hb, hrest⟩ := not_or.1 (mt List.mem_cons.2 h)
      intro front hlast
      rw [withReturns, List.flatMap_cons]
      split_ifs with hfeed
      · subst hfeed
        have hbehind : scriptEndpoints letters (withReturns rest) = scriptEndpoints letters rest :=
          ih hrest [] nofun
        rw [scriptEndpoints_lineFeed letters hlast, ← hbehind]
        exact scriptEndpoints_both letters front (withReturns rest)
      · rw [← List.append_assoc, List.append_cons front b rest]
        refine ih hrest (front ++ [b]) ?_
        rw [List.getLast?_concat]
        exact fun heq => hb (Option.some.inj heq).symm
  exact hfront script h [] nofun

/-- A script is read line by line: it can be cut at any line feed that no carriage return
belongs to, a line has one endpoint at most, an endpoint does not go beyond its line, and
line ends with a carriage return are as good as those without. -/
theorem scriptEndpoints_by_line :
    (∀ a b : Text.Utf8.Bytes, a.getLast? ≠ some 13 → scriptEndpoints letters (a ++ 10 :: b) =
      scriptEndpoints letters a ++ scriptEndpoints letters b) ∧
    (∀ line : Text.Utf8.Bytes, 10 ∉ line → (scriptEndpoints letters line).length ≤ 1) ∧
    (∀ script : Text.Utf8.Bytes, ∀ url ∈ scriptEndpoints letters script, '\n' ∉ url.toList) ∧
    ∀ script : Text.Utf8.Bytes, 13 ∉ script →
      scriptEndpoints letters (withReturns script) = scriptEndpoints letters script := by
  refine ⟨fun a b h => scriptEndpoints_lineFeed letters h b,
    fun line h => length_scriptEndpoints_le letters h, fun script url h => ?_,
    fun script h => scriptEndpoints_withReturns letters h⟩
  obtain ⟨line, hline, hurl⟩ := List.mem_filterMap.1 h
  exact lineFeed_not_mem_endpoint (Text.lineFeed_not_mem_lines hline) hurl

/-- A cut behind the first byte of a character, with a route on each side of it; and the
script in front of it, which is one line and has no carriage return. -/
theorem truncatedScript_by_line :
    ((Text.Utf8.encode "/api/a".toList ++ [0xC3]).getLast? ≠ some 13 ∧
      scriptEndpoints .preserve ((Text.Utf8.encode "/api/a".toList ++ [0xC3]) ++
        10 :: Text.Utf8.encode "/api/b')".toList) = ["/api/a\uFFFD", "/api/b"]) ∧
    (10 ∉ Text.Utf8.encode "/api/b')".toList ∧
      (scriptEndpoints .preserve (Text.Utf8.encode "/api/b')".toList)).length ≤ 1) ∧
    13 ∉ 10 :: Text.Utf8.encode "/api/b')".toList ∧
      scriptEndpoints .preserve (13 :: 10 :: Text.Utf8.encode "/api/b')".toList) =
        scriptEndpoints .preserve (10 :: Text.Utf8.encode "/api/b')".toList) := by
  have hlast : (Text.Utf8.encode "/api/a".toList ++ [0xC3]).getLast? ≠ some 13 := by decide
  have hfront : Text.lines (decodeLossy (Text.Utf8.encode "/api/a".toList ++ [0xC3])) =
      ["/api/a\uFFFD".toList] := by decide
  have hback : Text.lines (decodeLossy (Text.Utf8.encode "/api/b')".toList)) =
      ["/api/b')".toList] := by decide
  -- Mathlib is imported whole, as `cbv` takes equations of library functions from all over it.
  have hfrontRoute : firstRoute "/api/a\uFFFD".toList = some "/api/a\uFFFD".toList := by cbv
  have hbackRoute : firstRoute "/api/b')".toList = some "/api/b".toList := by cbv
  have hline : 10 ∉ Text.Utf8.encode "/api/b')".toList := by decide
  have hfeeds : 13 ∉ 10 :: Text.Utf8.encode "/api/b')".toList := by decide
  obtain ⟨hcut, hone, -, hreturns⟩ := scriptEndpoints_by_line .preserve
  refine ⟨⟨hlast, ?_⟩, ⟨hline, hone _ hline⟩, hfeeds, hreturns _ hfeeds⟩
  rw [hcut _ _ hlast, scriptEndpoints_eq, scriptEndpoints_eq, hfront, hback]
  simp only [List.filterMap_cons, List.filterMap_nil, lineEndpoint, hfrontRoute, hbackRoute]
  decide

end EndpointCatalog.Directive
