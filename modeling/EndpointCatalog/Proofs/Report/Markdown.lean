import EndpointCatalog.Report.Render
import EndpointCatalog.Text.Split
import Mathlib.Data.List.Basic

/-! Reading the tables of a Markdown document back. The rows of a table are the lines up to the
first empty one, and the cells of a row lie between the pipes that no backslash escapes. A
table is read back as the endpoints that it was written for exactly when no line ends
within one of their urls and redirects. -/

namespace EndpointCatalog.Report.Markdown

/-! ### The reader -/

def endsLine (c : Char) : Bool := c == '\n' || c == '\r'

/-- The lines of a document. A line ends at a line feed, at a carriage return and at both in a
row. -/
def lines : List Char → List (List Char)
  | [] => [[]]
  | '\r' :: '\n' :: rest => [] :: lines rest
  | c :: rest => if endsLine c then [] :: lines rest else Text.consHead c (lines rest)

/-- What stands between the pipes of a line, but for those directly behind a backslash. Whether
the line has a backslash in front of the given text is said by `escaped`. -/
def splitCells (escaped : Bool) : List Char → List (List Char)
  | [] => [[]]
  | c :: rest =>
    if c = '|' ∧ escaped = false then [] :: splitCells false rest
    else Text.consHead c (splitCells (c == '\\') rest)

def unescapePipes : List Char → List Char
  | [] => []
  | '\\' :: '|' :: rest => '|' :: unescapePipes rest
  | c :: rest => c :: unescapePipes rest

/-- The text that stands between two marks. -/
def between? (mark : Char) : List Char → Option (List Char)
  | [] => none
  | c :: rest => if c = mark ∧ rest.getLast? = some mark then some rest.dropLast else none

/-- A row begins and ends with a pipe and has two cells with a space at each of their ends; the
first of them is marked as code. -/
def readRow? (line : List Char) : Option EndpointEntry :=
  match splitCells false line with
  | [[], url, redirect, []] => do
    let url ← between? '\x60' (← between? ' ' url)
    let redirect ← between? ' ' redirect
    return ⟨String.ofList (unescapePipes url), String.ofList (unescapePipes redirect)⟩
  | _ => none

/-- The rows of a table, given the text behind its head. -/
def tableRows (text : List Char) : List (List Char) := (lines text).takeWhile (· ≠ [])

def readTable (text : List Char) : List (Option EndpointEntry) := (tableRows text).map readRow?

/-! ### Lines -/

theorem mem_of_mem_consHead {c d : Char} {pieces : List (List Char)} {piece : List Char}
    (h : piece ∈ Text.consHead c pieces) (hd : d ∈ piece) : d = c ∨ ∃ p ∈ pieces, d ∈ p := by
  cases pieces with
  | nil => exact .inl (by simpa [List.mem_singleton.1 h] using hd)
  | cons p pieces =>
    rcases List.mem_cons.1 h with rfl | h
    · exact (List.mem_cons.1 hd).imp_right fun hd => ⟨p, List.mem_cons_self, hd⟩
    · exact .inr ⟨piece, List.mem_cons_of_mem p h, hd⟩

theorem lines_cons {c : Char} (h : endsLine c = false) (rest : List Char) :
    lines (c :: rest) = Text.consHead c (lines rest) := by
  have hc : c ≠ '\r' := by
    rintro rfl
    cases h
  rw [lines, if_neg (by simp [h])]
  exact fun _ hr => absurd hr hc

theorem lines_append {s : List Char} (hs : ∀ c ∈ s, endsLine c = false) (rest : List Char) :
    lines (s ++ '\n' :: rest) = s :: lines rest := by
  induction s with
  | nil => simp [lines, endsLine]
  | cons c s ih =>
    obtain ⟨hc, hs⟩ := List.forall_mem_cons.1 hs
    rw [List.cons_append, lines_cons hc, ih hs]
    rfl

theorem not_endsLine_of_mem_lines {cs line : List Char} (h : line ∈ lines cs) {c : Char}
    (hc : c ∈ line) : endsLine c = false := by
  fun_induction lines cs generalizing line with
  | case1 =>
    obtain rfl := List.mem_singleton.1 h
    cases hc
  | case2 rest ih =>
    rcases List.mem_cons.1 h with rfl | h
    · cases hc
    · exact ih h hc
  | case3 d rest _ hd ih =>
    rcases List.mem_cons.1 h with rfl | h
    · cases hc
    · exact ih h hc
  | case4 d rest _ hd ih =>
    rcases mem_of_mem_consHead h hc with rfl | ⟨p, hp, hcp⟩
    · simpa using hd
    · exact ih hp hcp

/-! ### Cells -/

theorem escapePipes_cons (c : Char) (cs : List Char) :
    escapePipes (c :: cs) = (if c = '|' then ['\\', '|'] else [c]) ++ escapePipes cs := by
  simp [escapePipes]

/-- Each pipe of an escaped text has its backslash in front of it, so the text lies in one cell,
together with what follows up to the next pipe. A character that is no pipe has to follow,
since the text may end with a backslash. -/
theorem splitCells_escapePipes {escaped : Bool} {d : Char} {rest piece : List Char}
    {pieces : List (List Char)} (cs : List Char) (hd : d ≠ '|')
    (h : splitCells (d == '\\') rest = piece :: pieces) :
    splitCells escaped (escapePipes cs ++ d :: rest) =
      (escapePipes cs ++ d :: piece) :: pieces := by
  -- whether a backslash is in front does not matter, as the text does not begin with a pipe
  induction cs generalizing escaped with
  | nil => simp [escapePipes, splitCells, hd, h, Text.consHead]
  | cons c cs ih =>
    rw [escapePipes_cons]
    by_cases hc : c = '|' <;> simp [hc, splitCells, ih, Text.consHead]

theorem mem_of_mem_splitCells {escaped : Bool} {cs piece : List Char}
    (h : piece ∈ splitCells escaped cs) {d : Char} (hd : d ∈ piece) : d ∈ cs := by
  induction cs generalizing escaped piece with
  | nil =>
    obtain rfl := List.mem_singleton.1 h
    cases hd
  | cons c cs ih =>
    rw [splitCells] at h
    split at h
    · rcases List.mem_cons.1 h with rfl | h
      · cases hd
      · exact List.mem_cons_of_mem c (ih h hd)
    · rcases mem_of_mem_consHead h hd with rfl | ⟨p, hp, hdp⟩
      · exact List.mem_cons_self
      · exact List.mem_cons_of_mem c (ih hp hdp)

theorem head?_escapePipes (cs : List Char) : (escapePipes cs).head? ≠ some '|' := by
  cases cs with
  | nil => simp [escapePipes]
  | cons c cs =>
    rw [escapePipes_cons]
    by_cases hc : c = '|' <;> simp [hc]

theorem unescapePipes_cons {c : Char} {rest : List Char} (h : rest.head? ≠ some '|') :
    unescapePipes (c :: rest) = c :: unescapePipes rest := by
  rw [unescapePipes]
  rintro more - rfl
  exact h rfl

theorem unescapePipes_escapePipes (cs : List Char) : unescapePipes (escapePipes cs) = cs := by
  induction cs with
  | nil => rfl
  | cons c cs ih =>
    rw [escapePipes_cons]
    by_cases hc : c = '|'
    · rw [if_pos hc, hc, List.cons_append, List.cons_append, List.nil_append, unescapePipes, ih]
    · rw [if_neg hc, List.singleton_append, unescapePipes_cons (head?_escapePipes cs), ih]

theorem mem_of_mem_unescapePipes {cs : List Char} {d : Char} (h : d ∈ unescapePipes cs) :
    d ∈ cs := by
  fun_induction unescapePipes cs with
  | case1 => exact h
  | case2 rest ih =>
    rcases List.mem_cons.1 h with rfl | h
    · simp
    · simp [ih h]
  | case3 c rest _ ih => exact List.mem_cons.2 ((List.mem_cons.1 h).imp_right ih)

theorem between?_marked (mark : Char) (cs : List Char) :
    between? mark (mark :: (cs ++ [mark])) = some cs := by
  simp [between?]

theorem subset_of_between? {mark : Char} {cs ds : List Char} (h : between? mark cs = some ds) :
    ds ⊆ cs := by
  cases cs with
  | nil => cases h
  | cons c rest =>
    rw [between?, Option.ite_none_right_eq_some, Option.some.injEq] at h
    obtain ⟨-, rfl⟩ := h
    exact List.Subset.trans (List.dropLast_subset rest) (List.subset_cons_self c rest)

/-! ### Rows -/

/-- A row without its line end. -/
def rowLine (e : EndpointEntry) : List Char :=
  '|' :: ' ' :: '\x60' :: (escapePipes e.url.toList ++
    '\x60' :: ' ' :: '|' :: ' ' :: (escapePipes e.redirect.toList ++ [' ', '|']))

theorem toList_row (e : EndpointEntry) : (row e).toList = rowLine e ++ ['\n'] := by
  simp [row, rowLine, cell]

theorem splitCells_rowLine (e : EndpointEntry) : splitCells false (rowLine e) =
    [[], ' ' :: ('\x60' :: (escapePipes e.url.toList ++ ['\x60']) ++ [' ']),
      ' ' :: (escapePipes e.redirect.toList ++ [' ']), []] := by
  have hredirect : splitCells false (escapePipes e.redirect.toList ++ [' ', '|']) =
      [escapePipes e.redirect.toList ++ [' '], []] :=
    splitCells_escapePipes _ (by decide) rfl
  have hbehind : splitCells false
        (' ' :: '|' :: ' ' :: (escapePipes e.redirect.toList ++ [' ', '|'])) =
      [[' '], ' ' :: (escapePipes e.redirect.toList ++ [' ']), []] := by
    simp [splitCells, hredirect, Text.consHead]
  have hurl : splitCells false (escapePipes e.url.toList ++
        '\x60' :: ' ' :: '|' :: ' ' :: (escapePipes e.redirect.toList ++ [' ', '|'])) =
      [escapePipes e.url.toList ++ ['\x60', ' '],
        ' ' :: (escapePipes e.redirect.toList ++ [' ']), []] :=
    splitCells_escapePipes _ (by decide) hbehind
  simp [rowLine, splitCells, hurl, Text.consHead]

theorem readRow?_rowLine (e : EndpointEntry) : readRow? (rowLine e) = some e := by
  rw [readRow?, splitCells_rowLine]
  simp only [between?_marked, Option.bind_eq_bind, Option.bind_some, unescapePipes_escapePipes,
    String.ofList_toList]
  rfl

/-- A row that is read has nothing in its endpoint that is not in its line. -/
theorem mem_of_readRow? {line : List Char} {e : EndpointEntry} (h : readRow? line = some e)
    {c : Char} (hc : c ∈ e.url.toList ∨ c ∈ e.redirect.toList) : c ∈ line := by
  rw [readRow?] at h
  split at h
  case h_2 => cases h
  case h_1 url redirect hcells =>
    obtain ⟨marked, hmarked, h⟩ := Option.bind_eq_some_iff.1 h
    obtain ⟨url', hurl, h⟩ := Option.bind_eq_some_iff.1 h
    obtain ⟨redirect', hredirect, h⟩ := Option.bind_eq_some_iff.1 h
    cases h
    have hcell : ∃ cell ∈ splitCells false line, c ∈ cell := by
      simp only [String.toList_ofList] at hc
      rw [hcells]
      rcases hc with hc | hc
      · refine ⟨url, by simp, ?_⟩
        exact subset_of_between? hmarked (subset_of_between? hurl (mem_of_mem_unescapePipes hc))
      · refine ⟨redirect, by simp, ?_⟩
        exact subset_of_between? hredirect (mem_of_mem_unescapePipes hc)
    obtain ⟨cell, hcell, hc⟩ := hcell
    exact mem_of_mem_splitCells hcell hc

/-! ### Tables -/

/-- A text in which no line ends. -/
def OneLine (s : String) : Prop := ∀ c ∈ s.toList, endsLine c = false

theorem OneLine.escapePipes {s : String} (h : OneLine s) :
    ∀ c ∈ Markdown.escapePipes s.toList, endsLine c = false := by
  intro c hc
  obtain ⟨d, hd, hcd⟩ := List.mem_flatMap.1 hc
  split at hcd
  next => rcases List.mem_pair.1 hcd with rfl | rfl <;> rfl
  next =>
    obtain rfl := List.mem_singleton.1 hcd
    exact h c hd

theorem OneLine.rowLine {e : EndpointEntry} (hurl : OneLine e.url)
    (hredirect : OneLine e.redirect) : ∀ c ∈ Markdown.rowLine e, endsLine c = false := by
  simp only [Markdown.rowLine, List.forall_mem_cons, List.forall_mem_append]
  exact ⟨rfl, rfl, rfl, hurl.escapePipes, rfl, rfl, rfl, rfl, hredirect.escapePipes, rfl, rfl,
    List.forall_mem_nil _⟩

theorem tableRows_rows {endpoints : List EndpointEntry} (rest : List Char)
    (h : ∀ e ∈ endpoints, OneLine e.url ∧ OneLine e.redirect) :
    tableRows (endpoints.flatMap (fun e => rowLine e ++ ['\n']) ++ '\n' :: rest) =
      endpoints.map rowLine := by
  induction endpoints with
  | nil => simp [tableRows, lines, endsLine]
  | cons e es ih =>
    obtain ⟨⟨hurl, hredirect⟩, hes⟩ := List.forall_mem_cons.1 h
    have hlines := lines_append (hurl.rowLine hredirect)
      (es.flatMap (fun e => rowLine e ++ ['\n']) ++ '\n' :: rest)
    have hne : rowLine e ≠ [] := List.cons_ne_nil _ _
    rw [tableRows] at ih ⊢
    rw [List.flatMap_cons, List.append_assoc, List.append_assoc, List.singleton_append, hlines,
      List.takeWhile_cons_of_pos (by simpa using hne), ih hes, List.map_cons]

theorem readTable_rows {endpoints : List EndpointEntry} (rest : List Char)
    (h : ∀ e ∈ endpoints, OneLine e.url ∧ OneLine e.redirect) :
    readTable (endpoints.flatMap (fun e => rowLine e ++ ['\n']) ++ '\n' :: rest) =
      endpoints.map some := by
  rw [readTable, tableRows_rows rest h, List.map_map]
  exact List.map_congr_left fun e _ => readRow?_rowLine e

/-- Whatever a table is, no line ends within what is read from it. -/
theorem oneLine_of_mem_readTable {text : List Char} {e : EndpointEntry}
    (h : some e ∈ readTable text) : OneLine e.url ∧ OneLine e.redirect := by
  obtain ⟨line, hline, hread⟩ := List.mem_map.1 h
  have hlines : line ∈ lines text := (List.takeWhile_sublist _).subset hline
  constructor
  · exact fun c hc => not_endsLine_of_mem_lines hlines (mem_of_readRow? hread (.inl hc))
  · exact fun c hc => not_endsLine_of_mem_lines hlines (mem_of_readRow? hread (.inr hc))

/-! ### Reports -/

def heading (p : PageEntry) : String := "## " ++ p.folder ++ "/" ++ p.controller ++ "\n\n"

/-- What a report has behind the head of the table of a page. -/
def behindHead (p : PageEntry) (after : List PageEntry) : String :=
  String.join (p.endpoints.map row) ++ "\n" ++ String.join (after.map pageSection)

theorem toList_behindHead (p : PageEntry) (after : List PageEntry) :
    (behindHead p after).toList = p.endpoints.flatMap (fun e => rowLine e ++ ['\n']) ++
      '\n' :: (String.join (after.map pageSection)).toList := by
  simp [behindHead, toList_row, List.flatMap_map]

theorem render_append {r : Report} {before after : List PageEntry}
    (hpages : r.pages = before ++ after) :
    r.render .markdown =
      Report.render { r with pages := before } .markdown ++ String.join (after.map pageSection) := by
  change _ ++ String.join (r.pages.map pageSection) =
    _ ++ String.join (before.map pageSection) ++ _
  rw [hpages, List.map_append, String.join_append, ← String.append_assoc]

theorem pageSection_eq {p : PageEntry} (hp : p.endpoints ≠ []) :
    pageSection p = heading p ++ tableHead ++ (String.join (p.endpoints.map row) ++ "\n") := by
  have htable : table p.endpoints = tableHead ++ String.join (p.endpoints.map row) ++ "\n" := by
    rw [table, if_neg (by simpa using hp)]
  simp only [pageSection, htable, heading, String.append_assoc]

theorem render_table {r : Report} {before after : List PageEntry} {p : PageEntry}
    (hpages : r.pages = before ++ p :: after) (hp : p.endpoints ≠ []) :
    r.render .markdown =
      Report.render { r with pages := before } .markdown ++ heading p ++ tableHead ++
        behindHead p after := by
  rw [render_append hpages, List.map_cons, String.join_cons, pageSection_eq hp]
  simp only [behindHead, String.append_assoc]

/-- The table of a page follows the pages before it and the heading of the page. It is read back,
a row for each endpoint, exactly when no line ends within an endpoint. -/
theorem table_read_iff {r : Report} {before after : List PageEntry} {p : PageEntry}
    (hpages : r.pages = before ++ p :: after) (hp : p.endpoints ≠ []) :
    ∃ behind : String, r.render .markdown =
        Report.render { r with pages := before } .markdown ++ heading p ++ tableHead ++ behind ∧
      (readTable behind.toList = p.endpoints.map some ↔
        ∀ e ∈ p.endpoints, OneLine e.url ∧ OneLine e.redirect) := by
  refine ⟨behindHead p after, render_table hpages hp, ?_, ?_⟩
  · intro hread e he
    exact oneLine_of_mem_readTable (hread ▸ List.mem_map_of_mem he)
  · intro h
    rw [toList_behindHead]
    exact readTable_rows _ h

/-- A page with each of the marks of a table in its endpoints. -/
def markedPage : PageEntry :=
  ⟨"v", "a", [⟨"/api/x\\|y", "a|b\\"⟩, ⟨"\x60/api/z|", ""⟩, ⟨" | \x60 | ", "| \\|"⟩]⟩

def markedReport : Report where
  generatedAt := 0
  totalPages := 2
  totalEndpoints := 3
  pages := [⟨"u", "b", []⟩, markedPage]

theorem markedPage_read_back :
    markedReport.pages = [⟨"u", "b", []⟩] ++ markedPage :: [] ∧ markedPage.endpoints ≠ [] ∧
      ∃ behind : String, markedReport.render .markdown =
          Report.render { markedReport with pages := [⟨"u", "b", []⟩] } .markdown ++
            heading markedPage ++ tableHead ++ behind ∧
        readTable behind.toList = markedPage.endpoints.map some := by
  have hpages : markedReport.pages = [⟨"u", "b", []⟩] ++ markedPage :: [] := rfl
  have hne : markedPage.endpoints ≠ [] := List.cons_ne_nil _ _
  obtain ⟨behind, htext, hread⟩ := table_read_iff hpages hne
  refine ⟨hpages, hne, behind, htext, hread.2 ?_⟩
  simp [markedPage, OneLine, endsLine]

/-- A page with a line feed in its only url. -/
def splitPage : PageEntry := ⟨"v", "a", [⟨"/api/x\n/y", ""⟩]⟩

def splitReport : Report where
  generatedAt := 0
  totalPages := 1
  totalEndpoints := 1
  pages := [splitPage]

/-- The one row is cut in two, and neither of them has two cells. -/
theorem splitPage_two_rows : ∃ behind : String, splitReport.render .markdown =
      Report.render { splitReport with pages := [] } .markdown ++ heading splitPage ++ tableHead ++
        behind ∧
    tableRows behind.toList = ["| \x60/api/x".toList, "/y\x60 |  |".toList] ∧
      readTable behind.toList = [none, none] := by
  refine ⟨behindHead splitPage [], render_table rfl (List.cons_ne_nil _ _), ?_⟩
  decide +kernel

end EndpointCatalog.Report.Markdown
