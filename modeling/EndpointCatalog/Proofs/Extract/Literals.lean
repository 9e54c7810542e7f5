import EndpointCatalog.Proofs.Extract.Calls
import EndpointCatalog.Proofs.Extract.Quoted
import EndpointCatalog.Proofs.Pattern.Decided

/-! Texts made of literals. Where routes stand in quotes and nothing between them could
begin or end a route, the endpoints of a text are its routes: those with a slash in front
first, as their search comes first, then those without. Each search for quoted routes goes
from literal to literal, and the other searches find these routes or nothing. -/

namespace EndpointCatalog.Extract

/-- A text with no quotes, backticks and dollar signs that does not have `api` in it. -/
structure Calm (cs : List Char) : Prop where
  no_mark : ∀ c ∈ cs, c ∉ ['\x27', '\x22', '\x60', '$']
  no_api : ¬ "api".toList <:+: cs.map Char.toLower

/-- A literal with a route in plain notation, and the calm text behind it. -/
structure QuotedRoute where
  mark : Char
  route : List Char
  after : List Char
  mark_mem : mark ∈ Pattern.quotes
  isRoute : PlainRoute route
  calm : Calm after

namespace QuotedRoute

def text (r : QuotedRoute) : List Char := r.mark :: (r.route ++ r.mark :: r.after)

def value (r : QuotedRoute) : String := String.ofList r.route

/-- Whether the route has its slash in front. -/
def slashed (r : QuotedRoute) : Bool := r.route.head? == some '/'

/-- What the route begins with. -/
def word (r : QuotedRoute) : String := if r.slashed then "/api/" else "api/"

end QuotedRoute

/-! ### Calm texts -/

/-- The text begins as a route does. -/
def BeginsRoute (cs : List Char) : Prop :=
  ∃ w ∈ ["/api/", "api/"], ∃ lead tail, cs = lead ++ tail ∧ lead.map Char.toLower = w.toList

/-- A text that is over or goes on with a quote. -/
def Ahead (rest : List Char) : Prop := ∀ c ∈ rest.head?, c ∈ Pattern.quotes

theorem Calm.of_suffix {s s' : List Char} (h : Calm s) (hs : s' <:+ s) : Calm s' where
  no_mark c hc := h.no_mark c (hs.subset hc)
  no_api hapi := h.no_api (hapi.trans (hs.map Char.toLower).isInfix)

theorem not_quote_of_not_stop {c : Char} (h : isStop c = false) : c ∉ Pattern.quotes := by
  intro hquote
  rw [isStop_of_mem_quotes hquote] at h
  cases h

theorem ahead_flatMap (rs : List QuotedRoute) : Ahead (rs.flatMap QuotedRoute.text) := by
  cases rs with
  | nil => exact nofun
  | cons r rs =>
    rintro c ⟨⟩
    exact r.mark_mem

/-- No route begins in a calm text, not even one that would go on behind it. -/
theorem Calm.not_begins {s rest : List Char} (h : Calm s) (hrest : Ahead rest) :
    ¬ BeginsRoute (s ++ rest) := by
  rintro ⟨w, hw, lead, tail, heq, hlead⟩
  have hapi : "api".toList <:+: lead.map Char.toLower := by
    have hwords : ∀ w ∈ ["/api/", "api/"], "api".toList <:+: w.toList := by decide
    exact hlead ▸ hwords w hw
  have hinfix : ¬ lead <:+: s := fun hs => h.no_api (hapi.trans (hs.map Char.toLower))
  rcases List.append_eq_append_iff.1 heq with ⟨as, rfl, has⟩ | ⟨as, rfl, -⟩
  · cases as with
    | nil => exact hinfix ⟨[], [], by simp⟩
    | cons a as =>
      have ha : a ∈ Pattern.quotes := hrest a (by rw [has]; rfl)
      exact not_quote_of_not_stop ((not_stop_of_toLower hw hlead).2 a (by simp)) ha
  · exact hinfix (List.prefix_append lead as).isInfix

/-! ### Routes -/

namespace QuotedRoute

variable (r : QuotedRoute)

theorem word_mem : r.word ∈ ["/api/", "api/"] := by
  rw [word]
  split <;> simp

/-- The route is its word in some letter case and route characters. -/
theorem exists_lead : ∃ lead tail, r.route = lead ++ tail ∧
    lead.map Char.toLower = r.word.toList ∧ tail ≠ [] ∧ ∀ c ∈ tail, Pattern.routeChar c = true := by
  obtain ⟨lead, tail, hroute, hlead, hne, htail⟩ := r.isRoute
  refine ⟨lead, tail, hroute, ?_, hne, htail⟩
  cases lead with
  | nil => rcases hlead with hlead | hlead <;> cases hlead
  | cons c lead =>
    have hhead : r.slashed = (c == '/') := by simp [slashed, hroute]
    rcases hlead with hlead | hlead
    · have hc : c = '/' := Text.eq_of_toLower (List.cons.inj hlead).1 rfl
      rw [word, hhead, if_pos (by simpa using hc)]
      exact hlead
    · have hc : c ≠ '/' := by
        rintro rfl
        exact absurd (List.cons.inj hlead).1 (by decide)
      rw [word, hhead, if_neg (by simpa using hc)]
      exact hlead

/-- A route begins with one word only. -/
theorem word_eq {w : String} (hw : w ∈ ["/api/", "api/"]) {lead tail : List Char}
    (hroute : r.route = lead ++ tail) (hlead : lead.map Char.toLower = w.toList) : w = r.word := by
  obtain ⟨lead', tail', hroute', hlead', -, -⟩ := r.exists_lead
  have hhead {w : String} (hw : w ∈ ["/api/", "api/"]) {lead tail : List Char}
      (hroute : r.route = lead ++ tail) (hlead : lead.map Char.toLower = w.toList) :
      w.toList.head? = (r.route.map Char.toLower).head? := by
    have hne : ∀ w ∈ ["/api/", "api/"], w.toList ≠ [] := by decide
    rw [hroute, List.map_append, hlead, List.head?_append_of_ne_nil _ (hne w hw)]
  have hheads : ∀ w ∈ ["/api/", "api/"], ∀ w' ∈ ["/api/", "api/"],
      w.toList.head? = w'.toList.head? → w = w' := by decide
  exact hheads w hw r.word r.word_mem
    ((hhead hw hroute hlead).trans (hhead r.word_mem hroute' hlead').symm)

theorem not_quote : ∀ c ∈ r.route, c ∉ Pattern.quotes :=
  fun c hc => not_quote_of_not_stop (r.isRoute.not_stop c hc)

end QuotedRoute

/-! ### From literal to literal -/

/-- What a search finds in a text of literals, when it reads each literal whole or passes
over it. -/
theorem map_value_find {p : Pattern} (accepts : QuotedRoute → Bool)
    (idle : ∀ {s rest}, Calm s → Ahead rest → p.Idle s rest)
    (step : ∀ (r : QuotedRoute) (front rest : List Char), Ahead rest →
      (p.findAfter front (r.text ++ rest)).map (·.2.value) =
        (if accepts r then [r.route] else []) ++
          (p.findAfter (front ++ r.text) rest).map (·.2.value))
    {s : List Char} (hs : Calm s) (rs : List QuotedRoute) :
    (p.find (s ++ rs.flatMap QuotedRoute.text)).map (·.2.value) =
      (rs.filter accepts).map (·.route) := by
  have run (front : List Char) : (p.findAfter front (rs.flatMap QuotedRoute.text)).map
      (·.2.value) = (rs.filter accepts).map (·.route) := by
    induction rs generalizing front with
    | nil =>
      rw [List.flatMap_nil, Pattern.findAfter, Pattern.findFrom]
      rfl
    | cons r rs ih =>
      rw [List.flatMap_cons, step r front _ (ahead_flatMap rs), ih, List.filter_cons]
      split <;> rfl
  have hfind : p.find (s ++ rs.flatMap QuotedRoute.text) =
      p.findAfter [] (s ++ rs.flatMap QuotedRoute.text) := rfl
  rw [hfind, Pattern.findAfter_of_idle (idle hs (ahead_flatMap rs)), run]

/-! ### Searches in quotes -/

/-- A route of characters of a set between quotes. -/
def routeBranch (set : CharSet) (w : String) : Branch :=
  ⟨Pattern.quote, Atom.word w ++ Atom.run set, Pattern.quote⟩

section Quoted

variable {p : Pattern} {set : CharSet} {ws : List String}

theorem routeBranch_decided (hset : ∀ q ∈ Pattern.quotes, set q = false) (w : String) :
    Atom.Decided (routeBranch set w).atoms := by
  have hstop : ∀ c, CharSet.oneOf Pattern.quotes c = true → set c = false :=
    fun c hc => hset c (by simpa [CharSet.oneOf] using hc)
  rw [Branch.atoms, routeBranch, Pattern.quote, List.append_assoc, List.append_assoc]
  exact Atom.decided_word (Atom.decided_run hstop trivial)

variable (hp : p.branches = ws.map (routeBranch set)) (hws : ∀ w ∈ ws, w ∈ ["/api/", "api/"])
  (hset : ∀ q ∈ Pattern.quotes, set q = false)
include hp hws hset

/-- What is found stands in quotes, has none in it and begins as a route. -/
theorem quoted_match? {left : Option Char} {rest : List Char} {hit : Hit}
    (h : p.match? left rest = some hit) :
    ∃ q value q' more, hit = ⟨[q], value, [q']⟩ ∧ rest = q :: (value ++ q' :: more) ∧
      q ∈ Pattern.quotes ∧ q' ∈ Pattern.quotes ∧ (∀ c ∈ value, c ∉ Pattern.quotes) ∧
      ∃ w ∈ ws, ∃ lead tail, value = lead ++ tail ∧ lead.map Char.toLower = w.toList := by
  obtain ⟨⟨b, hb, hreads⟩, more, hmore⟩ := Pattern.match?_reads h
  rw [hp] at hb
  obtain ⟨w, hw, rfl⟩ := List.mem_map.1 hb
  obtain ⟨q, hq, hbefore⟩ := readAll_quote.1 hreads.before
  obtain ⟨q', hq', hafter⟩ := readAll_quote.1 hreads.after
  obtain ⟨lead, tail, hvalue, hspells, htail⟩ := Atom.readAll_append.1 hreads.value
  have hlead := (spells_route_iff (hws w hw)).1 (Atom.readAll_word.1 hspells)
  refine ⟨q, hit.value, q', more, ?_, ?_, hq, hq', ?_, w, hw, lead, tail, hvalue, hlead⟩
  · rw [← hbefore, ← hafter]
  · rw [← hmore, Hit.text, hbefore, hafter]
    simp
  · rw [hvalue]
    intro c hc hquote
    rcases List.mem_append.1 hc with hc | hc
    · exact not_quote_of_not_stop ((not_stop_of_toLower (hws w hw) hlead).2 c hc) hquote
    · have hchar := (Atom.readAll_run.1 htail).2 c hc
      rw [hset c hquote] at hchar
      cases hchar

/-- Nothing begins in a calm text, nor at one more character before it. -/
theorem quoted_idle {part rest : List Char} (hpart : Calm part.tail) (hrest : Ahead rest) :
    p.Idle part rest := by
  rintro cs ⟨front, rfl⟩ hne left
  obtain ⟨c, cs, rfl⟩ := List.exists_cons_of_ne_nil hne
  have hcs : cs <:+ (front ++ c :: cs).tail := by
    cases front with
    | nil => exact List.suffix_refl cs
    | cons d front => exact (List.suffix_cons c cs).trans (List.suffix_append front _)
  rw [Option.eq_none_iff_forall_ne_some]
  intro hit hhit
  obtain ⟨q, value, q', more, -, hmore, -, -, -, w, hw, lead, tail, rfl, hlead⟩ :=
    quoted_match? hp hws hset hhit
  refine (hpart.of_suffix hcs).not_begins hrest ⟨w, hws w hw, lead, tail ++ q' :: more, ?_, hlead⟩
  rw [← List.append_assoc]
  exact (List.cons.inj hmore).2

theorem quoted_match?_route (r : QuotedRoute) {left : Option Char} {rest : List Char} {hit : Hit}
    (h : p.match? left (r.mark :: (r.route ++ r.mark :: rest)) = some hit) :
    hit = ⟨[r.mark], r.route, [r.mark]⟩ ∧ r.word ∈ ws := by
  obtain ⟨q, value, q', more, rfl, hmore, -, hq', hvalue, w, hw, lead, tail, hlead⟩ :=
    quoted_match? hp hws hset h
  obtain ⟨rfl, htail⟩ := List.cons.inj hmore
  obtain ⟨rfl, rfl, -⟩ :=
    Text.append_cons_inj (P := (· ∈ Pattern.quotes)) htail r.not_quote r.mark_mem hvalue hq'
  exact ⟨rfl, r.word_eq (hws w hw) hlead.1 hlead.2 ▸ hw⟩

variable (hroute : ∀ c, Pattern.routeChar c = true → set c = true)
include hroute

omit hws in
theorem quoted_isSome (r : QuotedRoute) (hw : r.word ∈ ws) (left : Option Char)
    (rest : List Char) : (p.match? left (r.mark :: (r.route ++ r.mark :: rest))).isSome := by
  obtain ⟨lead, tail, hlead, hword, hne, htail⟩ := r.exists_lead
  have hmark : Atom.ReadAll Pattern.quote [r.mark] := readAll_quote.2 ⟨r.mark, r.mark_mem, rfl⟩
  have hreads : (routeBranch set r.word).Reads ⟨[r.mark], r.route, [r.mark]⟩ := by
    refine ⟨hmark, ?_, hmark⟩
    exact Atom.readAll_append.2 ⟨lead, tail, hlead,
      Atom.readAll_word.2 ((spells_route_iff r.word_mem).2 hword),
      Atom.readAll_run.2 ⟨hne, fun c hc => hroute c (htail c hc)⟩⟩
  rw [Pattern.match?, hp, List.findSome?_isSome_iff]
  refine ⟨_, List.mem_map_of_mem hw, ?_⟩
  have hmatch := Branch.match?_of_reads (routeBranch_decided hset r.word) hreads left rest
  have htext : Hit.text ⟨[r.mark], r.route, [r.mark]⟩ ++ rest =
      r.mark :: (r.route ++ r.mark :: rest) := by simp [Hit.text]
  rw [← htext, hmatch]
  rfl

/-- A search in quotes reads a literal whole or passes over it. -/
theorem quoted_step (r : QuotedRoute) (front rest : List Char) (hrest : Ahead rest) :
    (p.findAfter front (r.text ++ rest)).map (·.2.value) =
      (if r.word ∈ ws then [r.route] else []) ++
        (p.findAfter (front ++ r.text) rest).map (·.2.value) := by
  split
  next hw =>
    obtain ⟨hit, hhit⟩ := Option.isSome_iff_exists.1
      (quoted_isSome hp hset hroute r hw front.getLast? (r.after ++ rest))
    obtain ⟨rfl, -⟩ := quoted_match?_route hp hws hset r hhit
    have htext : r.text = Hit.text ⟨[r.mark], r.route, [r.mark]⟩ ++ r.after := by
      simp [QuotedRoute.text, Hit.text]
    have hidle : p.Idle r.after rest :=
      quoted_idle hp hws hset (r.calm.of_suffix (List.tail_suffix r.after)) hrest
    rw [htext, List.append_assoc, Pattern.findAfter_of_match? (by simpa [Hit.text] using hhit)
      (by simp [Hit.text]), Pattern.findAfter_of_idle hidle, List.map_cons, List.append_assoc]
    rfl
  next hw =>
    have htext : r.text = (r.mark :: r.route) ++ (r.mark :: r.after) := by simp [QuotedRoute.text]
    have hafter : p.Idle (r.mark :: r.after) rest := quoted_idle hp hws hset r.calm hrest
    have hfront : p.Idle (r.mark :: r.route) ((r.mark :: r.after) ++ rest) := by
      intro cs hcs hne left
      rw [Option.eq_none_iff_forall_ne_some]
      intro hit hhit
      rcases List.suffix_cons_iff.1 hcs with rfl | hcs
      · exact hw (quoted_match?_route hp hws hset r hhit).2
      · -- No quote stands within the route.
        obtain ⟨c, cs, rfl⟩ := List.exists_cons_of_ne_nil hne
        obtain ⟨q, value, q', more, -, hmore, hq, -⟩ := quoted_match? hp hws hset hhit
        obtain ⟨rfl, -⟩ := List.cons.inj hmore
        exact r.not_quote c (hcs.subset List.mem_cons_self) hq
    rw [htext, List.append_assoc, Pattern.findAfter_of_idle hfront,
      Pattern.findAfter_of_idle hafter, List.append_assoc]
    rfl

theorem quoted_find {s : List Char} (hs : Calm s) (rs : List QuotedRoute) :
    (p.find (s ++ rs.flatMap QuotedRoute.text)).map (·.2.value) =
      (rs.filter (·.word ∈ ws)).map (·.route) := by
  refine map_value_find (fun r => r.word ∈ ws) ?_ ?_ hs rs
  · exact fun hs => quoted_idle hp hws hset (hs.of_suffix (List.tail_suffix _))
  · intro r front rest hrest
    simpa using quoted_step hp hws hset hroute r front rest hrest

end Quoted

/-! ### The loose search -/

theorem BeginsRoute.ne_nil {cs : List Char} (h : BeginsRoute cs) : cs ≠ [] := by
  obtain ⟨w, hw, lead, tail, rfl, hlead⟩ := h
  exact List.append_ne_nil_of_left_ne_nil (not_stop_of_toLower hw hlead).1 tail

theorem BeginsRoute.append {cs : List Char} (h : BeginsRoute cs) (more : List Char) :
    BeginsRoute (cs ++ more) := by
  obtain ⟨w, hw, lead, tail, rfl, hlead⟩ := h
  exact ⟨w, hw, lead, tail ++ more, List.append_assoc lead tail more, hlead⟩

theorem not_begins_quote {q : Char} (hq : q ∈ Pattern.quotes) (rest : List Char) :
    ¬ BeginsRoute (q :: rest) := by
  rintro ⟨w, hw, lead, tail, heq, hlead⟩
  obtain ⟨hne, hstop⟩ := not_stop_of_toLower hw hlead
  obtain ⟨c, lead, rfl⟩ := List.exists_cons_of_ne_nil hne
  obtain ⟨rfl, -⟩ := List.cons.inj heq
  exact not_quote_of_not_stop (hstop q List.mem_cons_self) hq

theorem bare_begins {left : Option Char} {rest : List Char} {hit : Hit}
    (h : Pattern.barePath.match? left rest = some hit) : BeginsRoute rest := by
  obtain ⟨-, w, hw, lead, c, tail, rfl, hlead, -, -⟩ := Pattern.loose_match? barePath_branches h
  exact ⟨w, hw, lead, c :: tail, rfl, (spells_route_iff hw).1 hlead⟩

theorem bare_idle {part rest : List Char} (hpart : Calm part) (hrest : Ahead rest) :
    Pattern.barePath.Idle part rest := by
  intro cs hcs _ left
  rw [Option.eq_none_iff_forall_ne_some]
  exact fun hit hhit => (hpart.of_suffix hcs).not_begins hrest (bare_begins hhit)

theorem bare_idle_quote {q : Char} (hq : q ∈ Pattern.quotes) {part rest : List Char}
    (h : Pattern.barePath.Idle part rest) : Pattern.barePath.Idle (q :: part) rest := by
  intro cs hcs hne left
  rcases List.suffix_cons_iff.1 hcs with rfl | hcs
  · rw [Option.eq_none_iff_forall_ne_some]
    exact fun hit hhit => not_begins_quote hq (part ++ rest) (bare_begins hhit)
  · exact h cs hcs hne left

/-- The loose search reads the route of each literal. -/
theorem bare_step (r : QuotedRoute) (front rest : List Char) (hrest : Ahead rest) :
    (Pattern.barePath.findAfter front (r.text ++ rest)).map (·.2.value) =
      [r.route] ++ (Pattern.barePath.findAfter (front ++ r.text) rest).map (·.2.value) := by
  have hmention : Mention (front ++ [r.mark]) (r.route ++ ((r.mark :: r.after) ++ rest)) :=
    r.isRoute.mention r.mark_mem
  obtain ⟨hit, hhit⟩ := Option.isSome_iff_exists.1 hmention.isSome_match?
  have hvalue := barePath_match? hhit
  rw [List.cons_append, r.isRoute.upToStop_append r.mark_mem] at hvalue
  subst hvalue
  have hroute : Hit.text ⟨[], r.route, []⟩ = r.route := by simp [Hit.text]
  have hopen : Pattern.barePath.Idle [r.mark] (r.route ++ ((r.mark :: r.after) ++ rest)) :=
    bare_idle_quote r.mark_mem fun cs hcs hne => absurd (List.suffix_nil.1 hcs) hne
  have hclose : Pattern.barePath.Idle (r.mark :: r.after) rest :=
    bare_idle_quote r.mark_mem (bare_idle r.calm hrest)
  have htext : r.text = [r.mark] ++ (r.route ++ (r.mark :: r.after)) := by simp [QuotedRoute.text]
  have hmatch : Pattern.barePath.match? (front ++ [r.mark]).getLast?
      (Hit.text ⟨[], r.route, []⟩ ++ ((r.mark :: r.after) ++ rest)) = some ⟨[], r.route, []⟩ := by
    rwa [hroute]
  have hnext := Pattern.findAfter_of_match? hmatch (by rw [hroute]; exact r.isRoute.ne_nil)
  rw [hroute] at hnext
  rw [htext, List.append_assoc, List.append_assoc, Pattern.findAfter_of_idle hopen, hnext,
    List.map_cons, Pattern.findAfter_of_idle hclose, List.append_assoc, List.append_assoc]
  rfl

theorem bare_find {s : List Char} (hs : Calm s) (rs : List QuotedRoute) :
    (Pattern.barePath.find (s ++ rs.flatMap QuotedRoute.text)).map (·.2.value) =
      rs.map (·.route) := by
  have hfind := map_value_find (fun _ => true) bare_idle bare_step hs rs
  rwa [List.filter_true] at hfind

/-! ### Values in quotes -/

/-- What stands between two quotes and begins as a route is the route of a literal. -/
theorem exists_literal {value : List Char} (hbegins : BeginsRoute value)
    (hvalue : ∀ c ∈ value, c ∉ Pattern.quotes) {s front back : List Char} (hs : Calm s)
    {rs : List QuotedRoute} (h : s ++ rs.flatMap QuotedRoute.text = front ++ (value ++ back))
    (hfront : ∀ c ∈ front.getLast?, c ∈ Pattern.quotes)
    (hback : ∀ c ∈ back.head?, c ∈ Pattern.quotes) : ∃ r ∈ rs, value = r.route := by
  have hcalm {s front more : List Char} (hs : Calm s) (h : s = front ++ (value ++ more)) :
      False := by
    have hmore : Calm (value ++ more) := hs.of_suffix (h ▸ List.suffix_append front _)
    have hend : Ahead [] := nofun
    exact hmore.not_begins hend ((hbegins.append more).append [])
  induction rs generalizing s front with
  | nil =>
    rw [List.flatMap_nil, List.append_nil] at h
    exact (hcalm hs h).elim
  | cons r rs ih =>
    have hmark : r.mark ∉ value := fun hmem => hvalue r.mark hmem r.mark_mem
    have hcut : s ++ r.mark :: (r.route ++ r.mark :: (r.after ++ rs.flatMap QuotedRoute.text)) =
        front ++ (value ++ back) := by
      rw [← h]
      simp [QuotedRoute.text]
    rcases Text.before_or_behind hcut hbegins.ne_nil hmark with
      ⟨more, hmore, -⟩ | ⟨x, rfl, hx⟩
    · exact (hcalm hs hmore).elim
    rcases Text.before_or_behind hx hbegins.ne_nil hmark with ⟨y, hy, rfl⟩ | ⟨z, rfl, hz⟩
    · -- The quotes around the value are those around the route.
      have hx : x = [] := by
        rcases List.eq_nil_or_concat x with rfl | ⟨x, c, rfl⟩
        · rfl
        · refine absurd (hfront c ?_) (r.not_quote c (by simp [hy]))
          simp [List.getLast?_cons]
      have hy' : y = [] := by
        cases y with
        | nil => rfl
        | cons c y => exact absurd (hback c rfl) (r.not_quote c (by simp [hy]))
      exact ⟨r, List.mem_cons_self, by rw [hy, hx, hy']; simp⟩
    · obtain ⟨r', hr', heq⟩ := ih r.calm hz fun c hc => hfront c (by
        simp [List.getLast?_cons, Option.mem_def.1 hc])
      exact ⟨r', List.mem_cons_of_mem r hr', heq⟩

/-! ### Texts of literals -/

section Literals

variable {s : List Char} (hs : Calm s) (rs : List QuotedRoute)
include hs

/-- A text of literals has no backticks and dollar signs. -/
theorem not_mem_literals {m : Char} (hm : m ∈ ['\x60', '$']) :
    m ∉ s ++ rs.flatMap QuotedRoute.text := by
  have hmarks : ∀ m ∈ ['\x60', '$'], m ∈ ['\x27', '\x22', '\x60', '$'] ∧ m ∉ Pattern.quotes ∧
      Pattern.routeChar m = false ∧ ∀ w ∈ ["/api/", "api/"], m.toLower ∉ w.toList := by decide
  obtain ⟨hmark, hquote, hchar, hword⟩ := hmarks m hm
  intro hmem
  rcases List.mem_append.1 hmem with hmem | hmem
  · exact hs.no_mark m hmem hmark
  obtain ⟨r, -, hr⟩ := List.mem_flatMap.1 hmem
  obtain ⟨lead, tail, hroute, hlead, -, htail⟩ := r.exists_lead
  simp only [QuotedRoute.text, hroute, List.mem_cons, List.mem_append] at hr
  rcases hr with rfl | (hr | hr) | rfl | hr
  · exact hquote r.mark_mem
  · exact hword r.word r.word_mem (hlead ▸ List.mem_map_of_mem hr)
  · exact absurd (htail m hr) (by simp [hchar])
  · exact hquote r.mark_mem
  · exact r.calm.no_mark m hr hmark

/-- A pattern that needs a backtick or a dollar sign before its value finds nothing. -/
theorem candidates_eq_nil_of_mark {p : Pattern} (consumes : p.Consumes) {m : Char}
    (hm : m ∈ ['\x60', '$']) (h : ∀ b ∈ p.branches, ∃ set, Atom.one set ∈ b.before ∧
      ∀ c, set c = true → c = m) :
    p.candidates (s ++ rs.flatMap QuotedRoute.text) = [] := by
  rw [List.eq_nil_iff_forall_not_mem]
  intro c hc
  obtain ⟨b, hb, hit, hreads, front, back, htext, -, -⟩ := Pattern.mem_candidates consumes hc
  obtain ⟨set, hset, heq⟩ := h b hb
  obtain ⟨d, hd, hdset⟩ := Atom.exists_mem_of_readAll hset hreads.before
  obtain rfl := heq d hdset
  refine not_mem_literals hs rs hm ?_
  rw [htext, Hit.text]
  simp [hd]

/-- A search other than the loose one that finds the beginning of a route finds a route of the
text. -/
theorem exists_literal_of_mem {p : Pattern} (hp : p ∈ Pattern.endpoints) (hf : p.fallback = false)
    {c : Candidate} (hc : c ∈ p.candidates (s ++ rs.flatMap QuotedRoute.text))
    (hbegins : BeginsRoute c.value) : ∃ r ∈ rs, c.value = r.route := by
  obtain ⟨f, hfm, front, l, r, back, htext, -, hl, hinside, hr⟩ :=
    encloses_of_mem_endpoints hp hf hc
  rcases List.mem_cons.1 hfm with rfl | hfm
  · refine exists_literal hbegins (fun d hd hquote => ?_) hs htext ?_ ?_
    · have hfalse := hinside d hd
      rw [inside_of_mem_quotes hquote] at hfalse
      cases hfalse
    · intro d hd
      obtain rfl : l = d := by simpa using hd
      simpa [CallForm.opening, CharSet.oneOf] using hl
    · intro d hd
      obtain rfl : r = d := by simpa using hd
      simpa [CallForm.closing, CharSet.oneOf] using hr
  · -- There is no backtick that could open a template.
    obtain rfl := List.mem_singleton.1 hfm
    refine absurd ?_ (not_mem_literals hs rs (m := '\x60') (by simp))
    rw [htext, ← CallForm.opening_template hl]
    simp

omit hs in
theorem begins_of_reads {w : String} (hw : w ∈ ["/api/", "api/"]) {atoms : List Atom}
    {cs : List Char} (h : Atom.ReadAll (Atom.word w ++ atoms) cs) : BeginsRoute cs := by
  obtain ⟨lead, tail, rfl, hlead, -⟩ := Atom.readAll_append.1 h
  exact ⟨w, hw, lead, tail, rfl, (spells_route_iff hw).1 (Atom.readAll_word.1 hlead)⟩

/-- No route of a literal has a question mark. -/
theorem query_candidates :
    Pattern.quotedQuery.candidates (s ++ rs.flatMap QuotedRoute.text) = [] := by
  have hp : Pattern.quotedQuery ∈ Pattern.endpoints := by simp [Pattern.endpoints]
  rw [List.eq_nil_iff_forall_not_mem]
  intro c hc
  obtain ⟨b, hb, hit, hreads, front, back, -, hvalue, -⟩ :=
    Pattern.mem_candidates (all_endpoints_consume _ hp) hc
  obtain rfl := List.mem_singleton.1 hb
  have hreads := hreads.value
  rw [← hvalue] at hreads
  obtain ⟨d, hd, hquery⟩ : ∃ d ∈ c.value, CharSet.spelling '?' d = true :=
    Atom.exists_mem_of_readAll (by simp [Atom.word]) hreads
  rw [List.append_assoc, List.append_assoc] at hreads
  obtain ⟨r, -, hr⟩ := exists_literal_of_mem hs rs hp rfl hc (begins_of_reads (by simp) hreads)
  have hstop := r.isRoute.not_stop d (hr ▸ hd)
  rw [Atom.eq_of_spelling (by decide) hquery] at hstop
  exact absurd hstop (by decide)

theorem property_candidates {c : Candidate}
    (hc : c ∈ Pattern.urlProperty.candidates (s ++ rs.flatMap QuotedRoute.text)) :
    ∃ r ∈ rs, c.value = r.route := by
  have hp : Pattern.urlProperty ∈ Pattern.endpoints := by simp [Pattern.endpoints]
  obtain ⟨b, hb, hit, hreads, -, -, -, hvalue, -⟩ :=
    Pattern.mem_candidates (all_endpoints_consume _ hp) hc
  refine exists_literal_of_mem hs rs hp rfl hc (hvalue ▸ ?_)
  rcases List.mem_cons.1 hb with rfl | hb
  · exact begins_of_reads (by simp) hreads.value
  · obtain rfl := List.mem_singleton.1 hb
    exact begins_of_reads (by simp) hreads.value

end Literals

/-! ### Endpoints -/

theorem map_value_candidates (p : Pattern) (text : List Char) :
    (p.candidates text).map (·.value) = (p.find text).map (·.2.value) := by
  rw [Pattern.candidates, List.map_map]
  rfl

/-- Only matches of the last pattern are dropped, if the others are no fallbacks. -/
theorem candidates_concat (ps : List Pattern) (hps : ∀ q ∈ ps, q.fallback = false) (p : Pattern)
    (text : List Char) : ∃ kept, kept.Sublist (p.candidates text) ∧
      candidates (ps ++ [p]) text = ps.flatMap (·.candidates text) ++ kept := by
  have hwhole : ∀ q ∈ ps, block (ps ++ [p]) text q = q.candidates text := fun q hq =>
    block_of_not_fallback (List.mem_append_left [p] hq) (hps q hq) text
  refine ⟨block (ps ++ [p]) text p, List.filter_sublist, ?_⟩
  rw [candidates_eq_flatMap, List.flatMap_append, List.flatMap_congr hwhole,
    List.flatMap_singleton]

section Endpoints

variable {s : List Char} (hs : Calm s) (rs : List QuotedRoute)
include hs

theorem path_candidates :
    (Pattern.quotedPath.candidates (s ++ rs.flatMap QuotedRoute.text)).map (·.value) =
      (rs.filter (·.slashed)).map (·.route) := by
  have hp : Pattern.quotedPath.branches = ["/api/"].map (routeBranch Pattern.routeChar) := rfl
  rw [map_value_candidates, quoted_find hp (by decide) (by decide) (fun _ h => h) hs rs]
  congr 1
  refine List.filter_congr fun r _ => ?_
  rw [QuotedRoute.word]
  cases r.slashed <;> rfl

/-- The search for relative routes finds the route of every literal. -/
theorem relative_candidates :
    (Pattern.quotedRelative.candidates (s ++ rs.flatMap QuotedRoute.text)).map (·.value) =
      rs.map (·.route) := by
  have hp : Pattern.quotedRelative.branches =
      ["api/", "/api/"].map (routeBranch (CharSet.noneOf ('?' :: Pattern.quotes))) := rfl
  have hroute : ∀ c, Pattern.routeChar c = true →
      CharSet.noneOf ('?' :: Pattern.quotes) c = true := fun c hc =>
    Atom.noneOf_of_set (by decide) hc
  rw [map_value_candidates, quoted_find hp (by decide) (by decide) hroute hs rs]
  congr 1
  refine List.filter_eq_self.2 fun r _ => ?_
  rw [QuotedRoute.word]
  cases r.slashed <;> rfl

/-- The candidates are the routes with a slash in front, all routes and then others, which only
repeat them. -/
theorem exists_others : ∃ others,
    (candidates Pattern.endpoints (s ++ rs.flatMap QuotedRoute.text)).map (·.value) =
      (rs.filter (·.slashed)).map (·.route) ++ rs.map (·.route) ++ others ∧
      ∀ cs ∈ others, cs ∈ rs.map (·.route) := by
  obtain ⟨kept, hkept, hcandidates⟩ := candidates_concat
    [.quotedPath, .quotedQuery, .templatePath, .scopeAssignment, .quotedRelative, .urlProperty]
    (by decide) .barePath (s ++ rs.flatMap QuotedRoute.text)
  have htemplate : Pattern.templatePath.candidates (s ++ rs.flatMap QuotedRoute.text) = [] := by
    refine candidates_eq_nil_of_mark hs rs (all_endpoints_consume _ (by simp [Pattern.endpoints]))
      (m := '\x60') (by simp) fun b hb => ⟨CharSet.oneOf Pattern.backtick, ?_, ?_⟩
    · obtain rfl := List.mem_singleton.1 hb
      exact List.mem_cons_self
    · intro c hc
      simpa [CharSet.oneOf, Pattern.backtick] using hc
  have hscope : Pattern.scopeAssignment.candidates (s ++ rs.flatMap QuotedRoute.text) = [] := by
    refine candidates_eq_nil_of_mark hs rs (all_endpoints_consume _ (by simp [Pattern.endpoints]))
      (m := '$') (by simp) fun b hb => ⟨CharSet.spelling '$', ?_, ?_⟩
    · obtain rfl := List.mem_singleton.1 hb
      exact List.mem_cons_self
    · exact fun c hc => Atom.eq_of_spelling (by decide) hc
  have hall : Pattern.endpoints = [.quotedPath, .quotedQuery, .templatePath, .scopeAssignment,
    .quotedRelative, .urlProperty] ++ [.barePath] := rfl
  refine ⟨(Pattern.urlProperty.candidates (s ++ rs.flatMap QuotedRoute.text) ++ kept).map (·.value),
    ?_, ?_⟩
  · rw [hall, hcandidates, ← path_candidates hs rs, ← relative_candidates hs rs]
    simp [htemplate, hscope, query_candidates hs rs]
  · intro cs hcs
    obtain ⟨c, hc, rfl⟩ := List.mem_map.1 hcs
    rcases List.mem_append.1 hc with hc | hc
    · obtain ⟨r, hr, heq⟩ := property_candidates hs rs hc
      exact List.mem_map.2 ⟨r, hr, heq.symm⟩
    · rw [← bare_find hs rs, ← map_value_candidates]
      exact List.mem_map_of_mem (hkept.subset hc)

theorem candidate_clean {c : Candidate}
    (hc : c ∈ candidates Pattern.endpoints (s ++ rs.flatMap QuotedRoute.text)) :
    c.value ≠ [] ∧ ∀ d ∈ c.value, Text.isBlank d = false := by
  obtain ⟨others, hvalues, hothers⟩ := exists_others hs rs
  have hroute : c.value ∈ rs.map (·.route) := by
    have hmem := List.mem_map_of_mem (f := (·.value)) hc
    rw [hvalues] at hmem
    rcases List.mem_append.1 hmem with hmem | hmem
    · rcases List.mem_append.1 hmem with hmem | hmem
      · exact (List.filter_sublist.map _).subset hmem
      · exact hmem
    · exact hothers _ hmem
  obtain ⟨r, -, heq⟩ := List.mem_map.1 hroute
  rw [← heq]
  exact ⟨r.isRoute.ne_nil, fun d hd => isBlank_of_not_stop (r.isRoute.not_stop d hd)⟩

end Endpoints

/-- The endpoints of a text of literals are the routes with a slash in front and then those
without, each listed where it comes first. -/
theorem endpoints_literals {s : List Char} (hs : Calm s) (rs : List QuotedRoute) :
    (endpoints (s ++ rs.flatMap QuotedRoute.text)).map (·.value) =
      distinctBy id ((rs.filter (·.slashed) ++ rs.filter (!·.slashed)).map (·.value)) := by
  obtain ⟨others, hvalues, hothers⟩ := exists_others hs rs
  have hstrings : (trimmed (candidates Pattern.endpoints (s ++ rs.flatMap QuotedRoute.text))).map
      (·.value) = (rs.filter (·.slashed)).map (·.value) ++ rs.map (·.value) ++
        others.map String.ofList := by
    rw [map_value_trimmed fun c hc => candidate_clean hs rs hc]
    have hmap := congrArg (List.map String.ofList) hvalues
    rw [List.map_append, List.map_append, List.map_map, List.map_map, List.map_map] at hmap
    exact hmap
  have hslash (r : QuotedRoute) : (r.value.toList.head? == some '/') = r.slashed := by
    rw [QuotedRoute.value, String.toList_ofList, QuotedRoute.slashed]
  have hrest : (rs.map (·.value)).filter (fun v => !v.toList.head? == some '/') =
      (rs.filter (!·.slashed)).map (·.value) := by
    rw [List.filter_map]
    congr 2
    funext r
    rw [Function.comp_apply, hslash]
  rw [endpoints, map_value_locate, hstrings, List.map_append, ← hrest]
  calc distinctBy id ((rs.filter (·.slashed)).map (·.value) ++ rs.map (·.value) ++
        others.map String.ofList)
    _ = distinctBy id ((rs.filter (·.slashed)).map (·.value) ++ rs.map (·.value)) := by
      rw [distinctBy_append_filter fun _ => false, List.filter_false, List.append_nil]
      intro v hv _
      obtain ⟨cs, hcs, rfl⟩ := List.mem_map.1 hv
      obtain ⟨r, hr, rfl⟩ := List.mem_map.1 (hothers cs hcs)
      rw [List.map_id]
      exact List.mem_append_right _ (List.mem_map.2 ⟨r, hr, rfl⟩)
    _ = _ := by
      refine distinctBy_append_filter _ fun v hv hslashed => ?_
      obtain ⟨r, hr, rfl⟩ := List.mem_map.1 hv
      rw [hslash, Bool.not_eq_false'] at hslashed
      rw [List.map_id]
      exact List.mem_map_of_mem (List.mem_filter.2 ⟨hr, hslashed⟩)

/-- A route without a slash, and two with one, the first of them twice. -/
theorem literals_listed :
    Calm "go(".toList ∧ ∃ rs : List QuotedRoute,
      "go(".toList ++ rs.flatMap QuotedRoute.text =
        "go('api/b', \"/api/a\", '/API/api/c'); \"/api/a\"".toList ∧
      (endpoints ("go(".toList ++ rs.flatMap QuotedRoute.text)).map (·.value) =
        ["/api/a", "/API/api/c", "api/b"] := by
  let b : QuotedRoute := ⟨'\x27', "api/b".toList, ", ".toList, by decide,
    ⟨"api/".toList, "b".toList, rfl, .inr rfl, by decide, by decide⟩, ⟨by decide, by decide⟩⟩
  let a : QuotedRoute := ⟨'\x22', "/api/a".toList, ", ".toList, by decide,
    ⟨"/api/".toList, "a".toList, rfl, .inl rfl, by decide, by decide⟩, ⟨by decide, by decide⟩⟩
  let c : QuotedRoute := ⟨'\x27', "/API/api/c".toList, "); ".toList, by decide,
    ⟨"/API/".toList, "api/c".toList, rfl, .inl rfl, by decide, by decide⟩, ⟨by decide, by decide⟩⟩
  let a' : QuotedRoute := ⟨'\x22', "/api/a".toList, [], by decide,
    ⟨"/api/".toList, "a".toList, rfl, .inl rfl, by decide, by decide⟩, ⟨by decide, by decide⟩⟩
  have hcalm : Calm "go(".toList := ⟨by decide, by decide⟩
  refine ⟨hcalm, [b, a, c, a'], rfl, ?_⟩
  rw [endpoints_literals hcalm [b, a, c, a']]
  rfl

end EndpointCatalog.Extract
