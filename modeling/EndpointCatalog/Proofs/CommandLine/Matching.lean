import EndpointCatalog.CommandLine.Matching
import Mathlib.Data.List.Basic
import Mathlib.Data.List.TakeWhile
import Mathlib.Tactic.SplitIfs

/-! Matching the arguments of a command. An option or positional value is spelled by one or two
arguments, and whatever the order, the options that were spelled are those that are found to
be given, each with its values in the order in which they stand. -/

namespace EndpointCatalog.CommandLine

/-! ### Spelling -/

/-- An option or positional value that is given, by the name of its parameter. -/
structure Item where
  name : String
  value : Option String
  deriving DecidableEq, Repr

/-- A value that cannot be taken for an option. -/
structure Plain (v : String) : Prop where
  ne_empty : v ≠ ""
  no_dash : '-' ∉ v.toList.head?

namespace Signature

def all (s : Signature) : List Parameter := s.parameters ++ s.positional.toList

/-- The ways to give an item. -/
inductive Spells (s : Signature) : Item → List String → Prop
  | flag {p : Parameter} (hp : s.byLong p.long = some p) (hflag : p.action = .flag) :
      s.Spells ⟨p.long, none⟩ ["--" ++ p.long]
  | shortFlag {p : Parameter} {c : Char} (hp : s.byShort c = some p) (hflag : p.action = .flag) :
      s.Spells ⟨p.long, none⟩ ["-" ++ String.singleton c]
  | apart {p : Parameter} {v : String} (hp : s.byLong p.long = some p)
      (htakes : p.action.takesValue = true) : s.Spells ⟨p.long, some v⟩ ["--" ++ p.long, v]
  | attached {p : Parameter} {v : String} (hp : s.byLong p.long = some p)
      (htakes : p.action.takesValue = true) : s.Spells ⟨p.long, some v⟩ ["--" ++ p.long ++ "=" ++ v]
  | shortApart {p : Parameter} {c : Char} {v : String} (hp : s.byShort c = some p)
      (htakes : p.action.takesValue = true) :
      s.Spells ⟨p.long, some v⟩ ["-" ++ String.singleton c, v]
  | positional {p : Parameter} {v : String} (hp : s.positional = some p) :
      s.Spells ⟨p.long, some v⟩ [v]

/-- Items, one after the other, and the arguments that spell them. -/
inductive SpellsAll (s : Signature) : List Item → List String → Prop
  | nil : s.SpellsAll [] []
  | cons {i : Item} {items : List Item} {args rest : List String} (h : s.Spells i args)
      (hrest : s.SpellsAll items rest) : s.SpellsAll (i :: items) (args ++ rest)

/-- A signature whose names can be written behind dashes. -/
structure Proper (s : Signature) : Prop where
  long : ∀ p ∈ s.parameters, p.long.toList ≠ [] ∧ '=' ∉ p.long.toList
  short : ∀ p ∈ s.parameters, '-' ∉ p.short
  positional : ∀ p ∈ s.positional, p.action = .value

end Signature

/-- Whether a parameter can be given with a value, or without one. -/
inductive Parameter.Fits (p : Parameter) : Option String → Prop
  | flag (h : p.action = .flag) : p.Fits none
  | value {v : String} (h : p.action.takesValue = true) (hv : p.accepts.holds v = true) :
      p.Fits (some v)

/-- The values that items give to the parameter of a name. -/
def valuesFor (name : String) (items : List Item) : List String :=
  (items.filter (·.name = name)).flatMap (·.value.toList)

/-- Items that may be given together: of one name only where values are collected. -/
def Signature.Apart (s : Signature) (i j : Item) : Prop :=
  i.name = j.name → ∀ p ∈ s.all, p.long = j.name → p.action = .values

namespace Matching

variable {s : Signature} {m : Matching} {items : List Item}

/-! ### What has been given -/

theorem lookup_map_append (given : List (String × List String)) (name x : String)
    (values : List String) :
    (given.map fun g => if g.1 = name then (name, g.2 ++ values) else g).lookup x =
      if x = name then (given.lookup x).map (· ++ values) else given.lookup x := by
  induction given with
  | nil => simp
  | cons g given ih =>
    obtain ⟨y, ys⟩ := g
    rw [List.map_cons, List.lookup_cons]
    rcases eq_or_ne y name with rfl | hy
    · rw [if_pos rfl, ih, List.lookup_cons]
      rcases eq_or_ne x y with rfl | hx
      · simp
      · simp only [if_neg hx, beq_false_of_ne hx]
    · rw [if_neg hy, ih, List.lookup_cons]
      rcases eq_or_ne x y with rfl | hx
      · simp [hy]
      · simp [beq_false_of_ne hx]

theorem lookup_record (m : Matching) (name x : String) (values : List String) :
    (m.record name values).given.lookup x =
      if x = name then some (m.valuesOf name ++ values) else m.given.lookup x := by
  rw [record]
  split_ifs with hhas hx hx
  · obtain ⟨ys, hys⟩ := Option.isSome_iff_exists.1 hhas
    rw [lookup_map_append, if_pos hx, hx, valuesOf, hys]
    rfl
  · rw [lookup_map_append, if_neg hx]
  · have hnone : m.given.lookup name = none := Option.not_isSome_iff_eq_none.1 hhas
    rw [List.lookup_append, hx, hnone, valuesOf, hnone]
    simp
  · rw [List.lookup_append]
    simp [List.lookup_cons, beq_false_of_ne hx]

theorem has_record (m : Matching) (name x : String) (values : List String) :
    (m.record name values).has x = (m.has x || name = x) := by
  rw [has, lookup_record]
  split_ifs with hx
  · simp [hx]
  · simp [has, Ne.symm hx]

theorem valuesOf_record (m : Matching) (name x : String) (values : List String) :
    (m.record name values).valuesOf x = m.valuesOf x ++ if name = x then values else [] := by
  rw [valuesOf, lookup_record]
  split_ifs with hx hx' hx'
  · rw [hx]; rfl
  · exact absurd hx.symm hx'
  · exact absurd hx'.symm hx
  · rw [List.append_nil]; rfl

@[simp] theorem record_waiting (m : Matching) (name : String) (values : List String) :
    (m.record name values).waiting = m.waiting := by
  unfold record; split <;> rfl

@[simp] theorem record_valueDue (m : Matching) (name : String) (values : List String) :
    (m.record name values).valueDue = m.valueDue := by
  unfold record; split <;> rfl

@[simp] theorem record_trailing (m : Matching) (name : String) (values : List String) :
    (m.record name values).trailing = m.trailing := by
  unfold record; split <;> rfl

@[simp] theorem record_positionalGiven (m : Matching) (name : String) (values : List String) :
    (m.record name values).positionalGiven = m.positionalGiven := by
  unfold record; split <;> rfl

/-- The items are those that have been given, and no other one waits. -/
structure Idle (m : Matching) (items : List Item) : Prop where
  has_eq : ∀ x, m.has x = items.any (·.name = x)
  valuesOf_eq : ∀ x, m.valuesOf x = valuesFor x items
  waiting : m.waiting = none
  valueDue : m.valueDue = false
  trailing : m.trailing = false

/-- Once what waits is settled, the items are those that have been given. -/
structure Matches (s : Signature) (m : Matching) (items : List Item) : Prop where
  settle : ∃ m', m.settle = .ok m' ∧ m'.Idle items ∧ m'.positionalGiven = m.positionalGiven
  valueDue : m.valueDue = false
  trailing : m.trailing = false
  positional : m.positionalGiven = true → ∃ p ∈ s.positional, ∃ i ∈ items, i.name = p.long

theorem idle_empty : empty.Idle [] where
  has_eq _ := rfl
  valuesOf_eq _ := rfl
  waiting := rfl
  valueDue := rfl
  trailing := rfl

theorem matches_empty (s : Signature) : empty.Matches s [] where
  settle := ⟨empty, rfl, idle_empty, rfl⟩
  valueDue := rfl
  trailing := rfl
  positional := nofun

theorem Idle.record (h : m.Idle items) (i : Item) :
    (m.record i.name i.value.toList).Idle (items ++ [i]) where
  has_eq x := by
    rw [has_record, h.has_eq, List.any_append]
    simp
  valuesOf_eq x := by
    rw [valuesOf_record, h.valuesOf_eq, valuesFor, valuesFor, List.filter_append,
      List.flatMap_append]
    congr 1
    split_ifs with hx <;> simp [hx]
  waiting := by rw [record_waiting, h.waiting]
  valueDue := by rw [record_valueDue, h.valueDue]
  trailing := by rw [record_trailing, h.trailing]

/-! ### One item -/

theorem take_eq {p : Parameter} {value : Option String} (hfits : p.Fits value)
    (hnew : p.action ≠ .values → m.has p.long = false) :
    m.take p value = .ok (m.record p.long value.toList) := by
  cases hfits with
  | flag h => simp [take, h, hnew (by simp [h])]
  | value h hv =>
    cases haction : p.action with
    | value => simp [take, haction, hv, hnew (by simp [haction])]
    | values => simp [take, haction, hv]
    | _ => simp [haction, Action.takesValue] at h

/-- An item is given that those before it allow. -/
theorem Idle.take (h : m.Idle items) {p : Parameter} {value : Option String} (hp : p ∈ s.all)
    (hfits : p.Fits value) (hapart : ∀ i ∈ items, s.Apart i ⟨p.long, value⟩) :
    ∃ m', m.take p value = .ok m' ∧ m'.Idle (items ++ [⟨p.long, value⟩]) ∧
      m'.positionalGiven = m.positionalGiven := by
  refine ⟨_, take_eq hfits fun hsingle => ?_, h.record ⟨p.long, value⟩,
    record_positionalGiven ..⟩
  rw [h.has_eq, List.any_eq_false]
  intro i hi hname
  exact hsingle (hapart i hi (by simpa using hname) p hp rfl)

theorem takeNow_matches (h : m.Matches s items) {p : Parameter} {value : Option String}
    (hp : p ∈ s.all) (hfits : p.Fits value) (hapart : ∀ i ∈ items, s.Apart i ⟨p.long, value⟩) :
    ∃ m', m.takeNow p value = .ok m' ∧ m'.Matches s (items ++ [⟨p.long, value⟩]) := by
  obtain ⟨settled, hsettle, hidle, hplaced⟩ := h.settle
  obtain ⟨taken, htake, hidle', hplaced'⟩ := hidle.take hp hfits hapart
  have hdue : { taken with valueDue := false } = taken := by rw [← hidle'.valueDue]
  refine ⟨taken, ?_, ⟨taken, ?_, hidle', rfl⟩, hidle'.valueDue, hidle'.trailing, fun hgiven => ?_⟩
  · simp only [takeNow, hsettle]
    change (settled.take p value >>= fun m => pure { m with valueDue := false }) = _
    rw [htake]
    exact congrArg Except.ok hdue
  · rw [Matching.settle, hidle'.waiting]
  · obtain ⟨q, hq, i, hi, hname⟩ := h.positional (by rw [← hplaced, ← hplaced', hgiven])
    exact ⟨q, hq, i, List.mem_append_left _ hi, hname⟩

theorem await_eq (h : m.Matches s items) (p : Parameter) :
    ∃ m' : Matching, m'.Idle items ∧
    m'.positionalGiven = m.positionalGiven ∧
      m.await p = .ok { m' with waiting := some ⟨p, none⟩, valueDue := true } := by
  obtain ⟨settled, hsettle, hidle, hplaced⟩ := h.settle
  refine ⟨settled, hidle, hplaced, ?_⟩
  simp only [await, hsettle]
  rfl

/-- An option or positional value waits, with its value. -/
theorem Idle.wait (h : m.Idle items) {p : Parameter} {v : String} {positionalGiven : Bool}
    (hp : p ∈ s.all) (hfits : p.Fits (some v)) (hapart : ∀ i ∈ items, s.Apart i ⟨p.long, some v⟩)
    (hpositional : positionalGiven = true →
      ∃ q ∈ s.positional, ∃ i ∈ items ++ [⟨p.long, some v⟩], i.name = q.long) :
    Matches s ⟨m.given, some ⟨p, some v⟩, false, m.trailing, positionalGiven⟩
      (items ++ [⟨p.long, some v⟩]) := by
  have hsettled : Idle ⟨m.given, none, false, m.trailing, positionalGiven⟩ items :=
    ⟨h.has_eq, h.valuesOf_eq, rfl, rfl, h.trailing⟩
  exact ⟨hsettled.take hp hfits hapart, rfl, h.trailing, hpositional⟩

/-! ### One argument -/

section Argument

variable (s : Signature) (u : Refusal)

theorem splitAttached_name {name : List Char} (h : '=' ∉ name) :
    splitAttached name = (String.ofList name, none) := by
  have hall : ∀ c ∈ name, (c != '=') = true := fun c hc => bne_iff_ne.2 fun heq => h (heq ▸ hc)
  simp [splitAttached, List.takeWhile_eq_self_iff.2 hall, List.dropWhile_eq_nil_iff.2 hall]

theorem splitAttached_append {name : List Char} (h : '=' ∉ name) (v : List Char) :
    splitAttached (name ++ '=' :: v) = (String.ofList name, some (String.ofList v)) := by
  have hall : ∀ c ∈ name, (c != '=') = true := fun c hc => bne_iff_ne.2 fun heq => h (heq ▸ hc)
  simp [splitAttached, List.takeWhile_append_of_pos hall, List.dropWhile_append_of_pos hall]

variable {s u}

theorem matchArgument_long (h : m.trailing = false) {name : String} (hne : name.toList ≠ [])
    (heq : '=' ∉ name.toList) :
    m.matchArgument s u ("--" ++ name) = m.matchLong s name none := by
  obtain ⟨c, cs, hcs⟩ := List.exists_cons_of_ne_nil hne
  have harg : ("--" ++ name).toList = '-' :: '-' :: c :: cs := by
    rw [String.toList_append, hcs]; rfl
  have hsplit := splitAttached_name heq
  rw [String.ofList_toList, hcs] at hsplit
  simp [matchArgument, h, harg, hsplit]

theorem matchArgument_attached (h : m.trailing = false) {name : String} (hne : name.toList ≠ [])
    (heq : '=' ∉ name.toList) (v : String) :
    m.matchArgument s u ("--" ++ name ++ "=" ++ v) = m.matchLong s name (some v) := by
  obtain ⟨c, cs, hcs⟩ := List.exists_cons_of_ne_nil hne
  have harg : ("--" ++ name ++ "=" ++ v).toList = '-' :: '-' :: c :: (cs ++ '=' :: v.toList) := by
    simp [String.toList_append, hcs]
  have hsplit := splitAttached_append heq v.toList
  rw [String.ofList_toList, String.ofList_toList, hcs, List.cons_append] at hsplit
  simp [matchArgument, h, harg, hsplit]

theorem matchArgument_short (h : m.trailing = false) {c : Char} (hc : c ≠ '-') :
    m.matchArgument s u ("-" ++ String.singleton c) = m.matchShort s [c] := by
  simp [matchArgument, h, hc]

/-- A value that is due, or else a positional one. -/
theorem matchArgument_plain (h : m.trailing = false) {v : String} (hv : Plain v) :
    m.matchArgument s u v =
      match m.valueDue, m.waiting with
      | true, some w =>
        .ok { m with waiting := some { w with value := some v }, valueDue := false }
      | _, _ => m.matchPositional s u v := by
  rw [matchArgument, h]
  split
  next heq => exact absurd heq (by decide)
  next =>
    split
    next heq => exact absurd (heq ▸ rfl) hv.no_dash
    next heq => exact absurd (heq ▸ rfl) hv.no_dash
    next heq => exact absurd (heq ▸ rfl) hv.no_dash
    next => rfl

end Argument

end Matching

namespace Signature

open Matching

variable {s : Signature} {m : Matching} {items : List Item} {i : Item} {args : List String}

/-- An item has a value if its parameter takes one, and one that is accepted. -/
def Admits (s : Signature) (i : Item) : Prop := ∀ p ∈ s.all, p.long = i.name → p.Fits i.value

theorem mem_of_byLong {name : String} {p : Parameter} (h : s.byLong name = some p) :
    p ∈ s.parameters :=
  List.mem_of_find?_eq_some h

theorem mem_of_byShort {c : Char} {p : Parameter} (h : s.byShort c = some p) :
    p ∈ s.parameters ∧ p.short = some c :=
  ⟨List.mem_of_find?_eq_some h, by simpa using List.find?_some h⟩

theorem mem_all_of_mem {p : Parameter} (h : p ∈ s.parameters) : p ∈ s.all :=
  List.mem_append_left _ h

theorem mem_all_of_positional {p : Parameter} (h : s.positional = some p) : p ∈ s.all :=
  List.mem_append_right _ (by simp [h])

theorem awaits_long (hs : s.Proper) (h : m.trailing = false) {p : Parameter}
    (hp : s.byLong p.long = some p) (htakes : p.action.takesValue = true) (unexpected : Refusal) :
    matchArgument s unexpected m ("--" ++ p.long) = m.await p := by
  obtain ⟨hne, heq⟩ := hs.long p (mem_of_byLong hp)
  rw [matchArgument_long h hne heq, matchLong, hp]
  simp [htakes]

theorem awaits_short (hs : s.Proper) (h : m.trailing = false) {p : Parameter} {c : Char}
    (hp : s.byShort c = some p) (htakes : p.action.takesValue = true) (unexpected : Refusal) :
    matchArgument s unexpected m ("-" ++ String.singleton c) = m.await p := by
  obtain ⟨hparameter, hshort⟩ := mem_of_byShort hp
  have hc : c ≠ '-' := fun hc => hs.short p hparameter (hc ▸ hshort)
  rw [matchArgument_short h hc, matchShort, hp]
  simp [htakes]

theorem foldlM_singleton (f : Matching → String → Except Refusal Matching) (arg : String) :
    [arg].foldlM f m = f m arg := by
  simp

/-- One argument that is a parameter with all that belongs to it. -/
theorem matched_now (hm : m.Matches s items) {p : Parameter} {arg : String} {value : Option String}
    {unexpected : Refusal} (harg : matchArgument s unexpected m arg = m.takeNow p value)
    (hp : p ∈ s.all) (hfits : p.Fits value) (hapart : ∀ j ∈ items, s.Apart j ⟨p.long, value⟩) :
    ∃ m', [arg].foldlM (matchArgument s unexpected) m = .ok m' ∧
      m'.Matches s (items ++ [⟨p.long, value⟩]) := by
  obtain ⟨m', htake, hm'⟩ := takeNow_matches hm hp hfits hapart
  exact ⟨m', (foldlM_singleton ..).trans (harg.trans htake), hm'⟩

/-- An option and then its value. -/
theorem matched_apart (hm : m.Matches s items) {p : Parameter} {arg v : String}
    {unexpected : Refusal} (harg : matchArgument s unexpected m arg = m.await p) (hp : p ∈ s.all)
    (hv : Plain v) (hfits : p.Fits (some v)) (hapart : ∀ j ∈ items, s.Apart j ⟨p.long, some v⟩) :
    ∃ m', [arg, v].foldlM (matchArgument s unexpected) m = .ok m' ∧
      m'.Matches s (items ++ [⟨p.long, some v⟩]) := by
  obtain ⟨settled, hidle, hplaced, hawait⟩ := await_eq hm p
  have hvalue : matchArgument s unexpected
      { settled with waiting := some ⟨p, none⟩, valueDue := true } v =
        .ok { settled with waiting := some ⟨p, some v⟩, valueDue := false } :=
    matchArgument_plain (m := { settled with waiting := some ⟨p, none⟩, valueDue := true })
      hidle.trailing hv
  refine ⟨{ settled with waiting := some ⟨p, some v⟩, valueDue := false }, ?_,
    hidle.wait hp hfits hapart fun hgiven => ?_⟩
  · rw [List.foldlM_cons, harg, hawait]
    exact (foldlM_singleton ..).trans hvalue
  · obtain ⟨q, hq, i, hi, hname⟩ := hm.positional (hplaced ▸ hgiven)
    exact ⟨q, hq, i, List.mem_append_left _ hi, hname⟩

/-- A value that belongs to no option. -/
theorem matched_positional (hm : m.Matches s items) {p : Parameter} {v : String}
    {unexpected : Refusal} (hp : s.positional = some p) (hsingle : p.action = .value) (hv : Plain v)
    (hfits : p.Fits (some v)) (hapart : ∀ j ∈ items, s.Apart j ⟨p.long, some v⟩) :
    ∃ m', [v].foldlM (matchArgument s unexpected) m = .ok m' ∧
      m'.Matches s (items ++ [⟨p.long, some v⟩]) := by
  have hmem := mem_all_of_positional hp
  have hfirst : m.positionalGiven = false := by
    by_contra hgiven
    obtain ⟨q, hq, i, hi, hname⟩ := hm.positional (by simpa using hgiven)
    cases hp.symm.trans hq
    have hvalues := hapart i hi hname p hmem rfl
    simp [hsingle] at hvalues
  obtain ⟨settled, hsettle, hidle, -⟩ := hm.settle
  have hvalue : matchArgument s unexpected m v = .ok
      { settled with waiting := some ⟨p, some v⟩, valueDue := false, positionalGiven := true } := by
    rw [matchArgument_plain hm.trailing hv, hm.valueDue]
    simp only [matchPositional, hp, hfirst, hsettle]
    rfl
  refine ⟨_, (foldlM_singleton ..).trans hvalue, hidle.wait hmem hfits hapart fun _ => ?_⟩
  exact ⟨p, hp, ⟨p.long, some v⟩, by simp, rfl⟩

/-- The arguments of an item lead to a state in which it is given too. -/
theorem Spells.matched (hs : s.Proper) (h : s.Spells i args) (hm : m.Matches s items)
    (hadmits : s.Admits i) (hplain : ∀ v ∈ i.value, Plain v) (hapart : ∀ j ∈ items, s.Apart j i)
    (unexpected : Refusal) :
    ∃ m', args.foldlM (matchArgument s unexpected) m = .ok m' ∧ m'.Matches s (items ++ [i]) := by
  cases h with
  | @flag p hp hflag =>
    have hmem := mem_all_of_mem (mem_of_byLong hp)
    refine matched_now hm ?_ hmem (hadmits p hmem rfl) hapart
    obtain ⟨hne, heq⟩ := hs.long p (mem_of_byLong hp)
    rw [matchArgument_long hm.trailing hne heq, matchLong, hp]
    simp [hflag, Action.takesValue]
  | @shortFlag p c hp hflag =>
    obtain ⟨hparameter, hshort⟩ := mem_of_byShort hp
    have hmem := mem_all_of_mem hparameter
    refine matched_now hm ?_ hmem (hadmits p hmem rfl) hapart
    have hc : c ≠ '-' := fun hc => hs.short p hparameter (hc ▸ hshort)
    rw [matchArgument_short hm.trailing hc, matchShort, hp]
    simp only [hflag, Action.takesValue, matchShort, Bool.false_eq_true, if_false]
    exact bind_pure (m.takeNow p none)
  | @apart p v hp htakes =>
    have hmem := mem_all_of_mem (mem_of_byLong hp)
    exact matched_apart hm (awaits_long hs hm.trailing hp htakes unexpected) hmem (hplain v rfl)
      (hadmits p hmem rfl) hapart
  | @attached p v hp htakes =>
    have hmem := mem_all_of_mem (mem_of_byLong hp)
    refine matched_now hm ?_ hmem (hadmits p hmem rfl) hapart
    obtain ⟨hne, heq⟩ := hs.long p (mem_of_byLong hp)
    rw [matchArgument_attached hm.trailing hne heq, matchLong, hp]
    simp [htakes]
  | @shortApart p c v hp htakes =>
    have hmem := mem_all_of_mem (mem_of_byShort hp).1
    exact matched_apart hm (awaits_short hs hm.trailing hp htakes unexpected) hmem (hplain v rfl)
      (hadmits p hmem rfl) hapart
  | @positional p v hp =>
    have hmem := mem_all_of_positional hp
    exact matched_positional hm hp (hs.positional p hp) (hplain v rfl) (hadmits p hmem rfl) hapart

/-- Items that are given in any order are all found to be given. -/
theorem SpellsAll.matched (hs : s.Proper) {before : List Item} (h : s.SpellsAll items args)
    (hm : m.Matches s before) (hadmits : ∀ i ∈ items, s.Admits i)
    (hplain : ∀ i ∈ items, ∀ v ∈ i.value, Plain v)
    (hapart : (before ++ items).Pairwise s.Apart) (unexpected : Refusal) :
    ∃ m', args.foldlM (matchArgument s unexpected) m = .ok m' ∧
      m'.Matches s (before ++ items) := by
  induction h generalizing m before with
  | nil => exact ⟨m, rfl, by simpa using hm⟩
  | @cons i items args rest hi _ ih =>
    rw [List.forall_mem_cons] at hadmits hplain
    obtain ⟨m', hfold, hm'⟩ := hi.matched hs hm hadmits.1 hplain.1
      (fun j hj => (List.pairwise_append.1 hapart).2.2 j hj i List.mem_cons_self) unexpected
    obtain ⟨m'', hfold', hm''⟩ := ih hm' hadmits.2 hplain.2 (by simpa using hapart)
    refine ⟨m'', ?_, by simpa using hm''⟩
    rw [List.foldlM_append, hfold]
    exact hfold'

/-- At the end nothing waits, and nothing that is required is missing. -/
theorem conclude_eq (hm : m.Matches s items)
    (hrequired : ∀ p ∈ s.parameters, p.required = true → ∃ i ∈ items, i.name = p.long) :
    ∃ m' : Matching, m.conclude s = .ok m' ∧ m'.Idle items := by
  obtain ⟨settled, hsettle, hidle, -⟩ := hm.settle
  have hall : (s.parameters.all fun p => !p.required || settled.has p.long) = true := by
    rw [List.all_eq_true]
    intro p hp
    rw [Bool.or_eq_true, Bool.not_eq_true', ← Bool.not_eq_true, ← imp_iff_not_or, hidle.has_eq,
      List.any_eq_true]
    simpa using hrequired p hp
  refine ⟨settled, ?_, hidle⟩
  simp only [conclude, hsettle]
  exact if_pos hall

theorem SpellsAll.run_eq (hs : s.Proper) (h : s.SpellsAll items args)
    (hadmits : ∀ i ∈ items, s.Admits i) (hplain : ∀ i ∈ items, ∀ v ∈ i.value, Plain v)
    (hapart : items.Pairwise s.Apart)
    (hrequired : ∀ p ∈ s.parameters, p.required = true → ∃ i ∈ items, i.name = p.long) :
    ∃ m', Matching.run s args = .ok m' ∧ m'.Idle items := by
  obtain ⟨m, hfold, hm⟩ :=
    h.matched hs (matches_empty s) hadmits hplain hapart .unknownArgument
  obtain ⟨m', hconclude, hidle⟩ := conclude_eq hm hrequired
  refine ⟨m', ?_, hidle⟩
  rw [Matching.run, hfold]
  exact hconclude

end Signature

end EndpointCatalog.CommandLine
