import EndpointCatalog.CommandLine.Invocation
import EndpointCatalog.Proofs.CommandLine.Matching

/-! Command lines that spell a command. The options of the command may stand in any order, and
each global option before the name of the command or behind it; the command that is read is the
one that was spelled. -/

namespace EndpointCatalog

namespace Report.Format

def name : Format → String
  | text => "text"
  | json => "json"
  | csv => "csv"
  | markdown => "markdown"

theorem ofName?_name (f : Format) : ofName? f.name = some f := by
  cases f <;> decide +kernel

end Report.Format

namespace CommandLine

/-! ### Calls -/

/-- The parameters of a call, each with what it is given; without a value for a flag. -/
abbrev Call := List (String × List (Option String))

def one (value : Option String) : List (Option String) := value.toList.map some

def switch (b : Bool) : List (Option String) := if b then [none] else []

def Call.items (call : Call) : List Item := call.flatMap fun g => g.2.map (Item.mk g.1)

def globals (quiet verbose : Bool) (configDir : Option String) : Call :=
  [("quiet", switch quiet), ("verbose", switch verbose), ("config-dir", one configDir)]

def globalNames : List String := ["quiet", "verbose", "config-dir"]

def signatureOf (name : String) : Signature := (commands.lookup name).getD topLevel

namespace Command

def name : Command → String
  | init _ => "init"
  | scan _ => "scan"
  | add .. => "add"
  | list .. => "list"
  | sessions => "sessions"
  | menu => "menu"

def signature (c : Command) : Signature := signatureOf c.name

/-- What the parameters of a command are given. A catalog that is listed as text need not say
so. -/
inductive Calls : Command → Call → Prop
  | init (force : Bool) : Calls (.init force) [("force", switch force)]
  | scan (a : ScanArguments) : Calls (.scan a)
      [("ROOT", one a.root), ("directive-root", one a.directiveRoot), ("suffix", one a.suffix),
        ("redirect-policy", one (a.policy.map (·.name))), ("batch", switch a.batch),
        ("lowercase-directives", switch a.lowercaseDirectives), ("dry-run", switch a.dryRun)]
  | add (folder controller : String) {urls : List String} (redirect : Option String)
      (h : urls ≠ []) : Calls (.add folder controller urls redirect)
      [("folder", [some folder]), ("controller", [some controller]), ("url", urls.map some),
        ("redirect", one redirect)]
  | list (format : Report.Format) (output : Option String) : Calls (.list format output)
      [("format", [some format.name]), ("output", one output)]
  | listText (output : Option String) : Calls (.list .text output) [("output", one output)]
  | sessions : Calls .sessions []
  | menu : Calls .menu []

/-- The command lines that spell a command and global options. These stand before or behind the
name of the command, there among its own options in any order; urls keep their order. -/
inductive Spelled (quiet verbose : Bool) (configDir : Option String) (c : Command) :
    List String → Prop
  | line {call : Call} {before among behind : List Item} {front rest : List String}
      (hcall : c.Calls call)
      (hglobals : (before ++ among).Perm (globals quiet verbose configDir).items)
      (hbehind : behind.Perm (among ++ call.items))
      (hurls : valuesFor "url" behind = valuesFor "url" call.items)
      (hplain : ∀ i ∈ before ++ behind, ∀ v ∈ i.value, Plain v)
      (hfront : topLevel.SpellsAll before front) (hrest : c.signature.SpellsAll behind rest) :
      Spelled quiet verbose configDir c (front ++ c.name :: rest)

end Command

/-! ### What a call gives -/

theorem valuesFor_append (x : String) (items items' : List Item) :
    valuesFor x (items ++ items') = valuesFor x items ++ valuesFor x items' := by
  rw [valuesFor, List.filter_append, List.flatMap_append, valuesFor, valuesFor]

theorem valuesFor_perm (x : String) {items items' : List Item} (h : items.Perm items') :
    (valuesFor x items).Perm (valuesFor x items') :=
  (h.filter _).flatMap_right _

namespace Call

theorem mem_items {call : Call} {i : Item} :
    i ∈ call.items ↔ ∃ g ∈ call, ∃ value ∈ g.2, Item.mk g.1 value = i := by
  simp only [items, List.mem_flatMap, List.mem_map]

theorem valuesFor_items (call : Call) (x : String) :
    valuesFor x call.items =
      call.flatMap fun g => if g.1 = x then g.2.flatMap Option.toList else [] := by
  induction call with
  | nil => rfl
  | cons g call ih =>
    rw [items, List.flatMap_cons, ← items, valuesFor_append, ih, List.flatMap_cons]
    congr 1
    split_ifs with hx <;>
      simp [valuesFor, List.filter_map, Function.comp_def, hx, List.flatMap_map]

theorem any_items (call : Call) (x : String) :
    call.items.any (·.name = x) = call.any fun g => g.1 = x && !g.2.isEmpty := by
  induction call with
  | nil => rfl
  | cons g call ih =>
    rw [items, List.flatMap_cons, ← items, List.any_append, ih, List.any_cons]
    congr 1
    cases g.2 <;> simp

end Call

@[simp] theorem flatMap_one (value : Option String) :
    (one value).flatMap Option.toList = value.toList := by
  cases value <;> rfl

@[simp] theorem isEmpty_switch (b : Bool) : (switch b).isEmpty = !b := by
  cases b <;> rfl

theorem length_one_le (value : Option String) : (one value).length ≤ 1 := by
  cases value <;> simp [one]

theorem length_switch_le (b : Bool) : (switch b).length ≤ 1 := by
  cases b <;> simp [switch]

/-- Items that may be given together in every command: only urls more than once. -/
def Once (i j : Item) : Prop := i.name = j.name → i.name = "url"

theorem Call.once {call : Call} (h : (call.map Prod.fst).Nodup)
    (hlength : ∀ g ∈ call, g.1 ≠ "url" → g.2.length ≤ 1) : call.items.Pairwise Once := by
  rw [items, List.pairwise_flatMap]
  refine ⟨fun g hg => ?_, ?_⟩
  · rw [List.pairwise_map]
    rcases eq_or_ne g.1 "url" with hurl | hurl
    · exact List.pairwise_of_forall fun _ _ _ => hurl
    · match hvalues : g.2, hlength g hg hurl with
      | [], _ => exact .nil
      | [_], _ => exact List.pairwise_singleton ..
  · refine (List.pairwise_map.1 h).imp fun {g g'} hne i hi j hj heq => ?_
    obtain ⟨_, _, rfl⟩ := List.mem_map.1 hi
    obtain ⟨_, _, rfl⟩ := List.mem_map.1 hj
    exact absurd heq hne

theorem items_append (call call' : Call) : Call.items (call ++ call') = call.items ++ call'.items :=
  List.flatMap_append

/-! ### Parameters -/

section Groups

variable {s : Signature} {name : String}

/-- Whatever plain values a parameter is given, it admits. -/
def AdmitsAll (s : Signature) (g : String × List (Option String)) : Prop :=
  ∀ value ∈ g.2, (∀ v ∈ value, Plain v) → s.Admits ⟨g.1, value⟩

theorem admitsAll_switch (b : Bool) (h : ∀ p ∈ s.all, p.long = name → p.action = .flag) :
    AdmitsAll s (name, switch b) := by
  intro value hvalue _ p hp hname
  cases b with
  | false => cases hvalue
  | true =>
    cases List.mem_singleton.1 hvalue
    exact .flag (h p hp hname)

theorem admitsAll_values {values : List (Option String)} (accepts : Accepts)
    (hsome : none ∉ values) (hholds : ∀ v, some v ∈ values → Plain v → accepts.holds v = true)
    (h : ∀ p ∈ s.all, p.long = name → p.action.takesValue = true ∧ p.accepts = accepts) :
    AdmitsAll s (name, values) := by
  intro value hvalue hplain p hp hname
  obtain ⟨htakes, haccepts⟩ := h p hp hname
  cases value with
  | none => exact absurd hvalue hsome
  | some v => exact .value htakes (haccepts ▸ hholds v hvalue (hplain v rfl))

theorem admitsAll_one {accepts : Accepts} (value : Option String)
    (hholds : ∀ v ∈ value, Plain v → accepts.holds v = true)
    (h : ∀ p ∈ s.all, p.long = name → p.action.takesValue = true ∧ p.accepts = accepts) :
    AdmitsAll s (name, one value) :=
  admitsAll_values accepts (by cases value <;> simp [one])
    (fun v hv => hholds v (by simpa [one] using hv)) h

theorem admitsAll_anything (value : Option String)
    (h : ∀ p ∈ s.all, p.long = name → p.action.takesValue = true ∧ p.accepts = .anything) :
    AdmitsAll s (name, one value) :=
  admitsAll_one value (fun _ _ _ => rfl) h

theorem admitsAll_globals
    (hflag : ∀ p ∈ s.all, p.long = "quiet" ∨ p.long = "verbose" → p.action = .flag)
    (hdir : ∀ p ∈ s.all, p.long = "config-dir" →
      p.action.takesValue = true ∧ p.accepts = .anything)
    (quiet verbose : Bool) (configDir : Option String) :
    ∀ g ∈ globals quiet verbose configDir, AdmitsAll s g := by
  simp only [globals, List.forall_mem_cons]
  exact ⟨admitsAll_switch quiet fun p hp h => hflag p hp (.inl h),
    admitsAll_switch verbose fun p hp h => hflag p hp (.inr h),
    admitsAll_anything configDir hdir, nofun⟩

theorem admits_of_mem {call : Call} (h : ∀ g ∈ call, AdmitsAll s g) {i : Item}
    (hi : i ∈ call.items) (hplain : ∀ v ∈ i.value, Plain v) : s.Admits i := by
  obtain ⟨g, hg, value, hvalue, rfl⟩ := Call.mem_items.1 hi
  exact h g hg value hvalue hplain

end Groups

namespace Command

variable {c : Command} {call : Call}

/-- The signatures that arguments are matched against. -/
def signatures : List Signature := topLevel :: commands.map Prod.snd

theorem name_mem (c : Command) : c.name ∈ commands.map Prod.fst := by
  cases c <;> simp [name, commands]

theorem signature_mem (c : Command) : c.signature ∈ signatures := by
  have hall : ∀ name ∈ commands.map Prod.fst, signatureOf name ∈ signatures := by decide +kernel
  exact hall c.name c.name_mem

theorem proper_of_mem {s : Signature} (h : s ∈ signatures) : s.Proper := by
  have hall : ∀ s ∈ signatures,
      (∀ p ∈ s.parameters, (p.long.toList ≠ [] ∧ '=' ∉ p.long.toList) ∧ '-' ∉ p.short) ∧
        ∀ p ∈ s.positional, p.action = .value := by
    decide +kernel
  exact ⟨fun p hp => ((hall s h).1 p hp).1, fun p hp => ((hall s h).1 p hp).2, (hall s h).2⟩

theorem admitsAll_globals_of_mem {s : Signature} (h : s ∈ signatures) (quiet verbose : Bool)
    (configDir : Option String) : ∀ g ∈ globals quiet verbose configDir, AdmitsAll s g := by
  have hall : ∀ s ∈ signatures, ∀ p ∈ s.all,
      (p.long = "quiet" ∨ p.long = "verbose" → p.action = .flag) ∧
        (p.long = "config-dir" → p.action.takesValue = true ∧ p.accepts = .anything) := by
    decide +kernel
  exact admitsAll_globals (fun p hp => (hall s h p hp).1) (fun p hp => (hall s h p hp).2)
    quiet verbose configDir

theorem apart_of_once {s : Signature} (h : s ∈ signatures) {i j : Item} (hij : Once i j) :
    s.Apart i j := by
  have hall : ∀ s ∈ signatures, ∀ p ∈ s.all, p.long = "url" → p.action = .values := by
    decide +kernel
  exact fun heq p hp hname => hall s h p hp (hname.trans (heq ▸ hij heq))

theorem Calls.once (h : c.Calls call) (quiet verbose : Bool) (configDir : Option String) :
    ((globals quiet verbose configDir).items ++ call.items).Pairwise Once := by
  rw [← items_append]
  refine Call.once ?_ ?_
  · cases h <;> simp [globals]
  · cases h <;> simp [globals, length_one_le, length_switch_le]

theorem admits_format : ∀ p ∈ (signatureOf "list").all, p.long = "format" →
    p.action.takesValue = true ∧ p.accepts = .oneOf ["text", "json", "csv", "markdown"] := by
  decide +kernel

theorem admitsAll_output (output : Option String) :
    AdmitsAll (signatureOf "list") ("output", one output) := by
  have houtput : ∀ p ∈ (signatureOf "list").all, p.long = "output" →
      p.action.takesValue = true ∧ p.accepts = .nonEmpty := by
    decide +kernel
  exact admitsAll_one output (fun v _ hv => by simpa [Accepts.holds] using hv.ne_empty) houtput

theorem Calls.admitsAll (h : c.Calls call) : ∀ g ∈ call, AdmitsAll c.signature g := by
  cases h with
  | init force =>
    have hflag : ∀ p ∈ (signatureOf "init").all, p.long = "force" → p.action = .flag := by
      decide +kernel
    simp only [List.forall_mem_cons]
    exact ⟨admitsAll_switch force hflag, nofun⟩
  | scan a =>
    have hvalue : ∀ name ∈ ["ROOT", "directive-root", "suffix"],
        ∀ p ∈ (signatureOf "scan").all, p.long = name →
          p.action.takesValue = true ∧ p.accepts = .anything := by
      decide +kernel
    have hpolicy : ∀ p ∈ (signatureOf "scan").all, p.long = "redirect-policy" →
        p.action.takesValue = true ∧ p.accepts = .oneOf ["first", "nearest"] := by
      decide +kernel
    have hflag : ∀ name ∈ ["batch", "lowercase-directives", "dry-run"],
        ∀ p ∈ (signatureOf "scan").all, p.long = name → p.action = .flag := by
      decide +kernel
    simp only [List.forall_mem_cons] at hvalue hflag ⊢
    refine ⟨admitsAll_anything _ hvalue.1, admitsAll_anything _ hvalue.2.1,
      admitsAll_anything _ hvalue.2.2.1, admitsAll_one _ ?_ hpolicy, admitsAll_switch _ hflag.1,
      admitsAll_switch _ hflag.2.1, admitsAll_switch _ hflag.2.2.1, nofun⟩
    intro v hv _
    obtain ⟨policy, -, rfl⟩ := Option.map_eq_some_iff.1 hv
    cases policy <;> rfl
  | add folder controller redirect h =>
    have hvalue : ∀ name ∈ ["folder", "controller", "url", "redirect"],
        ∀ p ∈ (signatureOf "add").all, p.long = name →
          p.action.takesValue = true ∧ p.accepts = .anything := by
      decide +kernel
    simp only [List.forall_mem_cons] at hvalue ⊢
    exact ⟨admitsAll_anything (some folder) hvalue.1,
      admitsAll_anything (some controller) hvalue.2.1,
      admitsAll_values .anything (by simp) (fun _ _ _ => rfl) hvalue.2.2.1,
      admitsAll_anything redirect hvalue.2.2.2.1, nofun⟩
  | list format output =>
    simp only [List.forall_mem_cons]
    refine ⟨admitsAll_one (some format.name) ?_ admits_format, admitsAll_output output, nofun⟩
    intro v hv _
    cases Option.mem_some.1 hv
    cases format <;> rfl
  | listText output =>
    simp only [List.forall_mem_cons]
    exact ⟨admitsAll_output output, nofun⟩
  | sessions => nofun
  | menu => nofun

theorem Calls.required (h : c.Calls call) {p : Parameter} (hp : p ∈ c.signature.parameters)
    (hrequired : p.required = true) : ∃ i ∈ call.items, i.name = p.long := by
  have hname {g : String × List (Option String)} {value : Option String} (hg : g ∈ call)
      (hvalue : value ∈ g.2) (hlong : p.long = g.1) : ∃ i ∈ call.items, i.name = p.long :=
    ⟨⟨g.1, value⟩, Call.mem_items.2 ⟨g, hg, value, hvalue, rfl⟩, hlong.symm⟩
  have hnone : ∀ name ∈ ["init", "scan", "list", "sessions", "menu"],
      ∀ p ∈ (signatureOf name).parameters, p.required = false := by
    decide +kernel
  cases h with
  | add folder controller redirect h =>
    have hlong : ∀ p ∈ (signatureOf "add").parameters, p.required = true →
        p.long = "folder" ∨ p.long = "controller" ∨ p.long = "url" := by
      decide +kernel
    obtain ⟨url, urls, rfl⟩ := List.exists_cons_of_ne_nil h
    rcases hlong p hp hrequired with hlong | hlong | hlong
    · exact hname (.head _) (.head _) hlong
    · exact hname (.tail _ (.head _)) (.head _) hlong
    · exact hname (.tail _ (.tail _ (.head _))) (.head _) hlong
  | init => simp [hnone "init" (by decide) p hp] at hrequired
  | scan => simp [hnone "scan" (by decide) p hp] at hrequired
  | list => simp [hnone "list" (by decide) p hp] at hrequired
  | listText => simp [hnone "list" (by decide) p hp] at hrequired
  | sessions => simp [hnone "sessions" (by decide) p hp] at hrequired
  | menu => simp [hnone "menu" (by decide) p hp] at hrequired

/-! ### The command that is read -/

/-- What has been matched for a command is what the call gives, beside global options. -/
structure Reads (call : Call) (sub : Matching) : Prop where
  has_eq : ∀ x ∉ globalNames, sub.has x = call.items.any (·.name = x)
  valuesOf_perm : ∀ x ∉ globalNames, (sub.valuesOf x).Perm (valuesFor x call.items)
  urls_eq : sub.valuesOf "url" = valuesFor "url" call.items

theorem Reads.has {call : Call} {sub : Matching} (h : Reads call sub) {x : String}
    (hx : x ∉ globalNames) :
    sub.has x = call.any fun g => g.1 = x && !g.2.isEmpty := by
  rw [h.has_eq x hx, call.any_items]

/-- Where a call gives one value at most, the order does not matter. -/
theorem Reads.value? {call : Call} {sub : Matching} (h : Reads call sub) {x : String}
    (value : Option String) (hx : x ∉ globalNames) (hcall : (call.flatMap fun g =>
      if g.1 = x then g.2.flatMap Option.toList else []) = value.toList) :
    sub.value? x = value := by
  have hperm := h.valuesOf_perm x hx
  rw [call.valuesFor_items, hcall] at hperm
  rw [Matching.value?]
  cases value with
  | none => rw [List.perm_nil.1 hperm]; rfl
  | some v => rw [List.perm_singleton.1 hperm]; rfl

theorem Calls.ofMatching (h : c.Calls call) {sub : Matching} (hsub : Reads call sub) :
    ofMatching c.name sub = some c := by
  cases h with
  | init force =>
    have hforce := hsub.has (x := "force") (by decide)
    simp [Command.ofMatching, name, hforce]
  | scan a =>
    have hroot := hsub.value? (x := "ROOT") a.root (by decide) (by simp)
    have hdirective := hsub.value? (x := "directive-root") a.directiveRoot (by decide) (by simp)
    have hsuffix := hsub.value? (x := "suffix") a.suffix (by decide) (by simp)
    have hname := hsub.value? (x := "redirect-policy") (a.policy.map (·.name)) (by decide) (by simp)
    have hpolicy : (a.policy.map (·.name)).bind RedirectPolicy.ofName? = a.policy := by
      rcases a.policy with _ | policy
      · rfl
      · cases policy <;> rfl
    have hbatch := hsub.has (x := "batch") (by decide)
    have hlower := hsub.has (x := "lowercase-directives") (by decide)
    have hdry := hsub.has (x := "dry-run") (by decide)
    rw [name, Command.ofMatching, hroot, hdirective, hsuffix, hname, hpolicy, hbatch, hlower, hdry]
    simp
  | @add folder controller urls redirect h =>
    have hfolder := hsub.value? (x := "folder") (some folder) (by decide) (by simp)
    have hcontroller := hsub.value? (x := "controller") (some controller) (by decide) (by simp)
    have hredirect := hsub.value? (x := "redirect") redirect (by decide) (by simp)
    have hurls : sub.valuesOf "url" = urls := by
      rw [hsub.urls_eq, Call.valuesFor_items]
      simp [List.flatMap_map]
    rw [name, Command.ofMatching, hfolder, hcontroller, hurls, hredirect]
    rfl
  | list format output =>
    have hformat := hsub.value? (x := "format") (some format.name) (by decide) (by simp)
    have houtput := hsub.value? (x := "output") output (by decide) (by simp)
    rw [name, Command.ofMatching, hformat, houtput, Option.bind_some, format.ofName?_name]
    rfl
  | listText output =>
    have hformat := hsub.value? (x := "format") none (by decide) (by simp)
    have houtput := hsub.value? (x := "output") output (by decide) (by simp)
    rw [name, Command.ofMatching, hformat, houtput]
    rfl
  | sessions => rfl
  | menu => rfl

/-! ### Before the name of the command -/

section Split

variable {m m' : Matching} {items : List Item}

theorem name_ne_help (c : Command) : c.name ≠ helpCommand := by
  have hhelp : helpCommand ∉ commands.map Prod.fst := by decide
  exact fun h => hhelp (h ▸ c.name_mem)

theorem lookup_name (c : Command) : (commands.lookup c.name).isSome = true := by
  cases c <;> rfl

theorem splitCommand_name (h : m.Matches topLevel items) (c : Command) (rest : List String) :
    splitCommand m (c.name :: rest) = .ok (m, some (c.name, rest)) := by
  rw [splitCommand, h.trailing, h.valueDue, c.lookup_name]
  simp

theorem lookup_of_dash {arg : String} (h : '-' ∈ arg.toList.head?) :
    arg ≠ helpCommand ∧ (commands.lookup arg).isSome = false := by
  have hall : ∀ name ∈ helpCommand :: commands.map Prod.fst, '-' ∉ name.toList.head? := by
    decide +kernel
  have hne {name : String} (hname : name ∈ helpCommand :: commands.map Prod.fst) : arg ≠ name :=
    fun heq => hall name hname (heq ▸ h)
  refine ⟨hne List.mem_cons_self, ?_⟩
  rw [Option.isSome_eq_false_iff, Option.isNone_iff_eq_none, List.lookup_eq_none_iff]
  exact fun e he => bne_iff_ne.2 (hne (List.mem_cons_of_mem _ (List.mem_map_of_mem he)))

/-- An argument that begins with a dash, or a value that is due, is no command. -/
theorem splitCommand_cons (h : m.trailing = false) {arg : String}
    (harg : '-' ∈ arg.toList.head? ∨ m.valueDue = true) (rest : List String) :
    splitCommand m (arg :: rest) =
      m.matchArgument topLevel .invalidSubcommand arg >>= (splitCommand · rest) := by
  have hcommand : (!m.valueDue && (arg = helpCommand || (commands.lookup arg).isSome)) = false := by
    rcases harg with hdash | hdue
    · simp [lookup_of_dash hdash]
    · simp [hdue]
  rw [splitCommand, h, if_neg (by simp), hcommand]
  rfl

theorem dash_append {s : String} (h : '-' ∈ s.toList.head?) (t : String) :
    '-' ∈ (s ++ t).toList.head? := by
  rw [String.toList_append, List.head?_append, Option.mem_def.1 h]
  rfl

theorem splitCommand_single {arg : String} (hm : m.Matches topLevel items)
    (hdash : '-' ∈ arg.toList.head?)
    (hfold : [arg].foldlM (Matching.matchArgument topLevel .invalidSubcommand) m = .ok m')
    (rest : List String) : splitCommand m ([arg] ++ rest) = splitCommand m' rest := by
  rw [Signature.foldlM_singleton] at hfold
  rw [List.singleton_append, splitCommand_cons hm.trailing (.inl hdash), hfold]
  rfl

/-- The value behind an option is due, so that it is no command whatever it is. -/
theorem splitCommand_apart {p : Parameter} {arg v : String} (hm : m.Matches topLevel items)
    (hdash : '-' ∈ arg.toList.head?)
    (harg : Matching.matchArgument topLevel .invalidSubcommand m arg = m.await p)
    (hfold : [arg, v].foldlM (Matching.matchArgument topLevel .invalidSubcommand) m = .ok m')
    (rest : List String) : splitCommand m ([arg, v] ++ rest) = splitCommand m' rest := by
  obtain ⟨settled, hidle, -, hawait⟩ := Matching.await_eq hm p
  rw [List.foldlM_cons, harg, hawait] at hfold
  have hvalue := (Signature.foldlM_singleton ..).symm.trans hfold
  rw [List.cons_append, splitCommand_cons hm.trailing (.inl hdash), harg, hawait]
  refine (splitCommand_cons (m := { settled with waiting := some ⟨p, none⟩, valueDue := true })
    hidle.trailing (.inr rfl) rest).trans ?_
  rw [hvalue]
  rfl

theorem splitCommand_spells {i : Item} {args : List String} (h : topLevel.Spells i args)
    (hm : m.Matches topLevel items)
    (hfold : args.foldlM (Matching.matchArgument topLevel .invalidSubcommand) m = .ok m')
    (rest : List String) : splitCommand m (args ++ rest) = splitCommand m' rest := by
  have hproper : topLevel.Proper := proper_of_mem List.mem_cons_self
  have hdash (cs : String) : '-' ∈ ("-" ++ cs).toList.head? := dash_append rfl cs
  have hdashes (cs : String) : '-' ∈ ("--" ++ cs).toList.head? := dash_append rfl cs
  cases h with
  | flag => exact splitCommand_single hm (hdashes _) hfold rest
  | shortFlag => exact splitCommand_single hm (hdash _) hfold rest
  | attached =>
    exact splitCommand_single hm (dash_append (dash_append (hdashes _) _) _) hfold rest
  | apart hp htakes =>
    exact splitCommand_apart hm (hdashes _)
      (Signature.awaits_long hproper hm.trailing hp htakes _) hfold rest
  | shortApart hp htakes =>
    exact splitCommand_apart hm (hdash _)
      (Signature.awaits_short hproper hm.trailing hp htakes _) hfold rest
  | positional hp => cases hp

theorem split_matches {before : List Item} {args : List String} (h : topLevel.SpellsAll items args)
    (hm : m.Matches topLevel before) (hadmits : ∀ i ∈ items, topLevel.Admits i)
    (hplain : ∀ i ∈ items, ∀ v ∈ i.value, Plain v)
    (hapart : (before ++ items).Pairwise topLevel.Apart) :
    ∃ m' : Matching, m'.Matches topLevel (before ++ items) ∧
      ∀ rest, splitCommand m (args ++ rest) = splitCommand m' rest := by
  induction h generalizing m before with
  | nil => exact ⟨m, by simpa using hm, fun _ => rfl⟩
  | @cons i items args argsRest hi _ ih =>
    rw [List.forall_mem_cons] at hadmits hplain
    obtain ⟨m', hfold, hm'⟩ := hi.matched (proper_of_mem List.mem_cons_self) hm hadmits.1 hplain.1
      (fun j hj => (List.pairwise_append.1 hapart).2.2 j hj i List.mem_cons_self) .invalidSubcommand
    obtain ⟨m'', hm'', hsplit⟩ := ih hm' hadmits.2 hplain.2 (by simpa using hapart)
    refine ⟨m'', by simpa using hm'', fun rest => ?_⟩
    rw [List.append_assoc, splitCommand_spells hi hm hfold, hsplit]

end Split

/-! ### The whole command line -/

section Whole

variable {quiet verbose : Bool} {configDir : Option String} {before among behind : List Item}

theorem name_of_mem_globals {i : Item} (h : i ∈ (globals quiet verbose configDir).items) :
    i.name ∈ globalNames := by
  obtain ⟨g, hg, _, -, rfl⟩ := Call.mem_items.1 h
  exact List.mem_map_of_mem (f := Prod.fst) hg

theorem Calls.name_not_global (h : c.Calls call) {i : Item} (hi : i ∈ call.items) :
    i.name ∉ globalNames := by
  have hnames : ∀ g ∈ call, g.1 ∉ globalNames := by
    cases h <;> simp [globalNames]
  obtain ⟨g, hg, _, -, rfl⟩ := Call.mem_items.1 hi
  exact hnames g hg

theorem valuesFor_eq_nil {x : String} {items : List Item} (h : ∀ i ∈ items, i.name ≠ x) :
    valuesFor x items = [] := by
  rw [valuesFor, List.filter_eq_nil_iff.2 fun i hi => by simpa using h i hi]
  rfl

theorem any_eq_false {x : String} {items : List Item} (h : ∀ i ∈ items, i.name ≠ x) :
    items.any (·.name = x) = false := by
  simpa using h

theorem reads_of_idle {sub : Matching} (hsub : sub.Idle behind)
    (hbehind : behind.Perm (among ++ call.items)) (hamong : ∀ i ∈ among, i.name ∈ globalNames)
    (hurls : valuesFor "url" behind = valuesFor "url" call.items) : Reads call sub where
  has_eq x hx := by
    have hother : ∀ i ∈ among, i.name ≠ x := fun i hi heq => hx (heq ▸ hamong i hi)
    rw [hsub.has_eq, hbehind.any_eq, List.any_append, any_eq_false hother, Bool.false_or]
  valuesOf_perm x hx := by
    have hother : ∀ i ∈ among, i.name ≠ x := fun i hi heq => hx (heq ▸ hamong i hi)
    have hperm := valuesFor_perm x hbehind
    rwa [valuesFor_append, valuesFor_eq_nil hother, List.nil_append, ← hsub.valuesOf_eq] at hperm
  urls_eq := by rw [hsub.valuesOf_eq, hurls]

/-- Of two places for at most one value, the one that has it counts. -/
theorem or_head?_of_perm {α : Type} {xs ys : List α} {o : Option α}
    (h : (xs ++ ys).Perm o.toList) : ys.head?.or xs.head? = o := by
  cases o with
  | none =>
    obtain ⟨rfl, rfl⟩ := List.append_eq_nil_iff.1 (List.perm_nil.1 h)
    rfl
  | some v =>
    rcases List.append_eq_singleton_iff.1 (List.perm_singleton.1 h) with ⟨rfl, rfl⟩ | ⟨rfl, rfl⟩ <;>
      rfl

/-- Before and behind the name of the command together, the global options are found as given. -/
theorem invocation_of {top sub : Matching} (htop : top.Idle before) (hsub : sub.Idle behind)
    (hcall : c.Calls call)
    (hglobals : (before ++ among).Perm (globals quiet verbose configDir).items)
    (hbehind : behind.Perm (among ++ call.items)) (command : Option Command) :
    Invocation.of top sub command =
      ⟨quiet, verbose, configDir.getD defaultConfigDir, command⟩ := by
  have hother {x : String} (hx : x ∈ globalNames) : ∀ i ∈ call.items, i.name ≠ x :=
    fun i hi heq => hcall.name_not_global hi (heq ▸ hx)
  have hhas {x : String} (hx : x ∈ globalNames) : (top.has x || sub.has x) =
      (globals quiet verbose configDir).any fun g => g.1 = x && !g.2.isEmpty := by
    rw [htop.has_eq, hsub.has_eq, hbehind.any_eq, List.any_append, any_eq_false (hother hx),
      Bool.or_false, ← List.any_append, hglobals.any_eq, Call.any_items]
  have hdir : (sub.value? "config-dir").or (top.value? "config-dir") = configDir := by
    have hperm : (valuesFor "config-dir" before ++ valuesFor "config-dir" behind).Perm
        configDir.toList := by
      refine ((valuesFor_perm _ hbehind).append_left _).trans ?_
      rw [valuesFor_append, valuesFor_eq_nil (hother (by decide)), List.append_nil,
        ← valuesFor_append]
      refine (valuesFor_perm _ hglobals).trans ?_
      simp [Call.valuesFor_items, globals]
    rw [Matching.value?, Matching.value?, hsub.valuesOf_eq, htop.valuesOf_eq]
    exact or_head?_of_perm hperm
  rw [Invocation.of, hhas (by decide), hhas (by decide), hdir]
  simp [globals]

end Whole

theorem once_of_perm (hcall : c.Calls call) {quiet verbose : Bool} {configDir : Option String}
    {before among behind : List Item}
    (hglobals : (before ++ among).Perm (globals quiet verbose configDir).items)
    (hbehind : behind.Perm (among ++ call.items)) : (before ++ behind).Pairwise Once := by
  have hperm : (before ++ behind).Perm ((globals quiet verbose configDir).items ++ call.items) := by
    refine (hbehind.append_left before).trans ?_
    rw [← List.append_assoc]
    exact hglobals.append_right call.items
  have hsymm : ∀ i j : Item, Once i j → Once j i := fun i j h heq => heq.trans (h heq.symm)
  exact (hperm.pairwise_iff fun {i j} => hsymm i j).2 (hcall.once quiet verbose configDir)

/-- A command line is read as the command that it spells, with the global options wherever they
stand. -/
theorem parse_spelled {quiet verbose : Bool} {configDir : Option String} {args : List String}
    (h : Spelled quiet verbose configDir c args) :
    parse args = .ok ⟨quiet, verbose, configDir.getD defaultConfigDir, some c⟩ := by
  obtain @⟨call, before, among, behind, front, rest, hcall, hglobals, hbehind, hurls, hplain,
    hfront, hrest⟩ := h
  have htopLevel : topLevel ∈ signatures := List.mem_cons_self
  obtain ⟨hbefore, hafter, -⟩ := List.pairwise_append.1 (once_of_perm hcall hglobals hbehind)
  obtain ⟨hplainBefore, hplainBehind⟩ := List.forall_mem_append.1 hplain
  obtain ⟨hglobalBefore, hglobalAmong⟩ :=
    List.forall_mem_append.1 fun i (hi : i ∈ before ++ among) => hglobals.subset hi
  -- The global options before the name of the command.
  obtain ⟨m, hm, hsplit⟩ := split_matches hfront (Matching.matches_empty topLevel)
    (fun i hi => admits_of_mem (admitsAll_globals_of_mem htopLevel _ _ _) (hglobalBefore i hi)
      (hplainBefore i hi))
    hplainBefore (hbefore.imp (apart_of_once htopLevel))
  obtain ⟨top, hconclude, htop⟩ := Signature.conclude_eq hm fun p hp hrequired => by
    have hnone : ∀ p ∈ topLevel.parameters, p.required = false := by decide
    simp [hnone p hp] at hrequired
  -- The arguments behind it.
  have hadmits : ∀ i ∈ behind, c.signature.Admits i := by
    intro i hi
    rcases List.mem_append.1 (hbehind.subset hi) with hi' | hi'
    · exact admits_of_mem (admitsAll_globals_of_mem c.signature_mem _ _ _) (hglobalAmong i hi')
        (hplainBehind i hi)
    · exact admits_of_mem hcall.admitsAll hi' (hplainBehind i hi)
  obtain ⟨sub, hrun, hsub⟩ := hrest.run_eq (proper_of_mem c.signature_mem) hadmits hplainBehind
    (hafter.imp (apart_of_once c.signature_mem)) fun p hp hrequired => by
      obtain ⟨i, hi, hname⟩ := hcall.required hp hrequired
      exact ⟨i, hbehind.symm.subset (List.mem_append_right _ hi), hname⟩
  have hreads : Reads call sub := reads_of_idle hsub hbehind
    (fun i hi => name_of_mem_globals (hglobalAmong i hi)) hurls
  have hparse : splitCommand .empty (front ++ c.name :: rest) = .ok (m, some (c.name, rest)) := by
    rw [hsplit, splitCommand_name hm]
  rw [signature, signatureOf] at hrun
  simp only [parse, hparse, bind, Except.bind, pure, Except.pure]
  rw [if_neg c.name_ne_help, hrun, hconclude]
  simp only [hcall.ofMatching hreads, invocation_of htop hsub hcall hglobals hbehind]

/-- A folder for the configuration that has the name of a command, and values that have the name
of one or an equals sign in them. -/
theorem addLine_parsed :
    let c := Command.add "v" "help" ["/api/a=b", "list"] none
    let args := ["-c", "scan", "add", "--url=/api/a=b", "-q", "--folder", "v", "-u", "list",
      "--controller", "help"]
    Spelled true false (some "scan") c args ∧
      parse args = .ok ⟨true, false, "scan", some c⟩ := by
  intro c args
  let call : Call := [("folder", [some "v"]), ("controller", [some "help"]),
    ("url", [some "/api/a=b", some "list"]), ("redirect", [])]
  let before : List Item := [⟨"config-dir", some "scan"⟩]
  let among : List Item := [⟨"quiet", none⟩]
  let behind : List Item := [⟨"url", some "/api/a=b"⟩, ⟨"quiet", none⟩, ⟨"folder", some "v"⟩,
    ⟨"url", some "list"⟩, ⟨"controller", some "help"⟩]
  let rest := ["--" ++ "url" ++ "=" ++ "/api/a=b", "-" ++ String.singleton 'q', "--" ++ "folder",
    "v", "-" ++ String.singleton 'u', "list", "--" ++ "controller", "help"]
  have hcall : c.Calls call := .add "v" "help" none (by simp)
  have hglobals : (before ++ among).Perm (globals true false (some "scan")).items := by decide
  have hbehind : behind.Perm (among ++ call.items) := by decide
  have hurls : valuesFor "url" behind = valuesFor "url" call.items := by decide
  have hplain : ∀ i ∈ before ++ behind, ∀ v ∈ i.value, v ≠ "" ∧ '-' ∉ v.toList.head? := by
    decide +kernel
  have hfront : topLevel.SpellsAll before ["-" ++ String.singleton 'c', "scan"] :=
    .cons (.shortApart (p := option "config-dir" (some 'c') .anything) rfl rfl) .nil
  have hrest : c.signature.SpellsAll behind rest :=
    .cons (.attached (p := ⟨"url", some 'u', .values, .anything, true⟩) rfl rfl)
      (.cons (.shortFlag (p := flag "quiet" (some 'q')) rfl rfl)
        (.cons (.apart (p := ⟨"folder", none, .value, .anything, true⟩) rfl rfl)
          (.cons (.shortApart (p := ⟨"url", some 'u', .values, .anything, true⟩) rfl rfl)
            (.cons (.apart (p := ⟨"controller", none, .value, .anything, true⟩) rfl rfl) .nil))))
  have hargs : args = ["-" ++ String.singleton 'c', "scan"] ++ c.name :: rest := by
    decide +kernel
  have hline : Spelled true false (some "scan") c args :=
    hargs ▸ .line hcall hglobals hbehind hurls
      (fun i hi v hv => ⟨(hplain i hi v hv).1, (hplain i hi v hv).2⟩) hfront hrest
  exact ⟨hline, parse_spelled hline⟩

end Command

end CommandLine

end EndpointCatalog
