import ProtoSchema.CommandLine.Arguments
import ProtoSchema.Proofs.Answers

/-!
# Sets of switches

Switches are named in parameter strings and given as flags among the arguments. Nothing turns one
off, and no entry is read with a regard to the others, so all that counts is which switches are
named somewhere.

A parameter string names a switch where the name stands between two commas, or between a comma and
an end, with nothing but blanks around it (`Switch.NamedIn`). Cutting two strings that are joined by
a comma gives the entries of the one and then those of the other, also where a string is empty or
ends in blanks (`parameterEntries_append`). That is why applying parameter strings one after the
other is joining them, why their order does not matter, and why a string may be applied twice
(`united_options`).

The flags need more work, as the arguments hold other things too: options with their values, words,
and switches before the command and behind it. Reading them is followed step by step, and at each
step the switches read so far are those whose flags have been passed
(`ConvertReading.mem_switches_addAll`, `parseFrom_options`). A value that looks like a flag is a
flag here.
-/

namespace ProtoSchema

/-! ## What stands between separators

A piece is told by what stands around it, so that it is known without cutting the text.
-/

/-- The piece stands in the text between two separators or ends, and holds no separator. -/
def StandsBetween (sep : Char) (piece text : List Char) : Prop :=
  sep ∉ piece ∧ ∃ front back, text = front ++ piece ++ back ∧
    (front = [] ∨ ∃ before, front = before ++ [sep]) ∧
    (back = [] ∨ ∃ after, back = sep :: after)

/-- A piece of a row that is joined by separators stands between two of them, or at an end. -/
theorem exists_joinWith_eq (sep : Char) (earlier : List (List Char)) (piece : List Char)
    (later : List (List Char)) :
    ∃ front back, joinWith sep (earlier ++ piece :: later) = front ++ piece ++ back ∧
      (front = [] ∨ ∃ before, front = before ++ [sep]) ∧
      (back = [] ∨ ∃ after, back = sep :: after) := by
  induction earlier with
  | nil =>
    cases later with
    | nil => exact ⟨[], [], by simp [joinWith], .inl rfl, .inl rfl⟩
    | cons next later => exact ⟨[], _, rfl, .inl rfl, .inr ⟨_, rfl⟩⟩
  | cons first earlier ih =>
    obtain ⟨front, back, hjoin, hfront, hback⟩ := ih
    have hcons : joinWith sep (first :: (earlier ++ piece :: later)) =
        first ++ sep :: joinWith sep (earlier ++ piece :: later) := by
      cases earlier <;> rfl
    refine ⟨first ++ sep :: front, back, ?_, .inr ?_, hback⟩
    · rw [List.cons_append, hcons, hjoin]
      simp
    · rcases hfront with rfl | ⟨before, rfl⟩
      · exact ⟨first, rfl⟩
      · exact ⟨first ++ sep :: before, by simp⟩

/-- What stands in front of a separator, or of the end, is a piece when it holds none. -/
theorem mem_pieces_of_front {sep : Char} {piece back : List Char} (hpiece : sep ∉ piece)
    (hback : back = [] ∨ ∃ after, back = sep :: after) : piece ∈ pieces sep (piece ++ back) := by
  rcases hback with rfl | ⟨after, rfl⟩
  · rw [List.append_nil, pieces_eq_singleton hpiece]
    exact List.mem_singleton_self piece
  · rw [pieces_append, pieces_eq_singleton hpiece]
    exact List.mem_cons_self

/-- The pieces of a text are what stands in it between separators. -/
theorem mem_pieces_iff {sep : Char} {piece text : List Char} :
    piece ∈ pieces sep text ↔ StandsBetween sep piece text := by
  constructor
  · intro h
    obtain ⟨earlier, later, hpieces⟩ := List.append_of_mem h
    obtain ⟨front, back, hjoin, hends⟩ := exists_joinWith_eq sep earlier piece later
    rw [← hpieces, joinWith_pieces] at hjoin
    exact ⟨not_mem_of_mem_pieces h, front, back, hjoin, hends⟩
  · rintro ⟨hpiece, front, back, rfl, rfl | ⟨before, rfl⟩, hback⟩
    · exact mem_pieces_of_front hpiece hback
    · have htext : before ++ [sep] ++ piece ++ back = before ++ sep :: (piece ++ back) := by simp
      rw [htext, pieces_append]
      exact List.mem_append_right _ (mem_pieces_of_front hpiece hback)

/-! ## Trimming

Trimming is done before entries are compared with names. No name has a blank at its ends or in it,
so that an entry is a name with blanks around it.
-/

/-- Trimming takes nothing but blanks. -/
theorem exists_eq_append_trim (cs : List Char) :
    ∃ before after, cs = before ++ trim cs ++ after ∧
      (∀ c ∈ before, isBlank c = true) ∧ (∀ c ∈ after, isBlank c = true) := by
  have hblank : ∀ cs : List Char, ∀ c ∈ cs.takeWhile isBlank, isBlank c = true := fun cs =>
    List.all_eq_true.mp List.all_takeWhile
  refine ⟨cs.takeWhile isBlank, ((cs.dropWhile isBlank).reverse.takeWhile isBlank).reverse, ?_,
    hblank cs, fun c hc => hblank _ c (List.mem_reverse.mp hc)⟩
  rw [trim, List.append_assoc, ← List.reverse_append, List.takeWhile_append_dropWhile,
    List.reverse_reverse, List.takeWhile_append_dropWhile]

theorem dropWhile_isBlank_append {word : List Char} (hne : word ≠ [])
    (hword : ∀ c ∈ word, isBlank c = false) {before : List Char}
    (hbefore : ∀ c ∈ before, isBlank c = true) (after : List Char) :
    (before ++ (word ++ after)).dropWhile isBlank = word ++ after := by
  rw [List.dropWhile_append_of_pos hbefore]
  cases word with
  | nil => exact absurd rfl hne
  | cons c cs =>
    rw [List.cons_append, List.dropWhile_cons_of_neg (by simp [hword c List.mem_cons_self])]

/-- Trimming takes all blanks around a text without blanks. -/
theorem trim_append {word : List Char} (hne : word ≠ []) (hword : ∀ c ∈ word, isBlank c = false)
    {before after : List Char} (hbefore : ∀ c ∈ before, isBlank c = true)
    (hafter : ∀ c ∈ after, isBlank c = true) : trim (before ++ word ++ after) = word := by
  have hreverse : (word ++ after).reverse = after.reverse ++ (word.reverse ++ []) := by simp
  rw [trim, List.append_assoc, dropWhile_isBlank_append hne hword hbefore, hreverse,
    dropWhile_isBlank_append (by simpa using hne)
      (fun c hc => hword c (List.mem_reverse.mp hc))
      (fun c hc => hafter c (List.mem_reverse.mp hc)),
    List.append_nil, List.reverse_reverse]

/-! ## The entries of a parameter string

An entry that names nothing is passed over, and so is an empty one.
-/

/-- The switch is named in the parameter string: its name stands between commas, perhaps with
blanks around it. -/
def Switch.NamedIn (s : Switch) (parameter : String) : Prop :=
  ∃ before after, (∀ c ∈ before, isBlank c = true) ∧ (∀ c ∈ after, isBlank c = true) ∧
    StandsBetween ',' (before ++ s.name.toList ++ after) parameter.toList

theorem Switch.isBlank_of_mem_name (s : Switch) : ∀ c ∈ s.name.toList, isBlank c = false := by
  have hall : s.name.toList.all (!isBlank ·) = true := by cases s <;> decide +kernel
  simpa using hall

/-- An entry is the name of a switch exactly where the string names it. -/
theorem Switch.mem_parameterEntries_iff (s : Switch) (parameter : String) :
    s.name ∈ parameterEntries parameter ↔ s.NamedIn parameter := by
  have hne : s.name ≠ "" := by cases s <;> decide
  rw [parameterEntries, List.mem_filter, List.mem_map]
  constructor
  · rintro ⟨⟨piece, hpiece, hname⟩, -⟩
    obtain ⟨before, after, hsplit, hblanks⟩ := exists_eq_append_trim piece
    have htrim : trim piece = s.name.toList := by rw [← hname, String.toList_ofList]
    rw [htrim] at hsplit
    exact ⟨before, after, hblanks.1, hblanks.2, hsplit ▸ mem_pieces_iff.mp hpiece⟩
  · rintro ⟨before, after, hbefore, hafter, hbetween⟩
    refine ⟨⟨_, mem_pieces_iff.mpr hbetween, ?_⟩, by simpa using hne⟩
    rw [trim_append (by simpa using hne) s.isBlank_of_mem_name hbefore hafter,
      String.ofList_toList]

/-- A comma between two parameter strings separates their entries. -/
theorem parameterEntries_append (p q : String) :
    parameterEntries (p ++ "," ++ q) = parameterEntries p ++ parameterEntries q := by
  have hlist : (p ++ "," ++ q).toList = p.toList ++ ',' :: q.toList := by simp
  rw [parameterEntries, hlist, pieces_append, List.map_append, List.filter_append]
  rfl

/-! ## Applying parameter strings

Two options are equal when they have the same switches on. With this each of the equations is one on
sets.
-/

namespace Options

/-- A parameter string turns on what is named in it and leaves the rest. -/
theorem has_apply_iff (o : Options) (parameter : String) (s : Switch) :
    (o.apply parameter).has s = true ↔ o.has s = true ∨ s.NamedIn parameter := by
  rw [has_apply, Bool.or_eq_true, decide_eq_true_eq, s.mem_parameterEntries_iff]

/-- Applying two parameter strings is applying them joined by a comma. -/
theorem apply_apply (o : Options) (p q : String) :
    (o.apply p).apply q = o.apply (p ++ "," ++ q) := by
  refine ext_has fun s => ?_
  rw [has_apply, has_apply, has_apply, parameterEntries_append, Bool.or_assoc]
  simp [List.mem_append]

theorem apply_comm (o : Options) (p q : String) :
    (o.apply p).apply q = (o.apply q).apply p := by
  refine ext_has fun s => ?_
  rw [has_apply, has_apply, has_apply, has_apply, Bool.or_right_comm]

theorem apply_self (o : Options) (p : String) : (o.apply p).apply p = o.apply p := by
  refine ext_has fun s => ?_
  rw [has_apply, has_apply, Bool.or_assoc, Bool.or_self]

/-- The options of some flags and then some parameter strings. -/
def united (flags : List Switch) (parameters : List String) : Options :=
  parameters.foldl apply (turnOnAll {} flags)

/-- Of several parameter strings each turns on what is named in it. -/
theorem has_foldl_apply_iff (o : Options) (parameters : List String) (s : Switch) :
    (parameters.foldl apply o).has s = true ↔
      o.has s = true ∨ ∃ p ∈ parameters, s.NamedIn p := by
  induction parameters generalizing o with
  | nil => simp
  | cons p parameters ih => simp [ih, has_apply_iff, or_assoc]

end Options

/-- The switch is among the flags or named in one of the parameter strings. -/
def Switch.AskedFor (s : Switch) (flags : List Switch) (parameters : List String) : Prop :=
  s ∈ flags ∨ ∃ p ∈ parameters, s.NamedIn p

namespace Options

theorem has_turnOnAll_iff (flags : List Switch) (s : Switch) :
    (turnOnAll {} flags).has s = true ↔ s ∈ flags := by
  have hnone : ({} : Options).has s = false := by cases s <;> rfl
  rw [has_turnOnAll, hnone, Bool.false_or, decide_eq_true_eq]

/-- Those switches are on that are asked for in one way or the other. -/
theorem has_united_iff (flags : List Switch) (parameters : List String) (s : Switch) :
    (united flags parameters).has s = true ↔ s.AskedFor flags parameters := by
  rw [united, has_foldl_apply_iff, has_turnOnAll_iff, Switch.AskedFor]

/-- Options have no policy when they ask for nullable values and against unions. -/
theorem resolve_fails_iff (o : Options) :
    (∃ c, o.resolve = .error c) ↔ o.has .allowNullValues = true ∧ o.has .disallowOneOf = true := by
  constructor
  · rintro ⟨c, hc⟩
    exact (conflict_of_resolve hc).2
  · rintro ⟨hnull, hone⟩
    exact ⟨_, resolve_of_conflict hnull hone⟩

end Options

/-! ## Flags among the arguments

The reader takes the arguments from the left and changes its state at each. What is proved of a step
is what becomes of the switches, and nothing is said of the rest.
-/

/-- The argument that turns a switch on. -/
def Switch.flag (s : Switch) : String := "--" ++ s.longName

theorem Switch.ofLongName?_longName (s : Switch) : Switch.ofLongName? s.longName = some s := by
  cases s <;> decide +kernel

theorem Switch.longName_inj {s t : Switch} : s.longName = t.longName ↔ s = t := by
  refine ⟨fun h => ?_, congrArg _⟩
  have hs := s.ofLongName?_longName
  rw [h, t.ofLongName?_longName] at hs
  exact (Option.some.inj hs).symm

/-- What is found by a long name is the switch of that name. -/
theorem Switch.ofLongName?_eq_some_iff {name : String} {s : Switch} :
    Switch.ofLongName? name = some s ↔ s.longName = name := by
  constructor
  · intro h
    simpa using List.find?_some h
  · rintro rfl
    exact s.ofLongName?_longName

/-- No switch has the long name of an option. -/
theorem ConvertOption.ofLongName?_longName (s : Switch) :
    ConvertOption.ofLongName? s.longName = none := by
  cases s <;> decide +kernel

/-- An argument is the flag of a switch when it is its long name and nothing else. -/
theorem Switch.flag_eq_iff {s : Switch} {argument : String} :
    s.flag = argument ↔ ArgumentForm.of argument = .long s.longName none := by
  constructor
  · rintro rfl
    cases s <;> rfl
  · intro h
    unfold ArgumentForm.of at h
    split at h
    · cases h
    · next rest hrest hlist =>
      split at h
      · next hvalue =>
        -- without an equals sign the name is all that follows the dashes
        have hname := List.takeWhile_append_dropWhile (p := (· ≠ '=')) (l := rest)
        rw [hvalue, List.append_nil] at hname
        simp only [ArgumentForm.long.injEq, and_true, hname] at h
        apply String.toList_injective
        simp [flag, ← h, hlist]
      · simp at h
    · cases h
    · cases h

theorem addSwitch_eq_ok {s : Switch} {value : Option String} {on switches : List Switch}
    (h : addSwitch s value on = .ok switches) : value = none ∧ switches = on ++ [s] := by
  rw [addSwitch] at h
  split at h
  · cases h
  · next hvalue =>
    split at h
    · cases h
    · exact ⟨by simpa using hvalue, (Except.ok.inj h).symm⟩

namespace ConvertReading

variable {r r' : ConvertReading}

/-! Only a switch changes the switches: the options of `convert` and their values leave them. -/

theorem switches_addOption {option : ConvertOption} {values : List String}
    (h : r.addOption option values = .ok r') : r'.switches = r.switches := by
  unfold addOption at h
  split at h
  · cases h
  · obtain rfl := Except.ok.inj h
    rfl
  · obtain rfl := Except.ok.inj h
    rfl
  · split at h
    · cases h
    · split at h
      · cases h
      · obtain rfl := Except.ok.inj h
        rfl

theorem switches_complete (h : r.complete = .ok r') : r'.switches = r.switches := by
  unfold complete at h
  split at h
  · have hsame := switches_addOption h
    exact hsame
  · obtain rfl := Except.ok.inj h
    rfl

theorem switches_addWord {word : String} (h : r.addWord word = .ok r') :
    r'.switches = r.switches := by
  unfold addWord at h
  split at h
  · obtain rfl := Except.ok.inj h
    rfl
  · cases h

theorem switches_beginOption {option : ConvertOption} {value : Option String}
    (h : r.beginOption option value = .ok r') : r'.switches = r.switches := by
  obtain ⟨done, hdone, hrest⟩ := bind_eq_ok_iff.mp h
  rw [← switches_complete hdone]
  cases value with
  | some v => exact switches_addOption hrest
  | none =>
    obtain rfl := Except.ok.inj hrest
    rfl

theorem switches_addShort {name : Char} {more : List Char} (h : r.addShort name more = .ok r') :
    r'.switches = r.switches := by
  unfold addShort at h
  split at h
  · exact switches_beginOption h
  · split at h
    · obtain ⟨_, _, herror⟩ := bind_eq_ok_iff.mp h
      cases herror
    · cases h

/-- A long name adds the switch of that name, and none when it is one of an option. -/
theorem mem_switches_addLong {name : String} {value : Option String}
    (h : r.addLong name value = .ok r') (s : Switch) :
    s ∈ r'.switches ↔ s ∈ r.switches ∨ (s.longName = name ∧ value = none) := by
  unfold addLong at h
  split at h
  · next hoption =>
    -- the name of an option, which is none of a switch
    have hname : s.longName ≠ name := by
      rintro rfl
      rw [ConvertOption.ofLongName?_longName] at hoption
      cases hoption
    rw [switches_beginOption h]
    simp [hname]
  · next t _ ht =>
    obtain rfl := Switch.ofLongName?_eq_some_iff.mp ht
    split at h
    · cases h
    · next hvalue =>
      -- the flag of a switch: the option before it ends, and the switch is added
      obtain ⟨done, hdone, hrest⟩ := bind_eq_ok_iff.mp h
      obtain ⟨switches, hadd, hrest⟩ := bind_eq_ok_iff.mp hrest
      obtain rfl := Except.ok.inj hrest
      obtain ⟨-, rfl⟩ := addSwitch_eq_ok hadd
      have hnone : value = none := by simpa using hvalue
      simp [switches_complete hdone, Switch.longName_inj, hnone]
  · split at h
    · split at h
      · cases h
      · obtain ⟨_, _, herror⟩ := bind_eq_ok_iff.mp h
        cases herror
    · cases h

/-- The switches of `convert` are those whose flags are among its arguments. -/
theorem mem_switches_addAll {arguments : List String} (h : r.addAll arguments = .ok r')
    (s : Switch) : s ∈ r'.switches ↔ s ∈ r.switches ∨ s.flag ∈ arguments := by
  induction arguments generalizing r with
  | nil => simp [switches_complete h]
  | cons argument rest ih =>
    rw [addAll] at h
    rw [List.mem_cons, Switch.flag_eq_iff, ← or_assoc]
    split at h
    · next hform =>
      obtain ⟨next, hnext, hrest⟩ := bind_eq_ok_iff.mp h
      rw [ih hrest, switches_addWord hnext]
      simp [hform]
    · next name value hform =>
      -- a long name: the only argument that can add a switch
      obtain ⟨next, hnext, hrest⟩ := bind_eq_ok_iff.mp h
      rw [ih hrest, mem_switches_addLong hnext]
      simp [hform, eq_comm]
    · next name more hform =>
      obtain ⟨next, hnext, hrest⟩ := bind_eq_ok_iff.mp h
      rw [ih hrest, switches_addShort hnext]
      simp [hform]
    · next hform =>
      split at h
      · next hrest =>
        simp [switches_complete h, hform, hrest]
      · cases h

end ConvertReading

/-- The switches of an invocation are those whose flags are among the arguments, before the
command or behind it. -/
theorem parseFrom_options {on : List Switch} {arguments : List String} {i : Invocation}
    (h : parseFrom on arguments = .ok i) :
    ∃ switches, i.options = .turnOnAll {} switches ∧
      ∀ s : Switch, s ∈ switches ↔ s ∈ on ∨ s.flag ∈ arguments := by
  induction arguments generalizing on with
  | nil =>
    obtain rfl := Except.ok.inj h
    exact ⟨on, rfl, by simp⟩
  | cons argument rest ih =>
    simp only [List.mem_cons, Switch.flag_eq_iff, ← or_assoc]
    unfold parseFrom at h
    split at h
    · next hform =>
      split at h
      · obtain ⟨r, hread, hrest⟩ := bind_eq_ok_iff.mp h
        split at hrest
        · cases hrest
        · obtain rfl := Except.ok.inj hrest
          -- behind the command its own reader goes on
          refine ⟨_, rfl, fun s => ?_⟩
          rw [List.mem_append, ConvertReading.mem_switches_addAll hread]
          simp [hform]
      · split at h
        · unfold parseHelp at h
          split at h <;> cases h
        · cases h
    · next name value hform =>
      split at h
      · next t ht =>
        obtain ⟨next, hnext, hrest⟩ := bind_eq_ok_iff.mp h
        obtain ⟨rfl, rfl⟩ := addSwitch_eq_ok hnext
        obtain rfl := Switch.ofLongName?_eq_some_iff.mp ht
        obtain ⟨switches, hoptions, hmem⟩ := ih hrest
        refine ⟨switches, hoptions, fun s => ?_⟩
        simp [hmem, hform, Switch.longName_inj, eq_comm]
      · split at h <;> cases h
    · cases h
    · next hform =>
      split at h
      · obtain rfl := Except.ok.inj h
        exact ⟨on, rfl, by simp [hform]⟩
      · cases h

/-- Flags alone are always accepted, in whatever order they come, if none comes twice. -/
theorem parseFrom_flags {on flags : List Switch} (h : (on ++ flags).Nodup) :
    parseFrom on (flags.map Switch.flag) =
      .ok { options := .turnOnAll {} (on ++ flags), command := .plugin } := by
  induction flags generalizing on with
  | nil => rw [List.append_nil, List.map_nil, parseFrom]
  | cons s flags ih =>
    have happend : on ++ s :: flags = on ++ [s] ++ flags := by simp
    have hfresh : s ∉ on := fun hs =>
      (List.nodup_append.mp h).2.2 s hs s List.mem_cons_self rfl
    have hadd : addSwitch s none on = .ok (on ++ [s]) := by simp [addSwitch, hfresh]
    rw [happend] at h
    rw [List.map_cons, happend, ← ih h, parseFrom.eq_def]
    simp only [Switch.flag_eq_iff.mp rfl, Switch.ofLongName?_eq_some_iff.mpr rfl, hadd]
    rfl

/-! ## The set of the switches that are asked for -/

/-- **Options are a set of switches**, however they are asked for. A parameter string turns on the
switches that are named in it, and leaves the others as they are; applying two strings is applying
them joined by a comma, in either order, and applying a string again changes nothing. After flags
and any number of parameter strings those switches are on that are among the flags or named in one
of the strings, and there is no policy exactly when nullable values and the end of unions are both
asked for. The flags of an invocation are those among its arguments, and any can be given, each
once. -/
theorem united_options (given : Options) (p q : String) (flags : List Switch)
    (parameters : List String) :
    (∀ s, (given.apply p).has s = true ↔ given.has s = true ∨ s.NamedIn p) ∧
    (given.apply p).apply q = given.apply (p ++ "," ++ q) ∧
    (given.apply p).apply q = (given.apply q).apply p ∧
    (given.apply p).apply p = given.apply p ∧
    (∀ s, (Options.united flags parameters).has s = true ↔ s.AskedFor flags parameters) ∧
    ((∃ c, (Options.united flags parameters).resolve = .error c) ↔
      Switch.allowNullValues.AskedFor flags parameters ∧
        Switch.disallowOneOf.AskedFor flags parameters) ∧
    (∀ arguments i, parseArguments arguments = .ok i →
      i.options = .united (Switch.all.filter (·.flag ∈ arguments)) []) ∧
    (flags.Nodup →
      parseArguments (flags.map Switch.flag) = .ok ⟨.united flags [], .plugin⟩) := by
  refine ⟨given.has_apply_iff p, given.apply_apply p q, given.apply_comm p q, given.apply_self p,
    Options.has_united_iff flags parameters, ?_, ?_, fun hflags => parseFrom_flags hflags⟩
  · rw [Options.resolve_fails_iff, Options.has_united_iff, Options.has_united_iff]
  · intro arguments i h
    obtain ⟨switches, hoptions, hmem⟩ := parseFrom_options h
    refine Options.ext_has fun s => Bool.eq_iff_iff.mpr ?_
    rw [hoptions, Options.united, List.foldl_nil, Options.has_turnOnAll_iff,
      Options.has_turnOnAll_iff, hmem]
    simp [s.mem_all]

/-! ### Two flags and a parameter string -/

namespace Terminal

/-- The arguments of a run: one flag before the command and one behind it. -/
def arguments : List String :=
  ["--debug", "convert", "-i", "shop.set", "--disallow-one-of"]

/-- A parameter string with blanks, an entry that names nothing, and empty entries. -/
def parameter : String := " no_such_switch,, allow_null_values\t,"

/-- The flags of the run are on, and together with the parameter string they are in conflict. -/
theorem united_options_terminal :
    (∀ i, parseArguments arguments = .ok i → i.options = .united [.disallowOneOf, .debug] []) ∧
    (∃ i, parseArguments arguments = .ok i) ∧
    parseArguments ["--disallow-one-of", "--debug"] =
      .ok ⟨.united [.disallowOneOf, .debug] [], .plugin⟩ ∧
    ∃ c, (Options.united [.disallowOneOf, .debug] [parameter]).resolve = .error c := by
  obtain ⟨-, -, -, -, -, hfails, harguments, hflags⟩ :=
    united_options {} parameter "" [.disallowOneOf, .debug] [parameter]
  refine ⟨fun i h => harguments arguments i h, ⟨_, rfl⟩, hflags (by decide), hfails.mpr ⟨?_, ?_⟩⟩
  · exact .inr ⟨parameter, List.mem_singleton_self _,
      (Switch.mem_parameterEntries_iff _ _).mp (by decide +kernel)⟩
  · exact .inl (by decide)

end Terminal

end ProtoSchema
