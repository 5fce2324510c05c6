import Mathlib.Data.List.TakeWhile
import Ginti.Command.Settings

namespace Ginti.Command

/-- An argument spells a flag if it is a beginning of its full spelling but of no other option's.
    The full spelling itself is one of these. -/
structure Spells (argument : String) (flag : Flag) : Prop where
  front : argument.toList <+: (Switch.flag flag).long.toList
  only : ∀ switch : Switch, argument.toList <+: switch.long.toList → switch = .flag flag

namespace Switch

theorem mem_all (switch : Switch) : switch ∈ all := by
  cases switch with
  | help => decide
  | flag flag => cases flag <;> decide

theorem dashes_prefix_long (switch : Switch) : ['-', '-'] <+: switch.long.toList := by
  have hall : ∀ switch ∈ all, ['-', '-'] <+: switch.long.toList := by decide
  exact hall switch switch.mem_all

theorem not_mem_long (switch : Switch) : '=' ∉ switch.long.toList := by
  have hall : ∀ switch ∈ all, '=' ∉ switch.long.toList := by decide
  exact hall switch switch.mem_all

/-- No full spelling begins another one. -/
theorem eq_of_long_prefix {s t : Switch} (h : s.long.toList <+: t.long.toList) : t = s := by
  have hall : ∀ s ∈ all, ∀ t ∈ all, s.long.toList <+: t.long.toList → t = s := by decide
  exact hall s s.mem_all t t.mem_all h

end Switch

instance (argument : String) (flag : Flag) : Decidable (Spells argument flag) :=
  decidable_of_iff (argument.toList <+: (Switch.flag flag).long.toList ∧
      ∀ switch ∈ Switch.all, argument.toList <+: switch.long.toList → switch = .flag flag)
    ⟨fun h => ⟨h.1, fun switch => h.2 switch switch.mem_all⟩, fun h => ⟨h.1, fun s _ => h.2 s⟩⟩

theorem spells_long (flag : Flag) : Spells (Switch.flag flag).long flag :=
  ⟨List.prefix_rfl, fun _ => Switch.eq_of_long_prefix⟩

namespace Spells

variable {argument : String} {flag : Flag}

theorem not_prefix_help (h : Spells argument flag) :
    ¬ argument.toList <+: Switch.help.long.toList := by
  intro hhelp
  cases h.only .help hhelp

/-- Two dashes alone could also begin the request for help. -/
theorem ne_dashes (h : Spells argument flag) : argument ≠ "--" := by
  rintro rfl
  exact h.not_prefix_help (by decide)

theorem exists_letters (h : Spells argument flag) :
    ∃ letters, argument.toList = '-' :: '-' :: letters := by
  have hdashes := Switch.dashes_prefix_long (.flag flag)
  obtain hshort | hlong := List.prefix_or_prefix_of_prefix h.front hdashes
  · exact absurd (hshort.trans (Switch.dashes_prefix_long .help)) h.not_prefix_help
  · obtain ⟨letters, hletters⟩ := hlong
    exact ⟨letters, hletters.symm⟩

theorem not_mem (h : Spells argument flag) : '=' ∉ argument.toList :=
  fun hmem => Switch.not_mem_long _ (h.front.subset hmem)

/-- An option that is spelled like this in full can only be the flag itself. -/
theorem eq_of_ofSpelling? (h : Spells argument flag) (switch : Switch)
    (hfound : Switch.ofSpelling? argument.toList = some switch) : switch = .flag flag := by
  obtain ⟨letters, htext⟩ := h.exists_letters
  rw [Switch.ofSpelling?, if_neg (by simp [htext])] at hfound
  have hspelled : switch.long.toList = argument.toList := by simpa using List.find?_some hfound
  exact h.only switch (hspelled ▸ List.prefix_rfl)

/-- The spelling of a flag abbreviates no other option. -/
theorem abbreviatedBy_eq (h : Spells argument flag) :
    Switch.abbreviatedBy argument.toList = [.flag flag] := by
  have hiff (switch : Switch) : argument.toList <+: switch.long.toList ↔ switch = .flag flag :=
    ⟨h.only switch, fun heq => heq ▸ h.front⟩
  calc Switch.abbreviatedBy argument.toList
      = Switch.all.filter fun switch => decide (switch = .flag flag) := by
        refine List.filter_congr fun switch _ => ?_
        rw [Bool.eq_iff_iff, List.isPrefixOf_iff_prefix, decide_eq_true_iff]
        exact hiff switch
    _ = [.flag flag] := by cases flag <;> rfl

end Spells

theorem splitValue_of_not_mem {text : List Char} (h : '=' ∉ text) :
    splitValue text = (text, none) := by
  have hnone : text.dropWhile (· ≠ '=') = [] :=
    List.dropWhile_eq_nil_iff.mpr fun c hc => decide_eq_true (ne_of_mem_of_not_mem hc h)
  rw [splitValue, hnone]

/-- What spells a flag reads as this flag, without a value. -/
theorem Word.read_of_spells {argument : String} {flag : Flag} (h : Spells argument flag) :
    Word.read argument = .ok (.switch (.flag flag) none) := by
  obtain ⟨letters, htext⟩ := h.exists_letters
  have hsplit := splitValue_of_not_mem h.not_mem
  have hexact := h.eq_of_ofSpelling?
  have hfront := h.abbreviatedBy_eq
  rw [htext] at hsplit hexact hfront
  rw [read, htext]
  simp only [hsplit]
  cases hfound : Switch.ofSpelling? ('-' :: '-' :: letters) with
  | some switch => rw [hexact switch hfound]
  | none =>
    rw [hfront]
    rfl

/-- What does not start with a dash reads as an operand. -/
theorem Word.read_of_operand {argument : String} (h : argument.toList.head? ≠ some '-') :
    Word.read argument = .ok (.operand argument) := by
  rw [read]
  split
  · next hdash => exact absurd (by rw [hdash]; rfl) h
  · rfl

/-- The settings with an input and some flags. -/
def Settings.asked (input : String) (flags : List Flag) : Settings where
  input := input
  regex := decide (.regex ∈ flags)
  trace := decide (.trace ∈ flags)
  tokens := decide (.noTokens ∉ flags)
  symbols := decide (.noSymbols ∉ flags)
  nestedScopes := decide (.nestedScopes ∈ flags)
  context := decide (.context ∈ flags)
  strict := decide (.strict ∈ flags)

/-- Setting one flag more is the same as having asked for it as well. -/
theorem Settings.apply_asked (input : String) (flags : List Flag) (flag : Flag) :
    (asked input flags).apply flag = asked input (flags ++ [flag]) := by
  cases flag <;> simp [asked, apply]

/-- An argument that sets a flag. -/
structure Request where
  flag : Flag
  argument : String
  spells : Spells argument flag

/-- What the request reads as. -/
def Request.word (request : Request) : Word :=
  .switch (.flag request.flag) none

/-- The state of a reading that has met some flags and perhaps a file name, and nothing else. -/
structure Reading.Knows (r : Reading) (input : String) (flags : List Flag) (named : Bool) :
    Prop where
  settings : r.settings = .asked input flags
  named : r.named = named
  surplus : r.surplus = []

namespace Reading.Knows

variable {r : Reading} {input : String} {flags : List Flag} {named : Bool}

theorem initial : Knows .initial Settings.initial.input [] false :=
  ⟨rfl, rfl, rfl⟩

theorem take_flag (h : r.Knows input flags named) (flag : Flag) :
    ∃ next, r.take (.switch (.flag flag) none) = .ok next ∧
      next.Knows input (flags ++ [flag]) named := by
  refine ⟨_, rfl, ⟨?_, h.named, h.surplus⟩⟩
  rw [h.settings]
  exact Settings.apply_asked input flags flag

theorem take_operand (h : r.Knows input flags false) (file : String) :
    ∃ next, r.take (.operand file) = .ok next ∧ next.Knows file flags true := by
  refine ⟨r.nameInput file, ?_, ⟨?_, rfl, h.surplus⟩⟩
  · rw [Reading.take, h.named]
    rfl
  · rw [Reading.nameInput, h.settings]
    rfl

/-- Words for flags add all their flags. -/
theorem take_flags (h : r.Knows input flags named) (requests : List Request) :
    ∃ next, (requests.map (·.word)).foldlM Reading.take r = .ok next ∧
      next.Knows input (flags ++ requests.map (·.flag)) named := by
  induction requests generalizing r flags with
  | nil => exact ⟨r, rfl, by rwa [List.map_nil, List.append_nil]⟩
  | cons request requests ih =>
    obtain ⟨next, htake, hnext⟩ := h.take_flag request.flag
    obtain ⟨last, hlater, hlast⟩ := ih hnext
    refine ⟨last, ?_, by rwa [List.append_assoc] at hlast⟩
    rw [List.map_cons, List.foldlM_cons, Request.word, htake]
    exact hlater

/-- A reading that has found a use for all words settles what has been asked for. -/
theorem finish (h : r.Knows input flags named) : r.finish = .ok (.asked input flags) := by
  rw [Reading.finish, h.surplus, h.settings]
  rfl

end Reading.Knows

theorem mapM_read_requests (requests : List Request) :
    (requests.map (·.argument)).mapM Word.read = .ok (requests.map (·.word)) := by
  induction requests with
  | nil => rfl
  | cons request requests ih =>
    rw [List.map_cons, List.mapM_cons, Word.read_of_spells request.spells, ih]
    rfl

/-- A command line that names one file, with any flags before and after it. -/
structure CommandLine where
  before : List Request
  file : String
  after : List Request
  undashed : file.toList.head? ≠ some '-'

namespace CommandLine

/-- The command line as it is typed. -/
def arguments (l : CommandLine) : List String :=
  l.before.map (·.argument) ++ l.file :: l.after.map (·.argument)

/-- The words that the command line reads as. -/
def words (l : CommandLine) : List Word :=
  l.before.map (·.word) ++ .operand l.file :: l.after.map (·.word)

/-- The flags that are set, as often and in the order as they are typed. -/
def flags (l : CommandLine) : List Flag :=
  l.before.map (·.flag) ++ l.after.map (·.flag)

variable (l : CommandLine)

theorem mapM_read : l.arguments.mapM Word.read = .ok l.words := by
  rw [arguments, List.mapM_append, mapM_read_requests, List.mapM_cons,
    Word.read_of_operand l.undashed, mapM_read_requests]
  rfl

theorem ne_dashes_of_mem {argument : String} (h : argument ∈ l.arguments) :
    argument ≠ "--" := by
  obtain hbefore | hlater := List.mem_append.mp h
  · obtain ⟨request, -, rfl⟩ := List.mem_map.mp hbefore
    exact request.spells.ne_dashes
  obtain rfl | hafter := List.mem_cons.mp hlater
  · rintro hfile
    exact l.undashed (by rw [hfile]; rfl)
  · obtain ⟨request, -, rfl⟩ := List.mem_map.mp hafter
    exact request.spells.ne_dashes

/-- The words name the file and set the flags, and are all of use. -/
theorem foldlM_take : ∃ r, l.words.foldlM Reading.take .initial = .ok r ∧
    r.Knows l.file l.flags true := by
  obtain ⟨first, hbefore, hfirst⟩ := Reading.Knows.initial.take_flags l.before
  obtain ⟨second, hfile, hsecond⟩ := hfirst.take_operand l.file
  obtain ⟨third, hafter, hthird⟩ := hsecond.take_flags l.after
  refine ⟨third, ?_, hthird⟩
  calc l.words.foldlM Reading.take .initial
      = (Word.operand l.file :: l.after.map (·.word)).foldlM Reading.take first := by
        rw [words, List.foldlM_append, hbefore]
        rfl
    _ = (l.after.map (·.word)).foldlM Reading.take second := by
        rw [List.foldlM_cons, hfile]
        rfl
    _ = .ok third := hafter

/-- The settings depend on the file name and on which flags are set. -/
theorem ofArguments_arguments :
    Settings.ofArguments l.arguments = .ok (.asked l.file l.flags) := by
  obtain ⟨r, htake, hr⟩ := l.foldlM_take
  have hplain : ∀ argument ∈ l.arguments, decide (argument ≠ "--") = true :=
    fun _ h => decide_eq_true (l.ne_dashes_of_mem h)
  have hwords : readWords l.arguments = .ok l.words := by
    rw [readWords, l.mapM_read]
    rfl
  rw [Settings.ofArguments, List.takeWhile_eq_self_iff.mpr hplain,
    List.dropWhile_eq_nil_iff.mpr hplain, hwords]
  change (l.words.foldlM Reading.take .initial >>= fun r => r.finish) = _
  rw [htake]
  exact hr.finish

end CommandLine

end Ginti.Command
