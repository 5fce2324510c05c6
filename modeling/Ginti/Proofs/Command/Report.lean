import Ginti.Command.Directory
import Ginti.Command.Run
import Ginti.Proofs.Command.Arguments
import Ginti.Proofs.Lexer.Lines
import Ginti.Proofs.Listing
import Ginti.Proofs.Symbol.Lexed
import Ginti.Proofs.Text.Utf8

namespace Ginti.Command

/-- A name under which a file can be opened, and the bytes in it. No such name has a NUL. -/
structure Holds (openFile : String → Except OpenError (List UInt8)) (file : String)
    (bytes : List UInt8) : Prop where
  name : '\x00' ∉ file.toList
  opens : openFile file = .ok bytes

namespace Holds

variable {openFile : String → Except OpenError (List UInt8)} {file : String} {bytes : List UInt8}

theorem not_contains (h : Holds openFile file bytes) :
    ¬ file.toList.contains '\x00' = true := by
  simpa using h.name

/-- A file with the encoding of a text is the source with this text. -/
theorem readSource_of_text {text : String} (h : Holds openFile file text.toUTF8.data.toList) :
    readSource openFile file = .ok (.ofText file text) := by
  have hdecode : Text.Utf8.decode text.toUTF8.data.toList = .ok text.toList :=
    Text.Utf8.decode_eq_ok_iff.mpr (Text.Utf8.data_toUTF8 text)
  simp only [readSource, if_neg h.not_contains, h.opens, hdecode, String.ofList_toList]

/-- A file with anything else cannot be read. -/
theorem exists_readSource_eq_error (h : Holds openFile file bytes)
    (hbytes : ∀ text : String, bytes ≠ text.toUTF8.data.toList) :
    ∃ e, Text.Utf8.decode bytes = .error e ∧
      readSource openFile file = .error (.undecodable e) := by
  cases hdecode : Text.Utf8.decode bytes with
  | error e => exact ⟨e, rfl, by simp only [readSource, if_neg h.not_contains, h.opens, hdecode]⟩
  | ok text =>
    refine absurd ?_ (hbytes (String.ofList text))
    rw [Text.Utf8.data_toUTF8, String.toList_ofList, ← Text.Utf8.decode_eq_ok_iff, hdecode]

end Holds

/-- The tokens of a text do not depend on the file it is in. -/
theorem tokens_ofText (file text : String) :
    (Source.ofText file text).tokens = (Source.ofText Source.anonymous text).tokens :=
  (Source.outputs_eq_of_trimmed rfl).1

/-- The listing of a text in a file under some flags. Sections come in a fixed order, and each is
    there or not by one flag alone. -/
structure Lists (flags : List Flag) (file text : String) (outcome : Outcome) : Prop where
  stdout : outcome.stdout =
    (if .regex ∈ flags then Listing.toText Listing.patterns else "") ++
    (if .noTokens ∉ flags then
      Listing.toText (Listing.tokens (Source.ofText Source.anonymous text).tokens) else "") ++
    (if .trace ∈ flags then
      Listing.toText (Listing.trace (Source.ofText Source.anonymous text).tokens) else "") ++
    (if .noSymbols ∉ flags then
      Listing.toText (Listing.symbols (.ofTokens (decide (.nestedScopes ∈ flags))
        (Source.ofText Source.anonymous text).tokens)) else "")
  stderr : outcome.stderr = Listing.toText ((Source.ofText file text).diagnostics.map fun d =>
    if .context ∈ flags then d.renderIn (Source.ofText file text) else d.render)
  ending : outcome.ending =
    .exit (if .strict ∈ flags ∧ (Source.ofText file text).diagnostics ≠ [] then 1 else 0)

/-- Each section, the error stream and the exit status answer to their own flags. -/
theorem lists_report (flags : List Flag) (file text : String) :
    Lists flags file text ((Settings.asked file flags).report (.ofText file text)) := by
  have hall (nested : Bool) : allDiagnostics nested (.ofText file text) =
      (Source.ofText file text).diagnostics := by
    rw [allDiagnostics, Source.diagnosticsOf_tokens, List.append_nil]
  constructor
  case stdout =>
    simp only [Settings.report, sections, Settings.asked, Listing.toText_append,
      Listing.toText_ite, decide_eq_true_eq, tokens_ofText file text]
  case stderr =>
    simp only [Settings.report, errorLines, Settings.asked, hall, decide_eq_true_eq]
  case ending =>
    simp [Settings.report, Settings.asked, hall]

/-- Reading the arguments does not fail, and what is listed depends on them only by the settings. -/
theorem CommandLine.list_eq (l : CommandLine)
    (openFile : String → Except OpenError (List UInt8)) : list openFile l.arguments =
      (Settings.asked l.file l.flags).finish (readSource openFile l.file) := by
  rw [list, l.ofArguments_arguments]
  rfl

/-- What the listing command writes and how it ends depends, part by part, on the text of the file
    and on which flags are set: the flags do not interfere with each other. -/
theorem CommandLine.lists_by_flags (l : CommandLine)
    {openFile : String → Except OpenError (List UInt8)} {text : String}
    (h : Holds openFile l.file text.toUTF8.data.toList) :
    Lists l.flags l.file text (list openFile l.arguments) := by
  rw [l.list_eq, h.readSource_of_text]
  exact lists_report l.flags l.file text

/-- Flags on both sides of the file, one of them twice, in full and abbreviated. -/
private def strictly : CommandLine where
  before := [⟨.strict, "--st", by decide⟩]
  file := "a.gt"
  after := [⟨.noTokens, "--no-t", by decide⟩, ⟨.strict, "--strict", by decide⟩]
  undashed := by decide

/-- The same flag twice in two spellings counts once. -/
theorem strictly_lists_by_flags :
    Holds (Directory.ofPaths [("a.gt", .file "Ginti x;".toUTF8.data.toList)]).read "a.gt"
      "Ginti x;".toUTF8.data.toList ∧
    Lists [.strict, .noTokens, .strict] "a.gt" "Ginti x;"
      (list (Directory.ofPaths [("a.gt", .file "Ginti x;".toUTF8.data.toList)]).read
        ["--st", "a.gt", "--no-t", "--strict"]) := by
  have h : Holds (Directory.ofPaths [("a.gt", .file "Ginti x;".toUTF8.data.toList)]).read "a.gt"
      "Ginti x;".toUTF8.data.toList := ⟨by decide, by decide⟩
  exact ⟨h, strictly.lists_by_flags h⟩

end Ginti.Command
