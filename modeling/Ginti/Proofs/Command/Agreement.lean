import Ginti.Proofs.Command.Report
import Ginti.Proofs.Listing.Decoding

namespace Ginti

open Listing

namespace Command

variable {openFile : String → Except OpenError (List UInt8)} {file : String} {bytes : List UInt8}

/-- How the outcomes of the token command, of the listing command without symbols and of the plain
    listing command go together for a text in a file. -/
structure Agree (file text : String) (dumped listed full : Outcome) : Prop where
  /-- The first line is a header and the last one the total. -/
  stdout : dumped.stdout.toList = dropLastLine (dropFirstLine listed.stdout.toList)
  total : listed.stdout = "---- Token List ----\n" ++ dumped.stdout ++ "Total tokens: " ++
    toString (dumped.stdout.toList.count '\n') ++ "\n"
  oneLine : ∀ token ∈ (Source.ofText file text).tokens, OneLine token.text
  stderr : dumped.stderr = full.stderr
  endings : dumped.ending = .exit 0 ∧ listed.ending = .exit 0 ∧ full.ending = .exit 0

theorem list_alone (hundashed : file.toList.head? ≠ some '-') : list openFile [file] =
    (Settings.asked file []).finish (readSource openFile file) :=
  CommandLine.list_eq ⟨[], file, [], hundashed⟩ openFile

theorem list_noSymbols (hundashed : file.toList.head? ≠ some '-') :
    list openFile ["--no-symbols", file] =
      (Settings.asked file [.noSymbols]).finish (readSource openFile file) :=
  CommandLine.list_eq ⟨[⟨.noSymbols, _, spells_long .noSymbols⟩], file, [], hundashed⟩ openFile

/-- The listing without symbols is the dump between two lines. -/
theorem stdout_noSymbols (file text : String) :
    ((Settings.asked file [.noSymbols]).report (.ofText file text)).stdout =
      toText ("---- Token List ----" :: (Source.ofText file text).tokens.map token ++
        ["Total tokens: " ++ toString (Source.ofText file text).tokens.length]) := by
  have hlists := lists_report [.noSymbols] file text
  simpa [tokens_ofText file text, tokens] using hlists.stdout

/-- On one text the token command prints what stands between the header and the total of the
    listing, and reports the same. -/
theorem agree_of_text (file text : String) :
    Agree file text (dumpSource (.ofText file text))
      ((Settings.asked file [.noSymbols]).report (.ofText file text))
      ((Settings.asked file []).report (.ofText file text)) := by
  have hlines : ∀ line ∈ (Source.ofText file text).tokens.map token, OneLine line := by
    intro line hline
    obtain ⟨t, ht, rfl⟩ := List.mem_map.mp hline
    exact oneLine_token (Source.oneLine_of_mem_tokens ht)
  constructor
  case stdout =>
    rw [stdout_noSymbols, List.cons_append, dropFirstLine_toText (by decide), dropLastLine_toText]
    · rfl
    · exact oneLine_append.mpr ⟨by decide, oneLine_nat _⟩
  case total =>
    have hcount : (dumpSource (.ofText file text)).stdout.toList.count '\n' =
        (Source.ofText file text).tokens.length := by
      rw [dumpSource, count_toText hlines, List.length_map]
    rw [hcount, stdout_noSymbols, List.cons_append, toText_cons, toText_append, dumpSource]
    simp [toText, String.append_assoc]
  case oneLine => exact fun token => Source.oneLine_of_mem_tokens
  case stderr =>
    rw [dumpSource, Diagnostic.log_eq, (lists_report [] file text).stderr]
    simp
  case endings =>
    refine ⟨rfl, ?_, ?_⟩
    · simpa using (lists_report [.noSymbols] file text).ending
    · simpa using (lists_report [] file text).ending

/-- Both commands print the same tokens and the same errors of a file. A file that is no text stops
    both with the same error, before anything is written. -/
theorem commands_agree (h : Holds openFile file bytes)
    (hundashed : file.toList.head? ≠ some '-') :
    (∀ text : String, bytes = text.toUTF8.data.toList →
      Agree file text (dump openFile [file]) (list openFile ["--no-symbols", file])
        (list openFile [file])) ∧
    ((∀ text : String, bytes ≠ text.toUTF8.data.toList) →
      ∃ e, Text.Utf8.decode bytes = .error e ∧
        dump openFile [file] = ⟨"", "", .broken (.undecodable e)⟩ ∧
        list openFile ["--no-symbols", file] = ⟨"", "", .broken (.undecodable e)⟩ ∧
        list openFile [file] = ⟨"", "", .broken (.undecodable e)⟩) := by
  rw [list_alone hundashed, list_noSymbols hundashed, dump]
  constructor
  · rintro text rfl
    rw [h.readSource_of_text]
    exact agree_of_text file text
  · intro hbytes
    obtain ⟨e, hdecode, hread⟩ := h.exists_readSource_eq_error hbytes
    rw [hread]
    exact ⟨e, hdecode, rfl, rfl, rfl⟩

/-- A file that is a text, and one that is none. -/
private def folder : Directory :=
  .ofPaths [("a.gt", .file "Ginti x;".toUTF8.data.toList), ("b.gt", .file [0x78, 0xff])]

/-- A listing without symbols, with them, and the same answer to bytes that no text has. -/
theorem folder_commands_agree :
    Agree "a.gt" "Ginti x;" (dump folder.read ["a.gt"]) (list folder.read ["--no-symbols", "a.gt"])
      (list folder.read ["a.gt"]) ∧
    dump folder.read ["b.gt"] =
      ⟨"", "", .broken (.undecodable ⟨.invalidStart, 1, [0xff]⟩)⟩ ∧
    list folder.read ["b.gt"] = dump folder.read ["b.gt"] := by
  have hfirst : Holds folder.read "a.gt" "Ginti x;".toUTF8.data.toList := ⟨by decide, by decide⟩
  have hsecond : Holds folder.read "b.gt" [0x78, 0xff] := ⟨by decide, by decide⟩
  have hdecode : Text.Utf8.decode [0x78, 0xff] = .error ⟨.invalidStart, 1, [0xff]⟩ := rfl
  have hbytes (text : String) : [0x78, 0xff] ≠ text.toUTF8.data.toList := by
    intro htext
    rw [Text.Utf8.data_toUTF8, ← Text.Utf8.decode_eq_ok_iff, hdecode] at htext
    cases htext
  refine ⟨(commands_agree hfirst (by decide)).1 _ rfl, ?_⟩
  obtain ⟨e, he, hdump, -, hlist⟩ := (commands_agree hsecond (by decide)).2 hbytes
  cases hdecode.symm.trans he
  exact ⟨hdump, hlist.trans hdump.symm⟩

end Command
end Ginti
