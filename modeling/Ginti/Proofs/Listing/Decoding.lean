import Ginti.Proofs.Lexer.Lexemes
import Ginti.Proofs.Lexer.Reports
import Ginti.Proofs.Listing
import Ginti.Proofs.Text.Splitting
import Ginti.Proofs.Text.Trim

namespace Ginti

namespace Listing

variable {first second : List String}

theorem toString_nat_injective : Function.Injective (toString : Nat → String) := by
  intro m n h
  have hvalue := congrArg (fun digits => Nat.ofDigitChars 10 digits.toList 0) h
  simpa using hvalue

theorem toString_natCast_ne_negSucc (m n : Nat) :
    toString (m : Int) ≠ toString (Int.negSucc n) := by
  intro h
  have hminus : '-' ∈ (toString m).toList := by
    change '-' ∈ (toString (m : Int)).toList
    rw [h, toList_toString_negSucc]
    exact List.mem_cons_self
  exact absurd (isDigit_of_mem_toString hminus) (by decide)

/-- A printed integer tells the integer. -/
theorem toString_int_injective : Function.Injective (toString : Int → String) := by
  intro m n h
  cases m with
  | ofNat m =>
    cases n with
    | ofNat n => exact congrArg Int.ofNat (toString_nat_injective h)
    | negSucc n => exact absurd h (toString_natCast_ne_negSucc m n)
  | negSucc m =>
    cases n with
    | ofNat n => exact absurd h.symm (toString_natCast_ne_negSucc n m)
    | negSucc n =>
      have hchars := congrArg String.toList h
      rw [toList_toString_negSucc, toList_toString_negSucc, List.cons.injEq, String.toList_inj]
        at hchars
      exact congrArg Int.negSucc (Nat.succ_inj.mp (toString_nat_injective hchars.2))

theorem toText_cons_ne_nil (line : String) (lines : List String) :
    (toText (line :: lines)).toList ≠ [] := by
  rw [toList_toText_cons]
  exact List.append_ne_nil_of_right_ne_nil _ (List.cons_ne_nil _ _)

/-- The lines of a listing are told apart by the line feeds behind them. -/
theorem eq_of_toText_eq (hfirst : ∀ line ∈ first, OneLine line)
    (hsecond : ∀ line ∈ second, OneLine line)
    (h : (toText first).toList = (toText second).toList) : first = second := by
  induction first generalizing second with
  | nil =>
    cases second with
    | nil => rfl
    | cons line second => exact absurd h.symm (toText_cons_ne_nil line second)
  | cons line first ih =>
    cases second with
    | nil => exact absurd h (toText_cons_ne_nil line first)
    | cons other second =>
      rw [toList_toText_cons, toList_toText_cons] at h
      obtain ⟨hline, hlines⟩ := Text.eq_of_first_delimiter (hfirst line List.mem_cons_self)
        (hsecond other List.mem_cons_self) h
      have htail := ih (fun l hl => hfirst l (List.mem_cons_of_mem line hl))
        (fun l hl => hsecond l (List.mem_cons_of_mem other hl)) hlines
      rw [String.toList_inj.mp hline, htail]

/-- The lines of a listing are told apart by the line feeds between them. -/
theorem eq_of_intercalate_eq (hfirst : ∀ line ∈ first, OneLine line)
    (hsecond : ∀ line ∈ second, OneLine line) (hne : first ≠ []) (hne' : second ≠ [])
    (h : String.intercalate "\n" first = String.intercalate "\n" second) : first = second := by
  have hsplit {lines : List String} (hlines : ∀ line ∈ lines, OneLine line) (hne : lines ≠ []) :
      (String.intercalate "\n" lines).toList.splitOn '\n' = lines.map String.toList := by
    have hchars : ∀ chars ∈ lines.map String.toList, '\n' ∉ chars := by
      intro chars hmem
      obtain ⟨line, hline, rfl⟩ := List.mem_map.mp hmem
      exact hlines line hline
    rw [String.toList_intercalate]
    exact List.splitOn_intercalate '\n' hchars (mt List.map_eq_nil_iff.mp hne)
  have hsame := congrArg (fun text => text.toList.splitOn '\n') h
  simp only [hsplit hfirst hne, hsplit hsecond hne'] at hsame
  exact List.map_injective_iff.mpr (fun _ _ => String.toList_inj.mp) hsame

theorem label_injective : Function.Injective Category.label := by
  intro first second h
  cases first <;> cases second <;> first | rfl | exact absurd h (by decide)

theorem comma_not_mem_label (category : Category) : ',' ∉ category.label.toList := by
  cases category <;> decide

/-- The fields of the line of a token. The category ends at the first comma, and the position begins
    at the last two equals signs. -/
theorem toList_token (t : Token) : (token t).toList =
    "Token[".toList ++ (t.category.label.toList ++ ',' :: (" '".toList ++
      (t.text.toList ++ "', line".toList ++ '=' ::
        ((toString t.position.line).toList ++ ", col".toList) ++ '=' ::
          ((toString t.position.column).toList ++ "]".toList)))) := by
  have hquote : ", '".toList = ',' :: " '".toList := rfl
  have hline : "', line=".toList = "', line".toList ++ ['='] := rfl
  have hcolumn : ", col=".toList = ", col".toList ++ ['='] := rfl
  unfold token
  simp only [String.toList_append, hquote, hline, hcolumn, List.append_assoc, List.cons_append,
    List.nil_append]

/-- The line of a token tells the token, whatever its text looks like. -/
theorem token_injective : Function.Injective token := by
  intro t u h
  have hequals (n : Int) {tail : List Char} (htail : '=' ∉ tail) :
      '=' ∉ (toString n).toList ++ tail := by
    rw [List.mem_append, not_or]
    exact ⟨not_mem_toString (by decide) (by decide) n, htail⟩
  have hchars := congrArg String.toList h
  rw [toList_token, toList_token] at hchars
  obtain ⟨hlabel, hfields⟩ := Text.eq_of_first_delimiter (comma_not_mem_label _)
    (comma_not_mem_label _) (List.append_cancel_left hchars)
  obtain ⟨hfields, hcolumn⟩ := Text.eq_of_last_delimiter (hequals _ (by decide))
    (hequals _ (by decide)) (List.append_cancel_left hfields)
  obtain ⟨htext, hline⟩ := Text.eq_of_last_delimiter (hequals _ (by decide))
    (hequals _ (by decide)) hfields
  have hlabel := label_injective (String.toList_inj.mp hlabel)
  have htext := String.toList_inj.mp (List.append_cancel_right htext)
  have hline := toString_int_injective (String.toList_inj.mp (List.append_cancel_right hline))
  have hcolumn := toString_int_injective (String.toList_inj.mp (List.append_cancel_right hcolumn))
  obtain ⟨category, text, ⟨line, column⟩⟩ := t
  obtain ⟨category', text', ⟨line', column'⟩⟩ := u
  simp only at hlabel htext hline hcolumn
  rw [hlabel, htext, hline, hcolumn]

/-- The text of a token may look like the rest of its line. -/
example : token ⟨.stringLiteral, "\"', line=1, col=1]\"", ⟨2, 3⟩⟩ =
    "Token[StringLiteral, '\"', line=1, col=1]\"', line=2, col=3]" := by decide

/-- A listing tells the tokens, whatever their texts look like: each is on a line between the header
    and the total. -/
theorem tokens_injective : Function.Injective tokens := by
  intro ts us h
  obtain ⟨hlines, -⟩ := List.append_inj' (List.cons.inj h).2 rfl
  exact List.map_injective_iff.mpr token_injective hlines

/-- Tokens without line feeds are listed on lines of their own. -/
theorem oneLine_of_mem_listed {ts : List Token} (hts : ∀ t ∈ ts, OneLine t.text) {line : String}
    (hline : line ∈ tokens ts) : OneLine line := by
  obtain rfl | hline := List.mem_cons.mp hline
  · decide
  · obtain hline | hline := List.mem_append.mp hline
    · obtain ⟨t, ht, rfl⟩ := List.mem_map.mp hline
      exact oneLine_token (hts t ht)
    · rw [List.mem_singleton.mp hline]
      exact oneLine_append.mpr ⟨by decide, oneLine_nat _⟩

end Listing

open Listing

namespace Diagnostic

theorem log_eq (ds : List Diagnostic) : log ds = toText (ds.map render) := by
  rw [log, toText, List.map_map]
  rfl

/-- The fields of the entry of a diagnostic. There is neither a comma nor a colon in a number, so
    both numbers can be found before the message starts. -/
theorem toList_render (d : Diagnostic) : d.render.toList =
    "Error at line ".toList ++ ((toString d.position.line).toList ++ ',' :: (" column ".toList ++
      ((toString d.position.column).toList ++ ':' :: (" ".toList ++ d.message.toList)))) := by
  have hcomma : ", column ".toList = ',' :: " column ".toList := rfl
  have hcolon : ": ".toList = ':' :: " ".toList := rfl
  unfold render
  simp only [String.toList_append, hcomma, hcolon, List.append_assoc, List.cons_append]

/-- The entry of a diagnostic tells the diagnostic. -/
theorem render_injective : Function.Injective render := by
  intro d e h
  have hcomma := not_mem_toString (c := ',') (by decide) (by decide)
  have hcolon := not_mem_toString (c := ':') (by decide) (by decide)
  have hchars := congrArg String.toList h
  rw [toList_render, toList_render] at hchars
  obtain ⟨hline, hrest⟩ := Text.eq_of_first_delimiter (hcomma _) (hcomma _)
    (List.append_cancel_left hchars)
  obtain ⟨hcolumn, hmessage⟩ := Text.eq_of_first_delimiter (hcolon _) (hcolon _)
    (List.append_cancel_left hrest)
  have hline := toString_int_injective (String.toList_inj.mp hline)
  have hcolumn := toString_int_injective (String.toList_inj.mp hcolumn)
  have hmessage := String.toList_inj.mp (List.append_cancel_left hmessage)
  obtain ⟨message, ⟨line, column⟩⟩ := d
  obtain ⟨message', ⟨line', column'⟩⟩ := e
  simp only at hline hcolumn hmessage
  rw [hline, hcolumn, hmessage]

theorem oneLine_render {d : Diagnostic} (h : OneLine d.message) : OneLine d.render := by
  unfold render
  simp only [oneLine_append, oneLine_int, h, and_true]
  decide

end Diagnostic

namespace Source

variable {file text : String}

/-- The text of a token from a text has no line feed, whatever kind of token it is. -/
theorem oneLine_of_mem_tokens {token : Token} (h : token ∈ (ofText file text).tokens) :
    OneLine token.text := by
  obtain ⟨line, hline, hslice⟩ := exists_line_of_mem_tokens h
  obtain ⟨raw, hraw, rfl⟩ := List.mem_map.mp hline
  obtain ⟨chars, hchars, rfl⟩ := List.mem_map.mp hraw
  rw [String.toList_ofList] at hslice
  intro hmem
  exact (Text.unbroken_of_mem_lines hchars).not_mem_newline
    (Text.mem_of_mem_trim (hslice.subset hmem))

/-- A message about a text has no line feed: all that it may quote is an unknown token. -/
theorem oneLine_of_mem_diagnostics {d : Diagnostic} (h : d ∈ (ofText file text).diagnostics) :
    OneLine d.message := by
  obtain ⟨placed, hplaced⟩ := (ofText file text).exists_laidOut
  obtain ⟨token, htoken, -, rfl⟩ | ⟨n, col, -, hquote⟩ := hplaced.reported_iff.mp h
  · exact oneLine_append.mpr ⟨by decide, oneLine_of_mem_tokens htoken⟩
  · obtain hmessage | hmessage := hquote.isLiteralReport
    · rw [hmessage]
      decide
    · rw [hmessage]
      decide

end Source

/-- What is printed about tokens and about texts tells the tokens and the diagnostics. -/
structure Listing.Determines : Prop where
  tokens : ∀ ts us : List Token, Listing.tokens ts = Listing.tokens us ↔ ts = us
  /-- The lines of the tokens of a text may also be joined. -/
  joined : ∀ file text file' text' : String,
    String.intercalate "\n" (Listing.tokens (Source.ofText file text).tokens) =
      String.intercalate "\n" (Listing.tokens (Source.ofText file' text').tokens) ↔
    (Source.ofText file text).tokens = (Source.ofText file' text').tokens
  log : ∀ file text file' text' : String,
    Diagnostic.log (Source.ofText file text).diagnostics =
      Diagnostic.log (Source.ofText file' text').diagnostics ↔
    (Source.ofText file text).diagnostics = (Source.ofText file' text').diagnostics

/-- Nothing is lost in print. -/
theorem Listing.prints_decodably : Determines := by
  constructor
  case tokens => exact fun ts us => tokens_injective.eq_iff
  case joined =>
    intro file text file' text'
    have hlines (file text : String) :
        ∀ line ∈ Listing.tokens (Source.ofText file text).tokens, OneLine line :=
      fun _ => oneLine_of_mem_listed fun _ => Source.oneLine_of_mem_tokens
    have hne (ts : List Token) : Listing.tokens ts ≠ [] := List.cons_ne_nil _ _
    constructor
    · intro h
      exact tokens_injective
        (eq_of_intercalate_eq (hlines file text) (hlines file' text') (hne _) (hne _) h)
    · intro h
      rw [h]
  case log =>
    intro file text file' text'
    have hlines (file text : String) :
        ∀ line ∈ (Source.ofText file text).diagnostics.map Diagnostic.render, OneLine line := by
      intro line hline
      obtain ⟨d, hd, rfl⟩ := List.mem_map.mp hline
      exact Diagnostic.oneLine_render (Source.oneLine_of_mem_diagnostics hd)
    constructor
    · intro h
      rw [Diagnostic.log_eq, Diagnostic.log_eq] at h
      have hrendered := eq_of_toText_eq (hlines file text) (hlines file' text')
        (congrArg String.toList h)
      exact List.map_injective_iff.mpr Diagnostic.render_injective hrendered
    · intro h
      rw [h]

end Ginti
