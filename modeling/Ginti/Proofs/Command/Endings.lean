import Ginti.Proofs.Command.Input
import Ginti.Proofs.Command.Report
import Ginti.Proofs.Lexer.Progress
import Ginti.Proofs.Lexer.Reports

namespace Ginti

namespace Command

/-- A flag has taken effect in some settings. -/
def Settings.sets (s : Settings) : Flag → Bool
  | .regex => s.regex
  | .trace => s.trace
  | .noTokens => !s.tokens
  | .noSymbols => !s.symbols
  | .nestedScopes => s.nestedScopes
  | .context => s.context
  | .strict => s.strict

/-- The flags that have taken effect. -/
def Settings.flags (s : Settings) : List Flag :=
  [.regex, .trace, .noTokens, .noSymbols, .nestedScopes, .context, .strict].filter s.sets

/-- A run on a text under some settings that lists all there is. Nothing failed while the text was
    lexed, there is nothing to report but what the lexer reports, and all of it can be drawn. -/
structure Completes (s : Settings) (text : String) (outcome : Outcome) : Prop
    extends Lists s.flags s.input text outcome where
  lexed : ∀ e, .failure e ∉ (Source.ofText s.input text).events
  reported : allDiagnostics s.nestedScopes (.ofText s.input text) =
    (Source.ofText s.input text).diagnostics
  drawn : (∀ line ∈ (Source.ofText s.input text).lines, (line.length : Int) ≤ caretLimit) →
    ∀ d ∈ (Source.ofText s.input text).diagnostics,
      d.tryRenderIn (.ofText s.input text) = .ok (d.renderIn (.ofText s.input text))

variable {openFile : String → Except OpenError (List UInt8)} {arguments : List String}
  {settings : Settings} {text : String} {outcome : Outcome}

/-- A text that is empty or starts with a dash. -/
def StartsDashed (text : String) : Prop :=
  ∀ c ∈ text.toList.head?, c = '-'

theorem StartsDashed.append {first second : String} (hfirst : StartsDashed first)
    (hsecond : StartsDashed second) : StartsDashed (first ++ second) := by
  intro c hc
  rw [String.toList_append] at hc
  cases hempty : first.toList with
  | nil =>
    rw [hempty] at hc
    exact hsecond c hc
  | cons d rest =>
    rw [hempty] at hc
    exact hfirst c (by rw [hempty]; exact hc)

end Command
end Ginti
