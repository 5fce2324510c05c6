import Ginti.Lexer.Event
import Ginti.Proofs.Grammar.Decision

namespace Ginti.Grammar

/-- What a line falls into. -/
inductive Piece where
  | blank (char : Char)
  | lexeme (category : Category) (text : List Char)
  | unknown (char : Char)
  /-- The rest of a line that is given up because of a broken literal. -/
  | dropped (fault : Fault) (text : List Char)
  deriving DecidableEq, Repr

namespace Piece

def text : Piece → List Char
  | blank char => [char]
  | lexeme _ text => text
  | unknown char => [char]
  | dropped _ text => text

/-- The events that a piece at a spot stands for. A blank stands for none. -/
def events (spot : Spot) : Piece → List Event
  | blank _ => []
  | lexeme category text => [.token ⟨category, String.ofList text, spot.position⟩]
  | unknown char =>
    [.problem ⟨.unrecognized (String.ofList [char]), spot.position⟩,
      .token ⟨.unknown, String.ofList [char], spot.position⟩]
  | dropped fault _ => [.problem ⟨fault, spot.position⟩]

end Piece

def textOf (pieces : List Piece) : List Char :=
  pieces.flatMap Piece.text

/-- The pieces of a line from a column on, each with the spot where it starts. -/
def placeLine (line col : Nat) : List Piece → List (Spot × Piece)
  | [] => []
  | piece :: pieces => (⟨line, col⟩, piece) :: placeLine line (col + piece.text.length) pieces

/-- The pieces of divided lines, the first of which has the given number. -/
def placeAll (line : Nat) : List (List Piece) → List (Spot × Piece)
  | [] => []
  | pieces :: divisions => placeLine line 0 pieces ++ placeAll (line + 1) divisions

def eventsOf (placed : List (Spot × Piece)) : List Event :=
  placed.flatMap fun (spot, piece) => piece.events spot

/-- The text falls into the pieces. Blanks are skipped up to the next character that is none,
    and there the first applicable rule decides: for a lexeme, after which the division goes on,
    or for a fault, which takes the rest of the text. If no rule applies, the one character is a
    piece of its own. -/
inductive Divides : List Char → List Piece → Prop where
  | done : Divides [] []
  | blank {c : Char} {text : List Char} {pieces : List Piece} (hblank : Text.isBlank c = true)
      (tail : Divides text pieces) : Divides (c :: text) (.blank c :: pieces)
  | lexeme {text lexeme rest : List Char} {category : Category} {pieces : List Piece}
      (hstart : ∀ c ∈ text.head?, Text.isBlank c = false)
      (hbegins : Begins text (.accept category lexeme)) (htext : text = lexeme ++ rest)
      (tail : Divides rest pieces) : Divides text (.lexeme category lexeme :: pieces)
  | unknown {c : Char} {text : List Char} {pieces : List Piece}
      (hstart : Text.isBlank c = false) (hbegins : Begins (c :: text) .pass)
      (tail : Divides text pieces) : Divides (c :: text) (.unknown c :: pieces)
  | dropped {text : List Char} {fault : Fault}
      (hstart : ∀ c ∈ text.head?, Text.isBlank c = false)
      (hbegins : Begins text (.reject fault)) : Divides text [.dropped fault text]

@[simp]
theorem textOf_nil : textOf [] = [] := rfl

@[simp]
theorem textOf_cons (piece : Piece) (pieces : List Piece) :
    textOf (piece :: pieces) = piece.text ++ textOf pieces := rfl

@[simp]
theorem eventsOf_append (first second : List (Spot × Piece)) :
    eventsOf (first ++ second) = eventsOf first ++ eventsOf second :=
  List.flatMap_append

/-- A division loses nothing and adds nothing. -/
theorem Divides.textOf_eq {text : List Char} {pieces : List Piece} (h : Divides text pieces) :
    textOf pieces = text := by
  induction h with
  | done => rfl
  | blank _ _ ih => simp [Piece.text, ih]
  | lexeme _ _ htext _ ih => simp [Piece.text, ih, htext]
  | unknown _ _ _ ih => simp [Piece.text, ih]
  | dropped => simp [Piece.text]

/-- What follows the first pieces of a division is the division of what follows them. -/
theorem Divides.of_append {text : List Char} {before after : List Piece}
    (h : Divides text (before ++ after)) :
    ∃ rest, text = textOf before ++ rest ∧ Divides rest after := by
  induction before generalizing text with
  | nil => exact ⟨text, rfl, h⟩
  | cons piece before ih =>
    rw [List.cons_append] at h
    generalize hpieces : before ++ after = pieces at h
    cases h with
    | blank _ tail =>
      obtain ⟨rest, rfl, hrest⟩ := ih (by rwa [hpieces])
      exact ⟨rest, rfl, hrest⟩
    | lexeme _ _ htext tail =>
      obtain ⟨rest, rfl, hrest⟩ := ih (by rwa [hpieces])
      exact ⟨rest, by simp [htext, Piece.text], hrest⟩
    | unknown _ _ tail =>
      obtain ⟨rest, rfl, hrest⟩ := ih (by rwa [hpieces])
      exact ⟨rest, rfl, hrest⟩
    | dropped =>
      obtain ⟨rfl, rfl⟩ := List.append_eq_nil_iff.mp hpieces
      exact ⟨[], by simp [Piece.text], .done⟩

/-- A text begins in one way. -/
theorem Begins.unique {text : List Char} {first second : Verdict} (hfirst : Begins text first)
    (hsecond : Begins text second) : first = second :=
  (judge_standard_eq_iff.mpr hfirst).symm.trans (judge_standard_eq_iff.mpr hsecond)

theorem Begins.ne_nil {text : List Char} {verdict : Verdict} (h : Begins text verdict)
    (hverdict : verdict ≠ .pass) : text ≠ [] := by
  rintro rfl
  exact hverdict (h.unique (judge_standard_eq_iff.mp rfl))

/-- A text has at most one division. -/
theorem Divides.unique {text : List Char} {first second : List Piece}
    (hfirst : Divides text first) (hsecond : Divides text second) : first = second := by
  -- What begins the text is the same for both, so the second division has to start like the first.
  induction hfirst generalizing second with
  | done =>
    cases hsecond with
    | done => rfl
    | lexeme _ hbegins _ _ => exact absurd rfl (hbegins.ne_nil (by simp))
    | dropped _ hbegins => exact absurd rfl (hbegins.ne_nil (by simp))
  | blank hblank _ ih =>
    cases hsecond with
    | blank _ tail => rw [ih tail]
    | lexeme hstart _ _ _ => simp [hblank] at hstart
    | unknown hstart _ _ => simp [hblank] at hstart
    | dropped hstart _ => simp [hblank] at hstart
  | lexeme hstart hbegins htext _ ih =>
    cases hsecond with
    | done => exact absurd rfl (hbegins.ne_nil (by simp))
    | blank hblank _ => simp [hblank] at hstart
    | lexeme _ hother hotherText tail =>
      cases hbegins.unique hother
      rw [htext] at hotherText
      rw [ih (by rwa [List.append_cancel_left hotherText])]
    | unknown _ hother _ => cases hbegins.unique hother
    | dropped _ hother => cases hbegins.unique hother
  | unknown hstart hbegins _ ih =>
    cases hsecond with
    | blank hblank _ => simp [hblank] at hstart
    | lexeme _ hother _ _ => cases hbegins.unique hother
    | unknown _ _ tail => rw [ih tail]
    | dropped _ hother => cases hbegins.unique hother
  | dropped hstart hbegins =>
    cases hsecond with
    | done => exact absurd rfl (hbegins.ne_nil (by simp))
    | blank hblank _ => simp [hblank] at hstart
    | lexeme _ hother _ _ => cases hbegins.unique hother
    | unknown _ hother _ => cases hbegins.unique hother
    | dropped _ hother =>
      cases hbegins.unique hother
      rfl

theorem Begins.lexeme_ne_nil {text lexeme : List Char} {category : Category}
    (h : Begins text (.accept category lexeme)) : lexeme ≠ [] := by
  obtain ⟨r, -, -, hdecides⟩ := h.exists_rule (by simp)
  cases hdecides with
  | accept _ hfits => exact hfits.ne_nil

/-- Lexemes are known: unknown tokens come from characters that begin none. -/
theorem Begins.category_ne_unknown {text lexeme : List Char} {category : Category}
    (h : Begins text (.accept category lexeme)) : category ≠ .unknown := by
  obtain ⟨r, -, -, hdecides⟩ := h.exists_rule (by simp)
  cases hdecides
  cases r <;> simp [Rule.category]

/-- The fault of a broken literal tells the quote that opens it. -/
theorem Begins.quote_of_reject {text : List Char} {fault : Fault}
    (h : Begins text (.reject fault)) :
    fault = .unterminatedString ∧ text.head? = some '"' ∨
      fault = .invalidChar ∧ text.head? = some '\'' := by
  obtain ⟨r, -, hopens, hdecides⟩ := h.exists_rule (by simp)
  cases hdecides with
  | reject hfault _ =>
    cases r with
    | stringLiteral =>
      obtain ⟨rest, rfl⟩ := hopens
      exact .inl ⟨(Option.some.inj hfault).symm, rfl⟩
    | charLiteral =>
      obtain ⟨rest, rfl⟩ := hopens
      exact .inr ⟨(Option.some.inj hfault).symm, rfl⟩
    | _ => cases hfault

/-- Rules reject literals only; an unrecognized character is no rule's fault. -/
theorem Begins.fault_ne_unrecognized {text : List Char} {fault : Fault}
    (h : Begins text (.reject fault)) (char : String) : fault ≠ .unrecognized char := by
  rintro rfl
  obtain ⟨hfault, -⟩ | ⟨hfault, -⟩ := h.quote_of_reject <;> cases hfault

/-- Only a broken literal gives up a line, and it takes all that is left of it. -/
theorem Divides.begins_of_dropped {text tail : List Char} {fault : Fault} {after : List Piece}
    (h : Divides text (.dropped fault tail :: after)) :
    text = tail ∧ after = [] ∧ Begins text (.reject fault) := by
  cases h with
  | dropped _ hbegins => exact ⟨rfl, rfl, hbegins⟩

theorem Divides.text_ne_nil {text : List Char} {piece : Piece} {after : List Piece}
    (h : Divides text (piece :: after)) : piece.text ≠ [] := by
  cases h with
  | blank => simp [Piece.text]
  | lexeme _ hbegins _ _ => exact hbegins.lexeme_ne_nil
  | unknown => simp [Piece.text]
  | dropped _ hbegins => exact hbegins.ne_nil (by simp)

end Ginti.Grammar
