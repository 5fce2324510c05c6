import Ginti.Proofs.Grammar.Division

namespace Ginti

namespace Text

/-- A character that is neither a blank nor padding. -/
def isSolid (c : Char) : Bool :=
  !isBlank c && !isPadding c

theorem isSolid_iff {c : Char} : isSolid c = true ↔ isBlank c = false ∧ isPadding c = false := by
  rw [isSolid, Bool.and_eq_true, Bool.not_eq_true', Bool.not_eq_true']

theorem isBlank_of_solid {word : List Char} (h : word.all isSolid = true) :
    ∀ c ∈ word, isBlank c = false :=
  fun c hc => (isSolid_iff.mp (List.all_eq_true.mp h c hc)).1

theorem isPadding_of_solid {word : List Char} (h : word.all isSolid = true) :
    ∀ c ∈ word, isPadding c = false :=
  fun c hc => (isSolid_iff.mp (List.all_eq_true.mp h c hc)).2

end Text

namespace Grammar

/-- Nothing, or a text that starts with a blank. -/
def StartsBlank (text : List Char) : Prop :=
  ∀ c ∈ text.head?, Text.isBlank c = true

/-- Name characters lie between the digit zero and the last lower-case letter. -/
theorem toNat_bounds_of_isNameChar {c : Char} (h : Pattern.isNameChar c = true) :
    0x30 ≤ c.toNat ∧ c.toNat ≤ 0x7a := by
  simp only [isNameChar_eq, Bool.or_eq_true, beq_iff_eq, isUpper_iff, isLower_iff, isDigit_iff] at h
  change (((65 ≤ c.toNat ∧ c.toNat ≤ 90) ∨ (97 ≤ c.toNat ∧ c.toNat ≤ 122)) ∨
    (48 ≤ c.toNat ∧ c.toNat ≤ 57)) ∨ c = '_' at h
  obtain ((h | h) | h) | rfl := h
  · omega
  · omega
  · omega
  · decide

theorem isSolid_of_isNameChar {c : Char} (h : Pattern.isNameChar c = true) :
    Text.isSolid c = true := by
  have hbounds := toNat_bounds_of_isNameChar h
  simp only [Text.isSolid, Text.isBlank, Text.isPadding, Bool.and_eq_true, Bool.not_eq_true',
    Bool.or_eq_false_iff, Bool.and_eq_false_iff, decide_eq_false_iff_not, beq_eq_false_iff_ne,
    bne_eq_false_iff_eq]
  omega

theorem isNameChar_of_isBlank {c : Char} (h : Text.isBlank c = true) :
    Pattern.isNameChar c = false := by
  rw [← Bool.not_eq_true]
  intro hname
  have hsolid := Text.isSolid_iff.mp (isSolid_of_isNameChar hname)
  rw [h] at hsolid
  cases hsolid.1

theorem isDigit_of_isBlank {c : Char} (h : Text.isBlank c = true) : c.isDigit = false := by
  have hname := isNameChar_of_isBlank h
  rw [isNameChar_eq, Bool.or_eq_false_iff, Bool.or_eq_false_iff] at hname
  exact hname.1.2

/-- A word without blanks that starts a text and what follows it starts the text alone if what
    follows starts with a blank. -/
theorem prefix_of_startsBlank {word text gap : List Char}
    (hword : word.all Text.isSolid = true) (hgap : StartsBlank gap)
    (h : word <+: text ++ gap) : word <+: text := by
  obtain hshort | hlong := List.prefix_or_prefix_of_prefix h (List.prefix_append text gap)
  · exact hshort
  · obtain ⟨tail, rfl⟩ := hlong
    cases tail with
    | nil => rw [List.append_nil]
    | cons c tail =>
      obtain ⟨after, rfl⟩ := (List.prefix_append_right_inj text).mp h
      have hblank := hgap c rfl
      have hsolid := Text.isBlank_of_solid hword c (List.mem_append_right _ List.mem_cons_self)
      rw [hsolid] at hblank
      cases hblank

/-- A longest run of a class without blanks is the longest one also in front of a gap. -/
theorem Run.of_startsBlank {inClass : Char → Bool} {run rest gap : List Char}
    (h : Run inClass run rest) (hclass : ∀ c, Text.isBlank c = true → inClass c = false)
    (hgap : StartsBlank gap) : Run inClass run gap where
  inside := h.inside
  stops c hc := hclass c (hgap c hc)

end Grammar

open Grammar

theorem Operator.solid {o : Operator} : o.spelling.toList.all Text.isSolid = true := by
  cases o <;> decide

theorem Separator.solid {s : Separator} : s.spelling.toList.all Text.isSolid = true := by
  cases s <;> decide

theorem Keyword.solid {k : Keyword} : k.spelling.toList.all Text.isSolid = true := by
  rcases k with ⟨_ | _⟩ | _ <;> decide

namespace Rule

variable {r : Rule} {lexeme rest gap : List Char}

theorem Fits.opens (h : r.Fits lexeme rest) : r.Opens (lexeme ++ rest) := by
  cases r with
  | stringLiteral =>
    obtain ⟨body, rfl, -⟩ := h
    exact ⟨body ++ ['"'] ++ rest, rfl⟩
  | charLiteral =>
    obtain ⟨c, rfl, -⟩ := h
    exact ⟨c :: '\'' :: rest, rfl⟩
  | _ => exact (opens_iff_exists_fits rfl).mpr ⟨lexeme, rest, rfl, h⟩

/-- A rule that applies with a gap behind the first lexeme applies whatever is there. Only the
    rule for block comments looks further ahead. -/
theorem Opens.of_startsBlank (hne : lexeme ≠ []) (hgap : StartsBlank gap)
    (hcomment : ['/', '*'] <+: lexeme → IsBlockComment lexeme) (h : r.Opens (lexeme ++ gap)) :
    r.Opens (lexeme ++ rest) := by
  obtain ⟨c, tail, rfl⟩ := List.exists_cons_of_ne_nil hne
  have hextend {word : List Char} (hword : word.all Text.isSolid = true)
      (hfront : word <+: c :: tail ++ gap) : word <+: c :: tail ++ rest :=
    (prefix_of_startsBlank hword hgap hfront).trans (List.prefix_append _ rest)
  cases r with
  | lineComment => exact hextend (by decide) h
  | blockComment =>
    obtain ⟨after, hafter, -⟩ := h
    have hopen : ['/', '*'] <+: c :: tail ++ gap := ⟨after, hafter.symm⟩
    have hlexeme := hcomment (prefix_of_startsBlank (by decide) hgap hopen)
    exact Fits.opens (r := .blockComment) hlexeme
  | stringLiteral => exact hextend (by decide) h
  | charLiteral => exact hextend (by decide) h
  | number => exact h
  | operator =>
    obtain ⟨o, hfront⟩ := h
    exact ⟨o, hextend Operator.solid hfront⟩
  | separator =>
    obtain ⟨s, hfront⟩ := h
    exact ⟨s, hextend Separator.solid hfront⟩
  | keyword =>
    obtain ⟨k, hfront⟩ := h
    exact ⟨k, hextend Keyword.solid hfront⟩
  | identifier => exact h

/-- A line comment goes on to the end of its line, so there is no room for anything behind it. -/
theorem Fits.eq_nil_of_lineComment (h : lineComment.Fits lexeme rest) (hline : '\n' ∉ rest) :
    rest = [] := by
  obtain ⟨body, -, hrun⟩ := h
  cases rest with
  | nil => rfl
  | cons c rest =>
    have hc : c = '\n' := by simpa using hrun.stops c rfl
    subst hc
    exact absurd List.mem_cons_self hline

/-- A lexeme of a rule stays one when a blank comes next or nothing at all. -/
theorem Fits.of_startsBlank (hgap : StartsBlank gap) (hline : '\n' ∉ rest)
    (hend : rest = [] → gap = []) (h : r.Fits lexeme rest) : r.Fits lexeme gap := by
  cases r with
  | lineComment =>
    have hnone := h.eq_nil_of_lineComment hline
    obtain ⟨body, rfl, hrun⟩ := h
    refine ⟨body, rfl, hrun.inside, ?_⟩
    rw [hend hnone]
    intro c hc
    cases hc
  | blockComment => exact h
  | stringLiteral => exact h
  | charLiteral => exact h
  | number =>
    obtain ⟨whole, fraction, rfl, hwhole, hrun, hfraction⟩ := h
    refine ⟨whole, fraction, rfl, hwhole, ⟨hrun.inside, ?_⟩, ?_⟩
    · cases fraction with
      | nil => exact fun c hc => isDigit_of_isBlank (hgap c hc)
      | cons d fraction => exact hrun.stops
    · obtain ⟨digits, rfl, hne, hdigits, hstop⟩ | ⟨rfl, -⟩ := hfraction
      · refine .inl ⟨digits, rfl, hne, hdigits, hstop.imp_right fun hshort => ?_⟩
        exact ⟨hshort.1, fun d hd => isDigit_of_isBlank (hgap d hd)⟩
      · refine .inr ⟨rfl, ?_⟩
        rintro d tail rfl
        have hblank := hgap '.' rfl
        cases hblank
  | operator => exact h
  | separator => exact h
  | keyword => exact h
  | identifier =>
    obtain ⟨c, tail, rfl, hlower, hrun⟩ := h
    exact ⟨c, tail, rfl, hlower, hrun.of_startsBlank (fun _ => isNameChar_of_isBlank) hgap⟩

/-- Of the lexemes only block comments start with a slash and a star. -/
theorem Fits.isBlockComment (h : r.Fits lexeme rest) (hopen : ['/', '*'] <+: lexeme) :
    IsBlockComment lexeme := by
  obtain ⟨after, rfl⟩ := hopen
  cases r with
  | blockComment => exact h
  | lineComment =>
    obtain ⟨body, hbody, -⟩ := h
    cases hbody
  | stringLiteral =>
    obtain ⟨body, hbody, -⟩ := h
    cases hbody
  | charLiteral =>
    obtain ⟨c, hc, -⟩ := h
    cases hc
  | number =>
    obtain ⟨whole, fraction, hlexeme, hwhole, hrun, -⟩ := h
    obtain ⟨d, whole, rfl⟩ := List.exists_cons_of_ne_nil hwhole
    obtain ⟨rfl, -⟩ := List.cons.inj hlexeme
    have hdigit := hrun.inside '/' List.mem_cons_self
    cases hdigit
  | operator =>
    obtain ⟨o, ho⟩ := h
    cases o <;> cases ho
  | separator =>
    obtain ⟨s, hs⟩ := h
    cases s <;> cases hs
  | keyword =>
    obtain ⟨k, hk⟩ := h
    rcases k with ⟨_ | _⟩ | _ <;> cases hk
  | identifier =>
    obtain ⟨c, tail, hlexeme, hlower, -⟩ := h
    obtain ⟨rfl, -⟩ := List.cons.inj hlexeme
    cases hlower

theorem Decides.fits {category : Category}
    (h : r.Decides (lexeme ++ rest) (.accept category lexeme)) :
    r.category = category ∧ r.Fits lexeme rest := by
  cases h with
  | accept htext hfits =>
    rw [List.append_cancel_left htext]
    exact ⟨rfl, hfits⟩

end Rule

namespace Grammar

/-- What decides about a text decides about another one too if the same rules apply to it and
    those that apply decide alike. -/
theorem FirstDecides.transfer {text other : List Char} {rs : List Rule} {verdict : Verdict}
    (h : FirstDecides text rs verdict) (hcloses : ∀ r : Rule, r.Opens other → r.Opens text)
    (hdecides : ∀ r : Rule, r.Decides text verdict → r.Opens other ∧ r.Decides other verdict) :
    FirstDecides other rs verdict := by
  induction h with
  | none => exact .none
  | here _ hrule =>
    obtain ⟨hopens, hother⟩ := hdecides _ hrule
    exact .here hopens hother
  | later hclosed _ ih => exact .later (fun hopens => hclosed (hcloses _ hopens)) (ih hdecides)

variable {lexeme rest gap : List Char} {category : Category}

theorem Begins.exists_fits (h : Begins (lexeme ++ rest) (.accept category lexeme)) :
    ∃ r : Rule, r.Fits lexeme rest := by
  obtain ⟨r, -, -, hdecides⟩ := h.exists_rule (by simp)
  exact ⟨r, hdecides.fits.2⟩

/-- A lexeme is the same lexeme with something else behind it, if no other rule applies then and
    the rules whose lexeme it is agree. -/
theorem Begins.followed {other : List Char} (h : Begins (lexeme ++ rest) (.accept category lexeme))
    (hcloses : ∀ r : Rule, r.Opens (lexeme ++ other) → r.Opens (lexeme ++ rest))
    (hfits : ∀ r : Rule, r.Fits lexeme rest → r.Fits lexeme other) :
    Begins (lexeme ++ other) (.accept category lexeme) := by
  apply h.transfer hcloses
  intro r hr
  obtain ⟨rfl, hlexeme⟩ := hr.fits
  exact ⟨(hfits r hlexeme).opens, .accept rfl (hfits r hlexeme)⟩

/-- A lexeme is the same lexeme with a gap behind it. -/
theorem Begins.of_startsBlank (h : Begins (lexeme ++ rest) (.accept category lexeme))
    (hgap : StartsBlank gap) (hline : '\n' ∉ rest) (hend : rest = [] → gap = []) :
    Begins (lexeme ++ gap) (.accept category lexeme) := by
  obtain ⟨r, hr⟩ := h.exists_fits
  apply h.followed
  · exact fun _ hopens => hopens.of_startsBlank h.lexeme_ne_nil hgap hr.isBlockComment
  · exact fun _ hlexeme => hlexeme.of_startsBlank hgap hline hend

/-- A character that starts no lexeme starts none with a gap behind it. -/
theorem Begins.pass_of_startsBlank {c : Char} (h : Begins (c :: rest) .pass)
    (hgap : StartsBlank gap) : Begins (c :: gap) .pass := by
  apply h.transfer
  · intro r hopens
    have hfront : r.Opens ([c] ++ gap) := hopens
    refine hfront.of_startsBlank (List.cons_ne_nil _ _) hgap fun hopen => ?_
    have hlength := hopen.length_le
    simp at hlength
  · intro r hr
    cases hr

end Grammar
end Ginti
