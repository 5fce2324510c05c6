namespace Ginti

/-- A line and a column, both counted from one. Columns count the code points of the trimmed
    line. Positions made by hand may hold any integers. -/
structure Position where
  line : Int
  column : Int
  deriving DecidableEq, Repr

/-- Positions are ordered by line and within a line by column. -/
def Position.Before (p q : Position) : Prop :=
  p.line < q.line ∨ p.line = q.line ∧ p.column < q.column

instance (p q : Position) : Decidable (p.Before q) :=
  inferInstanceAs (Decidable (_ ∨ _))

/-- The position of the place with the given line and column counted from zero. -/
def Position.ofOffsets (line column : Int) : Position :=
  ⟨line + 1, column + 1⟩

/-- The line and the column counted from zero. -/
def Position.offsets (p : Position) : Int × Int :=
  (p.line - 1, p.column - 1)

/-- A line and a column of a scanned text, both counted from zero. -/
structure Spot where
  line : Nat
  col : Nat
  deriving DecidableEq, Repr

/-- Spots are ordered by line and within a line by column. -/
def Spot.Before (s t : Spot) : Prop :=
  s.line < t.line ∨ s.line = t.line ∧ s.col < t.col

instance (s t : Spot) : Decidable (s.Before t) :=
  inferInstanceAs (Decidable (_ ∨ _))

/-- The spot as people read it, who count from one. -/
def Spot.position (s : Spot) : Position :=
  .ofOffsets s.line s.col

/-- The form in which messages about marks name a spot. -/
def Spot.describe (s : Spot) : String :=
  "Cursor(line=" ++ toString s.line ++ ", col=" ++ toString s.col ++ ")"

end Ginti
