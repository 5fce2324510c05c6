namespace Ginti.Text

/-- Padding is every code point up to and including the space: the control characters and the
    space itself, and none of the wider spaces. -/
def isPadding (c : Char) : Bool :=
  c.toNat ≤ 0x20

/-- A line without the padding at either end. Padding between other characters stays. -/
def trim (line : List Char) : List Char :=
  ((line.dropWhile isPadding).reverse.dropWhile isPadding).reverse

/-- A blank within a line is a tab, a line control, an information separator, a space, or a
    space or line separator from further up that is not a non-breaking one. Some padding is no
    blank, and some blanks are no padding. -/
def isBlank (c : Char) : Bool :=
  let n := c.toNat
  (0x09 ≤ n && n ≤ 0x0d) || (0x1c ≤ n && n ≤ 0x20) || n == 0x1680 ||
    (0x2000 ≤ n && n ≤ 0x200a && n != 0x2007) || n == 0x2028 || n == 0x2029 ||
    n == 0x205f || n == 0x3000

end Ginti.Text
