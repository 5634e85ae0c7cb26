/-!
# Blank characters

The white space of Unicode: the five ASCII layout characters and the space, the next-line control,
and the space separators.  A name never holds a blank character, and a line of blank characters
only holds nothing to evaluate.
-/

namespace Scheme.Text

/-- `c` is white space. -/
def isBlank (c : Char) : Bool :=
  let n := c.toNat
  (9 ≤ n && n ≤ 13) || n == 0x20 || n == 0x85 || n == 0xa0 || n == 0x1680 ||
    (0x2000 ≤ n && n ≤ 0x200a) || n == 0x2028 || n == 0x2029 || n == 0x202f || n == 0x205f ||
    n == 0x3000

end Scheme.Text
