import SolidityFlattener.Text.Basic

/-!
Blank characters: the white space of the Unicode standard together with the four information
separators U+001C to U+001F.
-/

namespace SolidityFlattener.Text

def isBlank (c : Char) : Bool :=
  let n := c.val.toNat
  (0x09 ≤ n && n ≤ 0x0D) || (0x1C ≤ n && n ≤ 0x20) || n == 0x85 || n == 0xA0 || n == 0x1680 ||
    (0x2000 ≤ n && n ≤ 0x200A) || n == 0x2028 || n == 0x2029 || n == 0x202F || n == 0x205F ||
    n == 0x3000

def isBlankLine (line : Text) : Bool := line.all isBlank

end SolidityFlattener.Text
