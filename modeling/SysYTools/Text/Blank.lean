import SysYTools.Text.Basic

/-!
White space of the Unicode standard and the cuts that remove it at the ends of a text. The zero width
space and the byte order mark are no white space.
-/

namespace SysYTools

/-- White space: the characters with the property `White_Space`, and the four information separators. -/
def isBlank (c : Char) : Bool :=
  let code := c.toNat
  (0x9 ≤ code && code ≤ 0xd) || (0x1c ≤ code && code ≤ 0x20) || code == 0x85 || code == 0xa0 ||
    code == 0x1680 || (0x2000 ≤ code && code ≤ 0x200a) || code == 0x2028 || code == 0x2029 ||
    code == 0x202f || code == 0x205f || code == 0x3000

namespace Text

def dropRightWhile (text : Text) (drops : Char → Bool) : Text := (text.reverse.dropWhile drops).reverse

def stripLeft (text : Text) : Text := text.dropWhile isBlank

def stripRight (text : Text) : Text := text.dropRightWhile isBlank

def strip (text : Text) : Text := text.stripLeft.stripRight

def isAllBlank (text : Text) : Bool := text.all isBlank

def indentation (line : Text) : Text := line.takeWhile fun c => c == ' ' || c == '\t'

end Text

end SysYTools
