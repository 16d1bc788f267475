import DumpArchive.Text.Ranges

/-! White space, and texts without it at their ends. -/
namespace DumpArchive.Text

/-- The characters with the property White_Space. -/
def spaces : Ranges := [
  (0x9, 0xD), (0x20, 0x20), (0x85, 0x85), (0xA0, 0xA0), (0x1680, 0x1680), (0x2000, 0x200A),
  (0x2028, 0x2029), (0x202F, 0x202F), (0x205F, 0x205F), (0x3000, 0x3000)]

def isSpace (c : Char) : Bool := spaces.has c.toNat

def trimSpace (s : List Char) : List Char :=
  ((s.dropWhile isSpace).reverse.dropWhile isSpace).reverse

/-- A text without the white space around it. -/
def trim (text : String) : String := String.ofList (trimSpace text.toList)

end DumpArchive.Text
