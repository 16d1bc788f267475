/-! Sets of characters, given as ranges of code points. -/
namespace DumpArchive.Text

/-- The first and the last code point of each range. -/
abbrev Ranges := List (Nat × Nat)

def Ranges.has (r : Ranges) (code : Nat) : Bool :=
  r.any fun (first, last) => first ≤ code && code ≤ last

end DumpArchive.Text
