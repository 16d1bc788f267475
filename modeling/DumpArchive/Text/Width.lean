import DumpArchive.Text.Opening
import DumpArchive.Text.Wide

/-! The columns that a line of text takes. Most characters take one, marks none and wide characters
two; a selector can change the character before it, and several characters can be one sign. So a
line is measured from its end. -/
namespace DumpArchive.Text

/-- Columns of a character that stands alone. -/
def columns (code : Nat) : Nat :=
  if code = 0x17D8 then 3
  else if code = 0x17A4 || Wide.ranges.has code then 2
  else if ZeroWidth.transparent.has code || ZeroWidth.separating.has code then 0
  else 1

/-- Marks that choose between the forms of the character before them. -/
inductive Selector where
  | picture
  | text
  /-- Chooses the full form of a quotation mark. -/
  | full
  deriving DecidableEq, Repr

def Selector.ofCode? (code : Nat) : Option Selector :=
  if code = 0xFE0F then some .picture
  else if code = 0xFE0E then some .text
  else if code = 0xFE01 then some .full
  else none

/-- Quotation marks with a full form. -/
def hasFullForm (code : Nat) : Bool :=
  code = 0x2018 || code = 0x2019 || code = 0x201C || code = 0x201D

/-- The columns of the form that a selector chooses, where the character has that form. -/
def Selector.columns? (code : Nat) : Selector → Option Int
  | .picture => if Emoji.takesPicture code then some 2 else none
  | .text => if Emoji.takesText code then some 1 else none
  | .full => if hasFullForm code then some 2 else none

/-- What stands after a character. -/
structure Following where
  selector : Option Selector
  opening : Opening

namespace Following

def start : Following := ⟨none, .plain⟩

/-- Pictures to which a picture before them is joined, so that it adds no columns. -/
def joinsPicture (next : Following) : Bool :=
  next.opening = .picture .joined || next.opening = .picture .joinedKeycap

/-- The opening that is left when a selector comes before it. -/
def behind (s : Selector) (next : Following) : Opening :=
  match next.opening with
  | .letter l joined => if l.isLasting || l = .arabicAlef then .letter l joined else .plain
  | opening => if s = .picture && next.joinsPicture then opening else .plain

/-- What stands there when its selector has found nothing to select. -/
def unselected (next : Following) : Following :=
  if next.selector = some .picture && next.joinsPicture then start else ⟨none, next.opening⟩

/-- What a character adds to the columns where a selector chooses its form. -/
def selected? (code : Nat) (next : Following) : Option (Int × Following) :=
  match next.selector with
  | none => none
  | some s => match s.columns? code with
    | none => none
    | some n =>
      if s = .picture then
        some (if next.joinsPicture then 0 else n, ⟨none, .picture .single⟩)
      else some (n, start)

/-- What a character adds to the columns where nothing is selected, and what stands there then. -/
def place (code : Nat) (next : Following) : Int × Following :=
  if code ≤ 0xA0 then (1, start)
  else match Selector.ofCode? code with
    | some s => (0, ⟨some s, next.behind s⟩)
    | none => match next.opening.join? code with
      | some (n, opening) => (n, ⟨none, opening⟩)
      | none => (columns code, ⟨none, .ofCode code⟩)

/-- What a character adds to the columns, and what stands there then. -/
def before (c : Char) (next : Following) : Int × Following :=
  match next.selected? c.toNat with
  | some answer => answer
  | none => next.unselected.place c.toNat

end Following

/-- Columns taken by a line. -/
def width (line : List Char) : Nat :=
  let add (c : Char) (rest : Int × Following) : Int × Following :=
    let (n, next) := rest.2.before c
    (n + rest.1, next)
  (line.foldr add (0, .start)).1.toNat

end DumpArchive.Text
