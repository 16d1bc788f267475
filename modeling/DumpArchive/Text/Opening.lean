import DumpArchive.Text.Emoji
import DumpArchive.Text.ZeroWidth

/-! The beginning of a text, as far as it matters to the character before: some letters and
pictures are one sign with what follows them. -/
namespace DumpArchive.Text

def zeroWidthJoiner : Nat := 0x200D

/-- Marks that nobody sees and that part no letters. -/
def unseen : Ranges := [
  (0x34F, 0x34F), (0x17B4, 0x17B5), (0x180B, 0x180D), (0x180F, 0x180F), (0xFE00, 0xFE0F),
  (0xE0100, 0xE01EF)]

namespace Letters

/-- Arabic letters of the group of alef. -/
def alefs : Ranges := [
  (0x622, 0x623), (0x625, 0x625), (0x627, 0x627), (0x671, 0x673), (0x675, 0x675), (0x773, 0x774),
  (0x870, 0x882)]

/-- Arabic letters of the group of lam. -/
def lams : Ranges := [
  (0x644, 0x644), (0x6B5, 0x6B8), (0x76A, 0x76A), (0x8A6, 0x8A6), (0x8C7, 0x8C7)]

/-- Khmer letters that can be written below another. -/
def subscripts : Ranges := [
  (0x1780, 0x1782), (0x1784, 0x1787), (0x1789, 0x178C), (0x178E, 0x1793), (0x1795, 0x1798),
  (0x179B, 0x179D), (0x17A0, 0x17A0), (0x17A2, 0x17A2), (0x17A7, 0x17A7), (0x17AB, 0x17AC),
  (0x17AF, 0x17AF)]

def tifinagh : Ranges := [(0x2D31, 0x2D65), (0x2D6F, 0x2D6F)]

end Letters

/-- Letters that become one sign with a letter before them. -/
inductive Letter where
  | arabicAlef
  | hebrewLamed
  | bugineseYa
  /-- A vowel sign i on a ya. -/
  | bugineseIYa
  | khmerSubscript
  | lisuTone
  | oldTurkicI
  | tifinagh
  /-- A letter after the sign that joins letters. -/
  | tifinaghJoined
  | kiratRaiE
  | kiratRaiAi
  deriving DecidableEq, Repr

/-- Pictures that become one picture with what is before them. -/
inductive Picture where
  | single
  | tone
  | flagHalf
  | flagHalves
  /-- A picture after a joiner. -/
  | joined
  /-- A keycap before a joiner and a picture. -/
  | joinedKeycap
  /-- One half of a flag before a joiner and a picture. -/
  | joinedHalf
  /-- Whole flags there. -/
  | joinedFlags
  /-- Whole flags and a half there. -/
  | joinedOdd
  /-- So many letters, or after them digits, of the tags of a flag there. -/
  | joinedTags (letters digits : Nat)
  deriving DecidableEq, Repr

inductive Opening where
  | plain
  /-- A letter, and whether a joiner comes before it. -/
  | letter (first : Letter) (joined : Bool)
  | picture (first : Picture)
  deriving DecidableEq, Repr

/-- The opening that a letter makes. -/
def Letter.opening (l : Letter) : Opening := .letter l false

/-- Joiners and unseen marks part nothing from these. -/
def Letter.isLasting : Letter → Bool
  | .arabicAlef | .kiratRaiE | .kiratRaiAi => false
  | _ => true

/-- What a character before a letter adds to the columns, and the opening that both make, where
they are one sign. -/
def Letter.join? (joined : Bool) (code : Nat) : Letter → Option (Int × Opening)
  | .arabicAlef =>
    if Letters.lams.has code then some (0, .plain)
    else if ZeroWidth.transparent.has code then some (0, arabicAlef.opening)
    else none
  | .hebrewLamed => if joined && code = 0x5D0 then some (0, .plain) else none
  | .bugineseYa => if joined && code = 0x1A17 then some (0, bugineseIYa.opening) else none
  | .bugineseIYa => if code = 0x1A15 then some (0, .plain) else none
  | .khmerSubscript => if code = 0x17D2 then some (-1, .plain) else none
  | .lisuTone => if 0xA4F8 ≤ code && code ≤ 0xA4FB then some (0, .plain) else none
  | .oldTurkicI => if joined && code = 0x10C32 then some (0, .plain) else none
  | .tifinagh =>
    if code = 0x2D7F then some (1, tifinaghJoined.opening)
    else if joined && Letters.tifinagh.has code then some (0, .plain)
    else none
  | .tifinaghJoined => if Letters.tifinagh.has code then some (-1, .plain) else none
  | .kiratRaiE =>
    if code = 0x16D63 || code = 0x16D69 then some (0, .plain)
    else if code = 0x16D67 then some (0, kiratRaiAi.opening)
    else if code = 0x16D68 then some (1, kiratRaiE.opening)
    else none
  | .kiratRaiAi => if code = 0x16D63 then some (0, .plain) else none

/-- The tags of a flag: up to six letters, or up to four letters and three digits. -/
def Picture.tag? (letters digits code : Nat) : Option Opening :=
  if Emoji.isTagLetter code && digits = 0 && letters < 6 then
    some (.picture (.joinedTags (letters + 1) 0))
  else if Emoji.isTagDigit code && letters ≤ 4 && digits < 3 then
    some (.picture (.joinedTags letters (digits + 1)))
  else if code = Emoji.flag && (digits = 3 || digits = 0 && 3 ≤ letters) then
    some (.picture .single)
  else none

/-- What a character before a picture adds to the columns, and the opening that both make, where
they are one picture. -/
def Picture.join? (code : Nat) (p : Picture) : Option (Int × Opening) :=
  let joins := code = zeroWidthJoiner
  let half := Emoji.isFlagHalf code
  match p with
  | .single => if joins then some (0, .picture .joined) else none
  | .tone =>
    if joins then some (0, .picture .joined)
    else if Emoji.toned.has code then some (0, .picture .single)
    else none
  | .flagHalf => if half then some (1, .picture .flagHalves) else none
  | .flagHalves =>
    if joins then some (0, .picture .joined)
    else if half then some (1, .picture .flagHalves)
    else none
  | .joined =>
    if code = Emoji.keycap then some (0, .picture .joinedKeycap)
    else if half then some (1, .picture .joinedHalf)
    else if Emoji.isTone code then some (0, .picture .tone)
    else if code = Emoji.tagsEnd then some (0, .picture (.joinedTags 0 0))
    else if Emoji.pictures.has code then some (0, .picture .single)
    else none
  | .joinedKeycap => none
  | .joinedHalf => if half then some (-1, .picture .joinedFlags) else none
  | .joinedFlags =>
    if joins then some (0, .picture .joined)
    else if half then some (3, .picture .joinedOdd)
    else none
  | .joinedOdd =>
    if joins then some (0, .picture .joined)
    else if half then some (-1, .picture .joinedFlags)
    else none
  | .joinedTags letters digits => (tag? letters digits code).map fun opening => (0, opening)

namespace Opening

/-- What a character opens a text with when it is no sign with what follows. -/
def ofCode (code : Nat) : Opening :=
  if Letters.alefs.has code then Letter.arabicAlef.opening
  else if code = 0x5DC then Letter.hebrewLamed.opening
  else if code = 0x1A10 then Letter.bugineseYa.opening
  else if Letters.subscripts.has code then Letter.khmerSubscript.opening
  else if code = 0xA4FC || code = 0xA4FD then Letter.lisuTone.opening
  else if code = 0x10C03 then Letter.oldTurkicI.opening
  else if Letters.tifinagh.has code then Letter.tifinagh.opening
  else if code = 0x16D67 then Letter.kiratRaiE.opening
  else if code = 0x16D68 then Letter.kiratRaiAi.opening
  else if Emoji.isFlagHalf code then .picture .flagHalf
  else if Emoji.isTone code then .picture .tone
  else if Emoji.pictures.has code then .picture .single
  else .plain

/-- What a character before an opening adds to the columns, and the opening that both make, where
they are one sign. -/
def join? (code : Nat) : Opening → Option (Int × Opening)
  | .plain => none
  | .picture p => p.join? code
  | .letter l joined =>
    if l.isLasting && code = zeroWidthJoiner then some (0, .letter l true)
    else if l.isLasting && unseen.has code then some (0, .letter l joined)
    else l.join? joined code

end Opening
end DumpArchive.Text
