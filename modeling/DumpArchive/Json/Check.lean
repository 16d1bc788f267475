/-! Which texts are JSON. A text is one value between blanks; nesting and the size of numbers
are limited. -/
namespace DumpArchive.Json

def isBlank (c : Char) : Bool := c = ' ' || c = '\t' || c = '\n' || c = '\r'

def skipBlank (s : List Char) : List Char := s.dropWhile isBlank

def trimBlank (s : List Char) : List Char := (skipBlank (skipBlank s).reverse).reverse

def hex? (c : Char) : Option Nat :=
  if c.isDigit then some (c.toNat - '0'.toNat)
  else if 'a' ≤ c ∧ c ≤ 'f' then some (c.toNat - 'a'.toNat + 10)
  else if 'A' ≤ c ∧ c ≤ 'F' then some (c.toNat - 'A'.toNat + 10)
  else none

/-- The unit that four digits escape. -/
def unit? (a b c d : Char) : Option Nat := do
  return (((← hex? a) * 16 + (← hex? b)) * 16 + (← hex? c)) * 16 + (← hex? d)

def isHigh (n : Nat) : Bool := 0xD800 ≤ n && n < 0xDC00
def isLow (n : Nat) : Bool := 0xDC00 ≤ n && n < 0xE000

/-- What follows a string whose opening quote has been read. Escaped surrogates come in pairs. -/
def string? : List Char → Option (List Char)
  | [] => none
  | '"' :: rest => some rest
  | '\\' :: 'u' :: a :: b :: c :: d :: rest =>
    match unit? a b c d with
    | none => none
    | some n =>
      if isLow n then none
      else if isHigh n then match rest with
        | '\\' :: 'u' :: a :: b :: c :: d :: rest =>
          match unit? a b c d with
          | some n => if isLow n then string? rest else none
          | none => none
        | _ => none
      else string? rest
  | '\\' :: c :: rest =>
    if c ∈ ['"', '\\', '/', 'b', 'f', 'n', 'r', 't'] then string? rest else none
  | c :: rest => if c.toNat < 0x20 then none else string? rest

/-- A natural number rounded to 53 binary digits, ties to even. -/
def rounded (n : Nat) : Nat :=
  let excess := n.log2 - 52
  let unit := 1 <<< excess
  let low := n % unit
  let up := unit < 2 * low || (2 * low = unit && n / unit % 2 = 1)
  (n / unit + if up then 1 else 0) * unit

/-- Whether digits times a power of ten exceed the doubles, each factor rounded first. -/
def overflows (digits : Nat) (exponent : Int) : Bool :=
  if exponent < 0 ∨ digits = 0 then false
  else if 308 < exponent then true
  else (1 <<< 1024) - (1 <<< 970) ≤ rounded digits * rounded (Nat.pow 10 exponent.toNat)

/-- Another decimal digit, as long as the number stays a word. -/
def absorb? (digits : Nat) (c : Char) : Option Nat :=
  let next := digits * 10 + (c.toNat - '0'.toNat)
  if next < UInt64.size then some next else none

/-- The digits of an integer that fit a word, and how many are left out after them. -/
def whole (digits : Nat) : List Char → Nat × Nat
  | [] => (digits, 0)
  | c :: rest => match absorb? digits c with
    | some digits => whole digits rest
    | none => (digits, rest.length + 1)

/-- Digits after the point; each one that is kept lowers the exponent. -/
def fraction (digits : Nat) (exponent : Int) : List Char → Nat × Int
  | [] => (digits, exponent)
  | c :: rest => match absorb? digits c with
    | some digits => fraction digits (exponent - 1) rest
    | none => (digits, exponent)

def value (digits : List Char) : Nat :=
  digits.foldl (fun n c => n * 10 + (c.toNat - '0'.toNat)) 0

/-- The optional exponent of a number; none if a mark stands without digits. -/
def exponent? (s : List Char) : Option (Option Int × List Char) :=
  match s with
  | [] => some (none, [])
  | mark :: rest =>
    if mark = 'e' || mark = 'E' then
      let (negative, rest) := match rest with
        | '-' :: rest => (true, rest)
        | '+' :: rest => (false, rest)
        | rest => (false, rest)
      match rest.span Char.isDigit with
      | ([], _) => none
      | (digits, rest) =>
        some (some (if negative then -(value digits : Int) else value digits), rest)
    else some (none, s)

/-- What follows a number, its sign left aside. An integer has no leading zero. -/
def number? (s : List Char) : Option (List Char) :=
  let (integer, rest) := s.span Char.isDigit
  if integer = [] ∨ (integer.head? = some '0' ∧ integer ≠ ['0']) then none
  else
    let (digits, left) := whole 0 integer
    let finish (digits : Nat) (power : Int) (plain : Bool) (rest : List Char) :=
      match exponent? rest with
      | none => none
      | some (none, rest) => if !plain && overflows digits power then none else some rest
      | some (some e, rest) => if overflows digits (power + e) then none else some rest
    match rest with
    | '.' :: rest => match rest.span Char.isDigit with
      | ([], _) => none
      | (decimals, rest) =>
        let (digits, power) := fraction digits left decimals
        finish digits power false rest
    | rest => finish digits left (left = 0) rest

mutual

/-- What follows a value. `depth` is how many more levels of nesting are admitted. -/
def value? (fuel depth : Nat) (s : List Char) : Option (List Char) :=
  match fuel with
  | 0 => none
  | fuel + 1 => match s with
    | 'n' :: 'u' :: 'l' :: 'l' :: rest => some rest
    | 't' :: 'r' :: 'u' :: 'e' :: rest => some rest
    | 'f' :: 'a' :: 'l' :: 's' :: 'e' :: rest => some rest
    | '"' :: rest => string? rest
    | '-' :: rest => number? rest
    | '[' :: rest => match depth, skipBlank rest with
      | 0, _ => none
      | _ + 1, ']' :: rest => some rest
      | depth + 1, rest => elements? fuel depth rest
    | '\x7b' :: rest => match depth, skipBlank rest with
      | 0, _ => none
      | _ + 1, '\x7d' :: rest => some rest
      | depth + 1, rest => members? fuel depth rest
    | s => number? s

/-- The elements of an array from the first one on, and its end. -/
def elements? (fuel depth : Nat) (s : List Char) : Option (List Char) :=
  match fuel with
  | 0 => none
  | fuel + 1 => match value? fuel depth s with
    | none => none
    | some rest => match skipBlank rest with
      | ']' :: rest => some rest
      | ',' :: rest => elements? fuel depth (skipBlank rest)
      | _ => none

/-- The members of an object from the first one on, and its end. -/
def members? (fuel depth : Nat) (s : List Char) : Option (List Char) :=
  match fuel with
  | 0 => none
  | fuel + 1 => match s with
    | '"' :: rest => match string? rest with
      | none => none
      | some rest => match skipBlank rest with
        | ':' :: rest => match value? fuel depth (skipBlank rest) with
          | none => none
          | some rest => match skipBlank rest with
            | '\x7d' :: rest => some rest
            | ',' :: rest => members? fuel depth (skipBlank rest)
            | _ => none
        | _ => none
    | _ => none

end

/-- How many arrays and objects may stand inside each other. -/
def maxDepth : Nat := 127

/-- Whether a text is JSON. Each level of a value takes two turns and one character. -/
def accepts (text : String) : Bool :=
  let s := trimBlank text.toList
  value? (2 * s.length + 2) maxDepth s = some []

end DumpArchive.Json
