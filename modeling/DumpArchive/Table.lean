import DumpArchive.Text.Width

/-! Tables with ruled cells, as wide as their contents. A cell may have several lines. -/
namespace DumpArchive

structure Table where
  header : List String
  rows : List (List String)

namespace Table

def lines : List Char → List (List Char)
  | [] => [[]]
  | c :: rest =>
    if c = '\n' then [] :: lines rest
    else match lines rest with
      | [] => [[c]]
      | l :: more => (c :: l) :: more

abbrev Cell := List (List Char)

def cells (row : List String) : List Cell := row.map fun s => lines s.toList

def cellWidth (cell : Cell) : Nat := cell.foldl (fun n line => max n (Text.width line)) 0

/-- The wider of two rows of widths, column by column. -/
def wider : List Nat → List Nat → List Nat
  | a :: as, b :: bs => max a b :: wider as bs
  | as, [] => as
  | [], bs => bs

def widths (rows : List (List Cell)) : List Nat :=
  rows.foldl (fun widths row => wider widths (row.map cellWidth)) []

/-- A rule: its left end, filling, crossings and right end. -/
def rule (left fill cross right : Char) (widths : List Nat) : List Char :=
  let parts := widths.map fun n => List.replicate (n + 2) fill
  left :: (parts.intersperse [cross]).flatten ++ [right]

def padded (n : Nat) (line : List Char) : List Char :=
  ' ' :: line ++ List.replicate (n - Text.width line + 1) ' '

/-- One line of a row; a cell with fewer lines is blank there. -/
def rowLine (widths : List Nat) (row : List Cell) (index : Nat) : List Char :=
  let parts := (row.zip widths).map fun (cell, n) => padded n (cell.getD index [])
  '│' :: (parts.intersperse ['┆']).flatten ++ ['│']

def rowLines (widths : List Nat) (row : List Cell) : List (List Char) :=
  let height := row.foldl (fun n cell => max n cell.length) 0
  (List.range height).map (rowLine widths row)

/-- The lines of the table, each without its end. -/
def render (t : Table) : String :=
  let header := cells t.header
  let rows := t.rows.map cells
  let widths := widths (header :: rows)
  let body := (rows.map (rowLines widths)).intersperse [rule '├' '╌' '┼' '┤' widths]
  let all := [rule '┌' '─' '┬' '┐' widths] ++ rowLines widths header
    ++ [rule '╞' '═' '╪' '╡' widths] ++ body.flatten ++ [rule '└' '─' '┴' '┘' widths]
  String.ofList (all.intersperse ['\n']).flatten

end Table
end DumpArchive
