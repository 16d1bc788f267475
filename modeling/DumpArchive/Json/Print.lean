import DumpArchive.Hex

/-! Compact JSON. -/
namespace DumpArchive

inductive Json where
  | number (n : Int)
  | text (s : String)
  | list (items : List Json)
  | object (fields : List (String × Json))

namespace Json

/-- Quotes, backslashes and control characters are escaped, all else stands for itself. -/
def escaped (c : Char) : List Char :=
  if c = '"' then ['\\', '"']
  else if c = '\\' then ['\\', '\\']
  else if c = '\n' then ['\\', 'n']
  else if c = '\r' then ['\\', 'r']
  else if c = '\t' then ['\\', 't']
  else if c = Char.ofNat 8 then ['\\', 'b']
  else if c = Char.ofNat 12 then ['\\', 'f']
  else if c.toNat < 0x20 then '\\' :: 'u' :: Hex.digits 4 c.toNat
  else [c]

def quoted (s : String) : String :=
  String.ofList ('"' :: s.toList.flatMap escaped ++ ['"'])

mutual

def render : Json → String
  | .number n => toString n
  | .text s => quoted s
  | .list items => "[" ++ renderItems items ++ "]"
  | .object fields => "\x7b" ++ renderFields fields ++ "\x7d"

def renderItems : List Json → String
  | [] => ""
  | [item] => render item
  | item :: rest => render item ++ "," ++ renderItems rest

def renderFields : List (String × Json) → String
  | [] => ""
  | [(key, value)] => quoted key ++ ":" ++ render value
  | (key, value) :: rest => quoted key ++ ":" ++ render value ++ "," ++ renderFields rest

end

end Json
end DumpArchive
