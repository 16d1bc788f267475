import DumpArchive.Json.Check
import DumpArchive.Report
import Mathlib

/-! What stands in the reports. A JSON report is a JSON text of one object, a table has a ruled line
for each line of its cells, and a plain report one line for each namespace. -/
namespace DumpArchive

namespace Hex

variable {width n : Nat}

/-- The number that hexadecimal digits stand for. -/
def value? (digits : List Char) : Option Nat :=
  digits.foldlM (fun n c => (Json.hex? c).map (16 * n + ·)) 0

theorem hex?_digit : ∀ n < 16, Json.hex? (digit n) = some n := by decide

theorem value?_digits (small : n < 16 ^ width) : value? (digits width n) = some n := by
  induction width generalizing n with
  | zero =>
    obtain rfl : n = 0 := by simpa using small
    rfl
  | succ width ih =>
    have front : value? (digits width (n / 16)) = some (n / 16) :=
      ih (Nat.div_lt_of_lt_mul (by rwa [← Nat.pow_succ']))
    unfold value? at front ⊢
    rw [digits, List.foldlM_append, front]
    simp [hex?_digit _ (Nat.mod_lt n (by decide)), Nat.div_add_mod]

end Hex

namespace Json

/-- Characters with a letter for them behind a backslash. -/
def letters : List (Char × Char) :=
  [('"', '"'), ('\\', '\\'), ('/', '/'), (Char.ofNat 8, 'b'), (Char.ofNat 12, 'f'), ('\n', 'n'),
    ('\r', 'r'), ('\t', 't')]

/-- The ways to write a character between quotes. -/
inductive Writes : Char → List Char → Prop
  | plain {c : Char} : c ≠ '"' → c ≠ '\\' → 0x20 ≤ c.toNat → Writes c [c]
  | letter {c l : Char} : (c, l) ∈ letters → Writes c ['\\', l]
  | code {c : Char} {digits : List Char} : digits.length = 4 → Hex.value? digits = some c.toNat →
    Writes c ('\\' :: 'u' :: digits)

/-- A text between quotes. -/
def Quotes (s : String) (text : List Char) : Prop :=
  ∃ pieces, List.Forall₂ Writes s.toList pieces ∧ text = '"' :: pieces.flatten ++ ['"']

mutual

/-- A JSON text without blanks and its value. -/
inductive Denotes : List Char → Json → Prop
  | number (n : Int) : Denotes (toString n).toList (.number n)
  | text {s : String} {text : List Char} : Quotes s text → Denotes text (.text s)
  | list {texts : List Char} {items : List Json} : DenotesItems texts items →
    Denotes ('[' :: texts ++ [']']) (.list items)
  | object {texts : List Char} {fields : List (String × Json)} : DenotesFields texts fields →
    Denotes ('\x7b' :: texts ++ ['\x7d']) (.object fields)

inductive DenotesItems : List Char → List Json → Prop
  | none : DenotesItems [] []
  | one {text : List Char} {item : Json} : Denotes text item → DenotesItems text [item]
  | more {text rest : List Char} {item next : Json} {items : List Json} : Denotes text item →
    DenotesItems rest (next :: items) → DenotesItems (text ++ ',' :: rest) (item :: next :: items)

inductive DenotesFields : List Char → List (String × Json) → Prop
  | none : DenotesFields [] []
  | one {name text : List Char} {key : String} {value : Json} : Quotes key name →
    Denotes text value → DenotesFields (name ++ ':' :: text) [(key, value)]
  | more {name text rest : List Char} {key : String} {value : Json} {next : String × Json}
    {fields : List (String × Json)} : Quotes key name → Denotes text value →
    DenotesFields rest (next :: fields) →
    DenotesFields (name ++ ':' :: text ++ ',' :: rest) ((key, value) :: next :: fields)

end

theorem writes_escaped (c : Char) : Writes c (escaped c) := by
  unfold escaped
  split_ifs with quote backslash newline carriage tab backspace feed control
  · exact .letter (by simp [quote, letters])
  · exact .letter (by simp [backslash, letters])
  · exact .letter (by simp [newline, letters])
  · exact .letter (by simp [carriage, letters])
  · exact .letter (by simp [tab, letters])
  · exact .letter (by simp [backspace, letters])
  · exact .letter (by simp [feed, letters])
  · exact .code (Hex.length_digits 4 _) (Hex.value?_digits (by omega))
  · exact .plain quote backslash (by omega)

theorem quotes_quoted (s : String) : Quotes s (quoted s).toList := by
  refine ⟨s.toList.map escaped, ?_, by rw [quoted, String.toList_ofList, List.flatMap_def]⟩
  exact List.forall₂_map_right_iff.2 (List.forall₂_same.2 fun c _ => writes_escaped c)

mutual

theorem denotes_render : ∀ j : Json, Denotes j.render.toList j
  | .number n => .number n
  | .text s => .text (quotes_quoted s)
  | .list items => by
    simpa [render] using Denotes.list (denotes_items items)
  | .object fields => by
    simpa [render] using Denotes.object (denotes_fields fields)

theorem denotes_items : ∀ items : List Json, DenotesItems (renderItems items).toList items
  | [] => .none
  | [item] => .one (denotes_render item)
  | item :: next :: rest => by
    have more := DenotesItems.more (denotes_render item) (denotes_items (next :: rest))
    simpa [renderItems] using more

theorem denotes_fields : ∀ fields : List (String × Json),
    DenotesFields (renderFields fields).toList fields
  | [] => .none
  | [(key, value)] => by
    have one := DenotesFields.one (quotes_quoted key) (denotes_render value)
    simpa [renderFields] using one
  | (key, value) :: next :: rest => by
    have more := DenotesFields.more (quotes_quoted key) (denotes_render value)
      (denotes_fields (next :: rest))
    simpa [renderFields] using more

end

/-- The value of a field. -/
def field? (key : String) : Json → Option Json
  | .object fields => (fields.find? (·.1 = key)).map (·.2)
  | _ => none

end Json

namespace Table

variable {row : List String} {rows : List (List Cell)} {widths : List Nat} {line : List Char}

/-- What stands on each line of a row. -/
def contents (row : List String) : List (List (List Char)) :=
  let height := (cells row).foldl (fun n cell => max n cell.length) 0
  (List.range height).map fun index => (cells row).map (·.getD index [])

/-- A content with a blank before it and blanks behind it. -/
def Padded (content text : List Char) : Prop :=
  ∃ n, text = ' ' :: content ++ List.replicate (n + 1) ' '

/-- Contents between bars. -/
def Ruled (contents : List (List Char)) (line : List Char) : Prop :=
  ∃ texts, List.Forall₂ Padded contents texts ∧
    line = '│' :: (texts.intersperse ['┆']).flatten ++ ['│']

/-- The lines of a text that begin with a bar. -/
def barred (text : String) : List (List Char) :=
  (lines text.toList).filter (·.head? = some '│')

theorem Ruled.head? {contents : List (List Char)} (ruled : Ruled contents line) :
    line.head? = some '│' := by
  obtain ⟨texts, -, rfl⟩ := ruled
  rfl

/-- The widths of the columns of a table. -/
def columns (t : Table) : List Nat := Table.widths (cells t.header :: t.rows.map cells)

end Table

namespace Report

/-- The JSON object of an entry of a catalog. -/
structure IsEntry (e : CatalogEntry) (row : Json) : Prop where
  name : row.field? "namespace" = some (.text e.ns.shown)
  db : row.field? "db" = some (.text e.ns.db)
  collection : row.field? "collection" = some (.text e.ns.collection)
  metadata : row.field? "metadata" = some (.text e.metadata)

/-- The JSON object of a catalog. -/
structure IsCatalog (archive : String) (c : Catalog) (j : Json) : Prop where
  schema : j.field? "schema_id" = some (.text (schema "archive-prelude"))
  archive : j.field? "archive" = some (.text archive)
  version : j.field? "format_version" = some (.text c.header.version)
  concurrent : j.field? "concurrent_collections" = some (.number c.header.concurrent.toInt)
  databases : j.field? "databases" = some (.list (c.databases.map .text))
  collections : ∃ rows, j.field? "collections" = some (.list rows) ∧
    List.Forall₂ IsEntry c.entries rows

/-- A text reports a catalog: its header and each namespace with its description, in order, or by
databases where it is plain. -/
def Lists (format : OutputFormat) (archive : String) (c : Catalog) (text : String) : Prop :=
  match format with
  | .json => ∃ line j, text = line ++ "\n" ∧ Json.Denotes line.toList j ∧ IsCatalog archive c j
  | .table => ∃ table, text = s!"Archive:                {archive}" ++ "\n" ++
        s!"Format version:         {c.header.version}" ++ "\n" ++
        s!"Concurrent collections: {c.header.concurrent.toInt}" ++ "\n" ++ table ++ "\n" ∧
      List.Forall₂ Table.Ruled
        ((["NAMESPACE", "METADATA"] :: c.entries.map fun e => [e.ns.shown, e.metadata]).flatMap
          Table.contents)
        (Table.barred table)
  | .pretty => text =
      s!"version={c.header.version} concurrent_collections={c.header.concurrent.toInt}" ++ "\n" ++
        String.join (c.databases.map fun db => db ++ "\n" ++
          String.join ((c.collectionsIn db).map fun e =>
            s!"  {e.ns.collection} {e.metadata}" ++ "\n"))

end Report
end DumpArchive
