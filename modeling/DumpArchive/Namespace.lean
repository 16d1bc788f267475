/-! A namespace is a database and a collection in it. -/
namespace DumpArchive

structure Namespace where
  db : String
  collection : String
  deriving DecidableEq, Repr

namespace Namespace

/-- The text form. A dot may also stand inside either part, so two namespaces can share it. -/
def shown (ns : Namespace) : String := ns.db ++ "." ++ ns.collection

/-- Neither part is empty. -/
def isNamed (ns : Namespace) : Bool := ns.db ≠ "" && ns.collection ≠ ""

/-- Splits at the first dot; both parts must be non-empty. -/
def parse? (s : String) : Option Namespace :=
  match s.toList.span (· ≠ '.') with
  | (c :: db, _ :: d :: collection) =>
    some ⟨String.ofList (c :: db), String.ofList (d :: collection)⟩
  | _ => none

/-- Why a text was not read as a namespace. -/
def refusal (s : String) : String := s!"'{s}' is not a <db>.<collection> namespace"

/-- By database, then by collection, in the order of code points. -/
def precedes (a b : Namespace) : Bool :=
  a.db < b.db || (a.db = b.db && a.collection < b.collection)

/-- Puts a namespace into its place in an ordered list that has it at most once. -/
def insert (ns : Namespace) : List Namespace → List Namespace
  | [] => [ns]
  | other :: rest =>
    if ns = other then other :: rest
    else if ns.precedes other then ns :: other :: rest
    else other :: insert ns rest

/-- The same namespaces in order, each once. -/
def ordered (list : List Namespace) : List Namespace :=
  list.foldl (fun sorted ns => insert ns sorted) []

end Namespace
end DumpArchive
