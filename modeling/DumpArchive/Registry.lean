import DumpArchive.Error
import DumpArchive.Namespace

/-! Which namespaces an engine serves at the moment, and which it will not serve again. -/
namespace DumpArchive

structure Registry (α : Type) where
  /-- Newest last. -/
  entries : List (Namespace × α)
  closed : List Namespace
  finished : Bool
  cap : Option UInt64

namespace Registry

variable {α : Type}

def empty (cap : Option UInt64) : Registry α := ⟨[], [], false, cap⟩

def count (r : Registry α) : Nat := r.entries.length

def find? (r : Registry α) (ns : Namespace) : Option α :=
  (r.entries.find? (·.1 = ns)).map (·.2)

/-- The cap, if another entry would exceed it. -/
def full? (r : Registry α) : Option UInt64 :=
  r.cap.filter fun max => max.toNat ≤ r.count

/-- Adds an entry for a namespace that has none and never had one. -/
def add (ns : Namespace) (a : α) (r : Registry α) : Except EngineError (Registry α) :=
  if ns.isNamed = false then .error (.invalid ns.shown)
  else if r.finished then .error (.finished ns.shown)
  else if r.entries.any (·.1 = ns) then .error (.inUse ns.shown)
  else if ns ∈ r.closed then .error (.alreadyClosed ns.shown)
  else match r.full? with
    | some max => .error (.tooMany max)
    | none => .ok { r with entries := r.entries ++ [(ns, a)] }

/-- Ends a namespace for good. -/
def close (ns : Namespace) (r : Registry α) : Registry α :=
  { r with entries := r.entries.filter (·.1 ≠ ns), closed := ns :: r.closed }

/-- Admits no entry from now on. -/
def finish (r : Registry α) : Registry α := { r with finished := true }

/-- Finishes and drops every entry. -/
def abandon (r : Registry α) : Registry α := { r with entries := [], finished := true }

end Registry
end DumpArchive
