import DumpArchive.Demultiplexer

/-! The consumer's end of a namespace. Records can be taken whole, or as a stream of bytes that
keeps the rest of a record for the next call; taking a whole record leaves such a rest alone. -/
namespace DumpArchive

structure Outlet where
  ns : Namespace
  number : Nat
  /-- The rest of a record that was read in part. -/
  pending : Bytes
  /-- The end of the namespace was reported once and will be reported for good. -/
  ended : Bool

namespace Outlet

def fresh (ns : Namespace) (number : Nat) : Outlet := ⟨ns, number, [], false⟩

/-- What one wait on the engine yields. -/
inductive Supply where
  | record (bytes : Bytes)
  | nothing
  | ended
  | gone
  deriving DecidableEq, Repr

def Supply.ofSignal : Signal → Supply
  | .live => .nothing
  | .ended => .ended
  | .gone => .gone

/-- The next record, or nothing after the end of the namespace. No answer yet if the call has
to wait. -/
def readRecord (supply : Supply) (o : Outlet) :
    Option (Except EngineError (Option Bytes)) × Outlet :=
  if o.ended then (some (.ok none), o)
  else match supply with
    | .record bytes => (some (.ok (some bytes)), o)
    | .nothing => (none, o)
    | .ended => (some (.ok none), { o with ended := true })
    | .gone => (some (.error (.engineGone o.ns.shown)), o)

/-- The first bytes of what is pending. -/
def takePending (n : Nat) (o : Outlet) : Bytes × Outlet :=
  (o.pending.take n, { o with pending := o.pending.drop n })

/-- At most `n` bytes; none at the end of the namespace. -/
def readBytes (n : Nat) (supply : Supply) (o : Outlet) :
    Option (Except EngineError Bytes) × Outlet :=
  if n = 0 then (some (.ok []), o)
  else if o.pending ≠ [] then
    let (bytes, o) := o.takePending n
    (some (.ok bytes), o)
  else match o.readRecord supply with
    | (none, o) => (none, o)
    | (some (.error e), o) => (some (.error e), o)
    | (some (.ok none), o) => (some (.ok []), o)
    | (some (.ok (some record)), o) =>
      let (bytes, o) := ({ o with pending := record } : Outlet).takePending n
      (some (.ok bytes), o)

end Outlet
end DumpArchive
