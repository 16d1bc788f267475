import DumpArchive.Block
import DumpArchive.Header
import DumpArchive.Registry
import DumpArchive.Summary

/-! The demultiplexer takes a stream of blocks apart. Each record goes to the outlet that is
registered for its namespace, or is only counted. The engine hands a record over and waits
until the consumer has taken it or is found to be gone. -/
namespace DumpArchive

open Token (Reader)

/-- Where the records of a namespace go. -/
inductive Route where
  | discard
  | outlet (number : Nat)
  deriving DecidableEq, Repr

/-- The part of a demultiplexer that others may change while it runs. -/
structure Roster where
  registry : Registry Route
  nextOutlet : Nat

namespace Roster

/-- Registers a consumer and numbers its outlet. -/
def open? (ns : Namespace) (r : Roster) : Except EngineError (Nat × Roster) :=
  match r.registry.add ns (.outlet r.nextOutlet) with
  | .error e => .error e
  | .ok registry => .ok (r.nextOutlet, ⟨registry, r.nextOutlet + 1⟩)

/-- Admits a namespace whose records are only counted. -/
def discard? (ns : Namespace) (r : Roster) : Except EngineError Roster :=
  match r.registry.add ns .discard with
  | .error e => .error e
  | .ok registry => .ok { r with registry }

end Roster

/-- What a consumer finds when no record is on offer. -/
inductive Signal where
  | live
  | ended
  | gone
  deriving DecidableEq, Repr

namespace Demultiplexer

/-- The stage `ending` lies between the last token of a run and the moment the registry is shut. -/
inductive Stage where
  | idle
  | reading
  | offering (ns : Namespace) (outlet : Nat) (record : Bytes)
  | ending (result : Except EngineError Unit)
  | stopped (result : Except EngineError Summary)

end Demultiplexer

structure Demultiplexer where
  reader : Reader
  roster : Roster
  stage : Demultiplexer.Stage
  place : Block.Place
  /-- The namespace whose block is being read. -/
  current : Option (Namespace × Route)
  summary : Summary
  /-- Outlets whose namespace has ended in the stream. -/
  ended : List Nat

namespace Demultiplexer

/-- Goes on with a reader that may already have read a catalog. -/
def start (reader : Reader) (cap : Option UInt64) : Demultiplexer :=
  ⟨reader, ⟨.empty cap, 0⟩, .idle, .between, none, .empty, []⟩

/-- Begins a run at the reader's position. -/
def run (d : Demultiplexer) : Demultiplexer :=
  { d with stage := .reading, place := .between, current := none, summary := .empty }

def reject (offset : Nat) (defect : Defect) (d : Demultiplexer) : Demultiplexer :=
  { d with stage := .ending (.error (.frame (.corrupt offset defect))) }

/-- A header selects a registered namespace or, with its end mark, ends it. -/
def readHeader (offset : Nat) (record : Bytes) (d : Demultiplexer) : Demultiplexer :=
  match CollectionHeader.ofRecord? record with
  | none => d.reject offset .notCollectionHeader
  | some header =>
    let ns := header.ns
    if ns.isNamed = false then d.reject offset (.unnamedHeader ns.shown)
    else match d.roster.registry.find? ns with
      | none => d.reject offset (.unregisteredHeader ns.shown)
      | some route =>
        if header.eof then
          { d with
            roster := { d.roster with registry := d.roster.registry.close ns }
            current := none
            summary := d.summary.touch ns
            ended := match route with
              | .discard => d.ended
              | .outlet number => number :: d.ended }
        else { d with current := some (ns, route) }

def readBody (offset : Nat) (record : Bytes) (d : Demultiplexer) : Demultiplexer :=
  match d.current with
  | none => d.reject offset .orphanRecord
  | some (ns, .discard) => { d with summary := d.summary.count ns record }
  | some (ns, .outlet number) => { d with stage := .offering ns number record }

/-- The input may end only when every registered namespace has. -/
def readEnd (offset : Nat) (d : Demultiplexer) : Demultiplexer :=
  match d.roster.registry.entries with
  | [] => { d with stage := .ending (.ok ()) }
  | entries =>
    d.reject offset (.unfinished ((entries.map (·.1.shown)).mergeSort (fun a b => a ≤ b)))

/-- Deals with one part of the stream. -/
def dispatch (part : Block.Part) (d : Demultiplexer) : Demultiplexer :=
  match part with
  | .header offset record => { d with place := .inside }.readHeader offset record
  | .body offset record => d.readBody offset record
  | .close => { d with place := .between }
  | .finish offset => d.readEnd offset

/-- One turn of the engine; none while a record is on offer. -/
def step (d : Demultiplexer) : Demultiplexer :=
  match d.stage with
  | .reading => match Block.nextPart d.place d.reader with
    | (.error e, reader) => { d with reader, stage := .ending (.error (.frame e)) }
    | (.ok part, reader) => { d with reader }.dispatch part
  | .ending (.ok ()) =>
    { d with
      stage := .stopped (.ok d.summary)
      roster := { d.roster with registry := d.roster.registry.finish } }
  | .ending (.error e) =>
    { d with
      stage := .stopped (.error e)
      roster := { d.roster with registry := d.roster.registry.abandon }
      current := none }
  | _ => d

/-- The consumer has taken the record on offer, or is gone. -/
def resolve (taken : Bool) (d : Demultiplexer) : Demultiplexer :=
  match d.stage with
  | .offering ns _ record =>
    if taken then { d with stage := .reading, summary := d.summary.count ns record }
    else { d with stage := .ending (.error (.consumerGone ns.shown)) }
  | _ => d

/-- An outlet is live while the registry or the block being read leads to it. -/
def signal (d : Demultiplexer) (outlet : Nat) : Signal :=
  if outlet ∈ d.ended then .ended
  else if d.roster.registry.entries.any (·.2 = .outlet outlet) then .live
  else match d.current with
    | some (_, .outlet number) => if number = outlet then .live else .gone
    | _ => .gone

end Demultiplexer
end DumpArchive
