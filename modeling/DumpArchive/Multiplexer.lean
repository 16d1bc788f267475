import DumpArchive.Header
import DumpArchive.Registry
import DumpArchive.Summary
import DumpArchive.Token.Writer

/-! The multiplexer joins the records of many producers into one stream of blocks. It handles
one event at a time, starts a new block only when the namespace changes, and ends a namespace
by a block that has no records. -/
namespace DumpArchive

open Token (Writer)

structure Multiplexer where
  writer : Writer
  /-- Each open namespace has the number of its producer. -/
  registry : Registry Nat
  nextProducer : Nat
  /-- The namespace whose block is unfinished. -/
  current : Option Namespace
  summary : Summary

namespace Multiplexer

/-- What producers post. -/
inductive Event where
  | record (producer : Nat) (bytes : Bytes)
  | closed (producer : Nat)
  deriving DecidableEq, Repr

/-- Goes on with a writer that may already have written a catalog. -/
def start (writer : Writer) (cap : Option UInt64) : Multiplexer :=
  ⟨writer, .empty cap, 0, none, .empty⟩

def open? (ns : Namespace) (m : Multiplexer) : Except EngineError (Nat × Multiplexer) :=
  match m.registry.add ns m.nextProducer with
  | .error e => .error e
  | .ok registry =>
    .ok (m.nextProducer, { m with registry, nextProducer := m.nextProducer + 1 })

/-- The namespace of a producer that is still registered. -/
def namespaceOf? (m : Multiplexer) (producer : Nat) : Option Namespace :=
  (m.registry.entries.find? (·.2 = producer)).map (·.1)

/-- Ends the unfinished block, if there is one. -/
def leaving (m : Multiplexer) : List Token :=
  if m.current.isSome then [.delimiter] else []

/-- What stands before a record of `ns`. -/
def entering (ns : Namespace) (m : Multiplexer) : List Token :=
  if m.current = some ns then []
  else m.leaving ++ [.record (CollectionHeader.record ⟨ns, false⟩)]

/-- The block that ends `ns`. -/
def ending (ns : Namespace) (m : Multiplexer) : List Token :=
  m.leaving ++ [.record (CollectionHeader.record ⟨ns, true⟩), .delimiter]

/-- Handles one event. The answer is what the producer of a written record is told; events of
producers that are not registered change nothing. A block that could not be begun or ended is
not the current one. -/
def handle (event : Event) (m : Multiplexer) :
    Except FrameError (Option (Nat × Nat)) × Multiplexer :=
  match event with
  | .record producer bytes => match m.namespaceOf? producer with
    | none => (.ok none, m)
    | some ns => match m.writer.writeTokens (m.entering ns) with
      | (.error e, writer) => (.error e, { m with writer, current := none })
      | (.ok (), writer) => match writer.writeToken (.record bytes) with
        | (.error e, writer) => (.error e, { m with writer, current := some ns })
        | (.ok (), writer) =>
          (.ok (some (producer, bytes.length)),
            { m with writer, current := some ns, summary := m.summary.count ns bytes })
  | .closed producer => match m.namespaceOf? producer with
    | none => (.ok none, m)
    | some ns => match m.writer.writeTokens (m.ending ns) with
      | (.error e, writer) => (.error e, { m with writer, current := none })
      | (.ok (), writer) =>
        (.ok none,
          { m with
            writer
            current := none
            registry := m.registry.close ns
            summary := m.summary.touch ns })

/-- Stops for want of producers: flushes the output and hands over the summary. -/
def finish (m : Multiplexer) : Except FrameError Summary × Multiplexer :=
  match m.writer.flush with
  | (.error e, writer) => (.error e, { m with writer, registry := m.registry.abandon })
  | (.ok (), writer) =>
    (.ok m.summary, { m with writer, registry := m.registry.finish, summary := .empty })

/-- Stops because of an error: the producers that are left are let go. -/
def abandon (m : Multiplexer) : Multiplexer := { m with registry := m.registry.abandon }

end Multiplexer
end DumpArchive
