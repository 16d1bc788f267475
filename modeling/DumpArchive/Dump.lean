import DumpArchive.Catalog
import DumpArchive.Dump.Pool

/-! Writing a whole archive: the catalog, then the records of every namespace, the largest
namespaces first. -/
namespace DumpArchive.Dump

open Multiplexer (Exchange)
open Token (Writer)

structure Settings where
  max : UInt64
  cap : Option UInt64

def defaultConcurrency : UInt64 := 4

def Settings.default : Settings := ⟨Record.defaultMax, none⟩

/-- A dump has one worker at least. -/
def effectiveConcurrency (asked : UInt64) : UInt64 := if asked = 0 then 1 else asked

/-- The number in the archive header, as far as it can hold it. -/
def concurrentField (concurrency : UInt64) : Int32 := Int32.ofNat (min concurrency.toNat 0x7FFFFFFF)

/-- Largest first; ties keep their order. -/
def ordered (intents : List Intent) : List Intent :=
  intents.mergeSort fun a b => b.size ≤ a.size

def catalog (concurrency : UInt64) (intents : List Intent) : Except Namespace Catalog :=
  Catalog.ofEntries (.current (concurrentField concurrency))
    (intents.map fun i => ⟨i.ns, i.metadata⟩)

/-- Opens the first namespaces before the engine starts, one for each worker. -/
def enlist (index : Nat) : List Intent → Exchange → Except EngineError (List Worker × Exchange)
  | [], x => .ok ([], x)
  | intent :: rest, x => match x.open? intent.ns with
    | .error e => .error e
    | .ok (producer, x) => match enlist (index + 1) rest x with
      | .error e => .error e
      | .ok (workers, x) => .ok (⟨index, intent.ns, producer, .opening intent⟩ :: workers, x)

/-- The pool at the moment the engine and the workers start. -/
def begin (concurrency : UInt64) (intents : List Intent) (x : Exchange) : Except EngineError Pool :=
  match enlist 0 (intents.take concurrency.toNat) x with
  | .error e => .error e
  | .ok (workers, x) => .ok ⟨x.run, intents.drop concurrency.toNat, false, workers⟩

/-- Rounds that suffice: a few for each namespace and for each record, and a record has five
bytes at least. -/
def rounds (intents : List Intent) : Nat :=
  intents.foldl (fun n i => n + 4 * i.bytes + 16) 64

/-- Writes an archive. Returns what was dumped, and the writer with everything written. -/
def write (settings : Settings) (concurrency : UInt64) (intents : List Intent) (sink : Sink) :
    Except EngineError Summary × Writer :=
  let intents := ordered intents
  let writer := Writer.start sink settings.max
  match catalog concurrency intents with
  | .error ns => (.error (.frame (.duplicateNamespace ns.shown)), writer)
  | .ok catalog => match catalog.write writer with
    | (.error e, writer) => (.error (.frame e), writer)
    | (.ok (), writer) =>
      match begin concurrency intents (.start (.start writer settings.cap)) with
      | .error e => (.error e, writer)
      | .ok pool =>
        let pool := pool.settleWithin (rounds intents)
        (pool.result, pool.exchange.engine.writer)

end DumpArchive.Dump
