import DumpArchive.Catalog
import DumpArchive.Demultiplexer.Drive
import DumpArchive.Demultiplexer.Outlet
import DumpArchive.Stream.Sink

/-! Reading a whole archive: the catalog first, then every record, either into the sinks of some
namespaces or only to be counted. -/
namespace DumpArchive.Restore

open Token (Reader)

/-- An archive whose catalog has been read. -/
structure Archive where
  reader : Reader
  catalog : Catalog
  cap : Option UInt64

/-- Opens an archive; the reader shows how far that got. -/
def openArchive (source : Source) (max : UInt64) (cap : Option UInt64) :
    Except FrameError Archive × Reader :=
  match Catalog.read (.start source max) with
  | (.error e, reader) => (.error e, reader)
  | (.ok catalog, reader) => (.ok ⟨reader, catalog, cap⟩, reader)

/-- What happens when the destination of a namespace is asked for. -/
inductive Destination where
  | opens (sink : Sink)
  | refuses (error : IoError)
  /-- The worker that asks does not survive it. -/
  | crashes

structure Intent where
  ns : Namespace
  destination : Destination

/-- A worker that stores the records of one namespace. -/
structure Worker where
  ns : Namespace
  outlet : Nat
  /-- What the destination has accepted. -/
  sink : Sink
  /-- Why the worker has let go of its namespace. -/
  trouble : Option EngineError

/-- The error of a destination that takes nothing. -/
def stuck : IoError := ⟨.other, "failed to write whole buffer"⟩

namespace Worker

/-- A worker begins by opening its destination. -/
def begin (intent : Intent) (outlet : Nat) : Worker :=
  match intent.destination with
  | .opens sink => ⟨intent.ns, outlet, sink, none⟩
  | .refuses error => ⟨intent.ns, outlet, .empty, some (.io intent.ns.shown error)⟩
  | .crashes =>
    ⟨intent.ns, outlet, .empty, some (.workerCrashed s!"restore worker for {intent.ns.shown}")⟩

/-- Takes a record and stores it. A worker in trouble takes no more. -/
def take (record : Bytes) (w : Worker) : Bool × Worker :=
  match w.trouble with
  | some _ => (false, w)
  | none => match w.sink.writeAll stuck record with
    | (.ok (), sink) => (true, { w with sink })
    | (.error e, sink) => (true, { w with sink, trouble := some (.io w.ns.shown e) })

/-- After the end of its namespace a worker flushes once; otherwise the engine left it. -/
def conclude (signal : Signal) (w : Worker) : Worker :=
  match w.trouble, signal with
  | some _, _ => w
  | none, .ended => match w.sink.flush with
    | (.ok (), sink) => { w with sink }
    | (.error e, sink) => { w with sink, trouble := some (.io w.ns.shown e) }
  | none, _ => { w with trouble := some (.engineGone w.ns.shown) }

end Worker

/-- Hands a record to the worker of an outlet. -/
def offer (outlet : Nat) (record : Bytes) : List Worker → Bool × List Worker
  | [] => (false, [])
  | w :: rest =>
    if w.outlet = outlet then
      let (taken, w) := w.take record
      (taken, w :: rest)
    else
      let (taken, rest) := offer outlet record rest
      (taken, w :: rest)

def workers : Demultiplexer.Consumers (List Worker) where
  wake _ roster list := (roster, list)
  offer outlet record roster list :=
    let (taken, list) := offer outlet record list
    (taken, roster, list)

/-- Registers a consumer for each intent. -/
def enlist : List Intent → Roster → Except EngineError (List Worker × Roster)
  | [], roster => .ok ([], roster)
  | intent :: rest, roster => match roster.open? intent.ns with
    | .error e => .error e
    | .ok (outlet, roster) => match enlist rest roster with
      | .error e => .error e
      | .ok (list, roster) => .ok (.begin intent outlet :: list, roster)

/-- Admits namespaces that nobody wants. -/
def discardAll : List Namespace → Roster → Except EngineError Roster
  | [], roster => .ok roster
  | ns :: rest, roster => match roster.discard? ns with
    | .error e => .error e
    | .ok roster => discardAll rest roster

/-- A consumer that hung up makes the engine fail too; then the reason is the worker's. -/
def rootCause (result : Except EngineError Summary) (list : List Worker) :
    Except EngineError Summary :=
  let trouble := list.findSome? fun w => match w.trouble with
    | some (.engineGone _) => none
    | trouble => trouble
  match result, trouble with
  | .error (.consumerGone _), some e => .error e
  | .error e, _ => .error e
  | .ok _, some e => .error e
  | .ok summary, none => .ok summary

/-- Whether an archive has every namespace that is asked for, each once, within the cap: the
roster and the workers if so. -/
def prepare (intents : List Intent) (a : Archive) : Except EngineError (List Worker × Roster) :=
  match intents.find? (·.ns ∉ a.catalog.namespaces) with
  | some intent => .error (.unknown intent.ns.shown)
  | none => match enlist intents ⟨.empty a.cap, 0⟩ with
    | .error e => .error e
    | .ok (list, roster) =>
      match discardAll (a.catalog.namespaces.filter (· ∉ intents.map (·.ns))) roster with
      | .error e => .error e
      | .ok roster => .ok (list, roster)

/-- Restores some namespaces of an archive and reads past the others. Returns the workers with
what their destinations have accepted; none if the request is refused. -/
def restore (intents : List Intent) (a : Archive) : Except EngineError Summary × List Worker :=
  match prepare intents a with
  | .error e => (.error e, [])
  | .ok (list, roster) =>
    let engine := { Demultiplexer.start a.reader a.cap with roster }
    let (engine, list) := Demultiplexer.drive workers engine.run list
    let list := list.map fun w => w.conclude (engine.signal w.outlet)
    (rootCause engine.result list, list)

/-- Reads every record of an archive and keeps none. -/
def verify (a : Archive) : Except EngineError Summary :=
  match discardAll a.catalog.namespaces ⟨.empty a.cap, 0⟩ with
  | .error e => .error e
  | .ok roster =>
    let engine := { Demultiplexer.start a.reader a.cap with roster }
    (Demultiplexer.drive .none engine.run ()).1.result

end DumpArchive.Restore
