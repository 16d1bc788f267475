import DumpArchive.Multiplexer.Exchange
import DumpArchive.Token.Reader

/-! The workers of a dump. Each reads the records of one namespace after another from a shared
queue and posts them to the multiplexer. A worker opens its next namespace before it closes the
present one, so the engine never finds the registry empty while work is left. -/
namespace DumpArchive.Dump

open Multiplexer (Exchange)
open Token (Reader)

/-- What happens when the records of a namespace are asked for. -/
inductive Origin where
  | opens (source : Source)
  | refuses (error : IoError)
  /-- The worker that asks does not survive it. -/
  | crashes

structure Intent where
  ns : Namespace
  metadata : String
  /-- Larger namespaces are dumped first. -/
  size : UInt64
  origin : Origin

def Intent.bytes (i : Intent) : Nat :=
  match i.origin with
  | .opens source => source.pending.length
  | _ => 0

/-- What a worker does next. -/
inductive Stage where
  | opening (intent : Intent)
  | reading (reader : Reader)
  | waiting (reader : Reader)
  | checking
  | choosing
  | attaching (next : Intent)
  | closing (next : Option (Intent × Nat))
  /-- An error unwinds the worker: its namespace is closed, then the others are told. -/
  | unwinding (error : EngineError)
  | failing (error : EngineError)
  | done (result : Except EngineError Unit)

structure Worker where
  index : Nat
  ns : Namespace
  producer : Nat
  stage : Stage

structure Pool where
  exchange : Exchange
  queue : List Intent
  failed : Bool
  workers : List Worker

/-- The error of a source as the dump reports it. -/
def sourceError (ns : Namespace) : FrameError → EngineError
  | .io error => .io ns.shown error
  | error => .frame error

def crash (w : Worker) : EngineError := .workerCrashed s!"dump worker {w.index}"

/-- A crash is not announced to the other workers. -/
def announced : EngineError → Bool
  | .workerCrashed _ => false
  | _ => true

namespace Worker

def enter (stage : Stage) (w : Worker) : Worker := { w with stage }

/-- One turn of a worker: its own next state and the shared state. The engine exists as long as
there are workers, so the mailbox takes every event. -/
def turn (w : Worker) (p : Pool) : Worker × Pool :=
  match w.stage with
  | .opening intent => match intent.origin with
    | .opens source => (w.enter (.reading (.start source p.exchange.engine.writer.max)), p)
    | .refuses error => (w.enter (.unwinding (.io w.ns.shown error)), p)
    | .crashes => (w.enter (.unwinding (crash w)), p)
  | .reading reader => match reader.nextRecord with
    | (.error e, _) => (w.enter (.unwinding (sourceError w.ns e)), p)
    | (.ok none, _) => (w.enter .checking, p)
    | (.ok (some record), reader) =>
      match Record.check record p.exchange.engine.writer.max with
      | .error e => (w.enter (.unwinding (.frame e)), p)
      | .ok () => match p.exchange.post? (.record w.producer record) with
        | some exchange => (w.enter (.waiting reader), { p with exchange })
        | none => (w.enter (.unwinding (.engineGone w.ns.shown)), p)
  | .waiting reader => match p.exchange.answer? w.producer w.ns with
    | (none, _) => (w, p)
    | (some (.ok _), exchange) => (w.enter (.reading reader), { p with exchange })
    | (some (.error e), exchange) => (w.enter (.unwinding e), { p with exchange })
  | .checking => (w.enter (if p.failed then .closing none else .choosing), p)
  | .choosing => match p.queue with
    | [] => (w.enter (.closing none), p)
    | next :: queue => (w.enter (.attaching next), { p with queue })
  | .attaching next => match p.exchange.open? next.ns with
    | .error e => (w.enter (.unwinding e), p)
    | .ok (producer, exchange) => (w.enter (.closing (some (next, producer))), { p with exchange })
  | .closing next =>
    let exchange := (p.exchange.post? (.closed w.producer)).getD p.exchange
    match next with
    | none => (w.enter (.done (.ok ())), { p with exchange })
    | some (intent, producer) =>
      ({ w with ns := intent.ns, producer, stage := .opening intent }, { p with exchange })
  | .unwinding e =>
    let exchange := (p.exchange.post? (.closed w.producer)).getD p.exchange
    (w.enter (.failing e), { p with exchange })
  | .failing e => (w.enter (.done (.error e)), { p with failed := p.failed || announced e })
  | .done _ => (w, p)

def isDone (w : Worker) : Bool :=
  match w.stage with
  | .done _ => true
  | _ => false

def result (w : Worker) : Except EngineError Unit :=
  match w.stage with
  | .done result => result
  | _ => .ok ()

end Worker

namespace Pool

/-- Whose turn it is. -/
inductive Actor where
  | engine
  | worker (index : Nat)
  deriving DecidableEq, Repr

/-- One turn of one actor; an actor that has to wait changes nothing. -/
def step (actor : Actor) (p : Pool) : Pool :=
  match actor with
  | .engine => { p with exchange := p.exchange.step }
  | .worker index => match p.workers[index]? with
    | none => p
    | some w =>
      let (w, p) := w.turn p
      { p with workers := p.workers.set index w }

def execute : List Actor → Pool → Pool
  | [], p => p
  | actor :: schedule, p => execute schedule (step actor p)

def isDone (p : Pool) : Bool :=
  (match p.exchange.phase with
    | .stopped _ => true
    | _ => false) && p.workers.all Worker.isDone

/-- Everyone's turn once, the engine first. -/
def round (p : Pool) : Pool :=
  execute (.engine :: (List.range p.workers.length).map .worker) p

def settleWithin : Nat → Pool → Pool
  | 0, p => p
  | fuel + 1, p => if p.isDone then p else settleWithin fuel p.round

/-- A run of a dump: the engine's error first, then that of the first worker that has one. -/
def result (p : Pool) : Except EngineError Summary :=
  match p.exchange.phase with
  | .stopped (.error e) => .error (.frame e)
  | .stopped (.ok summary) =>
    match p.workers.findSome? (fun w => match w.result with
      | .error e => some e
      | .ok () => none) with
    | some e => .error e
    | none => .ok summary
  | _ => .ok p.exchange.engine.summary

end Pool
end DumpArchive.Dump
