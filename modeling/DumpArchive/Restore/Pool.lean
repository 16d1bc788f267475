import DumpArchive.Restore

/-! A restore whose engine and workers take turns in any order. The engine waits while a record is
on offer to a worker that is still at work; in a run of `Restore.restore` nobody keeps it waiting. -/
namespace DumpArchive.Restore

/-- A worker and what it does next. -/
inductive Thread where
  /-- The destination has not been opened. -/
  | opening (intent : Intent) (outlet : Nat)
  | waiting (worker : Worker)
  /-- A record has been taken and is about to be stored. -/
  | storing (record : Bytes) (worker : Worker)
  /-- The worker has let go of its namespace. -/
  | done (worker : Worker)

namespace Thread

def outlet : Thread → Nat
  | .opening _ outlet => outlet
  | .waiting w => w.outlet
  | .storing _ w => w.outlet
  | .done w => w.outlet

def worker : Thread → Worker
  | .opening intent outlet => .begin intent outlet
  | .waiting w => w
  | .storing _ w => w
  | .done w => w

def isDone : Thread → Bool
  | .done _ => true
  | _ => false

/-- A worker goes on unless it is in trouble. -/
def proceed (w : Worker) : Thread :=
  match w.trouble with
  | none => .waiting w
  | some _ => .done w

/-- A worker that finds no record goes on waiting, or is told how its namespace has come to its
end. -/
def listen (d : Demultiplexer) (w : Worker) : Thread :=
  match d.signal w.outlet with
  | .live => .waiting w
  | signal => .done (w.conclude signal)

/-- One turn of a worker. It changes the engine when it takes a record. -/
def turn (d : Demultiplexer) : Thread → Demultiplexer × Thread
  | .opening intent outlet => (d, proceed (.begin intent outlet))
  | .storing record w => (d, proceed (w.take record).2)
  | .done w => (d, .done w)
  | .waiting w => match d.stage with
    | .offering _ number record =>
      if number = w.outlet then (d.resolve true, .storing record w) else (d, listen d w)
    | _ => (d, listen d w)

end Thread

structure Pool where
  engine : Demultiplexer
  threads : List Thread

namespace Pool

inductive Actor where
  | engine
  | worker (index : Nat)
  deriving DecidableEq, Repr

/-- Whether somebody may still take a record at an outlet. -/
def attends (number : Nat) (p : Pool) : Bool :=
  p.threads.any fun t => t.outlet = number && !t.isDone

/-- A turn of the engine. A record that nobody will take makes it fail. -/
def turn (p : Pool) : Pool :=
  match p.engine.stage with
  | .offering _ number _ =>
    if p.attends number then p else { p with engine := p.engine.resolve false }
  | _ => { p with engine := p.engine.step }

/-- One turn of one actor; an actor that has to wait changes nothing. -/
def step (actor : Actor) (p : Pool) : Pool :=
  match actor with
  | .engine => p.turn
  | .worker index => match p.threads[index]? with
    | none => p
    | some t =>
      let (engine, t) := t.turn p.engine
      ⟨engine, p.threads.set index t⟩

def execute (schedule : List Actor) (p : Pool) : Pool :=
  schedule.foldl (fun p actor => step actor p) p

def actors (p : Pool) : List Actor :=
  .engine :: (List.range p.threads.length).map .worker

def isDone (p : Pool) : Bool :=
  (match p.engine.stage with
    | .stopped _ => true
    | _ => false) && p.threads.all Thread.isDone

/-- What a run has come to, and the workers. -/
def outcome (p : Pool) : Except EngineError Summary × List Worker :=
  let workers := p.threads.map Thread.worker
  (rootCause p.engine.result workers, workers)

/-- The engine and the workers at the moment they start. -/
def muster (intents : List Intent) (a : Archive) : Except EngineError Pool :=
  match prepare intents a with
  | .error e => .error e
  | .ok (list, roster) =>
    let engine := { Demultiplexer.start a.reader a.cap with roster }
    .ok ⟨engine.run, (intents.zip list).map fun p => .opening p.1 p.2.outlet⟩

end Pool
end DumpArchive.Restore
