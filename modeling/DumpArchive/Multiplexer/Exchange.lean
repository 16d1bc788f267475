import DumpArchive.Multiplexer

/-! The exchange between a multiplexer and its producers: one mailbox for all of them, and an
acknowledgement for each record. Producers and the engine take turns in any order; `step` is
one turn of the engine. -/
namespace DumpArchive.Multiplexer

inductive Phase where
  | ready
  | running
  | stopped (result : Except FrameError Summary)
  | dropped

structure Exchange where
  engine : Multiplexer
  /-- Oldest first. -/
  mailbox : List Event
  /-- Producers that have not fetched their acknowledgement, with the size that was written. -/
  acks : List (Nat × Nat)
  phase : Phase

namespace Exchange

def start (engine : Multiplexer) : Exchange := ⟨engine, [], [], .ready⟩

def open? (ns : Namespace) (x : Exchange) : Except EngineError (Nat × Exchange) :=
  match x.engine.open? ns with
  | .error e => .error e
  | .ok (producer, engine) => .ok (producer, { x with engine })

/-- The mailbox takes events as long as the engine exists, whether it runs or not. -/
def post? (event : Event) (x : Exchange) : Option Exchange :=
  match x.phase with
  | .dropped => none
  | _ => some { x with mailbox := x.mailbox ++ [event] }

def run (x : Exchange) : Exchange := { x with phase := .running }

def drop (x : Exchange) : Exchange := { x with phase := .dropped, mailbox := [] }

/-- One turn of a running engine: it stops if no producer is registered, else it takes the
oldest event, else it waits. -/
def step (x : Exchange) : Exchange :=
  match x.phase with
  | .running =>
    if x.engine.registry.entries.isEmpty then
      let (result, engine) := x.engine.finish
      { x with engine, phase := .stopped result }
    else match x.mailbox with
      | [] => x
      | event :: mailbox => match x.engine.handle event with
        | (.error e, engine) =>
          { x with engine := engine.abandon, mailbox, phase := .stopped (.error e) }
        | (.ok none, engine) => { x with engine, mailbox }
        | (.ok (some ack), engine) => { x with engine, mailbox, acks := x.acks ++ [ack] }
  | _ => x

/-- Turns of the engine until it has stopped or waits. -/
def settleWithin : Nat → Exchange → Exchange
  | 0, x => x
  | fuel + 1, x => settleWithin fuel x.step

def settle (x : Exchange) : Exchange := x.settleWithin (x.mailbox.length + 1)

/-- What a producer that waits for its acknowledgement learns; nothing yet while it is
registered and the record was not written. -/
def answer? (producer : Nat) (ns : Namespace) (x : Exchange) :
    Option (Except EngineError Nat) × Exchange :=
  match x.acks.find? (·.1 = producer) with
  | some (_, size) =>
    (some (.ok size), { x with acks := x.acks.filter (·.1 ≠ producer) })
  | none =>
    if (x.engine.namespaceOf? producer).isSome then (none, x)
    else (some (.error (.engineGone ns.shown)), x)

end Exchange
end DumpArchive.Multiplexer
