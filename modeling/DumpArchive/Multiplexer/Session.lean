import DumpArchive.Multiplexer.Exchange

/-! A multiplexer and labelled producers in the hands of one caller, who waits after each call
until the engine has done what it can. -/
namespace DumpArchive.Multiplexer

structure Producer where
  label : String
  number : Nat
  ns : Namespace

structure Session where
  exchange : Exchange
  /-- Producers that were neither closed nor dropped. -/
  producers : List Producer
  /-- The first run's result, once it has ended. -/
  result : Option (Except FrameError Summary)

namespace Session

inductive Call where
  | openAs (label : String) (ns : Namespace)
  | start
  | write (label : String) (record : Bytes)
  | close (label : String)
  | abandon (label : String)
  | drop
  | again
  | inspect

/-- Calls that make no sense in the present phase. -/
inductive Refusal where
  | notReady
  | notFinished
  | wouldBlock
  | noProducer
  | running

inductive Reply where
  | opened (shown : String)
  | done
  | wrote (size : Nat)
  | counts (numbers : Option (Nat × Nat))
  | summary (s : Summary)
  | failed (e : EngineError)
  | refused (why : Refusal)

def begin (engine : Multiplexer) : Session := ⟨.start engine, [], none⟩

def producer? (label : String) (s : Session) : Option Producer :=
  s.producers.find? (·.label = label)

/-- Lets the engine work and notes the end of the first run. -/
def settled (s : Session) : Session :=
  let exchange := s.exchange.settle
  match s.exchange.phase, exchange.phase, s.result with
  | .running, .stopped result, none => { s with exchange, result := some result }
  | _, _, _ => { s with exchange }

def write (p : Producer) (record : Bytes) (s : Session) : Reply × Session :=
  match Record.check record s.exchange.engine.writer.max with
  | .error e => (.failed (.frame e), s)
  | .ok () => match s.exchange.phase with
    | .ready => (.refused .wouldBlock, s)
    | _ => match s.exchange.post? (.record p.number record) with
      | none => (.failed (.engineGone p.ns.shown), s)
      | some exchange =>
        let s := ({ s with exchange } : Session).settled
        match s.exchange.answer? p.number p.ns with
        | (some (.ok size), exchange) => (.wrote size, { s with exchange })
        | (some (.error e), exchange) => (.failed e, { s with exchange })
        | (none, exchange) => (.refused .wouldBlock, { s with exchange })

/-- Posts the end of a namespace; `quiet` hides that the engine is gone. -/
def release (quiet : Bool) (p : Producer) (s : Session) : Reply × Session :=
  let producers := s.producers.filter (·.label ≠ p.label)
  match s.exchange.post? (.closed p.number) with
  | some exchange => (.done, ({ s with exchange, producers } : Session).settled)
  | none =>
    (if quiet then .done else .failed (.engineGone p.ns.shown), { s with producers })

def again (s : Session) : Reply × Session :=
  match s.exchange.phase with
  | .stopped _ =>
    let exchange := s.exchange.run.settle
    match exchange.phase with
    | .stopped (.ok summary) => (.summary summary, { s with exchange })
    | .stopped (.error e) => (.failed (.frame e), { s with exchange })
    | _ => (.done, { s with exchange })
  | _ => (.refused .notFinished, s)

def counts (s : Session) : Option (Nat × Nat) :=
  match s.exchange.phase with
  | .ready | .stopped _ => some (s.exchange.engine.registry.count, s.exchange.engine.writer.written)
  | _ => none

def call (c : Call) (s : Session) : Reply × Session :=
  match c with
  | .openAs label ns => match s.exchange.open? ns with
    | .error e => (.failed e, s)
    | .ok (number, exchange) =>
      (.opened ns.shown, { s with exchange, producers := s.producers ++ [⟨label, number, ns⟩] })
  | .start => match s.exchange.phase with
    | .ready => (.done, ({ s with exchange := s.exchange.run } : Session).settled)
    | _ => (.refused .notReady, s)
  | .write label record => match s.producer? label with
    | some p => s.write p record
    | none => (.refused .noProducer, s)
  | .close label => match s.producer? label with
    | some p => s.release false p
    | none => (.refused .noProducer, s)
  | .abandon label => match s.producer? label with
    | some p => s.release true p
    | none => (.refused .noProducer, s)
  | .drop => match s.exchange.phase with
    | .running => (.refused .running, s)
    | _ => (.done, { s with exchange := s.exchange.drop })
  | .again => s.again
  | .inspect => (.counts s.counts, s)

/-- Whether the run that `start` began has ended with this call. -/
def endedSince (before after : Session) : Bool := before.result.isNone && after.result.isSome

/-- Lets go of every producer that is left, in the order of their labels. -/
def conclude (s : Session) : Session :=
  match s.exchange.phase with
  | .running =>
    (s.producers.mergeSort (fun a b => a.label ≤ b.label)).foldl
      (fun s p => (s.release true p).2) s
  | _ => s

end Session
end DumpArchive.Multiplexer
