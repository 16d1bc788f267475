import DumpArchive.Multiplexer.Exchange
import DumpArchive.Proofs.Tracking

/-! A multiplexer at work. Handles are opened, write, collect their answers and are let go of, and
the engine takes its turns, all in any order. Every move keeps account of every record: it is in
the mailbox, on the wire, or lost with its engine. -/
namespace DumpArchive.Multiplexer

/-- A producer in the hands of its owner, who waits for each write before going on. -/
structure Handle where
  number : Nat
  ns : Namespace
  /-- The record of a write that has not returned. -/
  pending : Option Bytes
  /-- The writes that have returned, oldest first. -/
  replies : List (Bytes × Except EngineError Nat)
  /-- Closed or dropped. -/
  released : Bool

namespace Handle

def fresh (number : Nat) (ns : Namespace) : Handle := ⟨number, ns, none, [], false⟩

/-- Free for the next call. -/
def isFree (h : Handle) : Bool := !h.released && h.pending.isNone

def answer (record : Bytes) (reply : Except EngineError Nat) (h : Handle) : Handle :=
  { h with pending := none, replies := h.replies ++ [(record, reply)] }

/-- The records of the writes that have succeeded. -/
def written (h : Handle) : List Bytes :=
  h.replies.filterMap fun (record, reply) => match reply with
    | .ok _ => some record
    | .error _ => none

end Handle

structure Traffic where
  exchange : Exchange
  handles : List Handle
  /-- What the runs that have ended came to, oldest first. -/
  outcomes : List (Except FrameError Summary)

namespace Traffic

inductive Move where
  | register (ns : Namespace)
  | write (handle : Nat) (record : Bytes)
  | collect (handle : Nat)
  | release (handle : Nat)
  | run
  | turn

def start (writer : Token.Writer) (cap : Option UInt64) : Traffic :=
  ⟨.start (.start writer cap), [], []⟩

def set (index : Nat) (h : Handle) (t : Traffic) : Traffic :=
  { t with handles := t.handles.set index h }

def register (ns : Namespace) (t : Traffic) : Traffic :=
  match t.exchange.open? ns with
  | .error _ => t
  | .ok (number, exchange) => { t with exchange, handles := t.handles ++ [.fresh number ns] }

/-- A record that fails its check goes no further. -/
def write (index : Nat) (record : Bytes) (t : Traffic) : Traffic :=
  match t.handles[index]? with
  | none => t
  | some h =>
    if h.isFree then
      match Record.check record t.exchange.engine.writer.max with
      | .error e => t.set index (h.answer record (.error (.frame e)))
      | .ok () => match t.exchange.post? (.record h.number record) with
        | none => t.set index (h.answer record (.error (.engineGone h.ns.shown)))
        | some exchange => { t with exchange }.set index { h with pending := some record }
    else t

def collect (index : Nat) (t : Traffic) : Traffic :=
  match t.handles[index]? with
  | none => t
  | some h => match h.pending with
    | none => t
    | some record => match t.exchange.answer? h.number h.ns with
      | (none, _) => t
      | (some reply, exchange) => { t with exchange }.set index (h.answer record reply)

def release (index : Nat) (t : Traffic) : Traffic :=
  match t.handles[index]? with
  | none => t
  | some h =>
    if h.isFree then
      let exchange := (t.exchange.post? (.closed h.number)).getD t.exchange
      { t with exchange }.set index { h with released := true }
    else t

/-- A run begins when none is going on. -/
def run (t : Traffic) : Traffic :=
  match t.exchange.phase with
  | .ready | .stopped _ => { t with exchange := t.exchange.run }
  | _ => t

def turn (t : Traffic) : Traffic :=
  let exchange := t.exchange.step
  match t.exchange.phase, exchange.phase with
  | .running, .stopped result => { t with exchange, outcomes := t.outcomes ++ [result] }
  | _, _ => { t with exchange }

def step : Move → Traffic → Traffic
  | .register ns, t => t.register ns
  | .write index record, t => t.write index record
  | .collect index, t => t.collect index
  | .release index, t => t.release index
  | .run, t => t.run
  | .turn, t => t.turn

def execute : List Move → Traffic → Traffic
  | [], t => t
  | move :: moves, t => execute moves (step move t)

theorem execute_append (front back : List Move) (t : Traffic) :
    t.execute (front ++ back) = (t.execute front).execute back := by
  induction front generalizing t with
  | nil => rfl
  | cons move front ih => exact ih (t.step move)

/-- The summary of a run that has succeeded, or else what the engine has counted. -/
def summary (t : Traffic) : Summary :=
  (t.outcomes.findSome? Except.toOption).getD t.exchange.engine.summary

end Traffic

/-- Only the engine of an exchange knows of a new namespace. -/
theorem Exchange.open?_eq_ok_iff {ns : Namespace} {number : Nat} {x y : Exchange} :
    x.open? ns = .ok (number, y) ↔ x.engine.registry.Admits ns ∧
      number = x.engine.nextProducer ∧ y = { x with engine := x.engine.enroll ns } := by
  constructor
  · intro opened
    simp only [Exchange.open?] at opened
    split at opened
    · contradiction
    · next engine known =>
      obtain ⟨rfl, rfl⟩ := Prod.mk.inj (Except.ok.inj opened)
      obtain ⟨admits, rfl, rfl⟩ := Multiplexer.open?_eq_ok_iff.1 known
      exact ⟨admits, rfl, rfl⟩
  · rintro ⟨admits, rfl, rfl⟩
    have opens := Multiplexer.open?_eq_ok_iff.2 ⟨admits, rfl, rfl⟩
    simp only [Exchange.open?, opens]

/-- Every turn that an engine can take, and what it does to the wire. -/
inductive Turned (x : Exchange) (w : Wire) : Exchange → Wire → Prop
  | still : (x.phase = .running → x.engine.registry.entries ≠ [] ∧ x.mailbox = []) → Turned x w x w
  | finished {result : Except FrameError Summary} {engine : Multiplexer} :
    x.phase = .running → x.engine.registry.entries = [] → x.engine.finish = (result, engine) →
    Turned x w { x with engine, phase := .stopped result } w
  | handled {event : Event} {mailbox : List Event} {ack : Option (Nat × Nat)}
    {engine : Multiplexer} :
    x.phase = .running → x.mailbox = event :: mailbox → Handled x.engine event (.ok ack) engine →
    Turned x w { x with engine, mailbox, acks := x.acks ++ ack.toList } (x.engine.onWire event w)
  | failed {event : Event} {mailbox : List Event} {e : FrameError} {engine : Multiplexer} :
    x.phase = .running → x.mailbox = event :: mailbox → Handled x.engine event (.error e) engine →
    Turned x w { x with engine := engine.abandon, mailbox, phase := .stopped (.error e) }
      w.terminate

theorem turned (x : Exchange) (w : Wire) : ∃ after, Turned x w x.step after := by
  unfold Exchange.step
  split
  · next running =>
    split
    · next nobody =>
      exact ⟨w, .finished running (List.isEmpty_iff.1 nobody) rfl⟩
    · next somebody =>
      split
      · next empty =>
        exact ⟨w, .still fun _ => ⟨by simpa using somebody, empty⟩⟩
      · next event mailbox posted =>
        have handled := Multiplexer.handled event x.engine
        split
        · next e engine failed =>
          rw [failed] at handled
          exact ⟨_, .failed running posted handled⟩
        · next engine passed =>
          rw [passed] at handled
          have same := Turned.handled (w := w) running posted handled
          exact ⟨_, by simpa using same⟩
        · next ack engine passed =>
          rw [passed] at handled
          exact ⟨_, Turned.handled (w := w) running posted handled⟩
  · next idle => exact ⟨w, .still fun running => absurd running idle⟩

end DumpArchive.Multiplexer
