import DumpArchive.Demultiplexer.Drive
import DumpArchive.Demultiplexer.Outlet

/-! Consumers that each follow a script while the engine runs. A consumer goes on until it has
to wait for a record, and lets go of its namespace after the last task. -/
namespace DumpArchive.Demultiplexer

inductive Task where
  | record
  | drain
  | read (n : Nat)
  | readAll
  | openAnother (ns : Namespace) (script : List Task)
  | discard (ns : Namespace)

inductive Answer where
  | record (r : Option Bytes)
  | failed (e : EngineError)
  /-- All records up to the end or an error. -/
  | records (list : List Bytes) (stop : Option EngineError)
  | bytes (b : Bytes)
  /-- All bytes up to the end or an error; `none` before the error for a single call. -/
  | broken (before : Option Bytes) (e : EngineError)
  | discarded
  /-- The consumer of this outlet was started. -/
  | opened (outlet : Nat)

structure Consumer where
  outlet : Outlet
  script : List Task
  /-- Records or bytes of an unfinished task, newest first. -/
  gathered : List Bytes
  /-- Newest first. -/
  answers : List Answer

namespace Consumer

def fresh (ns : Namespace) (number : Nat) (script : List Task) : Consumer :=
  ⟨.fresh ns number, script, [], []⟩

/-- Ends the first task with an answer. -/
def reply (a : Answer) (c : Consumer) : Consumer :=
  { c with script := c.script.tail, gathered := [], answers := a :: c.answers }

def isDone (c : Consumer) : Bool := c.script.isEmpty

/-- Keeps a part of what an unfinished task asks for. -/
def gather (part : Bytes) (c : Consumer) : Consumer := { c with gathered := part :: c.gathered }

def gatheredBytes (c : Consumer) : Bytes := c.gathered.reverse.flatten

/-- What a turn leaves behind: whether the record on offer was used, and a consumer that was
started by it. -/
structure Turn where
  consumer : Consumer
  roster : Roster
  started : Option Consumer
  waits : Bool

/-- Works on the first task. -/
def turn (supply : Outlet.Supply) (roster : Roster) (c : Consumer) : Turn :=
  let still (c : Consumer) : Turn := ⟨c, roster, none, false⟩
  let waiting : Turn := ⟨c, roster, none, true⟩
  match c.script with
  | [] => waiting
  | .record :: _ => match c.outlet.readRecord supply with
    | (none, _) => waiting
    | (some (.ok r), outlet) => still ({ c with outlet }.reply (.record r))
    | (some (.error e), outlet) => still ({ c with outlet }.reply (.failed e))
  | .drain :: _ => match c.outlet.readRecord supply with
    | (none, _) => waiting
    | (some (.ok (some r)), outlet) => still ({ c with outlet }.gather r)
    | (some (.ok none), outlet) =>
      still ({ c with outlet }.reply (.records c.gathered.reverse none))
    | (some (.error e), outlet) =>
      still ({ c with outlet }.reply (.records c.gathered.reverse (some e)))
  | .read n :: _ => match c.outlet.readBytes n supply with
    | (none, _) => waiting
    | (some (.ok b), outlet) => still ({ c with outlet }.reply (.bytes b))
    | (some (.error e), outlet) => still ({ c with outlet }.reply (.broken none e))
  | .readAll :: _ =>
    if c.outlet.pending ≠ [] then
      let (b, outlet) := c.outlet.takePending c.outlet.pending.length
      still ({ c with outlet }.gather b)
    else match c.outlet.readRecord supply with
      | (none, _) => waiting
      | (some (.ok (some r)), outlet) => still ({ c with outlet }.gather r)
      | (some (.ok none), outlet) => still ({ c with outlet }.reply (.bytes c.gatheredBytes))
      | (some (.error e), outlet) =>
        still ({ c with outlet }.reply (.broken (some c.gatheredBytes) e))
  | .openAnother ns script :: _ => match roster.open? ns with
    | .error e => still (c.reply (.failed e))
    | .ok (number, roster) =>
      ⟨c.reply (.opened number), roster, some (.fresh ns number script), false⟩
  | .discard ns :: _ => match roster.discard? ns with
    | .error e => still (c.reply (.failed e))
    | .ok roster => ⟨c.reply .discarded, roster, none, false⟩

/-- Goes on while there is something to do without a further record. Each task takes at most
two turns then: one for what is pending and one for its end. -/
def advanceWithin (supply : Outlet.Supply) :
    Nat → Roster → Consumer → Roster × Consumer × List Consumer
  | 0, roster, c => (roster, c, [])
  | fuel + 1, roster, c =>
    let t := c.turn supply roster
    if t.waits then (roster, c, [])
    else
      let (roster, c, started) := advanceWithin supply fuel t.roster t.consumer
      (roster, c, t.started.toList ++ started)

def advance (supply : Outlet.Supply) (roster : Roster) (c : Consumer) :
    Roster × Consumer × List Consumer :=
  advanceWithin supply (2 * c.script.length) roster c

end Consumer

/-- Lets every consumer do what it can without a record, and adds those that were started. -/
def wakeAll (signal : Nat → Signal) (roster : Roster) :
    List Consumer → Roster × List Consumer × List Consumer
  | [] => (roster, [], [])
  | c :: rest =>
    let (roster, c, started) := c.advance (.ofSignal (signal c.outlet.number)) roster
    let (roster, rest, more) := wakeAll signal roster rest
    (roster, c :: rest, started ++ more)

def wake (signal : Nat → Signal) (roster : Roster) (list : List Consumer) :
    Roster × List Consumer :=
  let (roster, list, started) := wakeAll signal roster list
  (roster, list ++ started)

/-- Hands a record to the consumer that waits for it, unless its script has ended. -/
def offer (outlet : Nat) (record : Bytes) (roster : Roster) :
    List Consumer → Bool × Roster × List Consumer
  | [] => (false, roster, [])
  | c :: rest =>
    if c.outlet.number = outlet then
      if c.isDone then (false, roster, c :: rest)
      else
        let t := c.turn (.record record) roster
        (true, t.roster, t.consumer :: rest ++ t.started.toList)
    else
      let (taken, roster, rest) := offer outlet record roster rest
      (taken, roster, c :: rest)

def scripted : Consumers (List Consumer) where
  wake := wake
  offer := offer

/-- A run with scripted consumers. -/
def runScripted (d : Demultiplexer) (list : List Consumer) : Demultiplexer × List Consumer :=
  drive scripted d.run list

end DumpArchive.Demultiplexer
