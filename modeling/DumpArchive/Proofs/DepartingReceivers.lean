import DumpArchive.Proofs.Receivers
import DumpArchive.Proofs.ListUpdates
import DumpArchive.Proofs.EngineReadings

/-! Receivers that may hang up. Before a run some namespaces are asked for, by receivers or for
nobody; requests that are refused change nothing. A receiver that has taken as many records as it
wants hangs up at its next turn, and the engine finds it gone when it has another record for it. -/
namespace DumpArchive

/-- A namespace that is asked for before the run. -/
structure Entrant where
  ns : Namespace
  /-- A receiver takes its records; otherwise nobody does. -/
  listens : Bool

namespace Entrant

def muted (e : Entrant) : Entrant := { e with listens := false }

def route (number : Nat) (e : Entrant) : Route := if e.listens then .outlet number else .discard

def receiver? (number : Nat) (e : Entrant) : Option Receiver :=
  if e.listens then some ⟨.fresh e.ns number, []⟩ else none

def enter (e : Entrant) (roster : Roster) : Except EngineError (Option Receiver × Roster) :=
  if e.listens then (roster.open? e.ns).map fun (number, next) => (e.receiver? number, next)
  else (roster.discard? e.ns).map fun next => (none, next)

/-- Asks for one namespace after the other. -/
def enrol : List Entrant → Roster → List Receiver × Roster
  | [], roster => ([], roster)
  | e :: rest, roster => match e.enter roster with
    | .error _ => enrol rest roster
    | .ok (r, next) => (r.toList ++ (enrol rest next).1, (enrol rest next).2)

theorem enter_of_admits {e : Entrant} {roster : Roster} (admits : roster.registry.Admits e.ns) :
    ∃ next, e.enter roster = .ok (e.receiver? roster.nextOutlet, next) ∧
      next.registry = roster.registry.insert e.ns (e.route roster.nextOutlet) ∧
      next.nextOutlet = roster.nextOutlet + (e.receiver? roster.nextOutlet).toList.length := by
  have added (route : Route) := Registry.add_eq_ok_iff (a := route).2 ⟨admits, rfl⟩
  cases listens : e.listens with
  | true =>
    refine ⟨⟨_, _⟩, ?_, rfl, rfl⟩
    simp [enter, Roster.open?, added, Except.map, Registry.insert, receiver?, Entrant.route,
      listens]
  | false =>
    refine ⟨⟨_, _⟩, ?_, rfl, rfl⟩
    simp [enter, Roster.discard?, added, Except.map, Registry.insert, receiver?, Entrant.route,
      listens]

theorem enter_of_not_admits {e : Entrant} {roster : Roster}
    (refused : ¬ roster.registry.Admits e.ns) : ∃ err, e.enter roster = .error err := by
  have fails (route : Route) : ∃ err, roster.registry.add e.ns route = .error err := by
    cases added : roster.registry.add e.ns route with
    | error err => exact ⟨err, rfl⟩
    | ok next => exact absurd (Registry.add_eq_ok_iff.1 added).1 refused
  cases listens : e.listens with
  | true =>
    obtain ⟨err, added⟩ := fails (.outlet roster.nextOutlet)
    exact ⟨err, by simp [enter, Roster.open?, added, Except.map, listens]⟩
  | false =>
    obtain ⟨err, added⟩ := fails .discard
    exact ⟨err, by simp [enter, Roster.discard?, added, Except.map, listens]⟩

/-- The receivers of a list, by namespace and outlet. -/
def labels (receivers : List Receiver) : List (Namespace × Nat) :=
  receivers.map fun r => (r.outlet.ns, r.outlet.number)

/-- What has come of some requests: receivers that have heard nothing yet and are all that has been
entered with an outlet. -/
structure Enrolled (roster : Roster) (receivers : List Receiver) (last : Roster) : Prop where
  valid : last.registry.Valid
  closed : last.registry.closed = roster.registry.closed
  entries : ∃ added, last.registry.entries = roster.registry.entries ++ added ∧
    receivers.map Receiver.entry = added.filter (·.2 ≠ .discard)
  numbered : ∀ (i : Nat) (r : Receiver), receivers[i]? = some r →
    r.outlet.number = roster.nextOutlet + i
  silent : ∀ r ∈ receivers, r.replies = [] ∧ r.outlet.ended = false

theorem enrolled (list : List Entrant) {roster : Roster} (valid : roster.registry.Valid) :
    Enrolled roster (enrol list roster).1 (enrol list roster).2 := by
  induction list generalizing roster with
  | nil => exact ⟨valid, rfl, ⟨[], by simp [enrol], rfl⟩, by simp [enrol], by simp [enrol]⟩
  | cons e rest ih =>
    by_cases admits : roster.registry.Admits e.ns
    · obtain ⟨next, entered, registry, number⟩ := enter_of_admits admits
      simp only [enrol, entered]
      have later : Enrolled next (enrol rest next).1 (enrol rest next).2 :=
        ih (registry ▸ valid.add admits)
      obtain ⟨added, entries, receivers⟩ := later.entries
      rw [registry] at entries
      refine ⟨later.valid, later.closed.trans (by rw [registry]; rfl),
        ⟨(e.ns, e.route roster.nextOutlet) :: added, by simpa using entries, ?_⟩, ?_, ?_⟩
      · rw [List.map_append, receivers]
        cases listens : e.listens <;>
          simp [receiver?, route, listens, Receiver.entry, Outlet.fresh]
      · intro i r found
        rw [List.getElem?_append] at found
        have further := later.numbered
        rw [number] at further
        cases listens : e.listens with
        | false => simpa [receiver?, listens] using further i r (by simpa [receiver?, listens] using found)
        | true =>
          simp only [receiver?, listens, if_true, Option.toList_some, List.length_singleton] at found further
          cases i with
          | zero =>
            obtain rfl := by simpa using found
            rfl
          | succ i =>
            rw [further i r (by simpa using found)]
            omega
      · intro r member
        rcases List.mem_append.1 member with first | other
        · cases listens : e.listens with
          | false => simp [receiver?, listens] at first
          | true =>
            obtain rfl := by simpa [receiver?, listens] using first
            exact ⟨rfl, rfl⟩
        · exact later.silent r other
    · obtain ⟨err, refused⟩ := enter_of_not_admits admits
      simp only [enrol, refused]
      exact ih valid

/-- Two rosters that differ at most in where the records go. -/
structure Like (a b : Registry Route) : Prop where
  keys : b.keys = a.keys
  closed : b.closed = a.closed
  finished : b.finished = a.finished
  cap : b.cap = a.cap

theorem Like.admits {a b : Registry Route} {ns : Namespace} (like : Like a b) :
    b.Admits ns ↔ a.Admits ns := by
  have count : b.count = a.count := by
    have length := congrArg List.length like.keys
    simpa [Registry.keys, Registry.count] using length
  have full : b.full? = a.full? := by rw [Registry.full?, Registry.full?, like.cap, count]
  constructor
  · rintro ⟨named, going, unused, fresh, room⟩
    exact ⟨named, like.finished ▸ going, like.keys ▸ unused, like.closed ▸ fresh, full ▸ room⟩
  · rintro ⟨named, going, unused, fresh, room⟩
    exact ⟨named, like.finished ▸ going, like.keys ▸ unused, like.closed ▸ fresh, full ▸ room⟩

theorem Like.insert {a b : Registry Route} (like : Like a b) (ns : Namespace) (first second : Route) :
    Like (a.insert ns first) (b.insert ns second) :=
  ⟨by simp [like.keys], like.closed, like.finished, like.cap⟩

/-- The same requests are granted when nobody listens, and nobody's records are kept then. -/
theorem enrol_muted (list : List Entrant) {roster other : Roster}
    (like : Like roster.registry other.registry)
    (discards : ∀ e ∈ other.registry.entries, e.2 = .discard) :
    Like (enrol list roster).2.registry (enrol (list.map muted) other).2.registry ∧
      ∀ e ∈ (enrol (list.map muted) other).2.registry.entries, e.2 = .discard := by
  induction list generalizing roster other with
  | nil => exact ⟨like, discards⟩
  | cons e rest ih =>
    by_cases admits : roster.registry.Admits e.ns
    · obtain ⟨next, entered, registry, -⟩ := enter_of_admits admits
      obtain ⟨after, muted, quiet, -⟩ := enter_of_admits (e := e.muted) (like.admits.2 admits)
      simp only [enrol, List.map_cons, entered, muted]
      refine ih ?_ ?_
      · rw [registry, quiet]
        exact like.insert ..
      · rw [quiet]
        simpa [or_imp, forall_and, Entrant.muted, route] using discards
    · obtain ⟨err, refused⟩ := enter_of_not_admits admits
      obtain ⟨error, muted⟩ := enter_of_not_admits (e := e.muted) (mt like.admits.1 admits)
      simp only [enrol, List.map_cons, refused, muted]
      exact ih like discards

end Entrant

def Receiver.isRecord : Except EngineError (Option Bytes) → Bool
  | .ok (some _) => true
  | _ => false

/-- How many records a receiver has taken. -/
def Receiver.taken (r : Receiver) : Nat := r.replies.countP isRecord

structure Hearing where
  engine : Demultiplexer
  receivers : List Receiver
  /-- The outlets whose receivers have hung up. -/
  gone : List Nat

namespace Hearing

open Audience (Actor)

def audience (h : Hearing) : Audience := ⟨h.engine, h.receivers⟩

/-- A turn of the engine; a record for a receiver that is gone ends its run. -/
def turn (h : Hearing) : Hearing :=
  match h.engine.stage with
  | .offering _ number _ =>
    if number ∈ h.gone then { h with engine := h.engine.resolve false } else h
  | _ => { h with engine := h.engine.step }

/-- A turn of a receiver: a call, or its end once it has taken what it wants. -/
def call (quota : Namespace → Option Nat) (index : Nat) (h : Hearing) : Hearing :=
  match h.receivers[index]? with
  | none => h
  | some r =>
    if r.outlet.number ∈ h.gone then h
    else if quota r.outlet.ns = some r.taken then { h with gone := r.outlet.number :: h.gone }
    else
      let next := h.audience.listen index
      ⟨next.engine, next.receivers, h.gone⟩

def step (quota : Namespace → Option Nat) (actor : Actor) (h : Hearing) : Hearing :=
  match actor with
  | .engine => h.turn
  | .receiver index => h.call quota index

def execute (quota : Namespace → Option Nat) (schedule : List Actor) (h : Hearing) : Hearing :=
  schedule.foldl (fun h actor => step quota actor h) h

def actors (h : Hearing) : List Actor := h.audience.actors

/-- The receivers and the engine at the moment it begins to read. -/
def convene (reader : Token.Reader) (cap : Option UInt64) (entrants : List Entrant) : Hearing :=
  let (receivers, roster) := Entrant.enrol entrants ⟨.empty cap, 0⟩
  ⟨({ Demultiplexer.start reader cap with roster } : Demultiplexer).run, receivers, []⟩

end Hearing
end DumpArchive
