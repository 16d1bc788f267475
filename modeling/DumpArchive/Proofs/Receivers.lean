import DumpArchive.Demultiplexer.Outlet
import DumpArchive.Proofs.Dispatch
import DumpArchive.Proofs.Rounds

/-! A demultiplexer and its receivers. Each receiver reads record after record from its outlet, and
the engine and all of them take turns in any order; the engine waits while a record is on offer. -/
namespace DumpArchive

structure Receiver where
  outlet : Outlet
  /-- What its calls have returned, oldest first. -/
  replies : List (Except EngineError (Option Bytes))

/-- What the registry holds of a receiver that is served. -/
def Receiver.entry (r : Receiver) : Namespace × Route := (r.outlet.ns, .outlet r.outlet.number)

structure Audience where
  engine : Demultiplexer
  receivers : List Receiver

namespace Audience

inductive Actor where
  | engine
  | receiver (index : Nat)
  deriving DecidableEq

/-- What a receiver finds when it waits on the engine. -/
def supply (a : Audience) (number : Nat) : Outlet.Supply :=
  match a.engine.stage with
  | .offering _ outlet record =>
    if outlet = number then .record record else .ofSignal (a.engine.signal number)
  | _ => .ofSignal (a.engine.signal number)

theorem supply_of_offering {a : Audience} {ns : Namespace} {number : Nat} {record : Bytes}
    (stage : a.engine.stage = .offering ns number record) : a.supply number = .record record := by
  simp [supply, stage]

/-- The engine goes on when a record has been taken. -/
def notify (reply : Except EngineError (Option Bytes)) (d : Demultiplexer) : Demultiplexer :=
  match reply with
  | .ok (some _) => d.resolve true
  | _ => d

/-- One call of a receiver, if it need not wait. -/
def listen (index : Nat) (a : Audience) : Audience :=
  match a.receivers[index]? with
  | none => a
  | some r => match r.outlet.readRecord (a.supply r.outlet.number) with
    | (none, _) => a
    | (some reply, outlet) =>
      ⟨notify reply a.engine, a.receivers.set index ⟨outlet, r.replies ++ [reply]⟩⟩

def step (actor : Actor) (a : Audience) : Audience :=
  match actor with
  | .engine => { a with engine := a.engine.step }
  | .receiver index => a.listen index

def execute (schedule : List Actor) (a : Audience) : Audience :=
  schedule.foldl (fun a actor => step actor a) a

def actors (a : Audience) : List Actor :=
  .engine :: (List.range a.receivers.length).map .receiver

/-- Registers a receiver for each namespace. -/
def enlist : List Namespace → Roster → Except EngineError (List Receiver × Roster)
  | [], roster => .ok ([], roster)
  | ns :: rest, roster => match roster.open? ns with
    | .error e => .error e
    | .ok (number, roster) => match enlist rest roster with
      | .error e => .error e
      | .ok (receivers, roster) => .ok (⟨.fresh ns number, []⟩ :: receivers, roster)

/-- The audience at the moment the engine begins to read. -/
def convene (source : Source) (max : UInt64) (cap : Option UInt64) (namespaces : List Namespace) :
    Except EngineError Audience :=
  match enlist namespaces ⟨.empty cap, 0⟩ with
  | .error e => .error e
  | .ok (receivers, roster) =>
    let engine := { Demultiplexer.start (.start source max) cap with roster }
    .ok ⟨engine.run, receivers⟩

/-- The receivers of some namespaces, numbered from `first` on. -/
def seats : Nat → List Namespace → List Receiver
  | _, [] => []
  | first, ns :: rest => ⟨.fresh ns first, []⟩ :: seats (first + 1) rest

theorem ns_seats (first : Nat) (namespaces : List Namespace) :
    (seats first namespaces).map (·.outlet.ns) = namespaces := by
  induction namespaces generalizing first with
  | nil => rfl
  | cons ns rest ih => simp [seats, ih, Outlet.fresh]

theorem number_seats {first index : Nat} {namespaces : List Namespace} {r : Receiver}
    (found : (seats first namespaces)[index]? = some r) : r.outlet.number = first + index := by
  induction namespaces generalizing first index with
  | nil => simp [seats] at found
  | cons ns rest ih =>
    cases index with
    | zero =>
      obtain rfl := by simpa [seats] using found
      rfl
    | succ index =>
      have later : (seats (first + 1) rest)[index]? = some r := by simpa [seats] using found
      rw [ih later]
      omega

theorem fresh_seats {first : Nat} {namespaces : List Namespace} {r : Receiver}
    (member : r ∈ seats first namespaces) :
    r.replies = [] ∧ r.outlet.ended = false ∧ r.outlet.ns ∈ namespaces := by
  induction namespaces generalizing first with
  | nil => simp [seats] at member
  | cons ns rest ih =>
    rcases List.mem_cons.1 member with rfl | later
    · simp [Outlet.fresh]
    · obtain ⟨none, going, known⟩ := ih later
      exact ⟨none, going, List.mem_cons_of_mem _ known⟩

theorem enlist_eq {namespaces : List Namespace} (roster : Roster)
    (welcomes : roster.registry.Welcomes namespaces) :
    ∃ next, enlist namespaces roster = .ok (seats roster.nextOutlet namespaces, next) ∧
      next.registry = { roster.registry with
        entries := roster.registry.entries ++
          (seats roster.nextOutlet namespaces).map Receiver.entry } := by
  induction namespaces generalizing roster with
  | nil => exact ⟨roster, rfl, by simp [seats]⟩
  | cons ns rest ih =>
    have added :=
      Registry.add_eq_ok_iff (a := Route.outlet roster.nextOutlet).2 ⟨welcomes.admits, rfl⟩
    obtain ⟨next, enlisted, entries⟩ :=
      ih ⟨roster.registry.insert ns (.outlet roster.nextOutlet), roster.nextOutlet + 1⟩
        welcomes.insert
    refine ⟨next, ?_, ?_⟩
    · simp only [enlist, Roster.open?, added, enlisted, seats]
    · rw [entries]
      simp [Registry.insert, seats, Receiver.entry, Outlet.fresh]

/-- Record after record, and then the end as often as it was asked for. -/
def answers (records : List Bytes) (ends : Nat) : List (Except EngineError (Option Bytes)) :=
  records.map (fun b => .ok (some b)) ++ List.replicate ends (.ok none)

theorem answers_concat (records : List Bytes) (b : Bytes) :
    answers records 0 ++ [.ok (some b)] = answers (records ++ [b]) 0 := by
  simp [answers]

theorem answers_ended (records : List Bytes) (ends more : Nat) :
    answers records ends ++ List.replicate more (.ok none) = answers records (ends + more) := by
  simp [answers]

end Audience

namespace Demultiplexer

variable {d : Demultiplexer} {max : UInt64} {total : Summary} {left : Namespace → List Bytes}

/-- The engine is at work, the summary will be `total`, and the records in `left` have not been
handed over. -/
inductive Due (d : Demultiplexer) (max : UInt64) (total : Summary)
    (left : Namespace → List Bytes) : Prop
  | reading {rest : Rest} : d.Reads max rest → rest.summary d.summary = total →
    (∀ ns, left ns = rest.recordsOf ns) → Due d max total left
  | offering {ns : Namespace} {number : Nat} {record : Bytes} {rest : Rest} :
    d.stage = .offering ns number record → (ns, .outlet number) ∈ d.roster.registry.entries →
    (d.resolve true).Reads max rest → rest.summary (d.resolve true).summary = total →
    (∀ other, left other = (if ns = other then [record] else []) ++ rest.recordsOf other) →
    Due d max total left
  | ending : d.stage = .ending (.ok ()) → d.roster.registry.entries = [] → d.summary = total →
    (∀ ns, left ns = []) → Due d max total left
  | stopped : d.stage = .stopped (.ok total) → d.roster.registry.entries = [] →
    (∀ ns, left ns = []) → Due d max total left

/-- A namespace that has ended has no records left. -/
theorem Reads.recordsOf_eq_nil {rest : Rest} {ns : Namespace} (reads : d.Reads max rest)
    (past : ns ∉ d.roster.registry.keys) : rest.recordsOf ns = [] := by
  have sequence := Block.fulfils_iff.1 reads.fulfils
  have later : Block.recordsOf ns rest.blocks = [] := by
    apply Block.recordsOf_eq_nil
    rintro ⟨b, member, rfl, -⟩
    exact past (sequence.known b member)
  cases rest with
  | between blocks => exact later
  | ending blocks => exact later
  | inside current records blocks =>
    obtain ⟨route, -, entry⟩ := reads.current _ _ _ rfl
    have apart : current ≠ ns := by
      rintro rfl
      exact past (List.mem_map_of_mem entry)
    simpa [Rest.recordsOf, apart] using later

@[simp] theorem roster_resolve (taken : Bool) (d : Demultiplexer) :
    (d.resolve taken).roster = d.roster ∧ (d.resolve taken).ended = d.ended := by
  unfold resolve
  split
  · split <;> exact ⟨rfl, rfl⟩
  · exact ⟨rfl, rfl⟩

theorem Due.left_eq_nil {ns : Namespace} (due : d.Due max total left)
    (past : ns ∉ d.roster.registry.keys) : left ns = [] := by
  cases due with
  | reading reads sums holds => exact (holds ns).trans (reads.recordsOf_eq_nil past)
  | @offering current number record rest stage entry reads sums holds =>
    have apart : current ≠ ns := by
      rintro rfl
      exact past (List.mem_map_of_mem entry)
    have later : rest.recordsOf ns = [] := reads.recordsOf_eq_nil (by simpa using past)
    simp [holds, apart, later]
  | ending stage nobody sums holds => exact holds ns
  | stopped stage nobody holds => exact holds ns

/-- Between the two one namespace has ended at most. -/
def EndsOne (d next : Demultiplexer) : Prop :=
  (next.roster.registry.entries = d.roster.registry.entries ∧ next.ended = d.ended) ∨
    ∃ ns number, (ns, .outlet number) ∈ d.roster.registry.entries ∧
      next.roster.registry.entries = (d.roster.registry.close ns).entries ∧
      next.ended = number :: d.ended

theorem Reads.due_header {b : Block} {blocks : List Block} (small : max.toNat < 2 ^ 63)
    (reads : d.Reads max (.between (b :: blocks)))
    (sums : (Rest.between (b :: blocks)).summary d.summary = total)
    (holds : ∀ ns, left ns = (Rest.between (b :: blocks)).recordsOf ns)
    (outlets : ∀ ns route, (ns, route) ∈ d.roster.registry.entries →
      ∃ number, route = .outlet number) :
    d.step.Due max total left ∧ d.EndsOne d.step := by
  obtain ⟨-, bare, -⟩ := reads.fulfils
  cases ends : b.header.eof with
  | false =>
    obtain ⟨reader, route, entry, taken, after⟩ := reads.step_select small ends
    refine ⟨.reading after ?_ holds, .inl ?_⟩
    · rw [taken, ← sums]
      simp [Rest.summary, Summary.absorb, ends, select]
    · rw [taken]
      exact ⟨rfl, rfl⟩
  | true =>
    obtain ⟨reader, route, entry, taken, after⟩ := reads.step_conclude small ends
    obtain ⟨number, rfl⟩ := outlets _ _ entry
    refine ⟨.reading after ?_ ?_, .inr ⟨_, number, entry, ?_, ?_⟩⟩
    · rw [taken, ← sums]
      simp [Rest.summary, Summary.absorb, ends, conclude]
    · intro ns
      rw [holds, Rest.recordsOf, Block.recordsOf_cons, bare ends, ite_self]
      rfl
    · rw [taken]
      rfl
    · rw [taken]
      rfl

theorem Reads.due_body {ns : Namespace} {record : Bytes} {records : List Bytes}
    {blocks : List Block} (small : max.toNat < 2 ^ 63)
    (reads : d.Reads max (.inside ns (record :: records) blocks))
    (sums : (Rest.inside ns (record :: records) blocks).summary d.summary = total)
    (holds : ∀ other, left other = (Rest.inside ns (record :: records) blocks).recordsOf other)
    (outlets : ∀ ns route, (ns, route) ∈ d.roster.registry.entries →
      ∃ number, route = .outlet number) :
    d.step.Due max total left ∧ d.EndsOne d.step := by
  obtain ⟨reader, route, entry, taken, after⟩ := reads.step_body small
  obtain ⟨number, rfl⟩ := outlets _ _ entry
  have offers : d.step.stage = .offering ns number record := by rw [taken]; rfl
  have resolved : d.step.resolve true =
      { d with reader, summary := d.summary.count ns record } := by
    simp [taken, deliver, Demultiplexer.resolve, reads.reading]
  refine ⟨.offering offers ?_ (resolved ▸ after) ?_ ?_, .inl ?_⟩
  · rw [taken]
    exact entry
  · rw [resolved, ← sums]
    rfl
  · intro other
    rw [holds, Rest.recordsOf, Rest.recordsOf]
    by_cases here : ns = other <;> simp [here]
  · rw [taken]
    exact ⟨rfl, rfl⟩

/-- A turn of the engine hands nothing over. It may end a namespace. -/
theorem Due.step (small : max.toNat < 2 ^ 63) (due : d.Due max total left)
    (outlets : ∀ ns route, (ns, route) ∈ d.roster.registry.entries →
      ∃ number, route = .outlet number) : d.step.Due max total left ∧ d.EndsOne d.step := by
  cases due with
  | @reading rest reads sums holds =>
    cases rest with
    | between blocks =>
      cases blocks with
      | nil =>
        obtain ⟨nobody, reader, taken⟩ := reads.step_finish
        rw [taken]
        exact ⟨.ending rfl nobody sums holds, .inl ⟨rfl, rfl⟩⟩
      | cons b blocks => exact reads.due_header small sums holds outlets
    | inside ns records blocks =>
      cases records with
      | nil =>
        obtain ⟨reader, taken, after⟩ := reads.step_close small (.inl ⟨ns, rfl⟩)
        refine ⟨.reading after ?_ ?_, .inl ?_⟩
        · rw [taken, ← sums]
          rfl
        · intro other
          rw [holds, Rest.recordsOf, ite_self]
          rfl
        · rw [taken]
          exact ⟨rfl, rfl⟩
      | cons record records => exact reads.due_body small sums holds outlets
    | ending blocks =>
      obtain ⟨reader, taken, after⟩ := reads.step_close small (.inr rfl)
      refine ⟨.reading after ?_ holds, .inl ?_⟩
      · rw [taken, ← sums]
        rfl
      · rw [taken]
        exact ⟨rfl, rfl⟩
  | offering stage entry reads sums holds =>
    have waits : d.step = d := by simp [Demultiplexer.step, stage]
    rw [waits]
    exact ⟨.offering stage entry reads sums holds, .inl ⟨rfl, rfl⟩⟩
  | ending stage nobody sums holds =>
    have stops : d.step = { d with
        stage := .stopped (.ok d.summary)
        roster := { d.roster with registry := d.roster.registry.finish } } := by
      simp [Demultiplexer.step, stage]
    rw [stops]
    exact ⟨.stopped (by rw [sums]) nobody holds, .inl ⟨rfl, rfl⟩⟩
  | stopped stage nobody holds =>
    have rests : d.step = d := by simp [Demultiplexer.step, stage]
    rw [rests]
    exact ⟨.stopped stage nobody holds, .inl ⟨rfl, rfl⟩⟩

/-- Whoever takes the record on offer takes the first of its namespace that is left. -/
theorem Due.resolve {ns : Namespace} {number : Nat} {record : Bytes} (due : d.Due max total left)
    (stage : d.stage = .offering ns number record) :
    (ns, .outlet number) ∈ d.roster.registry.entries ∧
      ∃ after, (d.resolve true).Due max total after ∧ left ns = record :: after ns ∧
        ∀ other, other ≠ ns → after other = left other := by
  cases due with
  | reading reads => simp [reads.reading] at stage
  | @offering key outlet body rest offers entry reads sums holds =>
    obtain ⟨rfl, rfl, rfl⟩ := by simpa [offers] using stage
    refine ⟨entry, (rest.recordsOf ·), .reading reads sums fun _ => rfl, ?_, ?_⟩
    · simpa using holds key
    · intro other apart
      simp [holds, Ne.symm apart]
  | ending ends => simp [ends] at stage
  | stopped stops => simp [stops] at stage

end Demultiplexer
end DumpArchive
