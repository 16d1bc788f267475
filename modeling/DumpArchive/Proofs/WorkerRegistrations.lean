import DumpArchive.Proofs.FailedDumps

/-! What is registered while a dump goes on. A worker that passes from one namespace to the next has
two, and the one that it leaves stays registered until the engine comes to its closing. A worker
knows that it has when a record which it has posted afterwards is acknowledged; where there are no
records it learns nothing, so namespaces without records are on top. -/
namespace DumpArchive

open Multiplexer (Exchange Event Traffic Handle Heads)
open Token (Reader)

theorem Registry.of_add_tooMany {α : Type} {r : Registry α} {ns : Namespace} {a : α} {m : UInt64}
    (refused : r.add ns a = .error (.tooMany m)) :
    m ∈ r.cap ∧ m.toNat ≤ r.count ∧ ns ∉ r.keys := by
  unfold add at refused
  split at refused
  · simp at refused
  · split at refused
    · simp at refused
    · split at refused
      · simp at refused
      · next unused =>
        split at refused
        · simp at refused
        · split at refused
          · next limit full =>
            obtain ⟨capped, most⟩ := Option.filter_eq_some_iff.1 full
            obtain rfl : limit = m := by simpa using refused
            exact ⟨capped, by simpa using most, by simpa [keys] using unused⟩
          · contradiction

namespace Multiplexer

theorem Exchange.of_open?_tooMany {x : Exchange} {ns : Namespace} {m : UInt64}
    (refused : x.open? ns = .error (.tooMany m)) : m ∈ x.engine.registry.cap ∧
      m.toNat ≤ x.engine.registry.count ∧ ns ∉ x.engine.registry.keys := by
  simp only [Exchange.open?, Multiplexer.open?] at refused
  split at refused
  · next failed =>
    split at failed
    · next e full =>
      obtain rfl := Except.error.inj failed
      obtain rfl := Except.error.inj refused
      exact Registry.of_add_tooMany full
    · contradiction
  · contradiction

section Turn

variable {x y : Exchange} {w v : Wire}

theorem entries_finish {m next : Multiplexer} {result : Except FrameError Summary}
    (finished : m.finish = (result, next)) :
    ∀ e ∈ next.registry.entries, e ∈ m.registry.entries := by
  simp only [Multiplexer.finish] at finished
  split at finished
  all_goals
    obtain ⟨-, rfl⟩ := Prod.mk.inj finished
    simp [Registry.abandon, Registry.finish]

/-- The engine registers nobody of its own. -/
theorem Turned.registered (turned : Turned x w y v) :
    ∀ e ∈ y.engine.registry.entries, e ∈ x.engine.registry.entries := by
  cases turned with
  | still => exact fun e member => member
  | finished running nobody ended => exact entries_finish ended
  | handled running posted handled =>
    cases handled with
    | ended known => exact fun e member => List.mem_of_mem_filter member
    | _ => exact fun e member => member
  | failed => simp [Multiplexer.abandon, Registry.abandon]

/-- The engine takes the oldest event, and whoever is registered afterwards was not closed by it. -/
theorem Turned.taken (turned : Turned x w y v) (tracks : x.engine.Tracks w) :
    y.mailbox = x.mailbox ∨ ∃ event, x.mailbox = event :: y.mailbox ∧
      ∀ e ∈ y.engine.registry.entries, event ≠ .closed e.2 := by
  cases turned with
  | still => exact .inl rfl
  | finished => exact .inl rfl
  | @handled event mailbox ack engine running posted handled =>
    refine .inr ⟨event, posted, ?_⟩
    rintro ⟨ns, number⟩ left rfl
    cases handled with
    | ignored unknown => exact namespaceOf?_eq_none_iff.1 unknown _ left rfl
    | @ended _ closed _ known =>
      obtain ⟨member, other⟩ := List.mem_filter.1 left
      have same := List.inj_on_of_nodup_map tracks.numbers member (mem_of_namespaceOf? known) rfl
      obtain rfl := (Prod.mk.inj same).1
      simp at other
  | failed running posted handled =>
    exact .inr ⟨_, posted, by simp [Multiplexer.abandon, Registry.abandon]⟩

end Turn

/-- The closing of one producer stands in the mailbox before a record of another. -/
def Exchange.Ahead (x : Exchange) (closed producer : Nat) : Prop :=
  ∃ front record back, x.mailbox = front ++ .record producer record :: back ∧
    Event.closed closed ∈ front

namespace Traffic

variable {t after : Traffic} {max : UInt64} {cap : Option UInt64} {base : Bytes}
  {ns : Namespace} {number : Nat} {event : Event}

/-- A namespace that had a handle and is no longer registered when the mailbox has been read. -/
def Leaving (t : Traffic) (ns : Namespace) : Prop :=
  ns ∈ t.handles.map (·.ns) ∧ ∀ number, (ns, number) ∈ t.exchange.engine.registry.entries →
    Event.closed number ∈ t.exchange.mailbox

/-- Time goes by: who was there stays, unless it is closed, and no closing is passed over. -/
structure Elapsed (t after : Traffic) : Prop where
  grows : ∀ ns ∈ t.handles.map (·.ns), ns ∈ after.handles.map (·.ns)
  entries : ∀ ns ∈ t.handles.map (·.ns), ∀ number,
    (ns, number) ∈ after.exchange.engine.registry.entries →
    (ns, number) ∈ t.exchange.engine.registry.entries
  closing : ∀ e ∈ after.exchange.engine.registry.entries,
    Event.closed e.2 ∈ t.exchange.mailbox → Event.closed e.2 ∈ after.exchange.mailbox
  ahead : ∀ e ∈ after.exchange.engine.registry.entries, ∀ producer,
    t.exchange.Ahead e.2 producer → after.exchange.Ahead e.2 producer

theorem Elapsed.refl (t : Traffic) : t.Elapsed t :=
  ⟨fun _ known => known, fun _ _ _ entry => entry, fun _ _ posted => posted,
    fun _ _ _ ahead => ahead⟩

theorem Elapsed.leaving (elapsed : t.Elapsed after) (leaving : t.Leaving ns) : after.Leaving ns := by
  obtain ⟨known, closing⟩ := leaving
  refine ⟨elapsed.grows ns known, fun number entry => ?_⟩
  exact elapsed.closing _ entry (closing number (elapsed.entries ns known number entry))

/-- What is posted comes last. -/
theorem Elapsed.of_post {more : List Event}
    (grows : ∀ ns ∈ t.handles.map (·.ns), ns ∈ after.handles.map (·.ns))
    (entries : ∀ ns ∈ t.handles.map (·.ns), ∀ number,
      (ns, number) ∈ after.exchange.engine.registry.entries →
      (ns, number) ∈ t.exchange.engine.registry.entries)
    (mailed : after.exchange.mailbox = t.exchange.mailbox ++ more) : t.Elapsed after := by
  refine ⟨grows, entries, fun e _ posted => ?_, fun e _ producer ahead => ?_⟩
  · exact mailed ▸ List.mem_append_left _ posted
  · obtain ⟨front, record, back, split, early⟩ := ahead
    exact ⟨front, record, back ++ more, by simp [mailed, split], early⟩

theorem Elapsed.of_apart {more : List Event} (apart : t.Apart after number)
    (mailed : after.exchange.mailbox = t.exchange.mailbox ++ more) : t.Elapsed after := by
  refine .of_post (fun ns known => apart.names ▸ known) (fun ns _ other entry => ?_) mailed
  rwa [apart.engine] at entry

/-- A new handle has a namespace of its own. -/
theorem Elapsed.of_enroll (steady : after.Steady max cap base)
    (grown : after.handles = t.handles ++ [.fresh t.handles.length ns])
    (registry : ∀ e ∈ after.exchange.engine.registry.entries,
      e ∈ t.exchange.engine.registry.entries ∨ e.1 = ns)
    (mailed : after.exchange.mailbox = t.exchange.mailbox) : t.Elapsed after := by
  obtain ⟨w, accounted, -⟩ := steady.books
  have distinct := accounted.distinct
  rw [namespaces_labels, grown, List.map_append, List.nodup_append] at distinct
  have nothing : after.exchange.mailbox = t.exchange.mailbox ++ [] := by simp [mailed]
  refine .of_post ?_ (fun other known number entry => ?_) nothing
  · rw [grown, List.map_append]
    exact fun other known => List.mem_append_left _ known
  · refine (registry _ entry).resolve_right fun same => ?_
    exact distinct.2.2 other known ns (by simp [Handle.fresh]) same

theorem Elapsed.turn (steady : t.Steady max cap base) : t.Elapsed t.turn := by
  obtain ⟨w, accounted, -⟩ := steady.books
  obtain ⟨v, turned⟩ := turned t.exchange w
  have taken := turned.taken accounted.tracks
  rw [← exchange_turn] at turned taken
  refine ⟨by simp, fun ns _ number => turned.registered _, fun e entry posted => ?_,
    fun e entry producer ahead => ?_⟩
  · rcases taken with same | ⟨event, split, other⟩
    · exact same ▸ posted
    · rw [split] at posted
      exact (List.mem_cons.1 posted).resolve_left (other e entry).symm
  · obtain ⟨front, record, back, whole, early⟩ := ahead
    rcases taken with same | ⟨event, split, other⟩
    · exact ⟨front, record, back, same.trans whole, early⟩
    · rw [split] at whole
      cases front with
      | nil => exact absurd early List.not_mem_nil
      | cons first front =>
        obtain ⟨rfl, rest⟩ := List.cons.inj whole
        exact ⟨front, record, back, rest,
          (List.mem_cons.1 early).resolve_left (other e entry).symm⟩

/-- Whoever has no write under way has no record in the mailbox. -/
theorem Steady.unposted {written : List Bytes} (steady : t.Steady max cap base)
    (manned : t.Manned number ns none written) (record : Bytes) :
    Event.record number record ∉ t.exchange.mailbox := by
  have entry := steady.registered manned
  obtain ⟨w, accounted, -⟩ := steady.books
  obtain ⟨h, found, rfl, -, idle, -⟩ := manned
  obtain rfl := accounted.number_eq found
  obtain ⟨extra, standing, -⟩ := (accounted.kept h (List.mem_of_getElem? found)).written
  rw [idle] at standing
  cases standing with
  | idle none empty =>
    have empty : sent h.number t.exchange.mailbox = [] := empty entry
    intro posted
    have there : record ∈ sent h.number t.exchange.mailbox :=
      List.mem_filterMap.2 ⟨_, posted, by simp⟩
    simp [empty] at there

end Traffic
end Multiplexer

namespace Dump

variable {p : Pool} {t after : Traffic} {max : UInt64} {cap : Option UInt64} {base : Bytes}
  {w v : Worker} {bare namespaces first : List Namespace} {index : Nat} {queue : List Intent}
  {failed : Bool} {intents : List Intent}

/-- An intent whose source has no record and is in order. -/
def Intent.isBlank (max : UInt64) (i : Intent) : Bool :=
  match i.origin with
  | .opens source => match (Reader.start source max).nextRecord with
    | (.ok none, _) => true
    | _ => false
  | _ => false

/-- An intent without records is one of the bare namespaces. -/
def Intent.Listed (bare : List Namespace) (max : UInt64) (i : Intent) : Prop :=
  i.isBlank max → i.ns ∈ bare

/-- How many there are beside the bare ones. -/
def load (bare list : List Namespace) : Nat := (list.filter (· ∉ bare)).length

theorem load_append (bare first second : List Namespace) :
    load bare (first ++ second) = load bare first + load bare second := by
  simp [load]

theorem load_cons (bare : List Namespace) (ns : Namespace) (list : List Namespace) :
    load bare (ns :: list) = load bare [ns] + load bare list :=
  load_append bare [ns] list

theorem load_singleton_le (bare : List Namespace) (ns : Namespace) : load bare [ns] ≤ 1 :=
  List.length_filter_le ..

theorem load_of_mem {ns : Namespace} (member : ns ∈ bare) : load bare [ns] = 0 := by
  simp [load, member]

theorem load_flatMap {α : Type} (bare : List Namespace) (list : List α)
    (f : α → List Namespace) :
    load bare (list.flatMap f) = (list.map fun a => load bare (f a)).sum := by
  induction list with
  | nil => rfl
  | cons a rest ih => rw [List.flatMap_cons, load_append, ih, List.map_cons, List.sum_cons]

/-- Distinct namespaces among some others: those that are not bare are among them, and the bare
ones are bare. -/
theorem length_le_load {keys others : List Namespace} (distinct : keys.Nodup)
    (covered : ∀ ns ∈ keys, ns ∈ others) : keys.length ≤ load bare others + bare.length := by
  have parts : keys.length = _ := List.length_eq_length_filter_add (· ∉ bare)
  have here : (keys.filter (· ∉ bare)).length ≤ load bare others := by
    apply (distinct.filter _).length_le_of_subset
    intro ns member
    obtain ⟨known, counts⟩ := List.mem_filter.1 member
    exact List.mem_filter.2 ⟨covered ns known, counts⟩
  have rest : (keys.filter fun ns => !decide (ns ∉ bare)).length ≤ bare.length := by
    apply (distinct.filter _).length_le_of_subset
    intro ns member
    simpa using (List.mem_filter.1 member).2
  omega

/-- The namespaces that a worker has open. -/
def Worker.names (w : Worker) : List Namespace :=
  match w.stage with
  | .failing _ => []
  | .done _ => []
  | .closing (some (next, _)) => [w.ns, next.ns]
  | _ => [w.ns]

/-- What a worker may have left behind at each of its stages. A record that it waits for stands in
the mailbox after all of that; when it has found no record, its own namespace is bare. -/
inductive Trails (bare : List Namespace) (max : UInt64) (t : Traffic) :
    Worker → List Namespace → Prop
  | opening {index producer : Nat} {ns : Namespace} {intent : Intent} {left : List Namespace} :
    intent.ns = ns → intent.Listed bare max → load bare left ≤ 1 →
    Trails bare max t ⟨index, ns, producer, .opening intent⟩ left
  | reading {index producer : Nat} {ns : Namespace} {reader : Reader} {left : List Namespace} :
    left = [] ∨ load bare left ≤ 1 ∧ ((∃ next, reader.nextRecord = (.ok none, next)) → ns ∈ bare) →
    Trails bare max t ⟨index, ns, producer, .reading reader⟩ left
  | waiting {index producer : Nat} {ns : Namespace} {reader : Reader} {left : List Namespace} :
    load bare left ≤ 1 → (∀ other ∈ left, ∀ number,
      (other, number) ∈ t.exchange.engine.registry.entries → t.exchange.Ahead number producer) →
    Trails bare max t ⟨index, ns, producer, .waiting reader⟩ left
  | checking {index producer : Nat} {ns : Namespace} {left : List Namespace} :
    load bare (ns :: left) ≤ 1 → Trails bare max t ⟨index, ns, producer, .checking⟩ left
  | choosing {index producer : Nat} {ns : Namespace} {left : List Namespace} :
    load bare (ns :: left) ≤ 1 → Trails bare max t ⟨index, ns, producer, .choosing⟩ left
  | attaching {index producer : Nat} {ns : Namespace} {next : Intent} {left : List Namespace} :
    next.Listed bare max → load bare (ns :: left) ≤ 1 →
    Trails bare max t ⟨index, ns, producer, .attaching next⟩ left
  | passing {index producer number : Nat} {ns : Namespace} {next : Intent}
    {left : List Namespace} : next.Listed bare max → load bare (ns :: left) ≤ 1 →
    Trails bare max t ⟨index, ns, producer, .closing (some (next, number))⟩ left
  | closing {index producer : Nat} {ns : Namespace} {left : List Namespace} :
    load bare (ns :: left) ≤ 2 → Trails bare max t ⟨index, ns, producer, .closing none⟩ left
  | unwinding {index producer : Nat} {ns : Namespace} {e : EngineError} {left : List Namespace} :
    load bare (ns :: left) ≤ 2 → Trails bare max t ⟨index, ns, producer, .unwinding e⟩ left
  | failing {index producer : Nat} {ns : Namespace} {e : EngineError} {left : List Namespace} :
    load bare left ≤ 2 → Trails bare max t ⟨index, ns, producer, .failing e⟩ left
  | done {index producer : Nat} {ns : Namespace} {result : Except EngineError Unit}
    {left : List Namespace} : load bare left ≤ 2 →
    Trails bare max t ⟨index, ns, producer, .done result⟩ left

variable {left behind : List Namespace}

theorem Trails.elapsed (trails : Trails bare max t w left) (elapsed : t.Elapsed after)
    (leaving : ∀ ns ∈ left, t.Leaving ns) : Trails bare max after w left := by
  cases trails with
  | opening same listed few => exact .opening same listed few
  | reading few => exact .reading few
  | waiting few ahead =>
    refine .waiting few fun other gone number entry => ?_
    have before := elapsed.entries other (leaving other gone).1 number entry
    exact elapsed.ahead _ entry _ (ahead other gone number before)
  | checking few => exact .checking few
  | choosing few => exact .choosing few
  | attaching listed few => exact .attaching listed few
  | passing listed few => exact .passing listed few
  | closing few => exact .closing few
  | unwinding few => exact .unwinding few
  | failing few => exact .failing few
  | done few => exact .done few

/-- Nobody is the cause of more than two namespaces beside the bare ones. -/
theorem Trails.load_le (trails : Trails bare max t w left) : load bare (w.names ++ left) ≤ 2 := by
  obtain ⟨index, ns, producer, stage⟩ := w
  have one := load_singleton_le bare ns
  cases trails with
  | opening same listed few =>
    have whole := load_cons bare ns left
    simp only [Worker.names, List.singleton_append]
    omega
  | reading few =>
    have whole := load_cons bare ns left
    have least : load bare left ≤ 1 := by
      rcases few with rfl | ⟨few, -⟩
      · exact Nat.zero_le _
      · exact few
    simp only [Worker.names, List.singleton_append]
    omega
  | waiting few ahead =>
    have whole := load_cons bare ns left
    simp only [Worker.names, List.singleton_append]
    omega
  | @passing _ _ _ _ next _ listed few =>
    have whole := load_append bare [ns, next.ns] left
    have pair := load_cons bare ns [next.ns]
    have parts := load_cons bare ns left
    have other := load_singleton_le bare next.ns
    simp only [Worker.names]
    omega
  | closing few => exact few
  | unwinding few => exact few
  | failing few => exact few
  | done few => exact few
  | _ => exact Nat.le_succ_of_le ‹_›

theorem Worker.Asks.names (asks : w.Asks) (e : EngineError) :
    (w.enter (.unwinding e)).names = w.names := by
  obtain ⟨index, ns, producer, stage⟩ := w
  rcases asks with ⟨_, rfl⟩ | ⟨_, rfl⟩ | ⟨_, rfl⟩ <;> rfl

/-- Whoever fails has one namespace and may have left one behind. -/
theorem Trails.breaks (e : EngineError) (trails : Trails bare max t w left) (asks : w.Asks) :
    Trails bare max t (w.enter (.unwinding e)) left := by
  have most := trails.load_le
  obtain ⟨index, ns, producer, stage⟩ := w
  rcases asks with ⟨_, rfl⟩ | ⟨_, rfl⟩ | ⟨_, rfl⟩ <;> exact .unwinding most

/-- Whatever is registered is in the hands of a worker or was left behind by one. -/
structure Ledger (bare : List Namespace) (max : UInt64) (p : Pool) (t : Traffic)
    (left : Nat → List Namespace) : Prop where
  covers : ∀ ns ∈ t.exchange.engine.registry.keys, ∃ i w, p.workers[i]? = some w ∧
    ns ∈ w.names ++ left i
  trails : ∀ i w, p.workers[i]? = some w → Trails bare max t w (left i)
  leaving : ∀ i w, p.workers[i]? = some w → ∀ ns ∈ left i, t.Leaving ns
  queued : ∀ i ∈ p.queue, i.Listed bare max

namespace Ledger

variable {left : Nat → List Namespace}

theorem turn (ledger : Ledger bare max p t left) (steady : t.Steady max cap base) :
    Ledger bare max (p.step .engine) t.turn left := by
  have elapsed := Traffic.Elapsed.turn steady
  obtain ⟨wire, accounted, -⟩ := steady.books
  refine ⟨fun ns key => ?_, fun i w found => ?_, fun i w found ns gone => ?_, ledger.queued⟩
  · obtain ⟨⟨ns, number⟩, entry, rfl⟩ := List.mem_map.1 key
    apply ledger.covers
    rw [Multiplexer.Traffic.exchange_turn] at entry
    obtain ⟨v, turned⟩ := Multiplexer.turned t.exchange wire
    exact List.mem_map_of_mem (turned.registered _ entry)
  · exact (ledger.trails i w found).elapsed elapsed (ledger.leaving i w found)
  · exact elapsed.leaving (ledger.leaving i w found ns gone)

/-- One worker goes on, and what it was answerable for is still accounted for. -/
theorem replace (ledger : Ledger bare max p t left) (found : p.workers[index]? = some w)
    (elapsed : t.Elapsed after) (trails : Trails bare max after v behind)
    (leaving : ∀ ns ∈ behind, after.Leaving ns)
    (covers : ∀ ns ∈ after.exchange.engine.registry.keys,
      (ns ∈ t.exchange.engine.registry.keys → ns ∈ w.names ++ left index) → ns ∈ v.names ++ behind)
    (queued : ∀ i ∈ queue, i ∈ p.queue) :
    Ledger bare max ⟨after.exchange, queue, failed, p.workers.set index v⟩ after
      (Function.update left index behind) := by
  have bound := (List.getElem?_eq_some_iff.1 found).1
  have new : (p.workers.set index v)[index]? = some v := by simp [bound]
  refine ⟨fun ns key => ?_, fun i u there => ?_, fun i u there => ?_,
    fun i waits => ledger.queued i (queued i waits)⟩
  · by_cases mine : ns ∈ t.exchange.engine.registry.keys → ns ∈ w.names ++ left index
    · exact ⟨index, v, new, by simpa using covers ns key mine⟩
    · obtain ⟨old, others⟩ := Classical.not_imp.1 mine
      obtain ⟨i, u, there, has⟩ := ledger.covers ns old
      have apart : i ≠ index := by
        rintro rfl
        obtain rfl := Option.some.inj (found.symm.trans there)
        exact others has
      refine ⟨i, u, (List.getElem?_set_ne (Ne.symm apart)).trans there, ?_⟩
      rwa [Function.update_of_ne apart]
  · rcases getElem?_set_cases there with ⟨rfl, rfl⟩ | ⟨apart, old⟩
    · simpa using trails
    · rw [Function.update_of_ne apart]
      exact (ledger.trails i u old).elapsed elapsed (ledger.leaving i u old)
  · rcases getElem?_set_cases there with ⟨rfl, rfl⟩ | ⟨apart, old⟩
    · simpa using leaving
    · rw [Function.update_of_ne apart]
      exact fun ns gone => elapsed.leaving (ledger.leaving i u old ns gone)

end Ledger

theorem entries_of_open? {x y : Exchange} {ns : Namespace} {number : Nat}
    (opened : x.open? ns = .ok (number, y)) : ∀ e ∈ y.engine.registry.entries,
      e ∈ x.engine.registry.entries ∨ e.1 = ns := by
  obtain ⟨-, -, rfl⟩ := Exchange.open?_eq_ok_iff.1 opened
  intro e member
  rcases List.mem_append.1 member with old | new
  · exact .inl old
  · exact .inr (by simp [List.mem_singleton.1 new])

theorem Moved.elapsed (moved : Moved p t max w v queue failed after)
    (still : after.Steady max cap base) : t.Elapsed after := by
  cases moved with
  | posts read formed apart owed mailed => exact .of_apart apart mailed
  | @told _ _ _ _ after apart free mailed =>
    have nothing : after.exchange.mailbox = t.exchange.mailbox ++ [] := by simp [mailed]
    exact .of_apart apart nothing
  | attaches grown phase mailed opened =>
    exact .of_enroll still grown (entries_of_open? opened) mailed
  | passes apart there released mailed => exact .of_apart apart mailed
  | closes apart there released mailed => exact .of_apart apart mailed
  | unwinds apart there released mailed => exact .of_apart apart mailed
  | _ => exact .refl t

/-- Nothing is registered by a turn but what a worker opens. -/
theorem Moved.keys (moved : Moved p t max w v queue failed after) {ns : Namespace}
    (key : ns ∈ after.exchange.engine.registry.keys) :
    ns ∈ t.exchange.engine.registry.keys ∨ ∃ next, w.stage = .attaching next ∧ ns = next.ns := by
  cases moved with
  | posts read formed apart => exact .inl (apart.engine ▸ key)
  | told apart => exact .inl (apart.engine ▸ key)
  | attaches grown phase mailed opened =>
    obtain ⟨e, entry, rfl⟩ := List.mem_map.1 key
    exact (entries_of_open? opened e entry).imp List.mem_map_of_mem fun same => ⟨_, rfl, same⟩
  | passes apart => exact .inl (apart.engine ▸ key)
  | closes apart => exact .inl (apart.engine ▸ key)
  | unwinds apart => exact .inl (apart.engine ▸ key)
  | _ => exact .inl key

theorem Moved.queue_subset (moved : Moved p t max w v queue failed after) :
    ∀ i ∈ queue, i ∈ p.queue := by
  cases moved with
  | takes queued => exact fun i waits => queued ▸ List.mem_cons_of_mem _ waits
  | _ => exact fun i waits => waits

/-- A handle whose closing has been posted. -/
theorem leaving_of_closed {producer : Nat} {ns : Namespace} (steady : t.Steady max cap base)
    (free : Free t producer ns) (apart : t.Apart after producer)
    (mailed : after.exchange.mailbox = t.exchange.mailbox ++ [.closed producer]) :
    after.Leaving ns := by
  obtain ⟨written, manned⟩ := free
  have entry := steady.registered manned
  obtain ⟨wire, accounted, -⟩ := steady.books
  constructor
  · obtain ⟨h, found, rfl, -⟩ := manned
    exact apart.names ▸ List.mem_map_of_mem (List.mem_of_getElem? found)
  · intro number also
    rw [apart.engine] at also
    have same := List.inj_on_of_nodup_map accounted.tracks.valid.distinct also entry rfl
    simp [mailed, (Prod.mk.inj same).2]

namespace Ledger

variable {left : Nat → List Namespace}

theorem moved_leaving (ledger : Ledger bare max p t left) (still : after.Steady max cap base)
    (found : p.workers[index]? = some w) (moved : Moved p t max w v queue failed after) :
    ∀ ns ∈ left index, after.Leaving ns :=
  fun ns gone => (moved.elapsed still).leaving (ledger.leaving index w found ns gone)

/-- A worker that opens nothing has nothing new to answer for. -/
theorem retain (ledger : Ledger bare max p t left) (still : after.Steady max cap base)
    (found : p.workers[index]? = some w) (moved : Moved p t max w v queue failed after)
    (quiet : ∀ next, w.stage ≠ .attaching next) (trails : Trails bare max after v behind)
    (leaving : ∀ ns ∈ behind, after.Leaving ns)
    (covers : ∀ ns ∈ after.exchange.engine.registry.keys, ns ∈ w.names ++ left index →
      ns ∈ v.names ++ behind) :
    Ledger bare max ⟨after.exchange, queue, failed, p.workers.set index v⟩ after
      (Function.update left index behind) := by
  refine ledger.replace found (moved.elapsed still) trails leaving (fun ns key mine => ?_)
    moved.queue_subset
  rcases moved.keys key with old | ⟨next, stage, -⟩
  · exact covers ns key (mine old)
  · exact absurd stage (quiet next)

/-- It keeps what it has. -/
theorem stay (ledger : Ledger bare max p t left) (still : after.Steady max cap base)
    (found : p.workers[index]? = some w) (moved : Moved p t max w v queue failed after)
    (quiet : ∀ next, w.stage ≠ .attaching next) (names : v.names = w.names)
    (trails : Trails bare max after v (left index)) :
    ∃ left, Ledger bare max ⟨after.exchange, queue, failed, p.workers.set index v⟩ after left :=
  ⟨_, ledger.retain still found moved quiet trails (ledger.moved_leaving still found moved)
    fun _ _ mine => names ▸ mine⟩

/-- It leaves the namespace behind that it had. -/
theorem drop (ledger : Ledger bare max p t left) (still : after.Steady max cap base)
    (found : p.workers[index]? = some w) (moved : Moved p t max w v queue failed after)
    (quiet : ∀ next, w.stage ≠ .attaching next) (gone : after.Leaving w.ns)
    (names : ∀ other ∈ w.names, other = w.ns ∨ other ∈ v.names)
    (trails : Trails bare max after v (w.ns :: left index)) :
    ∃ left, Ledger bare max ⟨after.exchange, queue, failed, p.workers.set index v⟩ after left := by
  have leaving := List.forall_mem_cons.2 ⟨gone, ledger.moved_leaving still found moved⟩
  refine ⟨_, ledger.retain still found moved quiet trails leaving fun other key mine => ?_⟩
  rcases List.mem_append.1 mine with own | past
  · rcases names other own with rfl | kept
    · exact List.mem_append_right _ (List.mem_cons_self ..)
    · exact List.mem_append_left _ kept
  · exact List.mem_append_right _ (List.mem_cons_of_mem _ past)

/-- With the acknowledgement of a record everything that was left behind before it is gone. -/
theorem forget {producer own : Nat} {ns : Namespace} {reader : Reader}
    (ledger : Ledger bare max p t left) (still : after.Steady max cap base)
    (found : p.workers[index]? = some ⟨own, ns, producer, .waiting reader⟩)
    (moved : Moved p t max ⟨own, ns, producer, .waiting reader⟩
      ⟨own, ns, producer, .reading reader⟩ queue failed after)
    (apart : t.Apart after producer) (free : Free after producer ns)
    (mailed : after.exchange.mailbox = t.exchange.mailbox) :
    ∃ left, Ledger bare max ⟨after.exchange, queue, failed,
      p.workers.set index ⟨own, ns, producer, .reading reader⟩⟩ after left := by
  have nothing : Trails bare max after ⟨own, ns, producer, .reading reader⟩ [] :=
    .reading (.inl rfl)
  refine ⟨_, ledger.retain still found moved (by simp) nothing (by simp) fun other key mine => ?_⟩
  rcases List.mem_append.1 mine with here | gone
  · exact List.mem_append_left _ here
  · cases ledger.trails index _ found with
    | waiting few ahead =>
      obtain ⟨written, manned⟩ := free
      obtain ⟨⟨other, number⟩, entry, rfl⟩ := List.mem_map.1 key
      obtain ⟨front, record, back, split, -⟩ :=
        ahead other gone number (by rwa [apart.engine] at entry)
      exact absurd (by simp [mailed, split]) (still.unposted manned record)

/-- The namespace that a worker opens is one that it has. -/
theorem gain {producer own number : Nat} {ns : Namespace} {next : Intent}
    (ledger : Ledger bare max p t left) (still : after.Steady max cap base)
    (found : p.workers[index]? = some ⟨own, ns, producer, .attaching next⟩)
    (moved : Moved p t max ⟨own, ns, producer, .attaching next⟩
      ⟨own, ns, producer, .closing (some (next, number))⟩ queue failed after)
    (opened : t.exchange.open? next.ns = .ok (number, after.exchange)) :
    ∃ left, Ledger bare max ⟨after.exchange, queue, failed,
      p.workers.set index ⟨own, ns, producer, .closing (some (next, number))⟩⟩ after left := by
  cases ledger.trails index _ found with
  | attaching listed few =>
    refine ⟨_, ledger.replace found (moved.elapsed still) (.passing listed few)
      (ledger.moved_leaving still found moved) (fun other key mine => ?_) moved.queue_subset⟩
    obtain ⟨e, entry, rfl⟩ := List.mem_map.1 key
    rcases entries_of_open? opened e entry with old | new
    · rcases List.mem_append.1 (mine (List.mem_map_of_mem old)) with own | gone
      · simp [Worker.names, List.mem_singleton.1 own]
      · simp [gone]
    · simp [Worker.names, new]

/-- The turn of a worker keeps account of what is registered. -/
theorem work (ledger : Ledger bare max p t left)
    (crewed : Crewed p t namespaces) (steady : t.Steady max cap base)
    (still : after.Steady max cap base) (found : p.workers[index]? = some w)
    (moved : Moved p t max w v queue failed after) :
    ∃ left, Ledger bare max ⟨after.exchange, queue, failed, p.workers.set index v⟩ after left := by
  have post := crewed.posts w (List.mem_of_getElem? found)
  have trails := ledger.trails index w found
  have stay := ledger.stay still found moved
  have drop := ledger.drop still found moved
  cases moved with
  | rests rest =>
    exact ⟨_, ledger.replace found (.refl t) trails (ledger.leaving index w found)
      (fun other key mine => mine key) (by simp)⟩
  | breaks e asks =>
    exact ⟨_, ledger.replace found (.refl t) (trails.breaks e asks) (ledger.leaving index w found)
      (fun other key mine => asks.names e ▸ mine key) (by simp)⟩
  | begins origin =>
    cases trails with
    | opening named listed few =>
      refine stay (by simp) rfl (.reading (.inr ⟨few, ?_⟩))
      rintro ⟨next, nothing⟩
      exact named ▸ listed (by simp [Intent.isBlank, origin, nothing])
  | @posts _ producer ns reader next record after read formed apart owed mailed =>
    cases trails with
    | reading few =>
      have few : load bare (left index) ≤ 1 := by
        rcases few with empty | ⟨few, -⟩
        · simp [empty, load]
        · exact few
      refine stay (by simp) rfl (.waiting few fun other gone number entry => ?_)
      have posted := (ledger.leaving index _ found other gone).2 number
        (by rwa [apart.engine] at entry)
      exact ⟨_, record, [], mailed, posted⟩
  | told apart free mailed =>
    exact ledger.forget still found (.told apart free mailed) apart free mailed
  | @ends _ producer ns reader next read =>
    cases trails with
    | reading few =>
      refine stay (by simp) rfl (.checking ?_)
      rw [load_cons]
      rcases few with empty | ⟨few, blank⟩
      · rw [empty]
        exact load_singleton_le bare ns
      · rw [load_of_mem (blank ⟨_, read⟩)]
        omega
  | checks =>
    cases trails with
    | checking few => exact stay (by simp) rfl (.choosing few)
  | heeds =>
    cases trails with
    | checking few => exact stay (by simp) rfl (.closing (Nat.le_succ_of_le few))
  | takes queue =>
    cases trails with
    | choosing few => exact stay (by simp) rfl (.attaching (ledger.queued _ (by simp [queue])) few)
  | leaves =>
    cases trails with
    | choosing few => exact stay (by simp) rfl (.closing (Nat.le_succ_of_le few))
  | attaches grown phase mailed opened =>
    exact ledger.gain still found (.attaches grown phase mailed opened) opened
  | passes apart there released mailed =>
    cases trails with
    | passing listed few =>
      obtain ⟨-, free, -⟩ := post
      exact drop (by simp) (leaving_of_closed steady free apart mailed) (by simp [Worker.names])
        (.opening rfl listed few)
  | closes apart there released mailed =>
    cases trails with
    | closing few =>
      exact drop (by simp) (leaving_of_closed steady post apart mailed) (by simp [Worker.names])
        (.done few)
  | unwinds apart there released mailed =>
    cases trails with
    | unwinding few =>
      exact drop (by simp) (leaving_of_closed steady post apart mailed) (by simp [Worker.names])
        (.failing few)
  | fails =>
    cases trails with
    | failing few => exact stay (by simp) rfl (.done few)

end Ledger

/-- A worker that asks for a namespace has one, and the others have two at most. -/
theorem Ledger.count_lt {left : Nat → List Namespace} {next : Intent}
    (ledger : Ledger bare max p t left) (steady : t.Steady max cap base) (member : w ∈ p.workers)
    (stage : w.stage = .attaching next) :
    t.exchange.engine.registry.count < 2 * p.workers.length + bare.length := by
  obtain ⟨wire, accounted, -⟩ := steady.books
  have covered : t.exchange.engine.registry.keys.length ≤
      load bare (p.workers.zipIdx.flatMap fun e => e.1.names ++ left e.2) + bare.length := by
    refine length_le_load accounted.tracks.valid.distinct fun ns key => ?_
    obtain ⟨i, w, found, has⟩ := ledger.covers ns key
    exact List.mem_flatMap.2 ⟨(w, i), List.mem_zipIdx_iff_getElem?.2 found, has⟩
  have most : ∀ e ∈ p.workers.zipIdx, load bare (e.1.names ++ left e.2) ≤ 2 := fun e member =>
    (ledger.trails _ _ (List.mem_zipIdx_iff_getElem?.1 member)).load_le
  obtain ⟨i, found⟩ := List.mem_iff_getElem?.1 member
  have less : load bare (w.names ++ left i) < 2 := by
    have trails := ledger.trails i w found
    obtain ⟨index, ns, producer, _⟩ := w
    subst stage
    cases trails with
    | attaching listed few => exact Nat.lt_succ_of_le few
  have sum : (p.workers.zipIdx.map fun e => load bare (e.1.names ++ left e.2)).sum <
      (p.workers.zipIdx.map fun _ => 2).sum :=
    List.sum_lt_sum _ _ most ⟨(w, i), List.mem_zipIdx_iff_getElem?.2 found, less⟩
  rw [load_flatMap] at covered
  simp only [List.map_const', List.length_zipIdx, List.sum_replicate, smul_eq_mul] at sum
  have count : t.exchange.engine.registry.count = t.exchange.engine.registry.keys.length := by
    simp [Registry.count, Registry.keys]
  omega

end Dump
end DumpArchive
