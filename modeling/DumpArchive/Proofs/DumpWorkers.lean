import DumpArchive.Proofs.WorkerStages

/-! The workers of a dump and their handles. Each worker at work holds the handle of its namespace,
and has opened the next one before it lets go of that, so nobody is out of work while the engine
finds nobody registered. -/
namespace DumpArchive

open Multiplexer (Exchange Traffic Handle Heads)
open Token (Reader)

/-- A reader before some records and the end of its input. -/
structure Token.Reader.Before (r : Reader) (max : UInt64) (left : List Bytes) : Prop where
  formed : ∀ b ∈ left, Record.Formed max b
  ahead : ∃ offset, r.At max offset left.flatten

theorem Token.Reader.Before.nextRecord_cons {r : Reader} {max : UInt64} {record : Bytes}
    {left : List Bytes} (small : max.toNat < 2 ^ 63) (before : r.Before max (record :: left)) :
    ∃ next, r.nextRecord = (.ok (some record), next) ∧ next.Before max left := by
  obtain ⟨formed, others⟩ := List.forall_mem_cons.1 before.formed
  obtain ⟨offset, ahead⟩ := before.ahead
  rw [List.flatten_cons] at ahead
  have token : (Token.record record).Formed max := formed
  obtain ⟨next, read, after⟩ := Reader.readToken_append small token ahead
  exact ⟨next, by simp [Reader.nextRecord, read], others, _, after⟩

theorem Token.Reader.Before.nextRecord_nil {r : Reader} {max : UInt64} (before : r.Before max []) :
    ∃ next, r.nextRecord = (.ok none, next) := by
  obtain ⟨offset, ahead⟩ := before.ahead
  obtain ⟨next, read, -⟩ := Reader.readToken_nil ahead
  exact ⟨next, by simp [Reader.nextRecord, read]⟩

namespace Dump

/-- The source of an intent gives these records and nothing else. -/
def Intent.Gives (i : Intent) (max : UInt64) (records : List Bytes) : Prop :=
  ∃ source, i.origin = .opens source ∧ source.schedule.Sound ∧ source.pending = records.flatten ∧
    ∀ r ∈ records, Record.Formed max r

variable {p : Pool} {t after : Traffic} {max : UInt64} {records : Namespace → List Bytes}
  {base : Bytes} {w v : Worker}

/-- What a worker in good order has at each of its stages: its handle, the records that it has
written and those it has yet to read. -/
inductive Duty (t : Traffic) (max : UInt64) (records : Namespace → List Bytes) : Worker → Prop
  | opening {index producer : Nat} {ns : Namespace} {intent : Intent} : intent.ns = ns →
    intent.Gives max (records ns) → t.Manned producer ns none [] →
    Duty t max records ⟨index, ns, producer, .opening intent⟩
  | reading {index producer : Nat} {ns : Namespace} {reader : Reader}
    {written left : List Bytes} : reader.Before max left → records ns = written ++ left →
    t.Manned producer ns none written → Duty t max records ⟨index, ns, producer, .reading reader⟩
  | waiting {index producer : Nat} {ns : Namespace} {reader : Reader} {record : Bytes}
    {written left : List Bytes} : reader.Before max left →
    records ns = written ++ record :: left → t.Manned producer ns (some record) written →
    Duty t max records ⟨index, ns, producer, .waiting reader⟩
  | checking {index producer : Nat} {ns : Namespace} : t.Manned producer ns none (records ns) →
    Duty t max records ⟨index, ns, producer, .checking⟩
  | choosing {index producer : Nat} {ns : Namespace} : t.Manned producer ns none (records ns) →
    Duty t max records ⟨index, ns, producer, .choosing⟩
  | attaching {index producer : Nat} {ns : Namespace} {next : Intent} : next.ns.isNamed →
    next.Gives max (records next.ns) → t.Manned producer ns none (records ns) →
    Duty t max records ⟨index, ns, producer, .attaching next⟩
  | passing {index producer number : Nat} {ns : Namespace} {next : Intent} :
    next.Gives max (records next.ns) → number ≠ producer →
    t.Manned producer ns none (records ns) → t.Manned number next.ns none [] →
    Duty t max records ⟨index, ns, producer, .closing (some (next, number))⟩
  | closing {index producer : Nat} {ns : Namespace} : t.Manned producer ns none (records ns) →
    Duty t max records ⟨index, ns, producer, .closing none⟩
  | done {index producer : Nat} {ns : Namespace} :
    Duty t max records ⟨index, ns, producer, .done (.ok ())⟩

/-- A duty is about the handles that are held. -/
theorem Duty.congr (same : ∀ number ∈ w.held, after.handles[number]? = t.handles[number]?)
    (duty : Duty t max records w) : Duty after max records w := by
  cases duty with
  | opening named gives manned =>
    exact .opening named gives (manned_congr (same _ (by simp [Worker.held])) manned)
  | reading before split manned =>
    exact .reading before split (manned_congr (same _ (by simp [Worker.held])) manned)
  | waiting before split manned =>
    exact .waiting before split (manned_congr (same _ (by simp [Worker.held])) manned)
  | checking manned => exact .checking (manned_congr (same _ (by simp [Worker.held])) manned)
  | choosing manned => exact .choosing (manned_congr (same _ (by simp [Worker.held])) manned)
  | attaching named gives manned =>
    exact .attaching named gives (manned_congr (same _ (by simp [Worker.held])) manned)
  | passing gives apart manned fresh =>
    exact .passing gives apart (manned_congr (same _ (by simp [Worker.held])) manned)
      (manned_congr (same _ (by simp [Worker.held])) fresh)
  | closing manned => exact .closing (manned_congr (same _ (by simp [Worker.held])) manned)
  | done => exact .done

theorem Duty.manned {number : Nat} (duty : Duty t max records w) (holds : number ∈ w.held) :
    ∃ ns pending written, t.Manned number ns pending written := by
  cases duty with
  | passing gives apart manned fresh =>
    rcases List.mem_cons.1 holds with rfl | other
    · exact ⟨_, _, _, manned⟩
    · obtain rfl := List.mem_singleton.1 other
      exact ⟨_, _, _, fresh⟩
  | done => exact absurd holds List.not_mem_nil
  | _ =>
    obtain rfl := List.mem_singleton.1 holds
    exact ⟨_, _, _, ‹_›⟩

/-- The pool and its multiplexer belong together: every handle is in the hands of one worker or was
let go of when all its records had been written, and every intent is queued, in hand or opened. -/
structure Staffed (p : Pool) (t : Traffic) (max : UInt64) (records : Namespace → List Bytes)
    (namespaces : List Namespace) : Prop where
  exchange : p.exchange = t.exchange
  ran : t.exchange.phase ≠ .ready
  calm : p.failed = false
  duties : ∀ w ∈ p.workers, Duty t max records w
  hands : Hands p.workers t
  released : ∀ h ∈ t.handles, h.released → h.written = records h.ns
  queued : ∀ i ∈ p.queue, i.ns.isNamed ∧ i.Gives max (records i.ns)
  last : p.queue ≠ [] → p.workers ≠ [] ∧
    ∀ w ∈ p.workers, w.stage ≠ .closing none ∧ w.isDone = false
  known : (t.handles.map (·.ns) ++ p.unopened.map (·.ns)).Perm namespaces

/-- A limit of `2 ^ 63` or more lets no record be read, so under one there are none. -/
def Legible (max : UInt64) (records : Namespace → List Bytes) (namespaces : List Namespace) :
    Prop :=
  ∀ ns ∈ namespaces, records ns ≠ [] → max.toNat < 2 ^ 63

/-- All that the turn of a worker in good order can come to: the worker afterwards, what is left
of the queue, and the multiplexer. -/
inductive Worked (p : Pool) (t : Traffic) (max : UInt64) (records : Namespace → List Bytes) :
    Worker → Worker → List Intent → Traffic → Prop
  | rests {w : Worker} : w.isDone ∨ w.Waits t.exchange →
    Worked p t max records w w p.queue t
  | begins {index producer : Nat} {ns : Namespace} {intent : Intent} {source : Source} :
    intent.origin = .opens source → (Reader.start source max).Before max (records ns) →
    t.Manned producer ns none [] →
    Worked p t max records ⟨index, ns, producer, .opening intent⟩
      ⟨index, ns, producer, .reading (.start source max)⟩ p.queue t
  | posts {index producer : Nat} {ns : Namespace} {reader next : Reader} {record : Bytes}
    {written left : List Bytes} {after : Traffic} : reader.Before max (record :: left) →
    next.Before max left → records ns = written ++ record :: left → t.Apart after producer →
    after.Manned producer ns (some record) written →
    after.exchange.mailbox = t.exchange.mailbox ++ [.record producer record] →
    Worked p t max records ⟨index, ns, producer, .reading reader⟩
      ⟨index, ns, producer, .waiting next⟩ p.queue after
  | told {index producer : Nat} {ns : Namespace} {reader : Reader} {record : Bytes}
    {written left : List Bytes} {after : Traffic} : reader.Before max left →
    records ns = written ++ record :: left → t.Apart after producer →
    after.Manned producer ns none (written ++ [record]) →
    after.exchange.mailbox = t.exchange.mailbox →
    Worked p t max records ⟨index, ns, producer, .waiting reader⟩
      ⟨index, ns, producer, .reading reader⟩ p.queue after
  | ends {index producer : Nat} {ns : Namespace} {reader : Reader} :
    t.Manned producer ns none (records ns) →
    Worked p t max records ⟨index, ns, producer, .reading reader⟩
      ⟨index, ns, producer, .checking⟩ p.queue t
  | checks {index producer : Nat} {ns : Namespace} : t.Manned producer ns none (records ns) →
    Worked p t max records ⟨index, ns, producer, .checking⟩
      ⟨index, ns, producer, .choosing⟩ p.queue t
  | takes {index producer : Nat} {ns : Namespace} {next : Intent} {queue : List Intent} :
    p.queue = next :: queue → t.Manned producer ns none (records ns) →
    Worked p t max records ⟨index, ns, producer, .choosing⟩
      ⟨index, ns, producer, .attaching next⟩ queue t
  | leaves {index producer : Nat} {ns : Namespace} : p.queue = [] →
    t.Manned producer ns none (records ns) →
    Worked p t max records ⟨index, ns, producer, .choosing⟩
      ⟨index, ns, producer, .closing none⟩ p.queue t
  | attaches {index producer : Nat} {ns : Namespace} {next : Intent} {after : Traffic} :
    next.Gives max (records next.ns) → t.Manned producer ns none (records ns) →
    after.handles = t.handles ++ [.fresh t.handles.length next.ns] →
    after.exchange.phase = t.exchange.phase →
    t.exchange.open? next.ns = .ok (t.handles.length, after.exchange) →
    Worked p t max records ⟨index, ns, producer, .attaching next⟩
      ⟨index, ns, producer, .closing (some (next, t.handles.length))⟩ p.queue after
  | passes {index producer number : Nat} {ns : Namespace} {next : Intent} {after : Traffic} :
    next.Gives max (records next.ns) → number ≠ producer → t.Manned number next.ns none [] →
    t.Apart after producer →
    (∃ h, after.handles[producer]? = some h ∧ h.ns = ns ∧ h.released ∧ h.written = records ns) →
    after.exchange.mailbox = t.exchange.mailbox ++ [.closed producer] →
    Worked p t max records ⟨index, ns, producer, .closing (some (next, number))⟩
      ⟨index, next.ns, number, .opening next⟩ p.queue after
  | closes {index producer : Nat} {ns : Namespace} {after : Traffic} : t.Apart after producer →
    (∃ h, after.handles[producer]? = some h ∧ h.ns = ns ∧ h.released ∧ h.written = records ns) →
    after.exchange.mailbox = t.exchange.mailbox ++ [.closed producer] →
    Worked p t max records ⟨index, ns, producer, .closing none⟩
      ⟨index, ns, producer, .done (.ok ())⟩ p.queue after

variable {namespaces : List Namespace}

/-- The namespace of an intent that a worker has taken can be opened: it never had a handle, and
with the handle of this worker the engine still runs. -/
theorem Staffed.register {next : Intent} {pending : Option Bytes} {written : List Bytes}
    (staffed : Staffed p t max records namespaces) (steady : t.Steady max none base)
    (distinct : namespaces.Nodup) (heads : ∀ ns ∈ namespaces, Heads max ns) (member : w ∈ p.workers)
    (stage : w.stage = .attaching next) (named : next.ns.isNamed)
    (manned : t.Manned w.producer w.ns pending written) :
    ∃ after : Traffic, t.exchange.open? next.ns = .ok (t.handles.length, after.exchange) ∧
      after.Steady max none base ∧ after.handles = t.handles ++ [.fresh t.handles.length next.ns] ∧
      after.exchange.phase = t.exchange.phase := by
  obtain ⟨wire, accounted, -⟩ := steady.books
  have mine : next ∈ w.unopened := by simp [Worker.unopened, stage]
  have waits : next ∈ p.unopened := List.mem_append_right _ (List.mem_flatMap.2 ⟨w, member, mine⟩)
  have fresh : next.ns ∉ t.handles.map (·.ns) := by
    have once := staffed.known.nodup_iff.2 distinct
    exact fun old => (List.nodup_append.1 once).2.2 _ old _ (List.mem_map_of_mem waits) rfl
  have listed : next.ns ∈ namespaces :=
    staffed.known.mem_iff.1 (List.mem_append_right _ (List.mem_map_of_mem waits))
  obtain ⟨after, opened, still, grown, -, phase, -⟩ := steady.register named fresh (heads _ listed)
    (accounted.clean (steady.registered manned))
  exact ⟨after, opened, still, grown, phase⟩

theorem Staffed.listed {producer : Nat} {ns : Namespace} {pending : Option Bytes}
    {written : List Bytes} (staffed : Staffed p t max records namespaces)
    (manned : t.Manned producer ns pending written) : ns ∈ namespaces := by
  obtain ⟨h, found, rfl, -⟩ := manned
  have member := List.mem_map_of_mem (List.mem_of_getElem? found) (f := (·.ns))
  exact staffed.known.mem_iff.1 (List.mem_append_left _ member)

/-- Inversion of the turns of workers. -/
theorem Staffed.worked (legible : Legible max records namespaces)
    (staffed : Staffed p t max records namespaces)
    (steady : t.Steady max none base) (distinct : namespaces.Nodup)
    (heads : ∀ ns ∈ namespaces, Heads max ns) (member : w ∈ p.workers) :
    ∃ v queue after, Worked p t max records w v queue after ∧ after.Steady max none base ∧
      w.turn p = (v, { p with exchange := after.exchange, queue }) := by
  have same := staffed.exchange
  obtain ⟨wire, accounted, -⟩ := steady.books
  have limit := accounted.limit
  have idle : ({ p with exchange := t.exchange, queue := p.queue } : Pool) = p := by rw [← same]
  cases staffed.duties w member with
  | @opening index producer ns intent named gives manned =>
    obtain ⟨source, origin, sound, pending, formed⟩ := gives
    have ahead := Reader.at_start sound max
    rw [pending] at ahead
    refine ⟨_, _, t, .begins origin ⟨formed, _, ahead⟩ manned, steady, ?_⟩
    simp [Worker.turn, origin, Worker.enter, same, limit, idle]
  | @reading index producer ns reader written left before split manned =>
    cases left with
    | nil =>
      obtain ⟨next, read⟩ := before.nextRecord_nil
      rw [List.append_nil] at split
      refine ⟨_, _, t, .ends (split ▸ manned), steady, ?_⟩
      simp [Worker.turn, read, Worker.enter, idle]
    | cons record left =>
      have listed : ns ∈ namespaces := staffed.listed manned
      have small := legible ns listed (by simp [split])
      obtain ⟨next, read, later⟩ := before.nextRecord_cons small
      have formed := before.formed record (List.mem_cons_self ..)
      have passes : Record.check record t.exchange.engine.writer.max = .ok () :=
        Record.check_eq_ok_iff.2 (limit ▸ formed)
      obtain ⟨after, posted, still, apart, waits, mailed⟩ := steady.write manned formed
      refine ⟨_, _, after, .posts before later split apart waits mailed, still, ?_⟩
      simp [Worker.turn, read, same, passes, Worker.enter, posted]
  | @waiting index producer ns reader record written left before split manned =>
    rcases steady.collect manned with
      ⟨none, -⟩ | ⟨size, after, answered, still, apart, free, mailed⟩
    · refine ⟨_, _, t, .rests (.inr ⟨⟨reader, rfl⟩, by rw [none]⟩), steady, ?_⟩
      simp only [Worker.turn, same, none, idle]
    · refine ⟨_, _, after, .told before split apart free mailed, still, ?_⟩
      simp only [Worker.turn, same, answered, Worker.enter]
  | @checking index producer ns manned =>
    refine ⟨_, _, t, .checks manned, steady, ?_⟩
    rw [idle]
    simp [Worker.turn, staffed.calm, Worker.enter]
  | @choosing index producer ns manned =>
    cases queued : p.queue with
    | nil =>
      refine ⟨_, _, t, .leaves queued manned, steady, ?_⟩
      rw [idle]
      simp [Worker.turn, queued, Worker.enter]
    | cons next queue =>
      refine ⟨_, _, t, .takes queued manned, steady, ?_⟩
      simp [Worker.turn, queued, Worker.enter, ← same]
  | @attaching index producer ns next named gives manned =>
    obtain ⟨after, opened, still, grown, phase⟩ :=
      staffed.register steady distinct heads member rfl named manned
    refine ⟨_, _, after, .attaches gives manned grown phase opened, still, ?_⟩
    simp [Worker.turn, same, opened, Worker.enter]
  | @passing index producer number ns next gives apart manned fresh =>
    obtain ⟨after, posted, still, frame, released, mailed⟩ := steady.release manned
    refine ⟨_, _, after, .passes gives apart fresh frame released mailed, still, ?_⟩
    simp [Worker.turn, same, posted]
  | @closing index producer ns manned =>
    obtain ⟨after, posted, still, frame, released, mailed⟩ := steady.release manned
    refine ⟨_, _, after, .closes frame released mailed, still, ?_⟩
    simp [Worker.turn, same, posted, Worker.enter]
  | @done index producer ns =>
    refine ⟨_, _, t, .rests (.inl rfl), steady, ?_⟩
    rw [idle]
    rfl

variable {index : Nat} {queue : List Intent}

/-- One worker and its handles change, and perhaps the queue; nobody else notices. -/
theorem Staffed.replace (staffed : Staffed p t max records namespaces)
    (found : p.workers[index]? = some w) (phase : after.exchange.phase = t.exchange.phase)
    (regrip : Regrip t after w v) (duty : Duty after max records v)
    (complete : ∀ (n : Nat) (h : Handle), after.handles[n]? = some h → n ∈ w.held → n ∉ v.held →
      h.written = records h.ns)
    (queued : ∀ i ∈ queue, i ∈ p.queue)
    (last : queue ≠ [] → v.stage ≠ .closing none ∧ v.isDone = false)
    (trade : (after.handles.map (·.ns) ++ (queue ++ v.unopened).map (·.ns)).Perm
      (t.handles.map (·.ns) ++ (p.queue ++ w.unopened).map (·.ns))) :
    Staffed ⟨after.exchange, queue, p.failed, p.workers.set index v⟩ after max records
      namespaces := by
  have bound := (List.getElem?_eq_some_iff.1 found).1
  have hands := staffed.hands.replace found regrip fun n => duty.manned
  refine ⟨rfl, phase ▸ staffed.ran, staffed.calm, ?_, hands, ?_, ?_, ?_, ?_⟩
  · intro u there
    obtain ⟨j, there⟩ := List.mem_iff_getElem?.1 there
    rcases getElem?_set_cases there with ⟨-, rfl⟩ | ⟨other, old⟩
    · exact duty
    · -- no handle is in two hands, so the frame covers the handles of all other workers
      refine (staffed.duties u (List.mem_of_getElem? old)).congr fun n holds => ?_
      obtain ⟨apart, less⟩ := staffed.hands.foreign found old other holds
      exact regrip.frame n apart less
  · intro h there gone
    obtain ⟨n, there⟩ := List.mem_iff_getElem?.1 there
    by_cases mine : n ∈ v.held
    · obtain ⟨ns, pending, written, k, same, -, live, -⟩ := duty.manned mine
      obtain rfl := Option.some.inj (same.symm.trans there)
      simp [live] at gone
    · by_cases own : n ∈ w.held
      · exact complete n h there own mine
      · have less := (regrip.fresh n (List.getElem?_eq_some_iff.1 there).1).resolve_right mine
        rw [regrip.frame n own less] at there
        exact staffed.released h (List.mem_of_getElem? there) gone
  · exact fun i waits => staffed.queued i (queued i waits)
  · intro some
    have busy : p.queue ≠ [] := by
      obtain ⟨i, waits⟩ := List.exists_mem_of_ne_nil _ some
      exact List.ne_nil_of_mem (queued i waits)
    refine ⟨List.ne_nil_of_mem (List.mem_set bound v), fun u there => ?_⟩
    rcases List.mem_or_eq_of_mem_set there with old | rfl
    · exact (staffed.last busy).2 u old
    · exact last some
  · refine .trans ?_ staffed.known
    simp only [List.map_append, ← List.append_assoc] at trade
    have traded := perm_trade (f := fun w => w.unopened.map (·.ns)) found trade
    simpa [Pool.unopened, List.map_flatMap] using traded

/-- A worker goes on with the one handle that it has. -/
theorem Staffed.retain {number : Nat} (staffed : Staffed p t max records namespaces)
    (found : p.workers[index]? = some w) (before : w.held = [number]) (still : v.held = [number])
    (apart : t.Apart after number) (duty : Duty after max records v)
    (queued : ∀ i ∈ queue, i ∈ p.queue)
    (last : queue ≠ [] → v.stage ≠ .closing none ∧ v.isDone = false)
    (trade : (queue ++ v.unopened).Perm (p.queue ++ w.unopened)) :
    Staffed ⟨after.exchange, queue, p.failed, p.workers.set index v⟩ after max records
      namespaces := by
  refine staffed.replace found apart.phase (.retain before still apart) duty ?_ queued last ?_
  · intro n h _ holds gone
    exact absurd (still ▸ before ▸ holds) gone
  · rw [apart.names]
    exact (trade.map _).append_left _

/-- A worker takes another handle, which is new, for the intent that it has. -/
theorem Staffed.attach {producer : Nat} {next : Intent}
    (staffed : Staffed p t max records namespaces) (found : p.workers[index]? = some w)
    (before : w.held = [producer]) (still : v.held = [producer, t.handles.length])
    (grown : after.handles = t.handles ++ [.fresh t.handles.length next.ns])
    (phase : after.exchange.phase = t.exchange.phase) (duty : Duty after max records v)
    (last : v.stage ≠ .closing none ∧ v.isDone = false) (taken : w.unopened = [next])
    (opened : v.unopened = []) :
    Staffed ⟨after.exchange, p.queue, p.failed, p.workers.set index v⟩ after max records
      namespaces := by
  refine staffed.replace found phase (.attach before still grown) duty ?_ (fun i waits => waits)
    (fun _ => last) ?_
  · intro n h _ holds gone
    rw [before, List.mem_singleton] at holds
    exact absurd (by simp [still, holds]) gone
  · simp only [grown, taken, opened, List.map_append, List.append_nil, List.append_assoc]
    exact List.perm_append_comm.append_left _

/-- A worker lets go of a handle, all of whose records it has written. -/
theorem Staffed.relinquish {producer : Nat} {ns : Namespace}
    (staffed : Staffed p t max records namespaces) (found : p.workers[index]? = some w)
    (before : w.held = producer :: v.held) (apart : t.Apart after producer)
    (released : ∃ h, after.handles[producer]? = some h ∧ h.ns = ns ∧ h.released ∧
      h.written = records ns) (duty : Duty after max records v)
    (last : p.queue ≠ [] → v.stage ≠ .closing none ∧ v.isDone = false)
    (same : v.unopened = w.unopened) :
    Staffed ⟨after.exchange, p.queue, p.failed, p.workers.set index v⟩ after max records
      namespaces := by
  obtain ⟨k, there, rfl, gone, written⟩ := released
  refine staffed.replace found apart.phase (.relinquish before apart there gone) duty ?_
    (fun i waits => waits) last ?_
  · intro n h here holds dropped
    rw [before] at holds
    obtain rfl := (List.mem_cons.1 holds).resolve_right dropped
    obtain rfl := Option.some.inj (there.symm.trans here)
    exact written
  · rw [apart.names, same]

/-- A turn of a worker in good order leaves the pool so. -/
theorem Staffed.work (staffed : Staffed p t max records namespaces)
    (found : p.workers[index]? = some w) (worked : Worked p t max records w v queue after) :
    Staffed ⟨after.exchange, queue, p.failed, p.workers.set index v⟩ after max records
      namespaces := by
  have all : ∀ i ∈ p.queue, i ∈ p.queue := fun i waits => waits
  cases worked with
  | rests =>
    rw [set_same found, ← staffed.exchange]
    exact staffed
  | begins origin before manned =>
    exact staffed.retain found rfl rfl (.refl t _) (.reading before rfl manned) all
      (fun _ => ⟨by simp, rfl⟩) (.refl _)
  | posts before later split apart waits =>
    exact staffed.retain found rfl rfl apart (.waiting later split waits) all
      (fun _ => ⟨by simp, rfl⟩) (.refl _)
  | told before split apart free =>
    exact staffed.retain found rfl rfl apart (.reading before (by simp [split]) free) all
      (fun _ => ⟨by simp, rfl⟩) (.refl _)
  | ends manned =>
    exact staffed.retain found rfl rfl (.refl t _) (.checking manned) all
      (fun _ => ⟨by simp, rfl⟩) (.refl _)
  | checks manned =>
    exact staffed.retain found rfl rfl (.refl t _) (.choosing manned) all
      (fun _ => ⟨by simp, rfl⟩) (.refl _)
  | @takes _ _ _ next queue queued manned =>
    obtain ⟨named, gives⟩ := staffed.queued next (by simp [queued])
    refine staffed.retain found rfl rfl (.refl t _) (.attaching named gives manned) ?_
      (fun _ => ⟨by simp, rfl⟩) ?_
    · intro i waits
      rw [queued]
      exact List.mem_cons_of_mem _ waits
    · rw [queued]
      simp [Worker.unopened]
  | leaves empty manned =>
    exact staffed.retain found rfl rfl (.refl t _) (.closing manned) all
      (fun some => absurd empty some) (.refl _)
  | @attaches _ producer ns next after gives manned grown phase =>
    have less : producer < t.handles.length := manned.lt
    have old : after.handles[producer]? = t.handles[producer]? := by
      rw [grown, List.getElem?_append_left less]
    have fresh : after.Manned t.handles.length next.ns none [] :=
      ⟨.fresh t.handles.length next.ns, by simp [grown], rfl, rfl, rfl, rfl⟩
    have mine := manned_congr old manned
    exact staffed.attach found rfl rfl grown phase (.passing gives (Nat.ne_of_gt less) mine fresh)
      ⟨by simp, rfl⟩ rfl rfl
  | @passes _ producer number ns next after gives apart fresh frame released =>
    have other := manned_congr (frame.others number apart) fresh
    exact staffed.relinquish found rfl frame released (.opening rfl gives other)
      (fun _ => ⟨by simp, rfl⟩) rfl
  | @closes _ producer ns after frame released =>
    refine staffed.relinquish found rfl frame released .done (fun some => ?_) rfl
    exact absurd rfl ((staffed.last some).2 _ (List.mem_of_getElem? found)).1

theorem Staffed.turn (staffed : Staffed p t max records namespaces) :
    Staffed (p.step .engine) t.turn max records namespaces := by
  have same : (p.step .engine).exchange = t.turn.exchange := by
    rw [Multiplexer.Traffic.exchange_turn, ← staffed.exchange]
    rfl
  have handles := Multiplexer.Traffic.handles_turn t
  refine ⟨same, ?_, staffed.calm, ?_, staffed.hands.turn, ?_, staffed.queued, staffed.last, ?_⟩
  · rw [Multiplexer.Traffic.exchange_turn]
    intro ready
    rcases t.exchange.phase_step with same | ⟨result, stopped⟩
    · exact staffed.ran (same ▸ ready)
    · rw [stopped] at ready
      contradiction
  · intro w member
    exact (staffed.duties w member).congr fun n _ => by rw [handles]
  · rw [handles]
    exact staffed.released
  · rw [handles]
    exact staffed.known

end Dump
end DumpArchive
