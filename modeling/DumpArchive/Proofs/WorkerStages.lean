import DumpArchive.Proofs.HeldHandles
import DumpArchive.Proofs.Queueing
import DumpArchive.Proofs.Sources

/-! Workers over any sources. What becomes of a worker is up to its source, to the others and to the
registry, but its handles go with its stage, and it lets go of them before it is done. -/
namespace DumpArchive.Dump

open Multiplexer (Exchange Traffic Handle Heads)
open Token (Reader)

variable {p : Pool} {t after : Traffic} {max : UInt64} {cap : Option UInt64} {base : Bytes}
  {w v : Worker} {namespaces : List Namespace} {index : Nat} {queue : List Intent} {failed : Bool}

/-- A handle in hand, with no write under way. -/
def Free (t : Traffic) (number : Nat) (ns : Namespace) : Prop :=
  ∃ written, t.Manned number ns none written

/-- A handle in hand, with a write under way. -/
def Owed (t : Traffic) (number : Nat) (ns : Namespace) : Prop :=
  ∃ record written, t.Manned number ns (some record) written

theorem Free.congr {number : Nat} {ns : Namespace} (free : Free t number ns)
    (same : after.handles[number]? = t.handles[number]?) : Free after number ns :=
  free.imp fun _ => manned_congr same

namespace Worker

/-- The handles of a worker, as they go with its stage. -/
def Post (w : Worker) (t : Traffic) : Prop :=
  match w.stage with
  | .waiting _ => Owed t w.producer w.ns
  | .closing (some (next, number)) =>
    number ≠ w.producer ∧ Free t w.producer w.ns ∧ Free t number next.ns
  | .failing _ => True
  | .done _ => True
  | _ => Free t w.producer w.ns

theorem Post.congr (same : ∀ number ∈ w.held, after.handles[number]? = t.handles[number]?)
    (post : w.Post t) : w.Post after := by
  obtain ⟨index, ns, producer, stage⟩ := w
  cases stage with
  | waiting reader =>
    obtain ⟨record, written, manned⟩ := post
    exact ⟨record, written, manned_congr (same _ (by simp [held])) manned⟩
  | closing next =>
    cases next with
    | none => exact Free.congr post (same _ (by simp [held]))
    | some next =>
      obtain ⟨apart, mine, fresh⟩ := post
      exact ⟨apart, mine.congr (same _ (by simp [held])), fresh.congr (same _ (by simp [held]))⟩
  | failing e => trivial
  | done result => trivial
  | _ => exact Free.congr post (same _ (by simp [held]))

theorem Post.manned {number : Nat} (post : w.Post t) (holds : number ∈ w.held) :
    ∃ ns pending written, t.Manned number ns pending written := by
  obtain ⟨index, ns, producer, stage⟩ := w
  cases stage with
  | waiting reader =>
    obtain rfl := List.mem_singleton.1 holds
    obtain ⟨record, written, manned⟩ := post
    exact ⟨_, _, _, manned⟩
  | closing next =>
    cases next with
    | none =>
      obtain rfl := List.mem_singleton.1 holds
      obtain ⟨written, manned⟩ := post
      exact ⟨_, _, _, manned⟩
    | some next =>
      obtain ⟨-, ⟨written, mine⟩, ⟨others, fresh⟩⟩ := post
      rcases List.mem_cons.1 holds with rfl | other
      · exact ⟨_, _, _, mine⟩
      · obtain rfl := List.mem_singleton.1 other
        exact ⟨_, _, _, fresh⟩
  | failing e => exact absurd holds List.not_mem_nil
  | done result => exact absurd holds List.not_mem_nil
  | _ =>
    obtain rfl := List.mem_singleton.1 holds
    obtain ⟨written, manned⟩ := post
    exact ⟨_, _, _, manned⟩

/-- A worker that waits for an acknowledgement which is not there yet. -/
def Waits (w : Worker) (x : Exchange) : Prop :=
  (∃ reader, w.stage = .waiting reader) ∧ (x.answer? w.producer w.ns).1 = none

/-- A worker that asks for something which it can be refused: its source, a record, a handle. -/
def Asks (w : Worker) : Prop :=
  (∃ intent, w.stage = .opening intent) ∨ (∃ reader, w.stage = .reading reader) ∨
    ∃ next, w.stage = .attaching next

end Worker

/-- A pool and its multiplexer belong together, and whatever is opened is one of the namespaces. -/
structure Crewed (p : Pool) (t : Traffic) (namespaces : List Namespace) : Prop where
  exchange : p.exchange = t.exchange
  ran : t.exchange.phase ≠ .ready
  posts : ∀ w ∈ p.workers, w.Post t
  hands : Hands p.workers t
  opened : ∀ h ∈ t.handles, h.ns ∈ namespaces
  unopened : ∀ i ∈ p.unopened, i.ns ∈ namespaces

/-- All that the turn of a worker can come to: the worker afterwards, what is left of the queue,
whether a failure is known, and the multiplexer. -/
inductive Moved (p : Pool) (t : Traffic) (max : UInt64) :
    Worker → Worker → List Intent → Bool → Traffic → Prop
  | rests {w : Worker} : w.isDone ∨ w.Waits t.exchange → Moved p t max w w p.queue p.failed t
  | breaks {w : Worker} (e : EngineError) : w.Asks →
    Moved p t max w (w.enter (.unwinding e)) p.queue p.failed t
  | begins {index producer : Nat} {ns : Namespace} {intent : Intent} {source : Source} :
    intent.origin = .opens source →
    Moved p t max ⟨index, ns, producer, .opening intent⟩
      ⟨index, ns, producer, .reading (.start source max)⟩ p.queue p.failed t
  | posts {index producer : Nat} {ns : Namespace} {reader next : Reader} {record : Bytes}
    {after : Traffic} : reader.nextRecord = (.ok (some record), next) → Record.Formed max record →
    t.Apart after producer → Owed after producer ns →
    after.exchange.mailbox = t.exchange.mailbox ++ [.record producer record] →
    Moved p t max ⟨index, ns, producer, .reading reader⟩ ⟨index, ns, producer, .waiting next⟩
      p.queue p.failed after
  | told {index producer : Nat} {ns : Namespace} {reader : Reader} {after : Traffic} :
    t.Apart after producer → Free after producer ns →
    after.exchange.mailbox = t.exchange.mailbox →
    Moved p t max ⟨index, ns, producer, .waiting reader⟩ ⟨index, ns, producer, .reading reader⟩
      p.queue p.failed after
  | ends {index producer : Nat} {ns : Namespace} {reader next : Reader} :
    reader.nextRecord = (.ok none, next) →
    Moved p t max ⟨index, ns, producer, .reading reader⟩ ⟨index, ns, producer, .checking⟩
      p.queue p.failed t
  | checks {index producer : Nat} {ns : Namespace} : p.failed = false →
    Moved p t max ⟨index, ns, producer, .checking⟩ ⟨index, ns, producer, .choosing⟩
      p.queue p.failed t
  | heeds {index producer : Nat} {ns : Namespace} : p.failed →
    Moved p t max ⟨index, ns, producer, .checking⟩ ⟨index, ns, producer, .closing none⟩
      p.queue p.failed t
  | takes {index producer : Nat} {ns : Namespace} {next : Intent} {queue : List Intent} :
    p.queue = next :: queue →
    Moved p t max ⟨index, ns, producer, .choosing⟩ ⟨index, ns, producer, .attaching next⟩
      queue p.failed t
  | leaves {index producer : Nat} {ns : Namespace} : p.queue = [] →
    Moved p t max ⟨index, ns, producer, .choosing⟩ ⟨index, ns, producer, .closing none⟩
      p.queue p.failed t
  | attaches {index producer : Nat} {ns : Namespace} {next : Intent} {after : Traffic} :
    after.handles = t.handles ++ [.fresh t.handles.length next.ns] →
    after.exchange.phase = t.exchange.phase → after.exchange.mailbox = t.exchange.mailbox →
    t.exchange.open? next.ns = .ok (t.handles.length, after.exchange) →
    Moved p t max ⟨index, ns, producer, .attaching next⟩
      ⟨index, ns, producer, .closing (some (next, t.handles.length))⟩ p.queue p.failed after
  | passes {index producer number : Nat} {ns : Namespace} {next : Intent} {h : Handle}
    {after : Traffic} : t.Apart after producer → after.handles[producer]? = some h →
    h.released → after.exchange.mailbox = t.exchange.mailbox ++ [.closed producer] →
    Moved p t max ⟨index, ns, producer, .closing (some (next, number))⟩
      ⟨index, next.ns, number, .opening next⟩ p.queue p.failed after
  | closes {index producer : Nat} {ns : Namespace} {h : Handle} {after : Traffic} :
    t.Apart after producer → after.handles[producer]? = some h → h.released →
    after.exchange.mailbox = t.exchange.mailbox ++ [.closed producer] →
    Moved p t max ⟨index, ns, producer, .closing none⟩ ⟨index, ns, producer, .done (.ok ())⟩
      p.queue p.failed after
  | unwinds {index producer : Nat} {ns : Namespace} {e : EngineError} {h : Handle}
    {after : Traffic} : t.Apart after producer → after.handles[producer]? = some h → h.released →
    after.exchange.mailbox = t.exchange.mailbox ++ [.closed producer] →
    Moved p t max ⟨index, ns, producer, .unwinding e⟩ ⟨index, ns, producer, .failing e⟩
      p.queue p.failed after
  | fails {index producer : Nat} {ns : Namespace} {e : EngineError} :
    Moved p t max ⟨index, ns, producer, .failing e⟩ ⟨index, ns, producer, .done (.error e)⟩
      p.queue (p.failed || announced e) t

/-- The turn of a worker is one of those above, and the multiplexer stays in good order. -/
def Turns (p : Pool) (t : Traffic) (max : UInt64) (cap : Option UInt64) (base : Bytes)
    (w : Worker) : Prop :=
  ∃ v queue failed after, Moved p t max w v queue failed after ∧ after.Steady max cap base ∧
    w.turn p = (v, ⟨after.exchange, queue, failed, p.workers⟩)

section Turns

variable {producer : Nat} {ns : Namespace}

theorem pool_eq (same : p.exchange = t.exchange) :
    (⟨t.exchange, p.queue, p.failed, p.workers⟩ : Pool) = p := by
  rw [← same]

theorem turns_of_breaks {e : EngineError} (same : p.exchange = t.exchange)
    (steady : t.Steady max cap base) (asks : w.Asks)
    (turned : w.turn p = (w.enter (.unwinding e), p)) : Turns p t max cap base w :=
  ⟨_, _, _, t, .breaks e asks, steady, by rw [pool_eq same]; exact turned⟩

theorem turns_opening {intent : Intent} (same : p.exchange = t.exchange)
    (steady : t.Steady max cap base) :
    Turns p t max cap base ⟨index, ns, producer, .opening intent⟩ := by
  obtain ⟨wire, accounted, -⟩ := steady.books
  have asks : (⟨index, ns, producer, .opening intent⟩ : Worker).Asks := .inl ⟨intent, rfl⟩
  cases origin : intent.origin with
  | opens source =>
    refine ⟨_, _, _, t, .begins origin, steady, ?_⟩
    simp [Worker.turn, origin, Worker.enter, same, accounted.limit, pool_eq same]
  | refuses error =>
    exact turns_of_breaks same steady asks (by simp only [Worker.turn, origin]; rfl)
  | crashes => exact turns_of_breaks same steady asks (by simp only [Worker.turn, origin]; rfl)

theorem turns_reading {reader : Reader} (same : p.exchange = t.exchange)
    (steady : t.Steady max cap base) (free : Free t producer ns) :
    Turns p t max cap base ⟨index, ns, producer, .reading reader⟩ := by
  obtain ⟨wire, accounted, -⟩ := steady.books
  have asks : (⟨index, ns, producer, .reading reader⟩ : Worker).Asks := .inr (.inl ⟨reader, rfl⟩)
  cases read : reader.nextRecord with
  | mk result next =>
    cases result with
    | error e => exact turns_of_breaks same steady asks (by simp only [Worker.turn, read]; rfl)
    | ok record =>
      cases record with
      | none =>
        refine ⟨_, _, _, t, .ends read, steady, ?_⟩
        simp [Worker.turn, read, Worker.enter, pool_eq same]
      | some record =>
        cases check : Record.check record t.exchange.engine.writer.max with
        | error e =>
          exact turns_of_breaks same steady asks
            (by simp only [Worker.turn, read, same, check]; rfl)
        | ok passed =>
          have formed : Record.Formed max record :=
            accounted.limit ▸ Record.check_eq_ok_iff.1 check
          obtain ⟨written, manned⟩ := free
          obtain ⟨after, posted, still, apart, waits, mailed⟩ := steady.write manned formed
          refine ⟨_, _, _, after,
            .posts read formed apart ⟨_, _, waits⟩ mailed, still, ?_⟩
          simp [Worker.turn, read, same, check, Worker.enter, posted]

theorem turns_waiting {reader : Reader} (same : p.exchange = t.exchange)
    (steady : t.Steady max cap base) (owed : Owed t producer ns) :
    Turns p t max cap base ⟨index, ns, producer, .waiting reader⟩ := by
  obtain ⟨record, written, manned⟩ := owed
  rcases steady.collect manned with
    ⟨none, -⟩ | ⟨size, after, answered, still, apart, free, mailed⟩
  · refine ⟨_, _, _, t, .rests (.inr ⟨⟨reader, rfl⟩, by rw [none]⟩), steady, ?_⟩
    simp only [Worker.turn, same, none, pool_eq same]
  · refine ⟨_, _, _, after, .told apart ⟨_, free⟩ mailed, still, ?_⟩
    simp only [Worker.turn, same, answered, Worker.enter]

theorem turns_attaching {next : Intent} (same : p.exchange = t.exchange)
    (steady : t.Steady max cap base) (heads : Heads max next.ns) :
    Turns p t max cap base ⟨index, ns, producer, .attaching next⟩ := by
  cases opened : t.exchange.open? next.ns with
  | error e =>
    exact turns_of_breaks same steady (.inr (.inr ⟨next, rfl⟩))
      (by simp only [Worker.turn, same, opened]; rfl)
  | ok answer =>
    obtain ⟨number, x⟩ := answer
    obtain ⟨after, goes, still, grown, -, phase, mailed⟩ :=
      steady.enroll (Multiplexer.Traffic.admits_of_open? opened) heads
    refine ⟨_, _, _, after, .attaches grown phase mailed goes, still, ?_⟩
    simp [Worker.turn, same, goes, Worker.enter]

/-- A worker that lets go of a handle does so without an answer. -/
theorem turns_closing {next : Option (Intent × Nat)} (same : p.exchange = t.exchange)
    (steady : t.Steady max cap base)
    (post : (⟨index, ns, producer, .closing next⟩ : Worker).Post t) :
    Turns p t max cap base ⟨index, ns, producer, .closing next⟩ := by
  cases next with
  | none =>
    obtain ⟨written, manned⟩ := post
    obtain ⟨after, posted, still, apart, ⟨h, there, -, released, -⟩, mailed⟩ :=
      steady.release manned
    refine ⟨_, _, _, after, .closes apart there released mailed, still, ?_⟩
    simp [Worker.turn, same, posted, Worker.enter]
  | some next =>
    obtain ⟨next, number⟩ := next
    obtain ⟨differs, ⟨written, manned⟩, fresh⟩ := post
    obtain ⟨after, posted, still, apart, ⟨h, there, -, released, -⟩, mailed⟩ :=
      steady.release manned
    refine ⟨_, _, _, after, .passes apart there released mailed, still, ?_⟩
    simp [Worker.turn, same, posted]

end Turns

/-- Inversion of the turns of workers. -/
theorem Crewed.moved (crewed : Crewed p t namespaces) (steady : t.Steady max cap base)
    (heads : ∀ ns ∈ namespaces, Heads max ns) (member : w ∈ p.workers) :
    ∃ v queue failed after, Moved p t max w v queue failed after ∧ after.Steady max cap base ∧
      w.turn p = (v, ⟨after.exchange, queue, failed, p.workers⟩) := by
  have same := crewed.exchange
  have idle := pool_eq same
  have post := crewed.posts w member
  obtain ⟨index, ns, producer, stage⟩ := w
  cases stage with
  | opening intent => exact turns_opening same steady
  | reading reader => exact turns_reading same steady post
  | waiting reader => exact turns_waiting same steady post
  | checking =>
    cases known : p.failed with
    | false =>
      refine ⟨_, _, _, t, .checks known, steady, ?_⟩
      rw [idle]
      simp [Worker.turn, known, Worker.enter]
    | true =>
      refine ⟨_, _, _, t, .heeds known, steady, ?_⟩
      rw [idle]
      simp [Worker.turn, known, Worker.enter]
  | choosing =>
    cases queued : p.queue with
    | nil =>
      refine ⟨_, _, _, t, .leaves queued, steady, ?_⟩
      rw [idle]
      simp [Worker.turn, queued, Worker.enter]
    | cons next queue =>
      refine ⟨_, _, _, t, .takes queued, steady, ?_⟩
      simp [Worker.turn, queued, Worker.enter, ← same]
  | attaching next =>
    have mine : next ∈ p.unopened := List.mem_append_right _
      (List.mem_flatMap.2 ⟨_, member, List.mem_singleton_self next⟩)
    exact turns_attaching same steady (heads _ (crewed.unopened next mine))
  | closing next => exact turns_closing same steady post
  | unwinding e =>
    obtain ⟨written, manned⟩ := post
    obtain ⟨after, posted, still, apart, ⟨h, there, -, released, -⟩, mailed⟩ :=
      steady.release manned
    refine ⟨_, _, _, after, .unwinds apart there released mailed, still, ?_⟩
    simp [Worker.turn, same, posted, Worker.enter]
  | failing e =>
    refine ⟨_, _, _, t, .fails, steady, ?_⟩
    simp [Worker.turn, Worker.enter, same]
  | done result =>
    refine ⟨_, _, _, t, .rests (.inl rfl), steady, ?_⟩
    rw [idle]
    rfl

/-- One worker and its handles change, and perhaps the queue; nobody else notices. -/
theorem Crewed.replace (crewed : Crewed p t namespaces) (found : p.workers[index]? = some w)
    (phase : after.exchange.phase = t.exchange.phase) (regrip : Regrip t after w v)
    (post : v.Post after) (opened : ∀ h ∈ after.handles, h.ns ∈ namespaces)
    (unopened : ∀ i ∈ queue ++ v.unopened, i ∈ p.queue ++ w.unopened) :
    Crewed ⟨after.exchange, queue, failed, p.workers.set index v⟩ after namespaces := by
  have hands := crewed.hands.replace found regrip fun n => post.manned
  refine ⟨rfl, phase ▸ crewed.ran, ?_, hands, opened, ?_⟩
  · intro u there
    obtain ⟨j, there⟩ := List.mem_iff_getElem?.1 there
    rcases getElem?_set_cases there with ⟨-, rfl⟩ | ⟨other, old⟩
    · exact post
    · -- no handle is in two hands, so the frame covers the handles of all other workers
      refine (crewed.posts u (List.mem_of_getElem? old)).congr fun n holds => ?_
      obtain ⟨apart, less⟩ := crewed.hands.foreign found old other holds
      exact regrip.frame n apart less
  · have before : ∀ i ∈ p.queue ++ w.unopened, i ∈ p.unopened := by
      intro i waits
      refine List.mem_append.2 ((List.mem_append.1 waits).imp_right fun mine => ?_)
      exact List.mem_flatMap.2 ⟨w, List.mem_of_getElem? found, mine⟩
    intro i waits
    apply crewed.unopened
    rcases List.mem_append.1 waits with queued | taken
    · exact before i (unopened i (List.mem_append_left _ queued))
    · obtain ⟨u, there, mine⟩ := List.mem_flatMap.1 taken
      rcases List.mem_or_eq_of_mem_set there with old | rfl
      · exact List.mem_append_right _ (List.mem_flatMap.2 ⟨u, old, mine⟩)
      · exact before i (unopened i (List.mem_append_right _ mine))

theorem Crewed.names (crewed : Crewed p t namespaces) {number : Nat}
    (apart : t.Apart after number) : ∀ h ∈ after.handles, h.ns ∈ namespaces := by
  intro h member
  have known : h.ns ∈ t.handles.map (·.ns) := apart.names ▸ List.mem_map_of_mem member
  obtain ⟨k, held, same⟩ := List.mem_map.1 known
  exact same ▸ crewed.opened k held

/-- A turn of a worker leaves the pool and its multiplexer together. -/
theorem Crewed.work (crewed : Crewed p t namespaces) (found : p.workers[index]? = some w)
    (moved : Moved p t max w v queue failed after) :
    Crewed ⟨after.exchange, queue, failed, p.workers.set index v⟩ after namespaces := by
  have member := List.mem_of_getElem? found
  have post := crewed.posts w member
  have all : ∀ i ∈ p.queue ++ w.unopened, i ∈ p.queue ++ w.unopened := fun i waits => waits
  cases moved with
  | rests =>
    exact crewed.replace found rfl (.rest rfl) post crewed.opened all
  | breaks e asks =>
    have free : Free t w.producer w.ns ∧ w.held = [w.producer] := by
      obtain ⟨index, ns, producer, stage⟩ := w
      rcases asks with ⟨_, rfl⟩ | ⟨_, rfl⟩ | ⟨_, rfl⟩ <;> exact ⟨post, rfl⟩
    exact crewed.replace found rfl (.rest free.2.symm) free.1 crewed.opened
      (by simp +contextual [Worker.unopened, Worker.enter])
  | begins => exact crewed.replace found rfl (.rest rfl) post crewed.opened all
  | posts read formed apart owed =>
    exact crewed.replace found apart.phase (.retain rfl rfl apart) owed (crewed.names apart) all
  | told apart free =>
    exact crewed.replace found apart.phase (.retain rfl rfl apart) free (crewed.names apart) all
  | ends => exact crewed.replace found rfl (.rest rfl) post crewed.opened all
  | checks => exact crewed.replace found rfl (.rest rfl) post crewed.opened all
  | heeds => exact crewed.replace found rfl (.rest rfl) post crewed.opened all
  | takes queued =>
    refine crewed.replace found rfl (.rest rfl) post crewed.opened ?_
    rw [queued]
    simp +contextual [Worker.unopened, or_comm]
  | leaves => exact crewed.replace found rfl (.rest rfl) post crewed.opened all
  | @attaches _ producer ns next after grown phase mailed =>
    obtain ⟨written, manned⟩ := post
    have less : producer < t.handles.length := manned.lt
    have old : after.handles[producer]? = t.handles[producer]? := by
      rw [grown, List.getElem?_append_left less]
    have fresh : Free after t.handles.length next.ns :=
      ⟨[], .fresh t.handles.length next.ns, by simp [grown], rfl, rfl, rfl, rfl⟩
    have mine : next ∈ p.unopened := List.mem_append_right _
      (List.mem_flatMap.2 ⟨_, member, List.mem_singleton_self next⟩)
    refine crewed.replace found phase (.attach rfl rfl grown)
      ⟨Nat.ne_of_gt less, ⟨written, manned_congr old manned⟩, fresh⟩ ?_
      (by simp +contextual [Worker.unopened])
    intro h there
    rw [grown] at there
    rcases List.mem_append.1 there with before | new
    · exact crewed.opened h before
    · obtain rfl := List.mem_singleton.1 new
      exact crewed.unopened next mine
  | passes apart there released =>
    obtain ⟨differs, -, fresh⟩ := post
    exact crewed.replace found apart.phase (.relinquish rfl apart there released)
      (fresh.congr (apart.others _ differs)) (crewed.names apart) all
  | closes apart there released =>
    exact crewed.replace found apart.phase (.relinquish rfl apart there released) trivial
      (crewed.names apart) all
  | unwinds apart there released =>
    exact crewed.replace found apart.phase (.relinquish rfl apart there released) trivial
      (crewed.names apart) all
  | fails => exact crewed.replace found rfl (.rest rfl) trivial crewed.opened all

/-- Who has got a handle has had one ever since. -/
theorem Moved.grows (moved : Moved p t max w v queue failed after) {ns : Namespace}
    (known : ns ∈ t.handles.map (·.ns)) : ns ∈ after.handles.map (·.ns) := by
  cases moved with
  | posts read formed apart => exact apart.names ▸ known
  | told apart => exact apart.names ▸ known
  | attaches grown =>
    rw [grown, List.map_append]
    exact List.mem_append_left _ known
  | passes apart => exact apart.names ▸ known
  | closes apart => exact apart.names ▸ known
  | unwinds apart => exact apart.names ▸ known
  | _ => exact known

theorem Crewed.turn (crewed : Crewed p t namespaces) :
    Crewed (p.step .engine) t.turn namespaces := by
  have same : (p.step .engine).exchange = t.turn.exchange := by
    rw [Multiplexer.Traffic.exchange_turn, ← crewed.exchange]
    rfl
  have handles := Multiplexer.Traffic.handles_turn t
  refine ⟨same, ?_, ?_, crewed.hands.turn, ?_, crewed.unopened⟩
  · rw [Multiplexer.Traffic.exchange_turn]
    intro ready
    rcases t.exchange.phase_step with same | ⟨result, stopped⟩
    · exact crewed.ran (same ▸ ready)
    · rw [stopped] at ready
      contradiction
  · intro w member
    exact (crewed.posts w member).congr fun n _ => by rw [handles]
  · rw [handles]
    exact crewed.opened

end DumpArchive.Dump
