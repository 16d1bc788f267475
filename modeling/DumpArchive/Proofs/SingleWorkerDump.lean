import DumpArchive.Proofs.BlocksByNamespace
import DumpArchive.Proofs.FailedDumps

/-! A dump with one worker. It opens the namespaces one after the other and lets go of each before
it posts for the next, so in whatever order it and the engine take their turns the blocks of the
namespaces follow one another on the stream. -/
namespace DumpArchive

namespace Wire

variable {ns : Namespace} {record : Bytes} {w : Wire}

theorem names_add (ns : Namespace) (record : Bytes) (w : Wire) :
    (w.add ns record).blocks.map (·.header.ns) = w.blocks.map (·.header.ns) ∨
      (w.add ns record).blocks.map (·.header.ns) = w.blocks.map (·.header.ns) ++ [ns] := by
  rcases add_cases ns record w with ⟨b, unfinished, same, added⟩ | ⟨-, added⟩
  · left
    rw [added, blocks_of_unfinished unfinished]
    simp [blocks]
  · right
    rw [added]
    simp [blocks]

theorem plain_add (plain : ∀ b ∈ w.blocks, b.lead = b.header.record) :
    ∀ b ∈ (w.add ns record).blocks, b.lead = b.header.record := by
  rcases add_cases ns record w with ⟨b, unfinished, same, added⟩ | ⟨-, added⟩
  · rw [blocks_of_unfinished unfinished] at plain
    rw [added]
    simpa [blocks, or_imp, forall_and] using plain
  · rw [added]
    simpa [blocks, or_imp, forall_and, Block.ofHeader] using plain

end Wire

namespace Multiplexer

variable {m : Multiplexer} {event : Event} {w : Wire} {base : Bytes} {ns : Namespace}

/-- The blocks after an event are of the namespaces that they were of, or of that of its producer
besides. -/
theorem names_onWire (event : Event) (m : Multiplexer) (w : Wire) :
    (m.onWire event w).blocks.map (·.header.ns) = w.blocks.map (·.header.ns) ∨
      ∃ ns, m.namespaceOf? event.producer = some ns ∧
        (m.onWire event w).blocks.map (·.header.ns) = w.blocks.map (·.header.ns) ++ [ns] := by
  cases known : m.namespaceOf? event.producer with
  | none => exact .inl (by simp [onWire, known])
  | some ns =>
    cases event with
    | record producer bytes =>
      simp only [onWire, known]
      exact (Wire.names_add ns bytes w).imp id fun grown => ⟨ns, rfl, grown⟩
    | closed producer =>
      simp only [onWire, known]
      exact .inr ⟨ns, rfl, by simp⟩

theorem plain_onWire (plain : ∀ b ∈ w.blocks, b.lead = b.header.record) :
    ∀ b ∈ (m.onWire event w).blocks, b.lead = b.header.record := by
  cases known : m.namespaceOf? event.producer with
  | none => simpa [onWire, known] using plain
  | some ns =>
    cases event with
    | record producer bytes =>
      simp only [onWire, known]
      exact Wire.plain_add plain
    | closed producer =>
      simp only [onWire, known, Wire.blocks_close]
      simpa [or_imp, forall_and, Block.ofHeader] using plain

/-- To open a namespace leaves the stream and the mailbox alone. -/
theorem Shows.open? {number : Nat} {x y : Exchange} (view : x.engine.Shows base w)
    (opened : x.open? ns = .ok (number, y)) :
    y.engine.Shows base w ∧ y.mailbox = x.mailbox := by
  obtain ⟨-, -, rfl⟩ := Exchange.open?_eq_ok_iff.1 opened
  exact ⟨⟨view.accepted, view.formed, view.cursor⟩, rfl⟩

end Multiplexer

namespace Dump

open Multiplexer (Exchange Traffic Event Heads)
open Block (page)

variable {p : Pool} {t after : Traffic} {max : UInt64} {base : Bytes}
  {records : Namespace → List Bytes} {namespaces : List Namespace} {w : Wire} {u v : Worker}
  {queue : List Intent} {failed : Bool} {index : Nat}

/-- More of what is last, and something later in its place. -/
theorem sorted_trade {front more : List Nat} {k l : Nat}
    (sorted : (front ++ [k]).Pairwise (· ≤ ·)) (mine : ∀ n ∈ more, n = k) (later : k ≤ l) :
    (front ++ (more ++ [l])).Pairwise (· ≤ ·) := by
  obtain ⟨before, -, past⟩ := List.pairwise_append.1 sorted
  have last : ∀ n ∈ front, n ≤ k := fun n member => past n member k (List.mem_singleton_self k)
  refine List.pairwise_append.2 ⟨before, List.pairwise_append.2 ⟨?_, by simp, ?_⟩, ?_⟩
  · apply List.pairwise_of_forall_mem_list
    intro a first b second
    rw [mine a first, mine b second]
  · intro a member b here
    obtain rfl := List.mem_singleton.1 here
    exact mine a member ▸ later
  · intro a earlier b behind
    have least := last a earlier
    rcases List.mem_append.1 behind with mid | here
    · exact mine b mid ▸ least
    · obtain rfl := List.mem_singleton.1 here
      omega

/-- The places, in a list of namespaces, of what stands on the stream, of what is in the mailbox and
of what the worker has in hand. -/
def trail (p : Pool) (namespaces : List Namespace) (w : Wire) : List Nat :=
  w.blocks.map (fun b => namespaces.idxOf b.header.ns) ++
    (p.exchange.mailbox.map Event.producer ++ p.workers.map Worker.producer)

/-- One worker at most, which opens the namespaces in their order and is done with each before the
next. -/
structure Alone (p : Pool) (t : Traffic) (base : Bytes) (namespaces : List Namespace) (w : Wire) :
    Prop where
  few : p.workers.length ≤ 1
  ahead : ∀ v ∈ p.workers, ∀ number ∈ v.held, v.producer ≤ number
  order : t.handles.map (·.ns) ++ (p.workers.flatMap Worker.unopened ++ p.queue).map (·.ns) =
    namespaces
  shows : p.exchange.engine.Shows base w
  plain : ∀ b ∈ w.blocks, b.lead = b.header.record
  sorted : (trail p namespaces w).Pairwise (· ≤ ·)

theorem Alone.only (alone : Alone p t base namespaces w) (found : p.workers[index]? = some u) :
    p.workers = [u] ∧ ∀ v, p.workers.set index v = [v] := by
  have few := alone.few
  match workers : p.workers with
  | [] => simp [workers] at found
  | [a] =>
    obtain rfl : index = 0 := by
      have bound := (List.getElem?_eq_some_iff.1 found).1
      simp only [workers, List.length_singleton] at bound
      omega
    obtain rfl : a = u := by simpa [workers] using found
    exact ⟨rfl, fun v => rfl⟩
  | a :: b :: rest => simp [workers] at few

/-- The worker goes on, perhaps to a later namespace, and posts for the one that it had. -/
theorem Alone.replace {more : List Event} (alone : Alone p t base namespaces w)
    (only : p.workers = [u]) (shows : after.exchange.engine.Shows base w)
    (mailed : after.exchange.mailbox = p.exchange.mailbox ++ more)
    (mine : ∀ event ∈ more, event.producer = u.producer) (later : u.producer ≤ v.producer)
    (ahead : ∀ number ∈ v.held, v.producer ≤ number)
    (order : after.handles.map (·.ns) ++ (v.unopened ++ queue).map (·.ns) =
      t.handles.map (·.ns) ++ (u.unopened ++ p.queue).map (·.ns)) :
    Alone ⟨after.exchange, queue, failed, [v]⟩ after base namespaces w := by
  refine ⟨by simp, by simpa using ahead, ?_, shows, alone.plain, ?_⟩
  · rw [← alone.order, only]
    simpa using order
  · have sorted := alone.sorted
    simp only [trail, only, List.map_singleton, ← List.append_assoc] at sorted
    have posted : ∀ k ∈ more.map Event.producer, k = u.producer := by
      intro k member
      obtain ⟨event, here, rfl⟩ := List.mem_map.1 member
      exact mine event here
    simpa [trail, mailed] using sorted_trade sorted posted later

/-- The worker goes on and posts nothing. -/
theorem Alone.keep (alone : Alone p t base namespaces w) (only : p.workers = [u])
    (shows : after.exchange.engine.Shows base w)
    (mailed : after.exchange.mailbox = p.exchange.mailbox) (later : u.producer ≤ v.producer)
    (ahead : ∀ number ∈ v.held, v.producer ≤ number)
    (order : after.handles.map (·.ns) ++ (v.unopened ++ queue).map (·.ns) =
      t.handles.map (·.ns) ++ (u.unopened ++ p.queue).map (·.ns)) :
    Alone ⟨after.exchange, queue, failed, [v]⟩ after base namespaces w := by
  have nothing : after.exchange.mailbox = p.exchange.mailbox ++ [] := by simp [mailed]
  exact alone.replace only shows nothing (by simp) later ahead order

/-- The worker goes on without a word to the engine. -/
theorem Alone.rest (alone : Alone p t base namespaces w) (only : p.workers = [u])
    (same : p.exchange = t.exchange) (producer : v.producer = u.producer)
    (held : v.held = u.held) (order : v.unopened ++ queue = u.unopened ++ p.queue) :
    Alone ⟨t.exchange, queue, failed, [v]⟩ t base namespaces w := by
  refine alone.keep only (same ▸ alone.shows) (by rw [same]) (Nat.le_of_eq producer.symm) ?_
    (by rw [order])
  rw [held, producer]
  exact alone.ahead u (by simp [only])

/-- The worker posts for the namespace that it has, and goes on with another if it has one. -/
theorem Alone.post {event : Event} (alone : Alone p t base namespaces w) (only : p.workers = [u])
    (same : p.exchange = t.exchange) (apart : t.Apart after u.producer)
    (mailed : after.exchange.mailbox = t.exchange.mailbox ++ [event])
    (mine : event.producer = u.producer) (later : u.producer ≤ v.producer)
    (ahead : ∀ number ∈ v.held, v.producer ≤ number) (unopened : v.unopened = u.unopened) :
    Alone ⟨after.exchange, p.queue, failed, [v]⟩ after base namespaces w := by
  have shows := alone.shows
  rw [same, ← apart.engine] at shows
  exact alone.replace only shows (same ▸ mailed) (by simpa using mine) later ahead
    (by rw [apart.names, unopened])

/-- A turn of the worker. -/
theorem Alone.work (alone : Alone p t base namespaces w) (exchange : p.exchange = t.exchange)
    (only : p.workers = [u]) (worked : Worked p t max records u v queue after) :
    Alone ⟨after.exchange, queue, failed, [v]⟩ after base namespaces w := by
  have ahead := alone.ahead u (by simp [only])
  cases worked with
  | rests => exact alone.rest only exchange rfl rfl rfl
  | begins => exact alone.rest only exchange rfl rfl rfl
  | ends => exact alone.rest only exchange rfl rfl rfl
  | checks => exact alone.rest only exchange rfl rfl rfl
  | leaves => exact alone.rest only exchange rfl rfl rfl
  | takes queued =>
    exact alone.rest only exchange rfl rfl (by simp [Worker.unopened, queued])
  | posts before later split apart waits mailed =>
    exact alone.post only exchange apart mailed rfl (Nat.le_refl _) ahead rfl
  | told before split apart free mailed =>
    have shows := alone.shows
    rw [exchange, ← apart.engine] at shows
    exact alone.keep only shows (mailed.trans (by rw [exchange])) (Nat.le_refl _) ahead
      (by rw [apart.names]; rfl)
  | @attaches index producer ns next after gives manned grown phase opened =>
    obtain ⟨shows, mailed⟩ := (exchange ▸ alone.shows).open? opened
    have less : producer < t.handles.length := manned.lt
    refine alone.keep only shows (mailed.trans (by rw [exchange])) (Nat.le_refl _) ?_ ?_
    · simpa [Worker.held] using Nat.le_of_lt less
    · simp [grown, Worker.unopened, Multiplexer.Handle.fresh]
  | @passes index producer number ns next after gives differs fresh apart released mailed =>
    have later : producer ≤ number := ahead number (by simp [Worker.held])
    exact alone.post only exchange apart mailed rfl later (by simp [Worker.held]) rfl
  | closes apart released mailed =>
    exact alone.post only exchange apart mailed rfl (Nat.le_refl _) (by simp [Worker.held]) rfl

/-- A producer has the number of the place of its namespace. -/
theorem Alone.idxOf_eq {producer : Nat} {ns : Namespace} (alone : Alone p t base namespaces w)
    (distinct : namespaces.Nodup) (steady : t.Steady max none base)
    (known : t.exchange.engine.namespaceOf? producer = some ns) :
    namespaces.idxOf ns = producer := by
  obtain ⟨wire, accounted, -⟩ := steady.books
  obtain ⟨h, member, rfl, rfl⟩ := accounted.owner (Multiplexer.mem_of_namespaceOf? known)
  obtain ⟨k, found⟩ := List.mem_iff_getElem?.1 member
  rw [accounted.number_eq found]
  have named : namespaces[k]? = some h.ns := by
    have bound : k < (t.handles.map (·.ns)).length := by
      simpa using (List.getElem?_eq_some_iff.1 found).1
    rw [← alone.order, List.getElem?_append_left bound]
    simp [found]
  obtain ⟨bound, here⟩ := List.getElem?_eq_some_iff.1 named
  rw [← here]
  exact distinct.idxOf_getElem k bound

/-- A turn of the engine moves what is first in the mailbox to the stream. -/
theorem Alone.turn (alone : Alone p t base namespaces w) (distinct : namespaces.Nodup)
    (exchange : p.exchange = t.exchange) (steady : t.Steady max none base) :
    ∃ v, Alone (p.step .engine) t.turn base namespaces v := by
  obtain ⟨wire, accounted, -⟩ := steady.books
  obtain ⟨v, turned⟩ := Multiplexer.turned t.exchange w
  have shows := (exchange ▸ alone.shows).turned turned
    (.inl ⟨steady.sound, accounted.limit.symm ▸ accounted.formed⟩)
  have order := alone.order
  rw [← Traffic.handles_turn t] at order
  have step : (p.step .engine).exchange = t.exchange.step := by
    rw [← exchange]
    rfl
  have sorted := alone.sorted
  rw [trail, exchange] at sorted
  suffices all : (∀ b ∈ v.blocks, b.lead = b.header.record) ∧
      (trail (p.step .engine) namespaces v).Pairwise (· ≤ ·) by
    exact ⟨v, alone.few, alone.ahead, order, step ▸ shows, all.1, all.2⟩
  rw [trail, step]
  generalize t.exchange.step = y at turned
  cases turned with
  | still => exact ⟨alone.plain, sorted⟩
  | finished => exact ⟨alone.plain, sorted⟩
  | @handled event mailbox ack engine running posted handled =>
    refine ⟨Multiplexer.plain_onWire alone.plain, ?_⟩
    rw [posted, List.map_cons] at sorted
    have names (u : Wire) : u.blocks.map (fun b => namespaces.idxOf b.header.ns) =
        (u.blocks.map (·.header.ns)).map namespaces.idxOf := by simp
    rw [names] at sorted ⊢
    rcases Multiplexer.names_onWire event t.exchange.engine w with same | ⟨ns, known, grown⟩
    · rw [same]
      exact sorted.sublist ((List.sublist_cons_self ..).append_left _)
    · rw [grown, List.map_append, List.map_singleton, alone.idxOf_eq distinct steady known,
        List.append_assoc]
      exact sorted
  | @failed event mailbox e engine running posted handled =>
    refine ⟨by simpa using alone.plain, ?_⟩
    rw [posted, List.map_cons] at sorted
    rw [Wire.blocks_terminate]
    exact sorted.sublist ((List.sublist_cons_self ..).append_left _)

/-- One worker in good order. -/
def Solo (max : UInt64) (base : Bytes) (records : Namespace → List Bytes)
    (namespaces : List Namespace) (p : Pool) : Prop :=
  ∃ t w, Staffed p t max records namespaces ∧ t.Steady max none base ∧
    Alone p t base namespaces w

theorem Solo.step (legible : Legible max records namespaces) (distinct : namespaces.Nodup)
    (heads : ∀ ns ∈ namespaces, Heads max ns) (solo : Solo max base records namespaces p)
    (actor : Pool.Actor) : Solo max base records namespaces (p.step actor) := by
  obtain ⟨t, w, staffed, steady, alone⟩ := solo
  cases actor with
  | engine =>
    obtain ⟨v, after⟩ := alone.turn distinct staffed.exchange steady
    exact ⟨t.turn, v, staffed.turn, steady.turn, after⟩
  | worker index =>
    cases found : p.workers[index]? with
    | none =>
      rw [Pool.step_of_none found]
      exact ⟨t, w, staffed, steady, alone⟩
    | some u =>
      obtain ⟨v, queue, after, worked, still, turned⟩ :=
        staffed.worked legible steady distinct heads (List.mem_of_getElem? found)
      obtain ⟨only, set⟩ := alone.only found
      have next : Alone ⟨after.exchange, queue, p.failed, [v]⟩ after base namespaces w :=
        alone.work staffed.exchange only worked
      rw [Pool.step_of_turn found turned]
      exact ⟨after, w, staffed.work found worked, still, (set v).symm ▸ next⟩

theorem Solo.execute (legible : Legible max records namespaces) (distinct : namespaces.Nodup)
    (heads : ∀ ns ∈ namespaces, Heads max ns) (solo : Solo max base records namespaces p)
    (schedule : List Pool.Actor) : Solo max base records namespaces (p.execute schedule) := by
  induction schedule generalizing p with
  | nil => exact solo
  | cons actor rest ih => exact ih (solo.step legible distinct heads actor)

/-- In the end the namespaces stand on the stream one after the other. -/
theorem Solo.finished (distinct : namespaces.Nodup) (solo : Solo max base records namespaces p)
    (done : p.isDone) : p.exchange.engine.writer.sink.accepted =
      base ++ (namespaces.flatMap fun ns => page ns (records ns)).flatMap Block.bytes := by
  obtain ⟨t, w, staffed, steady, alone⟩ := solo
  have runs : Runs max base records namespaces p := ⟨t, staffed, steady⟩
  obtain ⟨-, written, tidy, -, accepted, formed, sequence, filled⟩ := runs.finished done
  obtain ⟨wire, accounted, view⟩ := steady.books
  have shows := alone.shows
  -- the wire that the order is known of has come to its end, like that of the books
  have whole : w.unfinished = none := by
    obtain ⟨s, stopped⟩ := (staffed.isDone_iff steady).1 done
    rw [staffed.exchange] at stopped shows
    rcases staffed.crewed.stopped_or_running steady with running | ⟨s, -, one, -⟩
    · simp [running] at stopped
    · have none := (accounted.whole (by simp [one])).2
      have cursor := shows.cursor.symm.trans view.cursor
      simpa [Wire.cursor, none] using cursor
  have same : written.blocks = w.blocks := by
    apply Block.flatMap_bytes_inj formed
    · have limit : p.exchange.engine.writer.max = max := staffed.exchange ▸ accounted.limit
      exact limit ▸ shows.formed
    · have bytes : w.bytes = w.blocks.flatMap Block.bytes := by
        simp [Wire.bytes, Wire.blocks, whole]
      rw [← bytes]
      exact List.append_cancel_left (accepted.symm.trans shows.accepted)
  have sorted := List.pairwise_map.1 (List.pairwise_append.1 alone.sorted).1
  rw [accepted, tidy.blocks_eq (same ▸ alone.plain) distinct sequence (same ▸ sorted)]
  have pages : ∀ ns ∈ namespaces, page ns (Block.recordsOf ns written.blocks) =
      page ns (records ns) := fun ns listed => by rw [filled ns listed]
  rw [List.flatMap_congr pages]

variable {settings : Settings} {intents : List Intent} {sink : Sink}

/-- To enlist workers leaves the stream and the mailbox alone. -/
theorem shows_enlist {x y : Exchange} {workers : List Worker}
    (shows : x.engine.Shows base w) (enlisted : enlist index intents x = .ok (workers, y)) :
    y.engine.Shows base w ∧ y.mailbox = x.mailbox := by
  induction intents generalizing index x workers with
  | nil =>
    obtain ⟨-, rfl⟩ := Prod.mk.inj (Except.ok.inj enlisted)
    exact ⟨shows, rfl⟩
  | cons i rest ih =>
    simp only [enlist] at enlisted
    split at enlisted
    · contradiction
    · next number mid opened =>
      obtain ⟨after, mailed⟩ := shows.open? opened
      split at enlisted
      · contradiction
      · next others last rests =>
        obtain ⟨-, rfl⟩ := Prod.mk.inj (Except.ok.inj enlisted)
        obtain ⟨still, empty⟩ := ih after rests
        exact ⟨still, empty.trans mailed⟩

theorem shows_begin {writer : Token.Writer} {cap : Option UInt64} {concurrency : UInt64}
    (begun : begin concurrency intents (.start (.start writer cap)) = .ok p) :
    p.exchange.engine.Shows writer.sink.accepted .empty ∧ p.exchange.mailbox = [] := by
  unfold begin at begun
  split at begun
  · contradiction
  · next workers x enlisted =>
    obtain rfl := Except.ok.inj begun
    have shows : (Exchange.start (.start writer cap)).engine.Shows writer.sink.accepted .empty :=
      Traffic.shows_start writer cap
    obtain ⟨after, mailed⟩ := shows_enlist shows enlisted
    exact ⟨after, mailed⟩

/-- At the start the worker has the first namespace, and nothing has been posted. -/
theorem alone_crew (shows : t.exchange.engine.Shows base .empty) (empty : t.exchange.mailbox = [])
    (handles : t.handles = (crew (intents.take 1) 0 0).map fun w => .fresh w.producer w.ns) :
    Alone ⟨t.exchange, intents.drop 1, false, crew (intents.take 1) 0 0⟩ t base
      (intents.map (·.ns)) .empty := by
  have plain : ∀ b ∈ Wire.empty.blocks, b.lead = b.header.record := by
    simp [Wire.empty, Wire.blocks]
  cases intents with
  | nil =>
    refine ⟨by simp [crew], by simp [crew], by simp [handles, crew], shows, plain, ?_⟩
    simp [trail, Wire.empty, Wire.blocks, empty, crew]
  | cons i rest =>
    refine ⟨by simp [crew], by simp [crew, Worker.held], ?_, shows, plain, ?_⟩
    · simp [handles, crew, Multiplexer.Handle.fresh, Worker.unopened]
    · simp [trail, Wire.empty, Wire.blocks, empty, crew]

/-- A dump for one worker begins in good order behind the catalog. -/
theorem Equipped.solo (equipped : Equipped settings 1 intents records) (sound : sink.Sound)
    (begins : Begins settings 1 intents sink p) :
    ∃ c, Dump.catalog 1 intents = .ok c ∧
      Solo settings.max (sink.accepted ++ c.front.bytes) records (intents.map (·.ns)) p := by
  obtain ⟨c, writer, made, written, begun⟩ := begins
  obtain ⟨-, -, wrote, -⟩ := Catalog.of_write written
  have limit : writer.max = settings.max := wrote.limit
  have heads : ∀ i ∈ intents, Heads writer.max i.ns := fun i member =>
    limit ▸ equipped.formed_heads member
  obtain ⟨shows, empty⟩ := shows_begin begun
  obtain ⟨t, steady, ran, handles, rfl, -⟩ := of_begin (wrote.sound sound) heads begun
  have staffed := staffed_crew ran equipped.named equipped.gives equipped.staffed handles
  have accepted : writer.sink.accepted = sink.accepted ++ c.front.bytes := wrote.accepted
  rw [accepted] at steady shows
  rw [limit, equipped.uncapped] at steady
  exact ⟨c, made, t, .empty, staffed, steady, alone_crew shows empty handles⟩

/-- What one worker leaves: the catalog, and the pages of the namespaces in their order. -/
def soloBytes (c : Catalog) (intents : List Intent) (records : Namespace → List Bytes) : Bytes :=
  c.front.bytes ++ (intents.flatMap fun i => page i.ns (records i.ns)).flatMap Block.bytes

/-- Whatever the order of the turns, one worker leaves the same bytes. -/
theorem Equipped.accepted_solo (equipped : Equipped settings 1 intents records)
    (sound : sink.Sound) (begins : Begins settings 1 intents sink p)
    (schedule : List Pool.Actor) (done : (p.execute schedule).isDone) :
    ∃ c, Dump.catalog 1 intents = .ok c ∧
      (p.execute schedule).exchange.engine.writer.sink.accepted =
        sink.accepted ++ soloBytes c intents records := by
  obtain ⟨c, made, solo⟩ := equipped.solo sound begins
  have runs := solo.execute equipped.legible equipped.distinct equipped.heads_names schedule
  have ends := runs.finished equipped.distinct done
  refine ⟨c, made, ?_⟩
  rw [ends, soloBytes, List.flatMap_map, List.append_assoc]

end Dump
end DumpArchive
