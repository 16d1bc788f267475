import DumpArchive.Proofs.Completion
import DumpArchive.Proofs.Language
import DumpArchive.Proofs.Transport
import Mathlib

/-! A dump from its intents to the archive. The first workers are enlisted before the engine runs,
and when all are done the catalog and the blocks behind it are an archive of the intents. -/
namespace DumpArchive.Dump

open Multiplexer (Exchange Traffic Handle Heads)
open Token (Writer)

variable {max : UInt64} {cap : Option UInt64} {base : Bytes} {records : Namespace → List Bytes}
  {t : Traffic} {p : Pool} {intents : List Intent} {namespaces : List Namespace}
  {concurrency : UInt64}

/-- Workers before their intents, with the producers from `number` on. -/
def crew : List Intent → Nat → Nat → List Worker
  | [], _, _ => []
  | i :: rest, index, number =>
    ⟨index, i.ns, number, .opening i⟩ :: crew rest (index + 1) (number + 1)

theorem getElem?_crew (intents : List Intent) (index number k : Nat) :
    (crew intents index number)[k]? =
      intents[k]?.map fun i => ⟨index + k, i.ns, number + k, .opening i⟩ := by
  induction intents generalizing index number k with
  | nil => rfl
  | cons i rest ih =>
    cases k with
    | zero => rfl
    | succ k =>
      simp only [crew, List.getElem?_cons_succ, ih]
      simp only [Nat.add_assoc, Nat.add_comm 1 k]

theorem of_mem_crew {index number : Nat} {w : Worker} (member : w ∈ crew intents index number) :
    ∃ i ∈ intents, w.stage = .opening i := by
  obtain ⟨k, found⟩ := List.mem_iff_getElem?.1 member
  rw [getElem?_crew, Option.map_eq_some_iff] at found
  obtain ⟨i, here, rfl⟩ := found
  exact ⟨i, List.mem_of_getElem? here, rfl⟩

/-- At the start each worker is before the intent at its own place. -/
theorem place_crew {k : Nat} {w : Worker} (found : (crew intents 0 0)[k]? = some w) :
    ∃ i ∈ intents, w = ⟨k, i.ns, k, .opening i⟩ := by
  rw [getElem?_crew, Option.map_eq_some_iff] at found
  obtain ⟨i, here, rfl⟩ := found
  exact ⟨i, List.mem_of_getElem? here, by simp⟩

/-- At the start each worker has the handle of its own number. -/
theorem hands_crew (intents : List Intent)
    (handles : t.handles = (crew intents 0 0).map fun w => .fresh w.producer w.ns) :
    Hands (crew intents 0 0) t := by
  refine ⟨?_, ?_, ?_⟩
  · intro w member number holds
    obtain ⟨k, found⟩ := List.mem_iff_getElem?.1 member
    obtain ⟨i, -, rfl⟩ := place_crew found
    obtain rfl := List.mem_singleton.1 holds
    exact ⟨i.ns, none, [], .fresh number i.ns, by simp [handles, found], rfl, rfl, rfl, rfl⟩
  · intro j k w v number first second holds also
    obtain ⟨i, -, rfl⟩ := place_crew first
    obtain ⟨l, -, rfl⟩ := place_crew second
    exact (List.mem_singleton.1 holds).symm.trans (List.mem_singleton.1 also)
  · intro k h there held
    rw [handles, List.getElem?_map, Option.map_eq_some_iff] at there
    obtain ⟨w, found, rfl⟩ := there
    obtain ⟨i, -, rfl⟩ := place_crew found
    exact ⟨_, List.mem_of_getElem? found, List.mem_singleton_self k⟩

theorem names_crew (intents : List Intent) (index number : Nat) :
    (crew intents index number).map (·.ns) = intents.map (·.ns) := by
  induction intents generalizing index number with
  | nil => rfl
  | cons i rest ih => simp [crew, ih]

theorem assigned_crew (intents : List Intent) (index number : Nat) :
    (crew intents index number).flatMap Worker.assigned = intents := by
  induction intents generalizing index number with
  | nil => rfl
  | cons i rest ih => simp [crew, Worker.assigned, ih]

theorem unopened_crew (intents : List Intent) (index number : Nat) :
    (crew intents index number).flatMap Worker.unopened = [] := by
  apply List.flatMap_eq_nil_iff.2
  intro w member
  obtain ⟨i, -, stage⟩ := of_mem_crew member
  simp [Worker.unopened, stage]

theorem cost_crew (intents : List Intent) (index number : Nat) :
    (crew intents index number).map Worker.cost = intents.map (·.bytes + 6) := by
  induction intents generalizing index number with
  | nil => rfl
  | cons i rest ih => simp [crew, Worker.cost, ih]

/-- Who is enlisted gets the next handles, in the order of the intents. -/
theorem of_enlist (steady : t.Steady max cap base) (heads : ∀ i ∈ intents, Heads max i.ns)
    {index : Nat} {workers : List Worker} {x : Exchange}
    (enlisted : enlist index intents t.exchange = .ok (workers, x)) :
    ∃ after : Traffic, workers = crew intents index t.handles.length ∧ x = after.exchange ∧
      after.Steady max cap base ∧ after.outcomes = t.outcomes ∧
      after.exchange.phase = t.exchange.phase ∧ after.exchange.mailbox = t.exchange.mailbox ∧
      after.handles = t.handles ++
        (crew intents index t.handles.length).map fun w => .fresh w.producer w.ns := by
  induction intents generalizing t index workers x with
  | nil =>
    obtain ⟨rfl, rfl⟩ := by simpa [enlist] using enlisted
    exact ⟨t, rfl, rfl, steady, rfl, rfl, rfl, by simp [crew]⟩
  | cons i rest ih =>
    obtain ⟨head, later⟩ := List.forall_mem_cons.1 heads
    simp only [enlist] at enlisted
    split at enlisted
    · contradiction
    · next number y opened =>
      obtain ⟨mid, again, still, grown, runs, phase, mailed⟩ :=
        steady.enroll (Traffic.admits_of_open? opened) head
      obtain ⟨rfl, rfl⟩ := by simpa using again.symm.trans opened
      have length : mid.handles.length = t.handles.length + 1 := by simp [grown]
      split at enlisted
      · contradiction
      · next others last rests =>
        obtain ⟨after, rfl, rfl, steady, ends, same, empty, handles⟩ := ih still later rests
        rw [length] at enlisted handles
        obtain ⟨rfl, rfl⟩ := by simpa using enlisted
        refine ⟨after, rfl, rfl, steady, ends.trans runs, same.trans phase, empty.trans mailed, ?_⟩
        rw [handles, grown]
        simp [crew]

/-- Without a cap all namespaces can be opened that are named and never had a handle. -/
theorem enlist_ok (steady : t.Steady max none base) (going : t.outcomes = [])
    (named : ∀ i ∈ intents, i.ns.isNamed) (heads : ∀ i ∈ intents, Heads max i.ns)
    (distinct : (t.handles.map (·.ns) ++ intents.map (·.ns)).Nodup) (index : Nat) :
    ∃ workers x, enlist index intents t.exchange = .ok (workers, x) := by
  induction intents generalizing t index with
  | nil => exact ⟨_, _, rfl⟩
  | cons i rest ih =>
    obtain ⟨here, others⟩ := List.forall_mem_cons.1 named
    obtain ⟨head, later⟩ := List.forall_mem_cons.1 heads
    have fresh : i.ns ∉ t.handles.map (·.ns) := by
      intro old
      exact (List.nodup_append.1 distinct).2.2 _ old _ (List.mem_cons_self ..) rfl
    obtain ⟨mid, opened, still, grown, runs, -⟩ := steady.register here fresh head going
    have apart : (mid.handles.map (·.ns) ++ rest.map (·.ns)).Nodup := by
      simpa [grown, Handle.fresh] using distinct
    obtain ⟨workers, x, enlisted⟩ := ih still runs others later apart (index + 1)
    exact ⟨_, _, by simp only [enlist, opened, enlisted]; rfl⟩

/-- A pool at its start: every intent is queued or before a worker that has opened its namespace. -/
theorem staffed_crew (ran : t.exchange.phase ≠ .ready) (named : ∀ i ∈ intents, i.ns.isNamed)
    (gives : ∀ i ∈ intents, i.Gives max (records i.ns)) (some : 1 ≤ concurrency)
    (handles : t.handles = (crew (intents.take concurrency.toNat) 0 0).map
      fun w => .fresh w.producer w.ns) :
    Staffed ⟨t.exchange, intents.drop concurrency.toNat, false,
      crew (intents.take concurrency.toNat) 0 0⟩ t max records (intents.map (·.ns)) := by
  refine ⟨rfl, ran, rfl, ?_, hands_crew _ handles, ?_, ?_, ?_, ?_⟩
  · intro w member
    obtain ⟨k, found⟩ := List.mem_iff_getElem?.1 member
    obtain ⟨i, here, rfl⟩ := place_crew found
    exact .opening rfl (gives i (List.mem_of_mem_take here))
      ⟨.fresh k i.ns, by simp [handles, found], rfl, rfl, rfl, rfl⟩
  · intro h there let_go
    rw [handles] at there
    obtain ⟨w, -, rfl⟩ := List.mem_map.1 there
    contradiction
  · intro i waits
    have member := List.mem_of_mem_drop waits
    exact ⟨named i member, gives i member⟩
  · intro queued
    constructor
    · cases intents with
      | nil => simp at queued
      | cons i rest =>
        obtain ⟨k, more⟩ : ∃ k, concurrency.toNat = k + 1 :=
          Nat.exists_eq_add_one.2 (UInt64.le_iff_toNat_le.1 some)
        simp [more, crew]
    · intro w member
      obtain ⟨i, -, stage⟩ := of_mem_crew member
      simp [stage, Worker.isDone]
  · have names : t.handles.map (·.ns) = (intents.take concurrency.toNat).map (·.ns) := by
      rw [handles, List.map_map, ← names_crew _ 0 0]
      rfl
    simp only [Pool.unopened, unopened_crew, List.append_nil]
    rw [names, ← List.map_append, List.take_append_drop]

theorem rounds_eq (intents : List Intent) :
    rounds intents = 64 + (intents.map (4 * ·.bytes + 16)).sum := by
  suffices ∀ n, intents.foldl (fun n i => n + 4 * i.bytes + 16) n =
      n + (intents.map (4 * ·.bytes + 16)).sum from this 64
  intro n
  induction intents generalizing n with
  | nil => rfl
  | cons i rest ih =>
    rw [List.foldl_cons, ih, List.map_cons, List.sum_cons]
    omega

theorem lt_rounds (front back : List Intent) :
    (back.map (·.bytes + 7)).sum + (front.map (·.bytes + 6)).sum + 1 < rounds (front ++ back) := by
  have first : (front.map (·.bytes + 6)).sum ≤ (front.map (4 * ·.bytes + 16)).sum :=
    List.sum_le_sum fun i _ => by omega
  have second : (back.map (·.bytes + 7)).sum ≤ (back.map (4 * ·.bytes + 16)).sum :=
    List.sum_le_sum fun i _ => by omega
  rw [rounds_eq, List.map_append, List.sum_append]
  omega

/-- The pool at its start, for which there are more rounds than it has work. -/
theorem of_begin {writer : Writer} (sound : writer.sink.Sound)
    (heads : ∀ i ∈ intents, Heads writer.max i.ns)
    (begun : begin concurrency intents (.start (.start writer cap)) = .ok p) :
    ∃ t : Traffic, t.Steady writer.max cap writer.sink.accepted ∧ t.exchange.phase ≠ .ready ∧
      t.handles = (crew (intents.take concurrency.toNat) 0 0).map
        (fun w => .fresh w.producer w.ns) ∧
      p = ⟨t.exchange, intents.drop concurrency.toNat, false,
        crew (intents.take concurrency.toNat) 0 0⟩ ∧ p.work < rounds intents := by
  unfold begin at begun
  split at begun
  · contradiction
  · next workers x enlisted =>
    obtain rfl := Except.ok.inj begun
    obtain ⟨t, rfl, rfl, steady, going, phase, mailed, handles⟩ :=
      of_enlist (t := Traffic.start writer cap) (Traffic.steady_start sound)
        (fun i member => heads i (List.mem_of_mem_take member)) enlisted
    refine ⟨_, steady.run phase going, by simp [Exchange.run], handles, rfl, ?_⟩
    have empty : t.exchange.mailbox = [] := mailed
    have less := lt_rounds (intents.take concurrency.toNat) (intents.drop concurrency.toNat)
    rw [List.take_append_drop] at less
    simpa only [Pool.work, cost_crew, engineCost, Exchange.run, empty, List.length_nil] using less

/-- The pool at its start is in good order. -/
theorem begin_runs {writer : Writer} (sound : writer.sink.Sound) (some : 1 ≤ concurrency)
    (distinct : (intents.map (·.ns)).Nodup) (named : ∀ i ∈ intents, i.ns.isNamed)
    (gives : ∀ i ∈ intents, i.Gives writer.max (records i.ns))
    (heads : ∀ i ∈ intents, Heads writer.max i.ns) :
    ∃ p, begin concurrency intents (.start (.start writer none)) = .ok p ∧
      Runs writer.max writer.sink.accepted records (intents.map (·.ns)) p ∧
      p.pending.Perm intents ∧ p.work < rounds intents := by
  have first : ∀ i ∈ intents.take concurrency.toNat, i ∈ intents := fun i => List.mem_of_mem_take
  have apart : (((Traffic.start writer none).handles.map (·.ns)) ++
      (intents.take concurrency.toNat).map (·.ns)).Nodup := by
    have part := (List.take_sublist concurrency.toNat intents).map (·.ns)
    simpa [Traffic.start] using distinct.sublist part
  obtain ⟨workers, x, enlisted⟩ := enlist_ok (Traffic.steady_start sound) rfl
    (fun i member => named i (first i member)) (fun i member => heads i (first i member)) apart 0
  have begun : begin concurrency intents (.start (.start writer none)) =
      .ok ⟨x.run, intents.drop concurrency.toNat, false, workers⟩ := by
    have same : enlist 0 (intents.take concurrency.toNat) (.start (.start writer none)) =
        .ok (workers, x) := enlisted
    simp only [begin, same]
  obtain ⟨t, steady, ran, handles, shape, work⟩ := of_begin sound heads begun
  rw [shape] at begun work
  refine ⟨_, begun, ⟨t, staffed_crew ran named gives some handles, steady⟩, ?_, work⟩
  simp only [Pool.pending, assigned_crew]
  exact List.perm_append_comm.trans (.of_eq (List.take_append_drop ..))

/-- When all is done nothing is left to begin, and the stream holds the records of everybody. -/
theorem Runs.finished (runs : Runs max base records namespaces p) (done : p.isDone) :
    p.pending = [] ∧ ∃ wire : Wire, wire.Tidy ∧ p.result = .ok (.ofBlocks wire.blocks) ∧
      p.exchange.engine.writer.sink.accepted = base ++ wire.blocks.flatMap Block.bytes ∧
      (∀ b ∈ wire.blocks, b.Formed max) ∧ Block.Sequence namespaces wire.blocks ∧
      ∀ ns ∈ namespaces, Block.recordsOf ns wire.blocks = records ns := by
  obtain ⟨t, staffed, steady⟩ := runs
  obtain ⟨s, stopped⟩ := (staffed.isDone_iff steady).1 done
  rw [staffed.exchange] at stopped
  rcases staffed.crewed.stopped_or_running steady with running | ⟨s, ends, one, nobody⟩
  · simp [running] at stopped
  have past : ∀ w ∈ p.workers, w.stage = .done (.ok ()) :=
    fun w member => staffed.done_of_nobody steady nobody member
  have queue := staffed.queue_eq_nil past
  have assigned : p.workers.flatMap Worker.assigned = [] :=
    List.flatMap_eq_nil_iff.2 fun w member => by simp [Worker.assigned, past w member]
  have unopened : p.workers.flatMap Worker.unopened = [] :=
    List.flatMap_eq_nil_iff.2 fun w member => by simp [Worker.unopened, past w member]
  have known : (t.handles.map (·.ns)).Perm namespaces := by
    simpa [Pool.unopened, queue, unopened] using staffed.known
  obtain ⟨wire, accounted, view⟩ := steady.books
  have concluded := accounted.concluded view (by simp [one] : t.outcomes.head? = some (.ok s))
  refine ⟨by simp [Pool.pending, queue, assigned], wire, accounted.tracks.tidy, ?_, ?_, ?_, ?_, ?_⟩
  · rw [← staffed.exchange] at ends
    simp only [Pool.result, ends]
    split
    · next e found =>
      obtain ⟨w, member, failed⟩ := List.exists_of_findSome?_eq_some found
      simp [Worker.result, past w member] at failed
    · rw [concluded.summary]
  · rw [staffed.exchange]
    exact concluded.accepted
  · exact accounted.limit ▸ concluded.formed
  · exact concluded.sequence.congr fun ns => known.mem_iff
  · intro ns listed
    obtain ⟨h, member, rfl⟩ := List.mem_map.1 (known.mem_iff.2 listed)
    rw [concluded.records h member]
    apply staffed.released h member
    by_contra held
    obtain ⟨k, found⟩ := List.mem_iff_getElem?.1 member
    obtain ⟨w, here, holds⟩ := staffed.hands.manned k h found (by simpa using held)
    simp [Worker.held, past w here] at holds

/-- A document that may be written. -/
def Fits (max : UInt64) (document : Bytes) : Prop :=
  document.length ≤ max.toNat ∧ Document.Sized document.length

theorem fits_of_check {document : Bytes} (passed : Record.check document max = .ok ()) :
    Fits max document := by
  have formed := Record.check_eq_ok_iff.1 passed
  exact ⟨formed.most, formed.length_lt⟩

def entries (intents : List Intent) : List CatalogEntry := intents.map fun i => ⟨i.ns, i.metadata⟩

/-- A dump that nothing stands in the way of: there is a worker, the namespaces are valid and
distinct, their sources give records within the limit, and the headers are within the limit too. -/
structure Feasible (settings : Settings) (concurrency : UInt64) (intents : List Intent)
    (records : Namespace → List Bytes) : Prop where
  small : settings.max.toNat < 2 ^ 63
  uncapped : settings.cap = none
  staffed : 1 ≤ concurrency
  named : ∀ i ∈ intents, i.ns.isNamed
  distinct : (intents.map (·.ns)).Nodup
  gives : ∀ i ∈ intents, i.Gives settings.max (records i.ns)
  lead : Fits settings.max (ArchiveHeader.current (concurrentField concurrency)).record
  listed : ∀ e ∈ entries intents, Fits settings.max e.record
  heads : ∀ i ∈ intents, ∀ eof, Fits settings.max (CollectionHeader.record ⟨i.ns, eof⟩)

/-- What a dump needs to come to its end. Its archive need not be readable within its limit. -/
structure Equipped (settings : Settings) (concurrency : UInt64) (intents : List Intent)
    (records : Namespace → List Bytes) : Prop where
  legible : Legible settings.max records (intents.map (·.ns))
  uncapped : settings.cap = none
  staffed : 1 ≤ concurrency
  named : ∀ i ∈ intents, i.ns.isNamed
  distinct : (intents.map (·.ns)).Nodup
  gives : ∀ i ∈ intents, i.Gives settings.max (records i.ns)
  lead : Fits settings.max (ArchiveHeader.current (concurrentField concurrency)).record
  listed : ∀ e ∈ entries intents, Fits settings.max e.record
  heads : ∀ i ∈ intents, ∀ eof, Fits settings.max (CollectionHeader.record ⟨i.ns, eof⟩)

/-- The pool with which a dump goes to work after the catalog. -/
def Begins (settings : Settings) (concurrency : UInt64) (intents : List Intent) (sink : Sink)
    (p : Pool) : Prop :=
  ∃ c writer, catalog concurrency intents = .ok c ∧
    c.write (.start sink settings.max) = (.ok (), writer) ∧
    begin concurrency intents (.start (.start writer settings.cap)) = .ok p

/-- The bytes are an archive of the intents, listed in this order and each with its records, which
is opened and verified with this summary. -/
structure Archived (max : UInt64) (concurrency : UInt64) (intents : List Intent)
    (records : Namespace → List Bytes) (data : Bytes) (s : Summary) : Prop where
  layout : ∃ l : Layout, l.Formed max ∧ data = l.bytes ∧
    l.front.namespaces = intents.map (·.ns) ∧ ∀ i ∈ intents, l.recordsOf i.ns = records i.ns
  verified : ∀ source : Source, source.schedule.Sound → source.pending = data →
    ∃ a reader, Restore.openArchive source max none = (.ok a, reader) ∧
      a.catalog.header = .current (concurrentField concurrency) ∧
      a.catalog.entries = entries intents ∧ Restore.verify a = .ok s
  accounts : s.Accounts (· ∈ intents.map (·.ns)) records

variable {settings : Settings} {sink : Sink}

theorem Feasible.equipped (feasible : Feasible settings concurrency intents records) :
    Equipped settings concurrency intents records := by
  obtain ⟨small, uncapped, staffed, named, distinct, gives, lead, listed, heads⟩ := feasible
  exact ⟨fun _ _ _ => small, uncapped, staffed, named, distinct, gives, lead, listed, heads⟩

theorem Equipped.feasible (equipped : Equipped settings concurrency intents records)
    (small : settings.max.toNat < 2 ^ 63) : Feasible settings concurrency intents records := by
  obtain ⟨-, uncapped, staffed, named, distinct, gives, lead, listed, heads⟩ := equipped
  exact ⟨small, uncapped, staffed, named, distinct, gives, lead, listed, heads⟩

theorem Equipped.ordered (equipped : Equipped settings concurrency intents records) :
    Equipped settings concurrency (ordered intents) records := by
  have same := perm_ordered intents
  obtain ⟨legible, uncapped, staffed, named, distinct, gives, lead, listed, heads⟩ := equipped
  refine ⟨fun ns member => legible ns ((same.map _).mem_iff.1 member), uncapped, staffed,
    fun i member => named i (same.mem_iff.1 member), (same.map _).nodup_iff.2 distinct,
    fun i member => gives i (same.mem_iff.1 member), lead,
    fun e member => listed e ((same.map _).mem_iff.1 member),
    fun i member => heads i (same.mem_iff.1 member)⟩

theorem Feasible.ordered (feasible : Feasible settings concurrency intents records) :
    Feasible settings concurrency (ordered intents) records :=
  feasible.equipped.ordered.feasible feasible.small

theorem Equipped.catalog (equipped : Equipped settings concurrency intents records) :
    ∃ c, Dump.catalog concurrency intents = .ok c ∧
      c.header = .current (concurrentField concurrency) ∧ c.entries = entries intents ∧
      c.front.Formed settings.max := by
  have distinct : ((entries intents).map (·.ns)).Nodup := by
    simpa [entries, Function.comp_def] using equipped.distinct
  refine ⟨⟨_, entries intents, distinct⟩, Catalog.ofEntries_eq distinct, rfl, rfl, ?_⟩
  apply Catalog.formed_front
  · exact Document.Fields.formed_encode equipped.lead.1 equipped.lead.2
  · intro e member
    obtain ⟨most, sized⟩ := equipped.listed e member
    obtain ⟨i, held, rfl⟩ := List.mem_map.1 member
    exact ⟨Document.Fields.formed_encode most sized, equipped.named i held⟩

theorem Equipped.formed_heads (equipped : Equipped settings concurrency intents records)
    {i : Intent} (member : i ∈ intents) : Heads settings.max i.ns := by
  intro eof
  obtain ⟨most, sized⟩ := equipped.heads i member eof
  exact Document.Fields.formed_encode most sized

theorem Equipped.heads_names (equipped : Equipped settings concurrency intents records) :
    ∀ ns ∈ intents.map (·.ns), Heads settings.max ns := by
  intro ns member
  obtain ⟨i, held, rfl⟩ := List.mem_map.1 member
  exact equipped.formed_heads held

/-- The pool of a dump begins in good order, behind the front of the archive. -/
theorem Equipped.begins (equipped : Equipped settings concurrency intents records)
    (sound : sink.Sound) :
    ∃ p, ∃ f : Catalog.Front, Begins settings concurrency intents sink p ∧ f.Formed settings.max ∧
      f.header = .current (concurrentField concurrency) ∧ f.listed.map (·.2) = entries intents ∧
      Runs settings.max (sink.accepted ++ f.bytes) records (intents.map (·.ns)) p ∧
      p.pending.Perm intents ∧ p.work < rounds intents := by
  obtain ⟨c, made, header, listed, formed⟩ := equipped.catalog
  have clean : (Writer.start sink settings.max).sink.Sound := sound
  obtain ⟨writer, written, wrote⟩ := Catalog.write_front clean formed
  have limit : writer.max = settings.max := wrote.limit
  have gives := equipped.gives
  have heads : ∀ i ∈ intents, Heads settings.max i.ns := fun i => equipped.formed_heads
  rw [← limit] at gives heads
  obtain ⟨p, begun, runs, pending, work⟩ := begin_runs (wrote.sound sound) equipped.staffed
    equipped.distinct equipped.named gives heads
  rw [wrote.accepted, limit] at runs
  refine ⟨p, c.front, ⟨c, writer, made, written, ?_⟩, formed, header, ?_, runs, pending, work⟩
  · rw [equipped.uncapped, begun]
  · rw [← c.of_front.entries, listed]

theorem archived {f : Catalog.Front} {blocks : List Block} (small : max.toNat < 2 ^ 63)
    (formed : f.Formed max) (header : f.header = .current (concurrentField concurrency))
    (listed : f.listed.map (·.2) = entries intents) (whole : ∀ b ∈ blocks, b.Formed max)
    (sequence : Block.Sequence (intents.map (·.ns)) blocks)
    (filled : ∀ ns ∈ intents.map (·.ns), Block.recordsOf ns blocks = records ns) :
    Archived max concurrency intents records (f.bytes ++ blocks.flatMap Block.bytes)
      (.ofBlocks blocks) := by
  have names : f.namespaces = intents.map (·.ns) := by
    have same := congrArg (·.map (·.ns)) listed
    simpa [Catalog.Front.namespaces, entries, Function.comp_def] using same
  have layout : (⟨f, blocks⟩ : Layout).Formed max := ⟨formed, whole, names ▸ sequence⟩
  refine ⟨⟨⟨f, blocks⟩, layout, rfl, names, ?_⟩, ?_, ?_⟩
  · exact fun i member => filled i.ns (List.mem_map_of_mem member)
  · intro source sound pending
    obtain ⟨a, reader, opened, same, verified⟩ :=
      Restore.verify_layout sound small layout pending
    exact ⟨a, reader, opened, same.header.trans header, same.entries.trans listed, verified⟩
  · refine layout.accounts.congr (fun ns => by rw [names]) fun ns member => ?_
    exact filled ns (names ▸ member)

/-- What stands once among the second parts stands there with one first part. -/
theorem unique_of_perm {begun : List (Nat × Intent)} (once : (begun.map (·.2)).Perm intents)
    (distinct : intents.Nodup) {i : Intent} (member : i ∈ intents) :
    ∃! worker, (worker, i) ∈ begun := by
  obtain ⟨⟨worker, j⟩, held, rfl⟩ := List.mem_map.1 (once.mem_iff.2 member)
  refine ⟨worker, held, fun other also => ?_⟩
  have same := List.inj_on_of_nodup_map (once.nodup_iff.2 distinct) also held rfl
  exact congrArg (·.1) same

/-- What every schedule makes of the pool of a dump. -/
structure Completes (p : Pool) (base : Bytes) (max : UInt64) (concurrency : UInt64)
    (intents : List Intent) (records : Namespace → List Bytes) (schedule : List Pool.Actor) :
    Prop where
  orderly : (p.execute schedule).Orderly
  once : ((Pool.begun schedule p).map (·.2) ++ (p.execute schedule).pending).Perm intents
  done : (p.execute schedule).isDone →
    (p.execute schedule).pending = [] ∧
    (∀ i ∈ intents, ∃! worker, (worker, i) ∈ Pool.begun schedule p) ∧
    ∃ s data, (p.execute schedule).result = .ok s ∧
      (p.execute schedule).exchange.engine.writer.sink.accepted = base ++ data ∧
      Archived max concurrency intents records data s

theorem Feasible.completes (feasible : Feasible settings concurrency intents records)
    (sound : sink.Sound) :
    ∃ p, Begins settings concurrency intents sink p ∧
      (∀ schedule, Completes p sink.accepted settings.max concurrency intents records schedule) ∧
      ∀ schedule, Rounds p.actors (rounds intents) schedule → (p.execute schedule).isDone := by
  obtain ⟨p, f, begins, formed, header, listed, runs, pending, work⟩ :=
    feasible.equipped.begins sound
  have heads := feasible.equipped.heads_names
  refine ⟨p, begins, fun schedule => ?_, fun schedule enough => ?_⟩
  · obtain ⟨still, taken⟩ := runs.execute feasible.equipped.legible feasible.distinct heads schedule
    have once := taken.trans pending
    refine ⟨still.orderly feasible.distinct heads, once, fun done => ?_⟩
    obtain ⟨nothing, wire, -, result, accepted, whole, sequence, filled⟩ := still.finished done
    rw [nothing, List.append_nil] at once
    refine ⟨nothing, fun i => unique_of_perm once (.of_map _ feasible.distinct), _, _, result,
      accepted.trans (List.append_assoc ..), ?_⟩
    exact archived feasible.small formed header listed whole sequence filled
  · obtain ⟨rounds, split, many, full⟩ := enough
    exact runs.works.isDone_of_rounds heads ⟨rounds, split, Nat.le_trans work many, full⟩

theorem write_of_begins (begins : Begins settings concurrency (ordered intents) sink p) :
    write settings concurrency intents sink =
      ((p.settleWithin (rounds (ordered intents))).result,
        (p.settleWithin (rounds (ordered intents))).exchange.engine.writer) := by
  obtain ⟨c, writer, made, written, begun⟩ := begins
  simp only [write, made, written, begun]

/-- The run of a dump that nothing stands in the way of is one of its schedules. -/
theorem write_of_feasible (feasible : Feasible settings concurrency intents records)
    (sound : sink.Sound) :
    ∃ p, Begins settings concurrency (ordered intents) sink p ∧
      (∀ schedule, Completes p sink.accepted settings.max concurrency (ordered intents) records
        schedule) ∧
      (∀ schedule, Rounds p.actors (rounds (ordered intents)) schedule →
        (p.execute schedule).isDone) ∧
      ∃ schedule, (p.execute schedule).isDone ∧ write settings concurrency intents sink =
        ((p.execute schedule).result, (p.execute schedule).exchange.engine.writer) := by
  obtain ⟨p, begins, completes, ends⟩ := feasible.ordered.completes sound
  -- settling is one of the schedules, and long enough
  obtain ⟨schedule, settled, enough⟩ := settleWithin_eq (rounds (ordered intents)) p
  refine ⟨p, begins, completes, ends, schedule, enough.elim id (ends schedule), ?_⟩
  rw [write_of_begins begins, settled]

/-- A dump that nothing stands in the way of, in whatever order the workers and the engine take
their turns: every intent is begun by one worker, once, and nobody finds the engine gone; when
everybody has had turns enough it has succeeded, and left an archive of the intents, the largest
first, that is verified with the same summary. -/
theorem write_completes (settings : Settings) (concurrency : UInt64) (intents : List Intent)
    (records : Namespace → List Bytes) (sink : Sink)
    (feasible : Feasible settings concurrency intents records) (sound : sink.Sound) :
    ((ordered intents).Perm intents ∧
      ((ordered intents).Pairwise fun a b => b.size ≤ a.size) ∧
      ∀ size, (ordered intents).filter (·.size = size) = intents.filter (·.size = size)) ∧
    (∃ p, Begins settings concurrency (ordered intents) sink p ∧
      (∀ schedule, Completes p sink.accepted settings.max concurrency (ordered intents) records
        schedule) ∧
      ∃ n, ∀ schedule, Rounds p.actors n schedule → (p.execute schedule).isDone) ∧
    ∃ s writer data, write settings concurrency intents sink = (.ok s, writer) ∧
      writer.sink.accepted = sink.accepted ++ data ∧
      Archived settings.max concurrency (ordered intents) records data s := by
  obtain ⟨p, begins, completes, ends, schedule, done, written⟩ :=
    write_of_feasible feasible sound
  have sorted := descending_ordered intents
  refine ⟨⟨perm_ordered intents, sorted, fun size => filter_ordered size intents⟩,
    ⟨p, begins, completes, _, ends⟩, ?_⟩
  obtain ⟨-, -, s, data, result, accepted, archived⟩ := (completes schedule).done done
  exact ⟨s, _, data, by rw [written, result], accepted, archived⟩

/-- Two workers for three collections, the largest of which come first in the order they stand in. -/
theorem write_completes_two_workers :
    let intents : List Intent := [⟨⟨"a", "b"⟩, "{}", 5, .opens (.ofBytes [5, 0, 0, 0, 0])⟩,
      ⟨⟨"a", "c"⟩, "{}", 7, .opens (.ofBytes ([6, 0, 0, 0, 1, 0] ++ [5, 0, 0, 0, 0]))⟩,
      ⟨⟨"a", "d"⟩, "[]", 7, .opens (.ofBytes [])⟩]
    let records : Namespace → List Bytes := fun ns =>
      if ns.collection = "b" then [[5, 0, 0, 0, 0]]
      else if ns.collection = "c" then [[6, 0, 0, 0, 1, 0], [5, 0, 0, 0, 0]] else []
    (ordered intents).map (·.ns.collection) = ["c", "d", "b"] ∧
    (∃ p, Begins ⟨128, none⟩ 2 (ordered intents) .empty p ∧
      (∀ schedule, Completes p [] 128 2 (ordered intents) records schedule) ∧
      ∃ n, ∀ schedule, Rounds p.actors n schedule → (p.execute schedule).isDone) ∧
    ∃ s writer data, write ⟨128, none⟩ 2 intents .empty = (.ok s, writer) ∧
      writer.sink.accepted = data ∧ Archived 128 2 (ordered intents) records data s := by
  intro intents records
  have fits : ∀ d, Record.check d 128 = .ok () → Fits 128 d := fun _ => fits_of_check
  have headed (i : Intent) (member : i ∈ intents) (eof : Bool) :
      Record.check (CollectionHeader.record ⟨i.ns, eof⟩) 128 = .ok () := by
    have all : ∀ ns ∈ intents.map (·.ns), ∀ eof,
        Record.check (CollectionHeader.record ⟨ns, eof⟩) 128 = .ok () := by decide +kernel
    exact all i.ns (List.mem_map_of_mem member) eof
  have described : ∀ e ∈ entries intents, Record.check e.record 128 = .ok () := by decide +kernel
  have formed : ∀ ns ∈ intents.map (·.ns), ∀ r ∈ records ns, Record.check r 128 = .ok () := by
    decide +kernel
  have gives : ∀ i ∈ intents, i.Gives 128 (records i.ns) := by
    have good {i : Intent} (member : i ∈ intents) : ∀ r ∈ records i.ns, Record.Formed 128 r :=
      fun r listed => Record.check_eq_ok_iff.1 (formed i.ns (List.mem_map_of_mem member) r listed)
    intro i member
    have listed := member
    simp only [intents, List.mem_cons, List.not_mem_nil, or_false] at listed
    obtain rfl | rfl | rfl := listed <;>
      exact ⟨_, rfl, Stream.Schedule.sound_steady, rfl, good member⟩
  have feasible : Feasible ⟨128, none⟩ 2 intents records :=
    ⟨by decide, rfl, by decide, by simp [intents, Namespace.isNamed], by simp [intents], gives,
      fits _ (by decide +kernel), fun e listed => fits _ (described e listed),
      fun i member eof => fits _ (headed i member eof)⟩
  obtain ⟨-, begins, s, writer, data, written, accepted, archived⟩ :=
    write_completes ⟨128, none⟩ 2 intents records .empty feasible Sink.sound_empty
  exact ⟨by simp [intents, ordered, List.mergeSort], begins, s, writer, data, written, accepted,
    archived⟩

end DumpArchive.Dump
