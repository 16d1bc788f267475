import DumpArchive.Proofs.Decoding
import DumpArchive.Proofs.SingleWorkerDump

/-! The archive of a dump with one worker. Whatever the order of the turns, the stream holds the
front of the same bytes at any time, and all of them in the end. -/
namespace DumpArchive

namespace Token.Reader

variable {r next : Reader} {max : UInt64} {offset : Nat} {w : Bytes} {records left : List Bytes}

/-- These records are read, and then the end of the input. -/
inductive Yields : Reader → List Bytes → Prop
  | done {r next : Reader} : r.nextRecord = (.ok none, next) → Yields r []
  | more {r next : Reader} {record : Bytes} {left : List Bytes} :
    r.nextRecord = (.ok (some record), next) → Yields next left → Yields r (record :: left)

theorem readToken_of_nextRecord {record : Option Bytes} (h : r.nextRecord = (.ok record, next)) :
    r.readToken = (.ok (record.map Token.record), next) := by
  unfold nextRecord at h
  split at h
  · simp at h
  · next read =>
    obtain ⟨rfl, rfl⟩ := by simpa using h
    exact read
  · next read =>
    obtain ⟨rfl, rfl⟩ := by simpa using h
    exact read
  · simp at h

/-- What is read are well-formed records and all of the input, under a limit that admits records if
there are any. -/
theorem Yields.inv (yields : r.Yields records) (place : r.At max offset w) :
    w = records.flatten ∧ (∀ b ∈ records, Record.Formed max b) ∧
      (records ≠ [] → max.toNat < 2 ^ 63) := by
  induction yields generalizing offset w with
  | done ends => exact ⟨nil_of_readToken place (readToken_of_nextRecord ends), by simp, by simp⟩
  | @more r next record left read yields ih =>
    have token := readToken_of_nextRecord read
    have small : max.toNat < 2 ^ 63 := by
      by_contra large
      exact readToken_large (place.limit ▸ Nat.le_of_not_lt large) token
    obtain ⟨formed, rest, split, after⟩ := of_readToken small place token
    obtain ⟨flat, others, -⟩ := ih after
    refine ⟨?_, List.forall_mem_cons.2 ⟨formed, others⟩, fun _ => small⟩
    rw [split, flat, List.flatten_cons]
    rfl

theorem Before.yields (small : max.toNat < 2 ^ 63) (before : r.Before max left) :
    r.Yields left := by
  induction left generalizing r with
  | nil =>
    obtain ⟨next, read⟩ := before.nextRecord_nil
    exact .done read
  | cons record left ih =>
    obtain ⟨next, read, later⟩ := before.nextRecord_cons small
    exact .more read (ih later)

end Token.Reader

namespace Wire

variable {w : Wire}

theorem prefix_terminate (w : Wire) : w.bytes <+: w.terminate.bytes := by
  cases unfinished : w.unfinished with
  | none => simp [bytes, terminate, blocks, unfinished]
  | some b => simp [bytes, terminate, blocks, unfinished, Block.bytes]

theorem prefix_add (ns : Namespace) (record : Bytes) (w : Wire) :
    w.bytes <+: (w.add ns record).bytes := by
  rcases add_cases ns record w with ⟨b, unfinished, -, added⟩ | ⟨-, added⟩
  · rw [added]
    simp [bytes, unfinished, Block.front]
  · refine w.prefix_terminate.trans ?_
    rw [added]
    simp [bytes, terminate]

theorem prefix_close (ns : Namespace) (w : Wire) : w.bytes <+: (w.close ns).bytes := by
  refine w.prefix_terminate.trans ?_
  simp [bytes, terminate, close]

end Wire

namespace Multiplexer

variable {x y : Exchange} {v w : Wire} {t : Traffic} {max : UInt64} {cap : Option UInt64}
  {base : Bytes}

/-- A turn of the engine takes nothing back. -/
theorem Turned.prefix (turned : Turned x w y v) : w.bytes <+: v.bytes := by
  cases turned with
  | still => exact List.prefix_rfl
  | finished => exact List.prefix_rfl
  | handled =>
    unfold onWire
    split
    · exact List.prefix_rfl
    · exact w.prefix_add ..
    · exact w.prefix_close ..
  | failed => exact w.prefix_terminate

theorem writer_open? {ns : Namespace} {number : Nat} (opened : x.open? ns = .ok (number, y)) :
    y.engine.writer = x.engine.writer := by
  obtain ⟨-, -, rfl⟩ := Exchange.open?_eq_ok_iff.1 opened
  rfl

theorem Traffic.Steady.accepted_step (steady : t.Steady max cap base) :
    t.exchange.engine.writer.sink.accepted <+: t.exchange.step.engine.writer.sink.accepted := by
  obtain ⟨w, accounted, view⟩ := steady.books
  obtain ⟨v, turned⟩ := turned t.exchange w
  have after := view.turned turned
    (.inl ⟨steady.sound, accounted.limit.symm ▸ accounted.formed⟩)
  rw [view.accepted, after.accepted]
  exact (List.prefix_append_right_inj base).2 turned.prefix

end Multiplexer

namespace Dump

open Multiplexer (Exchange Traffic Heads)

variable {p : Pool} {max : UInt64} {base : Bytes} {records : Namespace → List Bytes}
  {namespaces : List Namespace}

/-- What the stream of a dump has been given. -/
def Pool.written (p : Pool) : Bytes := p.exchange.engine.writer.sink.accepted

/-- A worker has no hand in the stream. -/
theorem Worker.writer_turn (w : Worker) (p : Pool) :
    (w.turn p).2.exchange.engine.writer = p.exchange.engine.writer := by
  unfold Worker.turn
  repeat' split
  all_goals first
    | rfl
    | exact congrArg Multiplexer.writer (Traffic.engine_post? ‹_›)
    | exact congrArg Multiplexer.writer (Traffic.engine_answer? ‹_›)
    | exact Multiplexer.writer_open? ‹_›
    | exact congrArg Multiplexer.writer (Traffic.engine_posted ..)

theorem Runs.written_step (runs : Runs max base records namespaces p) (actor : Pool.Actor) :
    p.written <+: (p.step actor).written := by
  cases actor with
  | engine =>
    obtain ⟨t, staffed, steady⟩ := runs
    have grown := steady.accepted_step
    rwa [← staffed.exchange] at grown
  | worker index =>
    cases found : p.workers[index]? with
    | none => rw [Pool.step_of_none found]
    | some w =>
      have same := w.writer_turn p
      simp only [Pool.step, found, Pool.written, same]
      exact List.prefix_rfl

theorem Runs.written_execute (legible : Legible max records namespaces)
    (distinct : namespaces.Nodup) (heads : ∀ ns ∈ namespaces, Heads max ns)
    (runs : Runs max base records namespaces p) (schedule : List Pool.Actor) :
    p.written <+: (p.execute schedule).written := by
  induction schedule generalizing p with
  | nil => exact List.prefix_rfl
  | cons actor rest ih =>
    exact (runs.written_step actor).trans (ih (runs.step legible distinct heads actor).1)

/-- From wherever it stands a dump can be brought to its end. -/
theorem Runs.ends (heads : ∀ ns ∈ namespaces, Heads max ns)
    (runs : Runs max base records namespaces p) : ∃ schedule, (p.execute schedule).isDone := by
  refine ⟨(List.replicate (p.work + 1) p.actors).flatten,
    runs.works.isDone_of_rounds heads ⟨_, rfl, by simp, fun round member actor acts => ?_⟩⟩
  rwa [List.eq_of_mem_replicate member]

/-- A source without faults, from which these records are read and nothing else. -/
def Intent.Clean (i : Intent) (max : UInt64) (records : List Bytes) : Prop :=
  ∃ source, i.origin = .opens source ∧ source.schedule.Sound ∧
    (Token.Reader.start source max).Yields records

theorem Intent.Clean.inv {i : Intent} {list : List Bytes} (clean : i.Clean max list) :
    i.Gives max list ∧ (list ≠ [] → max.toNat < 2 ^ 63) := by
  obtain ⟨source, origin, sound, yields⟩ := clean
  obtain ⟨pending, formed, small⟩ := yields.inv (Token.Reader.at_start sound max)
  exact ⟨⟨source, origin, sound, pending, formed⟩, small⟩

/-- A dump for one worker without a cap: the namespaces are valid and distinct, the sources are
clean, and all headers are within the limit. -/
structure Regular (settings : Settings) (intents : List Intent)
    (records : Namespace → List Bytes) : Prop where
  uncapped : settings.cap = none
  named : ∀ i ∈ intents, i.ns.isNamed
  distinct : (intents.map (·.ns)).Nodup
  clean : ∀ i ∈ intents, i.Clean settings.max (records i.ns)
  lead : Fits settings.max (ArchiveHeader.current 1).record
  listed : ∀ e ∈ entries intents, Fits settings.max e.record
  heads : ∀ i ∈ intents, ∀ eof, Fits settings.max (CollectionHeader.record ⟨i.ns, eof⟩)

variable {settings : Settings} {intents : List Intent} {sink : Sink}

theorem Regular.equipped (regular : Regular settings intents records) :
    Equipped settings 1 intents records := by
  obtain ⟨uncapped, named, distinct, clean, lead, listed, heads⟩ := regular
  refine ⟨?_, uncapped, by decide, named, distinct, fun i member => (clean i member).inv.1, lead,
    listed, heads⟩
  intro ns member some
  obtain ⟨i, held, rfl⟩ := List.mem_map.1 member
  exact (clean i held).inv.2 some

/-- The front of an archive of one worker. -/
def opening (intents : List Intent) : Bytes :=
  Token.magicBytes ++ (ArchiveHeader.current 1).record ++
    (entries intents).flatMap (·.record) ++ Token.delimiterBytes

/-- All of one namespace. -/
def chapter (ns : Namespace) (records : List Bytes) : Bytes :=
  (if records = [] then []
    else CollectionHeader.record ⟨ns, false⟩ ++ records.flatten ++ Token.delimiterBytes) ++
  CollectionHeader.record ⟨ns, true⟩ ++ Token.delimiterBytes

/-- The archive of one worker that dumps these intents in this order. -/
def canonical (intents : List Intent) (records : Namespace → List Bytes) : Bytes :=
  opening intents ++ intents.flatMap fun i => chapter i.ns (records i.ns)

theorem bytes_page (ns : Namespace) (records : List Bytes) :
    (Block.page ns records).flatMap Block.bytes = chapter ns records := by
  by_cases none : records = []
  · simp [Block.page, chapter, none, Block.bytes, Block.front, Block.ofHeader]
  · simp [Block.page, chapter, none, Block.bytes, Block.front, Block.ofHeader]

theorem soloBytes_eq {c : Catalog} (made : Dump.catalog 1 intents = .ok c) :
    soloBytes c intents records = canonical intents records := by
  obtain ⟨header, listed⟩ := Catalog.of_ofEntries made
  have one : concurrentField 1 = 1 := by decide
  have front : c.front.bytes = opening intents := by
    simp [Catalog.front, Catalog.Front.bytes, Catalog.Front.listing, opening, header, listed, one,
      entries, List.flatMap_map]
  rw [soloBytes, canonical, front, List.flatMap_assoc]
  simp only [bytes_page]

/-- A dump with one worker, in whatever order the worker and the engine take their turns. The
stream never holds anything else than the front of one archive, and it holds all of that when both
have had turns enough: the catalog of the intents, the largest first, and for each of them in this
order its records behind an open header, if it has any, and its end. -/
theorem write_canonical (settings : Settings) (intents : List Intent)
    (records : Namespace → List Bytes) (sink : Sink)
    (regular : Regular settings intents records) (sound : sink.Sound) :
    let whole := sink.accepted ++ canonical (ordered intents) records
    ((ordered intents).Perm intents ∧
      ((ordered intents).Pairwise fun a b => b.size ≤ a.size) ∧
      ∀ size, (ordered intents).filter (·.size = size) = intents.filter (·.size = size)) ∧
    (∃ p, Begins settings 1 (ordered intents) sink p ∧
      (∀ schedule, (p.execute schedule).written <+: whole) ∧
      (∀ schedule, (p.execute schedule).isDone →
        (∃ s, (p.execute schedule).result = .ok s) ∧ (p.execute schedule).written = whole) ∧
      ∃ n, ∀ schedule, Rounds p.actors n schedule → (p.execute schedule).isDone) ∧
    ∃ s writer, write settings 1 intents sink = (.ok s, writer) ∧ writer.sink.accepted = whole := by
  intro whole
  have equipped := regular.equipped.ordered
  obtain ⟨p, f, begins, -, -, -, runs, -, work⟩ := equipped.begins sound
  have heads := equipped.heads_names
  have goes (schedule : List Pool.Actor) :=
    (runs.execute equipped.legible equipped.distinct heads schedule).1
  have ends (schedule : List Pool.Actor) (done : (p.execute schedule).isDone) :
      (∃ s, (p.execute schedule).result = .ok s) ∧ (p.execute schedule).written = whole := by
    obtain ⟨c, made, accepted⟩ := equipped.accepted_solo sound begins schedule done
    obtain ⟨-, wire, -, result, -⟩ := (goes schedule).finished done
    exact ⟨⟨_, result⟩, by rw [Pool.written, accepted, soloBytes_eq made]⟩
  have enough (schedule : List Pool.Actor)
      (turns : Rounds p.actors (rounds (ordered intents)) schedule) :
      (p.execute schedule).isDone := by
    obtain ⟨rounds, split, many, full⟩ := turns
    exact runs.works.isDone_of_rounds heads ⟨rounds, split, Nat.le_trans work many, full⟩
  have sorted := descending_ordered intents
  refine ⟨⟨perm_ordered intents, sorted, fun size => filter_ordered size intents⟩,
    ⟨p, begins, fun schedule => ?_, ends, _, enough⟩, ?_⟩
  · -- what is written so far is in front of what is written when the dump goes on to its end
    obtain ⟨more, done⟩ := (goes schedule).ends heads
    have grown := (goes schedule).written_execute equipped.legible equipped.distinct heads more
    have same : (p.execute schedule).execute more = p.execute (schedule ++ more) := by
      simp only [Pool.execute_eq_foldl, List.foldl_append]
    rw [same] at done grown
    rwa [(ends _ done).2] at grown
  · obtain ⟨schedule, settled, turns⟩ := settleWithin_eq (rounds (ordered intents)) p
    obtain ⟨⟨s, result⟩, written⟩ := ends schedule (turns.elim id (enough schedule))
    refine ⟨s, (p.execute schedule).exchange.engine.writer, ?_, written⟩
    rw [write_of_begins begins, settled, result]

/-- Of two namespaces the larger one is empty: its end comes first, and the other one is a block of
one record and its end. -/
theorem write_canonical_empty_and_full :
    let max : UInt64 := 128
    let intents : List Intent :=
      [⟨⟨"a", "b"⟩, "{}", 1, .opens (.ofBytes [5, 0, 0, 0, 0])⟩,
        ⟨⟨"a", "c"⟩, "{}", 2, .opens (.ofBytes [])⟩]
    ∃ s writer, write ⟨max, none⟩ 1 intents .empty = (.ok s, writer) ∧
      writer.sink.accepted = opening intents.reverse ++
        (CollectionHeader.record ⟨⟨"a", "c"⟩, true⟩ ++ Token.delimiterBytes) ++
        (CollectionHeader.record ⟨⟨"a", "b"⟩, false⟩ ++ [5, 0, 0, 0, 0] ++ Token.delimiterBytes ++
          CollectionHeader.record ⟨⟨"a", "b"⟩, true⟩ ++ Token.delimiterBytes) := by
  intro max intents
  have fits : ∀ d, Record.check d 128 = .ok () → Fits 128 d := fun _ => fits_of_check
  have record : Record.Formed 128 [5, 0, 0, 0, 0] := Record.check_eq_ok_iff.1 (by decide)
  have reads (list : List Bytes) (formed : ∀ b ∈ list, Record.Formed 128 b) :
      (Token.Reader.start (.ofBytes list.flatten) 128).Yields list := by
    have before : (Token.Reader.start (.ofBytes list.flatten) 128).Before 128 list :=
      ⟨formed, _, Token.Reader.at_start Stream.Schedule.sound_steady 128⟩
    exact before.yields (by decide)
  have regular : Regular ⟨128, none⟩ intents
      (fun ns => if ns.collection = "b" then [[5, 0, 0, 0, 0]] else []) := by
    refine ⟨rfl, by simp [intents, Namespace.isNamed], by simp [intents], ?_, fits _ (by cbv),
      ?_, ?_⟩
    · simp only [intents, List.forall_mem_cons]
      have one := reads [[5, 0, 0, 0, 0]] (by simpa using record)
      exact ⟨⟨_, rfl, Stream.Schedule.sound_steady, one⟩,
        ⟨_, rfl, Stream.Schedule.sound_steady, reads [] (by simp)⟩, by simp⟩
    · simp only [intents, entries, List.map_cons, List.forall_mem_cons]
      exact ⟨fits _ (by cbv), fits _ (by cbv), by simp⟩
    · simp only [intents, List.forall_mem_cons, Bool.forall_bool]
      exact ⟨⟨fits _ (by cbv), fits _ (by cbv)⟩, ⟨fits _ (by cbv), fits _ (by cbv)⟩, by simp⟩
  obtain ⟨-, -, s, writer, written, accepted⟩ :=
    write_canonical ⟨128, none⟩ intents _ .empty regular Sink.sound_empty
  have order : ordered intents = intents.reverse := by
    simp [ordered, intents, List.mergeSort]
  refine ⟨s, writer, written, ?_⟩
  rw [accepted, order]
  simp [canonical, chapter, intents, Sink.accepted, Sink.empty, Sink.fresh]

end Dump
end DumpArchive
