import DumpArchive.Proofs.Scanning
import DumpArchive.Proofs.Streams
import Mathlib.Data.List.Forall2
import Mathlib.Data.List.Nodup

/-! The workers of a restore. Each stores the records of one namespace in its destination, in their
order, and flushes after the last; if the engine stops before that it finds the engine gone. -/
namespace DumpArchive
namespace Restore

variable {i : Intent} {w : Worker} {blocks more : List Block} {record : Bytes}

/-- The destination opens and takes whatever it is given. -/
def Intent.Willing (i : Intent) : Prop := ∃ sink, i.destination = .opens sink ∧ sink.Takes

/-- It can be flushed, too. -/
def Intent.Steady (i : Intent) : Prop :=
  ∀ sink, i.destination = .opens sink → sink.flush.1 = .ok ()

/-- What the destination of an intent has been given for some blocks, no more and no less. -/
structure Stored (blocks : List Block) (i : Intent) (w : Worker) : Prop where
  ns : w.ns = i.ns
  accepted : ∃ sink, i.destination = .opens sink ∧
    w.sink.accepted = sink.accepted ++ (Block.recordsOf i.ns blocks).flatten

/-- And the worker goes on; it has not flushed. -/
structure Storing (blocks : List Block) (i : Intent) (w : Worker) : Prop
    extends Stored blocks i w where
  calm : w.trouble = none
  takes : w.sink.Takes
  alike : ∀ sink, i.destination = .opens sink → sink.Alike w.sink

/-- The worker has flushed once, after all that its destination has accepted, and is in no trouble. -/
structure Flushed (i : Intent) (w : Worker) : Prop where
  calm : w.trouble = none
  last : ∃ sink, i.destination = .opens sink ∧
    w.sink.flushedAt = w.sink.accepted.length :: sink.flushedAt

/-- The worker has found the engine gone, and has not flushed. -/
structure Deserted (i : Intent) (w : Worker) : Prop where
  gone : w.trouble = some (.engineGone i.ns.shown)
  never : ∃ sink, i.destination = .opens sink ∧ w.sink.flushedAt = sink.flushedAt

theorem storing_begin (willing : i.Willing) (number : Nat) :
    Storing [] i (.begin i number) := by
  obtain ⟨sink, opens, takes⟩ := willing
  have begun : Worker.begin i number = ⟨i.ns, number, sink, none⟩ := by
    simp only [Worker.begin, opens]
  rw [begun]
  refine ⟨⟨rfl, sink, opens, by simp⟩, rfl, takes, fun other same => ?_⟩
  obtain rfl := Destination.opens.inj (opens.symm.trans same)
  exact .refl sink

theorem Storing.congr (storing : Storing blocks i w)
    (same : Block.recordsOf i.ns more = Block.recordsOf i.ns blocks) : Storing more i w :=
  ⟨⟨storing.ns, same ▸ storing.accepted⟩, storing.calm, storing.takes, storing.alike⟩

theorem Storing.take (storing : Storing blocks i w)
    (another : Block.recordsOf i.ns more = Block.recordsOf i.ns blocks ++ [record]) :
    ∃ sink, w.take record = (true, { w with sink }) ∧ Storing more i { w with sink } := by
  obtain ⟨sink, written⟩ := w.sink.writeAll_takes stuck record storing.takes
  have alike := w.sink.writeAll_alike stuck record
  rw [written] at alike
  refine ⟨sink, by simp only [Worker.take, storing.calm, written], ⟨storing.ns, ?_⟩,
    storing.calm, alike.takes storing.takes,
    fun start opens => (storing.alike start opens).trans alike⟩
  obtain ⟨start, opens, accepted⟩ := storing.accepted
  refine ⟨start, opens, ?_⟩
  rw [Sink.accepted_of_writeAll written, accepted, another]
  simp

/-- Told of the end of its namespace, a worker that can flush does. -/
theorem Storing.flushed (storing : Storing blocks i w) (steady : i.Steady) :
    Flushed i (w.conclude .ended) := by
  obtain ⟨sink, opens, -⟩ := storing.accepted
  have alike := storing.alike sink opens
  have passes := alike.flush.trans (steady sink opens)
  cases flush : w.sink.flush with
  | mk result last =>
    rw [flush] at passes
    obtain rfl : result = .ok () := passes
    obtain ⟨accepted, marks⟩ := Sink.flush_ok flush
    rw [← accepted, alike.flushedAt] at marks
    simp only [Worker.conclude, storing.calm, flush]
    exact ⟨rfl, sink, opens, marks⟩

/-- A worker that the engine has left knows it. -/
theorem Storing.deserted (storing : Storing blocks i w) : Deserted i (w.conclude .gone) := by
  obtain ⟨sink, opens, -⟩ := storing.accepted
  simp only [Worker.conclude, storing.calm]
  exact ⟨by rw [storing.ns], sink, opens, (storing.alike sink opens).flushedAt⟩

theorem conclude_kept (signal : Signal) (w : Worker) :
    (w.conclude signal).ns = w.ns ∧ (w.conclude signal).sink.accepted = w.sink.accepted := by
  cases trouble : w.trouble with
  | some e => simp only [Worker.conclude, trouble, and_self]
  | none =>
    cases signal with
    | ended =>
      have kept := w.sink.accepted_flush
      cases flushed : w.sink.flush with
      | mk result sink =>
        rw [flushed] at kept
        cases result with
        | ok => exact ⟨by simp only [Worker.conclude, trouble, flushed],
            by simpa only [Worker.conclude, trouble, flushed] using kept⟩
        | error e => exact ⟨by simp only [Worker.conclude, trouble, flushed],
            by simpa only [Worker.conclude, trouble, flushed] using kept⟩
    | live => simp only [Worker.conclude, trouble, and_self]
    | gone => simp only [Worker.conclude, trouble, and_self]

theorem Stored.conclude (stored : Stored blocks i w) (signal : Signal) :
    Stored blocks i (w.conclude signal) := by
  obtain ⟨ns, accepted⟩ := conclude_kept signal w
  exact ⟨ns.trans stored.ns, accepted ▸ stored.accepted⟩

/-- Which namespace a worker has registered, and under which number. -/
def Worker.label (w : Worker) : Namespace × Nat := (w.ns, w.outlet)

/-- Workers whose namespaces have no new records have stored all of them. -/
theorem storing_others {intents : List Intent} {list : List Worker}
    (storing : List.Forall₂ (Storing blocks) intents list)
    (same : ∀ w ∈ list, Block.recordsOf w.ns more = Block.recordsOf w.ns blocks) :
    List.Forall₂ (Storing more) intents list := by
  induction storing with
  | nil => exact .nil
  | cons first rest ih =>
    obtain ⟨here, others⟩ := List.forall_mem_cons.1 same
    exact .cons (first.congr (first.ns ▸ here)) (ih others)

/-- The worker of a namespace takes its next record, and the others are not concerned. -/
theorem offer_storing {intents : List Intent} {list : List Worker} {ns : Namespace} {number : Nat}
    (storing : List.Forall₂ (Storing blocks) intents list)
    (names : (list.map (·.ns)).Nodup) (numbers : (list.map (·.outlet)).Nodup)
    (known : ∃ w ∈ list, w.ns = ns ∧ w.outlet = number)
    (another : ∀ other, Block.recordsOf other more = Block.recordsOf other blocks ++
      if ns = other then [record] else []) :
    ∃ next, offer number record list = (true, next) ∧
      List.Forall₂ (Storing more) intents next ∧
      next.map Worker.label = list.map Worker.label := by
  induction storing with
  | nil => simp at known
  | @cons i w intents list first rest ih =>
    obtain ⟨alone, names⟩ := List.nodup_cons.1 names
    obtain ⟨single, numbers⟩ := List.nodup_cons.1 numbers
    obtain ⟨v, member, rfl, rfl⟩ := known
    rcases List.mem_cons.1 member with rfl | later
    · have longer : Block.recordsOf i.ns more = Block.recordsOf i.ns blocks ++ [record] := by
        rw [another, if_pos first.ns]
      obtain ⟨sink, taken, stored⟩ := first.take longer
      refine ⟨{ v with sink } :: list, by simp only [offer, if_true, taken], .cons stored ?_, rfl⟩
      apply storing_others rest
      intro other held
      have apart : v.ns ≠ other.ns := fun same => alone (List.mem_map.2 ⟨other, held, same.symm⟩)
      simp [another, apart]
    · have elsewhere : w.outlet ≠ v.outlet :=
        fun same => single (List.mem_map.2 ⟨v, later, same.symm⟩)
      have apart : v.ns ≠ w.ns := fun same => alone (List.mem_map.2 ⟨v, later, same⟩)
      obtain ⟨next, offered, stored, labels⟩ := ih names numbers ⟨v, later, rfl, rfl⟩
      refine ⟨w :: next, by simp only [offer, elsewhere, if_false, offered], .cons ?_ stored, ?_⟩
      · exact first.congr (by simp [another, first.ns ▸ apart])
      · rw [List.map_cons, List.map_cons, labels]

variable {intents : List Intent}

/-- The workers of some intents before the first record, numbered from `first` on. -/
def crew (first : Nat) (intents : List Intent) : List Worker :=
  (intents.zipIdx first).map fun p => .begin p.1 p.2

@[simp] theorem label_begin (i : Intent) (number : Nat) :
    (Worker.begin i number).label = (i.ns, number) := by
  unfold Worker.begin
  split <;> rfl

theorem label_crew (first : Nat) (intents : List Intent) :
    (crew first intents).map Worker.label = (intents.zipIdx first).map fun p => (p.1.ns, p.2) := by
  simp [crew, Function.comp_def]

theorem names_crew (first : Nat) (intents : List Intent) :
    ((crew first intents).map Worker.label).map (·.1) = intents.map (·.ns) := by
  rw [label_crew, List.map_map, ← List.zipIdx_map_fst first intents, List.map_map]
  simp only [List.zipIdx_map_fst, Function.comp_def]

theorem numbers_crew (first : Nat) (intents : List Intent) :
    ((crew first intents).map Worker.label).map (·.2) = List.range' first intents.length := by
  rw [label_crew, List.map_map]
  exact List.zipIdx_map_snd first intents

theorem storing_crew (willing : ∀ i ∈ intents, i.Willing) (first : Nat) :
    List.Forall₂ (Storing []) intents (crew first intents) := by
  induction intents generalizing first with
  | nil => exact .nil
  | cons i rest ih =>
    obtain ⟨here, others⟩ := List.forall_mem_cons.1 willing
    exact .cons (storing_begin here first) (ih others (first + 1))

/-- What the registry holds of a worker. -/
def entryOf (label : Namespace × Nat) : Namespace × Route := (label.1, .outlet label.2)

theorem enlist_eq (roster : Roster)
    (welcomes : roster.registry.Welcomes (intents.map (·.ns))) :
    ∃ next, enlist intents roster = .ok (crew roster.nextOutlet intents, next) ∧
      next.registry = { roster.registry with
        entries := roster.registry.entries ++
          ((crew roster.nextOutlet intents).map Worker.label).map entryOf } := by
  induction intents generalizing roster with
  | nil => exact ⟨roster, rfl, by simp [crew]⟩
  | cons i rest ih =>
    have added :=
      Registry.add_eq_ok_iff (a := Route.outlet roster.nextOutlet).2 ⟨welcomes.admits, rfl⟩
    obtain ⟨next, enlisted, entries⟩ :=
      ih ⟨roster.registry.insert i.ns (.outlet roster.nextOutlet), roster.nextOutlet + 1⟩
        welcomes.insert
    refine ⟨next, ?_, ?_⟩
    · simp only [enlist, Roster.open?, added, enlisted]
      rfl
    · rw [entries]
      simp [Registry.insert, crew, entryOf]

end Restore
end DumpArchive
