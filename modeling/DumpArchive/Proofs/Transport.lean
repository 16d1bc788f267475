import DumpArchive.Proofs.Consistency
import DumpArchive.Proofs.Delivery
import Mathlib

/-! From the producers to the receivers. What is written under a namespace while a multiplexer runs
is what the receiver of that namespace is answered, if the run has succeeded. -/
namespace DumpArchive.Multiplexer.Traffic

variable {t : Traffic} {max : UInt64} {w : Wire} {base : Bytes} {summary : Summary}

/-- The records of the writes that have succeeded under a namespace. -/
def written (t : Traffic) (ns : Namespace) : List Bytes :=
  (t.handles.filter (·.ns = ns)).flatMap Handle.written

/-- What is left behind by a run that has succeeded: whole blocks, in which each namespace that had
a handle comes to its end after all the records that its handle has written. -/
structure Concluded (t : Traffic) (base : Bytes) (summary : Summary) (blocks : List Block) :
    Prop where
  accepted : t.exchange.engine.writer.sink.accepted = base ++ blocks.flatMap Block.bytes
  formed : ∀ b ∈ blocks, b.Formed t.exchange.engine.writer.max
  nobody : t.exchange.engine.registry.entries = []
  sequence : Block.Sequence (t.handles.map (·.ns)) blocks
  distinct : (t.handles.map (·.ns)).Nodup
  named : ∀ h ∈ t.handles, h.ns.isNamed
  records : ∀ h ∈ t.handles, Block.recordsOf h.ns blocks = h.written
  summary : Summary.ofBlocks blocks = summary

theorem Accounted.concluded (accounted : t.Accounted max w) (view : t.exchange.engine.Shows base w)
    (first : t.outcomes.head? = some (.ok summary)) : t.Concluded base summary w.blocks := by
  obtain ⟨rest, ends⟩ := List.head?_eq_some_iff.1 first
  obtain ⟨nobody, whole⟩ := accounted.whole (by simp [ends])
  -- a run ends well with an empty registry, so all that were ever in it have been closed
  have closed : ∀ label ∈ t.labels, label.1 ∈ t.exchange.engine.registry.closed := by
    intro label member
    exact (accounted.home (by simp [first]) _ member).resolve_left (by simp [nobody])
  refine ⟨?_, view.formed, nobody, accounted.sequence closed,
    t.namespaces_labels ▸ accounted.distinct, ?_, ?_, ?_⟩
  · rw [view.accepted]
    simp [Wire.bytes, Wire.blocks, whole]
  · exact fun h member => accounted.named _ (List.mem_map_of_mem member)
  · intro h member
    have kept := accounted.kept h member
    obtain ⟨released, -⟩ := kept.past (closed _ (List.mem_map_of_mem member))
    obtain ⟨extra, standing, split⟩ := kept.written
    rw [kept.settled released] at standing
    cases standing with
    | idle => simpa [Handle.sight] using split
  · rw [← accounted.summary, Traffic.summary, ends]
    rfl

/-- Each namespace has one handle at most. -/
theorem written_eq {h : Handle} (distinct : (t.handles.map (·.ns)).Nodup) (member : h ∈ t.handles) :
    t.written h.ns = h.written := by
  rw [written, filter_eq_singleton distinct member]
  simp

theorem Concluded.written_eq {blocks : List Block} (concluded : t.Concluded base summary blocks) :
    t.written = (Block.recordsOf · blocks) := by
  funext ns
  by_cases known : ns ∈ t.handles.map (·.ns)
  · obtain ⟨h, member, rfl⟩ := List.mem_map.1 known
    rw [Traffic.written_eq concluded.distinct member]
    exact (concluded.records h member).symm
  · have silent : ¬ Block.Mentions ns blocks := by
      rintro ⟨b, member, rfl, -⟩
      exact known (concluded.sequence.known b member)
    rw [written, filter_eq_nil_of_key known, Block.recordsOf_eq_nil silent]
    rfl

theorem concluded_execute (writer : Token.Writer) (cap : Option UInt64) (moves : List Move)
    (first : ((start writer cap).execute moves).outcomes.head? = some (.ok summary)) :
    ∃ blocks, ((start writer cap).execute moves).Concluded writer.sink.accepted summary blocks ∧
      ((start writer cap).execute moves).exchange.engine.writer.max = writer.max := by
  obtain ⟨w, accounted, view⟩ := (accounted_start writer cap).execute (shows_start writer cap) moves
    (by simp [first])
  exact ⟨w.blocks, accounted.concluded view first, accounted.limit⟩

/-- A run that has succeeded leaves data from which a demultiplexer gives every receiver the records
that were written under its namespace, and then the end; both come to the same summary, and nobody
is left on either side. -/
theorem transports (writer : Token.Writer) (cap : Option UInt64)
    (small : writer.max.toNat < 2 ^ 63) (moves : List Move) {t : Traffic}
    (moved : (start writer cap).execute moves = t)
    (first : t.outcomes.head? = some (.ok summary)) :
    t.exchange.engine.registry.count = 0 ∧
    ∃ data, t.exchange.engine.writer.sink.accepted = writer.sink.accepted ++ data ∧
      ∀ (source : Source) (namespaces : List Namespace), source.schedule.Sound →
        source.pending = data → namespaces.Perm (t.handles.map (·.ns)) →
        ∃ a, Audience.convene source writer.max none namespaces = .ok a ∧
          a.names = namespaces ∧ ∃ rounds : Nat, ∀ schedule,
            (a.execute schedule).names = namespaces ∧
            (a.execute schedule).Serving summary t.written ∧
            (Rounds a.actors rounds schedule → (a.execute schedule).Served summary t.written) := by
  subst moved
  obtain ⟨blocks, concluded, limit⟩ := concluded_execute writer cap moves first
  have formed := concluded.formed
  rw [limit] at formed
  refine ⟨by simp [Registry.count, concluded.nobody], _, concluded.accepted, ?_⟩
  intro source namespaces sound pending permuted
  have sequence := concluded.sequence.congr fun ns => permuted.mem_iff.symm
  have named : ∀ ns ∈ namespaces, ns.isNamed := by
    intro ns member
    obtain ⟨h, held, rfl⟩ := List.mem_map.1 (permuted.mem_iff.1 member)
    exact concluded.named h held
  obtain ⟨a, convened, names, attends⟩ := Audience.attends_convene sound pending formed named
    (permuted.nodup_iff.2 concluded.distinct) sequence
  rw [concluded.summary, ← concluded.written_eq] at attends
  refine ⟨a, convened, names, a.work + 1, fun schedule => ?_⟩
  obtain ⟨kept, serving, served⟩ := attends.delivers small schedule
  exact ⟨kept.trans names, serving, served⟩

theorem transports_one_record : ∃ t a rounds, (start (.start .empty 64) none).execute
      [.register ⟨"a", "b"⟩, .run, .write 0 [5, 0, 0, 0, 0], .turn, .collect 0, .release 0, .turn,
        .turn] = t ∧
    Audience.convene (.ofBytes t.exchange.engine.writer.sink.accepted) 64 none
      [⟨"a", "b"⟩] = .ok a ∧
    ∀ schedule, Rounds a.actors rounds schedule →
      (a.execute schedule).Served ⟨[(⟨"a", "b"⟩, ⟨1, 5, 247625837⟩)]⟩ t.written := by
  obtain ⟨t, moved⟩ : ∃ t, (start (.start .empty 64) none).execute
      [.register ⟨"a", "b"⟩, .run, .write 0 [5, 0, 0, 0, 0], .turn, .collect 0, .release 0, .turn,
        .turn] = t := ⟨_, rfl⟩
  have first : t.outcomes.head? = some (.ok ⟨[(⟨"a", "b"⟩, ⟨1, 5, 247625837⟩)]⟩) := by
    rw [← moved]
    cbv
  have names : t.handles.map (·.ns) = [⟨"a", "b"⟩] := by
    rw [← moved]
    cbv
  obtain ⟨-, data, accepted, served⟩ :=
    transports (.start .empty 64) none (by decide) _ moved first
  obtain ⟨a, convened, -, rounds, all⟩ := served (.ofBytes t.exchange.engine.writer.sink.accepted)
    [⟨"a", "b"⟩] Stream.Schedule.sound_steady accepted (by rw [names])
  exact ⟨t, a, rounds, moved, convened, fun schedule => (all schedule).2.2⟩

end DumpArchive.Multiplexer.Traffic
