import DumpArchive.Proofs.Handling

/-! The registry of a multiplexer and its wire belong together: what has ended on the wire is
closed in the registry, and only a registered namespace has an unfinished block. Events, new
producers and both ways to stop keep them so. -/
namespace DumpArchive.Multiplexer

structure Tracks (m : Multiplexer) (w : Wire) : Prop where
  valid : m.registry.Valid
  numbers : (m.registry.entries.map (·.2)).Nodup
  numbered : ∀ e ∈ m.registry.entries, e.2 < m.nextProducer
  closed : m.registry.closed = w.ended.reverse
  tidy : w.Tidy
  ongoing : ∀ b ∈ w.unfinished, b.header.ns ∈ m.registry.keys
  live : m.registry.finished = false → w.Live
  stopped : m.registry.finished → m.registry.entries = []

variable {m next : Multiplexer} {w : Wire} {event : Event} {ns : Namespace}

theorem mem_of_namespaceOf? {producer : Nat} (known : m.namespaceOf? producer = some ns) :
    (ns, producer) ∈ m.registry.entries := by
  obtain ⟨⟨key, number⟩, first, rfl⟩ := Option.map_eq_some_iff.1 known
  have same : number = producer := by simpa using List.find?_some first
  exact same ▸ List.mem_of_find?_eq_some first

theorem namespaceOf?_eq_none_iff {producer : Nat} :
    m.namespaceOf? producer = none ↔ ∀ e ∈ m.registry.entries, e.2 ≠ producer := by
  simp [namespaceOf?]

theorem Tracks.namespaceOf? {producer : Nat} (tracks : m.Tracks w)
    (member : (ns, producer) ∈ m.registry.entries) : m.namespaceOf? producer = some ns := by
  cases known : m.namespaceOf? producer with
  | none => exact absurd rfl (namespaceOf?_eq_none_iff.1 known _ member)
  | some other =>
    have also := mem_of_namespaceOf? known
    have same := List.inj_on_of_nodup_map tracks.numbers also member rfl
    rw [(Prod.mk.inj same).1]

theorem Tracks.going (tracks : m.Tracks w) (member : ns ∈ m.registry.keys) : ns ∉ w.ended := by
  intro past
  exact tracks.valid.apart ns member (by simpa [tracks.closed] using past)

theorem Tracks.alive (tracks : m.Tracks w) (member : ns ∈ m.registry.keys) : w.Live := by
  apply tracks.live
  by_contra past
  have nothing := tracks.stopped (by simpa using past)
  simp [Registry.keys, nothing] at member

theorem tracks_start (writer : Token.Writer) (cap : Option UInt64) :
    (start writer cap).Tracks .empty where
  valid := Registry.valid_empty cap
  numbers := List.nodup_nil
  numbered := by simp [start, Registry.empty]
  closed := rfl
  tidy := Wire.tidy_empty
  ongoing := by simp [Wire.empty]
  live _ := Wire.live_empty
  stopped _ := rfl

/-- The engine with one more producer. -/
def enroll (ns : Namespace) (m : Multiplexer) : Multiplexer :=
  { m with registry := m.registry.insert ns m.nextProducer, nextProducer := m.nextProducer + 1 }

@[simp] theorem registry_enroll :
    (m.enroll ns).registry = m.registry.insert ns m.nextProducer := rfl

@[simp] theorem nextProducer_enroll : (m.enroll ns).nextProducer = m.nextProducer + 1 := rfl

theorem open?_eq_ok_iff {number : Nat} : m.open? ns = .ok (number, next) ↔
    m.registry.Admits ns ∧ number = m.nextProducer ∧ next = m.enroll ns := by
  constructor
  · intro opened
    simp only [Multiplexer.open?] at opened
    split at opened
    · contradiction
    · next registry added =>
      obtain ⟨rfl, rfl⟩ := by simpa using opened
      obtain ⟨admits, rfl⟩ := Registry.add_eq_ok_iff.1 added
      exact ⟨admits, rfl, rfl⟩
  · rintro ⟨admits, rfl, rfl⟩
    have added := Registry.add_eq_ok_iff (a := m.nextProducer).2 ⟨admits, rfl⟩
    simp only [Multiplexer.open?, added]
    rfl

theorem Tracks.enroll (tracks : m.Tracks w) (admits : m.registry.Admits ns) :
    (m.enroll ns).Tracks w := by
  have numbered := tracks.numbered
  refine ⟨tracks.valid.add admits, ?_, ?_, tracks.closed, tracks.tidy, ?_, tracks.live, ?_⟩
  · simp only [registry_enroll, Registry.entries_insert, List.map_append, List.nodup_append]
    refine ⟨tracks.numbers, by simp, ?_⟩
    intro a old b new
    obtain ⟨e, member, rfl⟩ := List.mem_map.1 old
    obtain rfl : b = m.nextProducer := by simpa using new
    exact Nat.ne_of_lt (numbered e member)
  · intro e member
    rcases List.mem_append.1 member with old | new
    · exact Nat.lt_succ_of_lt (numbered e old)
    · obtain rfl := by simpa using new
      exact Nat.lt_succ_self _
  · intro b unfinished
    simp only [registry_enroll, Registry.keys_insert, List.mem_append]
    exact .inl (tracks.ongoing b unfinished)
  · intro past
    have going := admits.going
    simp_all

theorem Tracks.handle {ack : Option (Nat × Nat)} (tracks : m.Tracks w)
    (handled : Handled m event (.ok ack) next) : next.Tracks (m.onWire event w) := by
  cases handled with
  | ignored unknown => simpa [onWire, unknown] using tracks
  | @added producer bytes ns writer known formed wrote =>
    have member := List.mem_map_of_mem (f := Prod.fst) (mem_of_namespaceOf? known)
    simp only [onWire, Event.producer_record, known]
    refine ⟨tracks.valid, tracks.numbers, tracks.numbered, ?_,
      tracks.tidy.add (tracks.alive member) (tracks.going member), ?_,
      fun _ => Wire.live_add ns bytes w, tracks.stopped⟩
    · rw [Wire.ended_add]
      exact tracks.closed
    · intro b unfinished
      have here := Wire.cursor_add ns bytes w
      rw [Wire.cursor, Option.mem_def.1 unfinished] at here
      obtain rfl : b.header.ns = ns := Option.some.inj here
      exact member
  | @ended producer ns writer known formed wrote =>
    have member := List.mem_map_of_mem (f := Prod.fst) (mem_of_namespaceOf? known)
    simp only [onWire, Event.producer_closed, known]
    refine ⟨tracks.valid.close member, ?_, ?_, ?_, tracks.tidy.close (tracks.going member),
      by simp [Wire.close], fun _ => Wire.live_close ns w, ?_⟩
    · exact tracks.numbers.sublist (List.filter_sublist.map _)
    · intro e left
      exact tracks.numbered e (List.mem_of_mem_filter left)
    · rw [Wire.ended_close, List.reverse_concat, ← tracks.closed]
      rfl
    · intro past
      have nothing := tracks.stopped past
      simp [Registry.close, nothing]

/-- An engine that has failed lets go of every producer, and its last block is over. -/
theorem Tracks.fail {e : FrameError} (tracks : m.Tracks w)
    (handled : Handled m event (.error e) next) : next.abandon.Tracks w.terminate := by
  cases handled with
  | failed known limit clean =>
    refine ⟨tracks.valid.abandon, List.nodup_nil, by simp [abandon, Registry.abandon], ?_,
      tracks.tidy.terminate, by simp [Wire.terminate], by simp [abandon, Registry.abandon],
      fun _ => rfl⟩
    rw [Wire.ended, Wire.blocks_terminate]
    exact tracks.closed

theorem Tracks.finish {result : Except FrameError Summary} (tracks : m.Tracks w)
    (nobody : m.registry.entries = []) (h : m.finish = (result, next)) : next.Tracks w := by
  have ongoing := tracks.ongoing
  simp only [Multiplexer.finish] at h
  split at h
  · obtain ⟨rfl, rfl⟩ := Prod.mk.inj h
    refine ⟨tracks.valid.abandon, List.nodup_nil, by simp [Registry.abandon], tracks.closed,
      tracks.tidy, ?_, by simp [Registry.abandon], fun _ => rfl⟩
    simpa [Registry.keys, Registry.abandon, nobody] using ongoing
  · obtain ⟨rfl, rfl⟩ := Prod.mk.inj h
    exact ⟨tracks.valid.finish, tracks.numbers, tracks.numbered, tracks.closed, tracks.tidy,
      ongoing, by simp [Registry.finish], fun _ => nobody⟩

theorem Shows.finish {base : Bytes} {result : Except FrameError Summary} (view : m.Shows base w)
    (h : m.finish = (result, next)) : next.Shows base w := by
  have accepted := m.writer.wrote_flush
  have limit := m.writer.max_flush
  simp only [Multiplexer.finish] at h
  split at h
  all_goals
    next flushed =>
    obtain ⟨rfl, rfl⟩ := Prod.mk.inj h
    rw [flushed] at accepted limit
    exact ⟨accepted.trans view.accepted, limit ▸ view.formed, view.cursor⟩

end DumpArchive.Multiplexer
