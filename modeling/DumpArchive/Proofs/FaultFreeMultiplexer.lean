import DumpArchive.Proofs.Consistency

/-! A multiplexer over a stream without faults whose headers are not too long. No event fails, so
the one run that is made comes to a summary; and every call of a handle that is still held is
answered as its owner expects. -/
namespace DumpArchive.Multiplexer

open Token (Writer)

/-- Both headers of a namespace are records that may be written. -/
def Heads (max : UInt64) (ns : Namespace) : Prop :=
  ∀ eof, Record.Formed max (CollectionHeader.record ⟨ns, eof⟩)

variable {m : Multiplexer} {event : Event}

theorem formed_leaving (max : UInt64) (m : Multiplexer) : ∀ t ∈ m.leaving, t.Formed max := by
  unfold leaving
  split <;> simp [Token.Formed]

theorem handle_ok (sound : m.writer.sink.Sound) (formed : event.Formed m.writer.max)
    (heads : ∀ ns ∈ m.registry.keys, Heads m.writer.max ns) :
    ∃ ack next, m.handle event = (.ok ack, next) := by
  have leaving := formed_leaving m.writer.max m
  cases event with
  | record producer bytes =>
    cases known : m.namespaceOf? producer with
    | none => exact ⟨none, m, by simp [handle, known]⟩
    | some ns =>
      have head := heads ns (List.mem_map_of_mem (mem_of_namespaceOf? known)) false
      have entering : ∀ t ∈ m.entering ns, t.Formed m.writer.max := by
        unfold entering
        split
        · simp
        · simpa [or_imp, forall_and] using ⟨leaving, head⟩
      obtain ⟨first, opened⟩ := Writer.writeTokens_sound sound entering
      obtain ⟨-, wrote⟩ := Writer.wrote_of_writeTokens opened
      have body : (Token.record bytes).Formed first.max := wrote.limit ▸ formed
      obtain ⟨last, whole⟩ := Writer.writeToken_sound (wrote.sound sound) body
      exact ⟨_, _, by simp only [handle, known, opened, whole]; rfl⟩
  | closed producer =>
    cases known : m.namespaceOf? producer with
    | none => exact ⟨none, m, by simp [handle, known]⟩
    | some ns =>
      have head := heads ns (List.mem_map_of_mem (mem_of_namespaceOf? known)) true
      have ending : ∀ t ∈ m.ending ns, t.Formed m.writer.max := by
        have delimiter : Token.delimiter.Formed m.writer.max := trivial
        simpa [ending, or_imp, forall_and] using ⟨leaving, head, delimiter⟩
      obtain ⟨last, written⟩ := Writer.writeTokens_sound sound ending
      exact ⟨_, _, by simp only [handle, known, written]; rfl⟩

theorem finish_ok (sound : m.writer.sink.Sound) : ∃ next, m.finish = (.ok m.summary, next) := by
  obtain ⟨writer, flushed, -⟩ := Writer.flush_sound sound
  exact ⟨_, by simp only [finish, flushed]; rfl⟩

theorem Exchange.phase_step (x : Exchange) :
    x.step.phase = x.phase ∨ ∃ result, x.step.phase = .stopped result := by
  unfold Exchange.step
  split
  · split
    · exact .inr ⟨_, rfl⟩
    · split
      · exact .inl rfl
      · split
        · exact .inr ⟨_, rfl⟩
        · exact .inl rfl
        · exact .inl rfl
  · exact .inl rfl

namespace Traffic

/-- Nothing has gone wrong so far: the run has not ended, or it has succeeded. -/
structure Steady (t : Traffic) (max : UInt64) (cap : Option UInt64) (base : Bytes) : Prop where
  books : ∃ w, t.Accounted max w ∧ t.exchange.engine.Shows base w
  sound : t.exchange.engine.writer.sink.Sound
  limited : t.exchange.engine.registry.cap = cap
  heads : ∀ h ∈ t.handles, Heads max h.ns
  going : (t.exchange.phase = .ready ∨ t.exchange.phase = .running) ∧ t.outcomes = [] ∨
    ∃ s, t.exchange.phase = .stopped (.ok s) ∧ t.outcomes = [.ok s]

variable {t : Traffic} {max : UInt64} {cap : Option UInt64} {base : Bytes} {h : Handle}
  {number : Nat}

theorem steady_start {writer : Writer} (sound : writer.sink.Sound) :
    (start writer cap).Steady writer.max cap writer.sink.accepted where
  books := ⟨.empty, accounted_start writer cap, shows_start writer cap⟩
  sound := sound
  limited := rfl
  heads := by simp [start]
  going := .inl ⟨.inl rfl, rfl⟩

theorem Steady.clean (steady : t.Steady max cap base) (e : FrameError) :
    t.outcomes.head? ≠ some (.error e) := by
  rcases steady.going with ⟨-, none⟩ | ⟨s, -, one⟩
  · simp [none]
  · simp [one]

theorem Steady.after (steady : t.Steady max cap base) (move : Move)
    (heads : ∀ h ∈ (t.step move).handles, Heads max h.ns)
    (going : ((t.step move).exchange.phase = .ready ∨ (t.step move).exchange.phase = .running) ∧
        (t.step move).outcomes = [] ∨
      ∃ s, (t.step move).exchange.phase = .stopped (.ok s) ∧ (t.step move).outcomes = [.ok s]) :
    (t.step move).Steady max cap base := by
  obtain ⟨w, accounted, view⟩ := steady.books
  obtain ⟨after, next, shown⟩ := accounted.step_view view move (.inl steady.sound)
  exact ⟨⟨after, next, shown⟩, accounted.sound_step steady.sound move,
    (accounted.cap_step move).trans steady.limited, heads, going⟩

theorem Steady.run (steady : t.Steady max cap base) (ready : t.exchange.phase = .ready)
    (going : t.outcomes = []) :
    ({ t with exchange := t.exchange.run } : Traffic).Steady max cap base := by
  have goes : t.step .run = { t with exchange := t.exchange.run } := by
    simp only [Traffic.step, Traffic.run, ready]
  rw [← goes]
  apply steady.after <;> rw [goes]
  · exact steady.heads
  · exact .inl ⟨.inr rfl, going⟩

@[simp] theorem handles_turn (t : Traffic) : t.turn.handles = t.handles := by
  unfold turn
  simp only
  split <;> rfl

/-- A turn of a running engine goes on or ends the run well. -/
theorem Accounted.step_phase {w : Wire} (accounted : t.Accounted max w)
    (sound : t.exchange.engine.writer.sink.Sound) (heads : ∀ h ∈ t.handles, Heads max h.ns)
    (running : t.exchange.phase = .running) :
    t.exchange.step.phase = .running ∨ ∃ s, t.exchange.step.phase = .stopped (.ok s) := by
  unfold Exchange.step
  simp only [running]
  split
  · obtain ⟨next, finished⟩ := finish_ok sound
    exact .inr ⟨_, by simp only [finished]; rfl⟩
  · split
    · exact .inl running
    · next event mailbox posted =>
      have formed : event.Formed t.exchange.engine.writer.max := by
        rw [accounted.limit]
        exact accounted.formed event (by simp [posted])
      have heads : ∀ ns ∈ t.exchange.engine.registry.keys,
          Heads t.exchange.engine.writer.max ns := by
        intro ns member
        obtain ⟨⟨key, number⟩, entry, rfl⟩ := List.mem_map.1 member
        obtain ⟨h, held, rfl, -⟩ := accounted.owner entry
        exact accounted.limit ▸ heads h held
      obtain ⟨ack, next, handled⟩ := handle_ok sound formed heads
      left
      cases ack <;> simp only [handled]

theorem Steady.turn (steady : t.Steady max cap base) : t.turn.Steady max cap base := by
  refine steady.after .turn (by simpa [Traffic.step] using steady.heads) ?_
  simp only [Traffic.step]
  rcases steady.going with ⟨ready | running, none⟩ | ⟨s, stopped, one⟩
  · have rests : t.exchange.step = t.exchange := by simp [Exchange.step, ready]
    rw [turn_of_same (by rw [rests]), rests]
    exact .inl ⟨.inl ready, none⟩
  · obtain ⟨w, accounted, -⟩ := steady.books
    rcases accounted.step_phase steady.sound steady.heads running with still | ⟨s, ends⟩
    · rw [turn_of_same (by rw [still, running])]
      exact .inl ⟨.inr still, none⟩
    · rw [turn_of_stopped running ends]
      exact .inr ⟨s, ends, by simp [none]⟩
  · right
    have rests : t.exchange.step = t.exchange := by simp [Exchange.step, stopped]
    refine ⟨s, by rw [exchange_turn, rests, stopped], ?_⟩
    simp [Traffic.turn, stopped, one]

/-- A handle that nobody has let go of, with the record of a write that has not returned and the
records of those that have succeeded. -/
def Manned (t : Traffic) (number : Nat) (ns : Namespace) (pending : Option Bytes)
    (written : List Bytes) : Prop :=
  ∃ h, t.handles[number]? = some h ∧ h.ns = ns ∧ h.released = false ∧ h.pending = pending ∧
    h.written = written

/-- A move of one handle as the others see it. -/
structure Apart (t after : Traffic) (number : Nat) : Prop where
  others : ∀ n, n ≠ number → after.handles[n]? = t.handles[n]?
  names : after.handles.map (·.ns) = t.handles.map (·.ns)
  outcomes : after.outcomes = t.outcomes
  phase : after.exchange.phase = t.exchange.phase
  engine : after.exchange.engine = t.exchange.engine

theorem Apart.refl (t : Traffic) (number : Nat) : t.Apart t number :=
  ⟨fun _ _ => rfl, rfl, rfl, rfl, rfl⟩

theorem Apart.length {after : Traffic} (apart : t.Apart after number) :
    after.handles.length = t.handles.length := by
  simpa using congrArg List.length apart.names

variable {ns : Namespace} {record : Bytes} {pending : Option Bytes} {written : List Bytes}

theorem Manned.lt (manned : t.Manned number ns pending written) : number < t.handles.length := by
  obtain ⟨h, found, -⟩ := manned
  exact (List.getElem?_eq_some_iff.1 found).1

/-- Whoever has not been let go of is registered. -/
theorem Steady.registered (steady : t.Steady max cap base)
    (manned : t.Manned number ns pending written) :
    (ns, number) ∈ t.exchange.engine.registry.entries := by
  obtain ⟨w, accounted, -⟩ := steady.books
  obtain ⟨h, found, rfl, held, -⟩ := manned
  have member := List.mem_of_getElem? found
  rw [← accounted.number_eq found]
  -- without a failed run a handle leaves the registry only by being let go of
  rcases accounted.home steady.clean _ (List.mem_map_of_mem member) with here | closed
  · exact here
  · have released := ((accounted.kept h member).past closed).1
    simp [held] at released

theorem Steady.namespaceOf? (steady : t.Steady max cap base)
    (manned : t.Manned number ns pending written) :
    t.exchange.engine.namespaceOf? number = some ns := by
  obtain ⟨w, accounted, -⟩ := steady.books
  exact accounted.tracks.namespaceOf? (steady.registered manned)

theorem apart_set {after : Handle} {x : Exchange} (found : t.handles[number]? = some h)
    (ns : after.ns = h.ns) (phase : x.phase = t.exchange.phase)
    (engine : x.engine = t.exchange.engine) :
    t.Apart ({ t with exchange := x }.set number after) number where
  others _ other := List.getElem?_set_ne (Ne.symm other)
  names := map_set_same found ns
  outcomes := rfl
  phase := phase
  engine := engine

theorem Steady.post? (steady : t.Steady max cap base) (event : Event) :
    t.exchange.post? event = some { t.exchange with mailbox := t.exchange.mailbox ++ [event] } := by
  obtain ⟨w, accounted, -⟩ := steady.books
  have present := accounted.present
  unfold Exchange.post?
  split <;> simp_all

/-- A move that leaves the run and the namespaces as they are. -/
theorem Steady.moved {move : Move} (steady : t.Steady max cap base)
    (apart : t.Apart (t.step move) number) : (t.step move).Steady max cap base := by
  refine steady.after move ?_ ?_
  · intro h member
    have known : h.ns ∈ t.handles.map (·.ns) := apart.names ▸ List.mem_map_of_mem member
    obtain ⟨k, held, same⟩ := List.mem_map.1 known
    exact same ▸ steady.heads k held
  · rw [apart.phase, apart.outcomes]
    exact steady.going

theorem Steady.write (steady : t.Steady max cap base) (manned : t.Manned number ns none written)
    (formed : Record.Formed max record) :
    ∃ after : Traffic, t.exchange.post? (.record number record) = some after.exchange ∧
      after.Steady max cap base ∧ t.Apart after number ∧
      after.Manned number ns (some record) written ∧
      after.exchange.mailbox = t.exchange.mailbox ++ [.record number record] := by
  obtain ⟨w, accounted, -⟩ := steady.books
  obtain ⟨h, found, rfl, held, free, rfl⟩ := manned
  have same := accounted.number_eq found
  have posted := steady.post? (.record number record)
  have passes : Record.check record t.exchange.engine.writer.max = .ok () :=
    Record.check_eq_ok_iff.2 (accounted.limit ▸ formed)
  have idle : h.isFree := by simp [Handle.isFree, held, free]
  have goes : t.step (.write number record) = ({ t with
      exchange := { t.exchange with mailbox := t.exchange.mailbox ++ [.record number record] } } :
      Traffic).set number { h with pending := some record } := by
    simp only [Traffic.step, Traffic.write, found, idle, if_true, passes, same, posted]
  have apart : t.Apart (t.step (.write number record)) number := by
    rw [goes]
    exact apart_set found rfl rfl rfl
  refine ⟨t.step (.write number record), ?_, steady.moved apart, apart, ?_⟩
  · rw [posted, goes]
    rfl
  · obtain ⟨bound, -⟩ := List.getElem?_eq_some_iff.1 found
    rw [goes]
    exact ⟨⟨{ h with pending := some record }, by simp [Traffic.set, bound], rfl, held, rfl, rfl⟩,
      rfl⟩

/-- A write is answered, unless its record is still in the mailbox. -/
theorem Steady.collect (steady : t.Steady max cap base)
    (manned : t.Manned number ns (some record) written) :
    (t.exchange.answer? number ns = (none, t.exchange) ∧ t.exchange.mailbox ≠ []) ∨
    ∃ size, ∃ after : Traffic, t.exchange.answer? number ns = (some (.ok size), after.exchange) ∧
      after.Steady max cap base ∧ t.Apart after number ∧
      after.Manned number ns none (written ++ [record]) ∧
      after.exchange.mailbox = t.exchange.mailbox := by
  have entry := steady.registered manned
  have known := steady.namespaceOf? manned
  obtain ⟨w, accounted, -⟩ := steady.books
  obtain ⟨h, found, rfl, held, waits, rfl⟩ := manned
  have same := accounted.number_eq found
  obtain ⟨extra, standing, -⟩ := (accounted.kept h (List.mem_of_getElem? found)).written
  rw [waits] at standing
  have answer := answer?_eq (x := t.exchange) number h.ns
  rw [← same] at entry
  cases standing with
  | posted none sends =>
    left
    have none : acked number t.exchange.acks = [] := same ▸ none
    refine ⟨by simp [answer, none, known], fun empty => ?_⟩
    have sends : sent h.number t.exchange.mailbox = [record] := sends entry
    simp [empty, sent] at sends
  | acknowledged one empty =>
    right
    have one : acked number t.exchange.acks = [record.length] := same ▸ one
    rw [one] at answer
    have goes : t.step (.collect number) = ({ t with
        exchange := { t.exchange with acks := t.exchange.acks.filter (·.1 ≠ number) } } :
        Traffic).set number (h.answer record (.ok record.length)) := by
      simp only [Traffic.step, Traffic.collect, found, waits, same, answer]
    have apart : t.Apart (t.step (.collect number)) number := by
      rw [goes]
      exact apart_set found rfl rfl rfl
    refine ⟨record.length, t.step (.collect number), ?_, steady.moved apart, apart, ?_⟩
    · rw [answer, goes]
      rfl
    · obtain ⟨bound, -⟩ := List.getElem?_eq_some_iff.1 found
      rw [goes]
      exact ⟨⟨h.answer record (.ok record.length), by simp [Traffic.set, bound], rfl, held, rfl,
        by simp [Handle.answer, Handle.written]⟩, rfl⟩

theorem Steady.release (steady : t.Steady max cap base)
    (manned : t.Manned number ns none written) :
    ∃ after : Traffic,
      (t.exchange.post? (.closed number)).getD t.exchange = after.exchange ∧
      after.Steady max cap base ∧ t.Apart after number ∧
      (∃ h, after.handles[number]? = some h ∧ h.ns = ns ∧ h.released ∧ h.written = written) ∧
      after.exchange.mailbox = t.exchange.mailbox ++ [.closed number] := by
  obtain ⟨w, accounted, -⟩ := steady.books
  obtain ⟨h, found, rfl, held, free, rfl⟩ := manned
  have same := accounted.number_eq found
  have posted := steady.post? (.closed number)
  have idle : h.isFree := by simp [Handle.isFree, held, free]
  have goes : t.step (.release number) = ({ t with
      exchange := { t.exchange with mailbox := t.exchange.mailbox ++ [.closed number] } } :
      Traffic).set number { h with released := true } := by
    simp only [Traffic.step, Traffic.release, found, idle, if_true, same, posted, Option.getD_some]
  have apart : t.Apart (t.step (.release number)) number := by
    rw [goes]
    exact apart_set found rfl rfl rfl
  refine ⟨t.step (.release number), ?_, steady.moved apart, apart, ?_⟩
  · rw [posted, goes]
    rfl
  · obtain ⟨bound, -⟩ := List.getElem?_eq_some_iff.1 found
    rw [goes]
    exact ⟨⟨{ h with released := true }, by simp [Traffic.set, bound], rfl, rfl, rfl⟩, rfl⟩

theorem admits_of_open? {x y : Exchange} (opened : x.open? ns = .ok (number, y)) :
    x.engine.registry.Admits ns := by
  exact (Exchange.open?_eq_ok_iff.1 opened).1

/-- A namespace that the registry admits gets the next handle. -/
theorem Steady.enroll (steady : t.Steady max cap base)
    (admits : t.exchange.engine.registry.Admits ns) (heads : Heads max ns) :
    ∃ after : Traffic, t.exchange.open? ns = .ok (t.handles.length, after.exchange) ∧
      after.Steady max cap base ∧ after.handles = t.handles ++ [.fresh t.handles.length ns] ∧
      after.outcomes = t.outcomes ∧ after.exchange.phase = t.exchange.phase ∧
      after.exchange.mailbox = t.exchange.mailbox := by
  obtain ⟨w, accounted, -⟩ := steady.books
  have next : t.exchange.engine.nextProducer = t.handles.length := by
    simp [accounted.next, labels]
  have opens := Exchange.open?_eq_ok_iff.2 ⟨admits, rfl, rfl⟩
  have goes : t.step (.register ns) = t.enroll ns := by
    simp only [Traffic.step, Traffic.register, opens]
    rfl
  have handles : (t.enroll ns).handles = t.handles ++ [.fresh t.handles.length ns] := by
    rw [Traffic.enroll, next]
  refine ⟨t.enroll ns, ?_, ?_, handles, rfl, rfl, rfl⟩
  · rw [opens, next]
    rfl
  · rw [← goes]
    apply steady.after
    · rw [goes, handles]
      simpa [or_imp, forall_and, Handle.fresh, heads] using steady.heads
    · rw [goes]
      exact steady.going

/-- Without a cap and before the run has ended, a namespace that never had a handle can be
opened. -/
theorem Steady.register (steady : t.Steady max none base) (named : ns.isNamed)
    (fresh : ns ∉ t.handles.map (·.ns)) (heads : Heads max ns) (going : t.outcomes = []) :
    ∃ after : Traffic, t.exchange.open? ns = .ok (t.handles.length, after.exchange) ∧
      after.Steady max none base ∧ after.handles = t.handles ++ [.fresh t.handles.length ns] ∧
      after.outcomes = [] ∧ after.exchange.phase = t.exchange.phase ∧
      after.exchange.mailbox = t.exchange.mailbox := by
  obtain ⟨w, accounted, -⟩ := steady.books
  have admits : t.exchange.engine.registry.Admits ns := by
    refine ⟨named, ?_, ?_, ?_, by simp [Registry.full?, steady.limited]⟩
    · by_contra past
      exact accounted.finished.1 (by simpa using past) going
    · intro used
      obtain ⟨⟨key, number⟩, entry, rfl⟩ := List.mem_map.1 used
      obtain ⟨h, held, same, -⟩ := accounted.owner entry
      exact fresh (List.mem_map.2 ⟨h, held, same⟩)
    · intro closed
      rw [accounted.tracks.closed, List.mem_reverse] at closed
      obtain ⟨b, member, -, rfl⟩ := Wire.mem_ended.1 closed
      obtain ⟨label, held, same⟩ := List.mem_map.1 (accounted.known b member)
      obtain ⟨h, owner, rfl⟩ := List.mem_map.1 held
      exact fresh (List.mem_map.2 ⟨h, owner, same⟩)
  exact going ▸ steady.enroll admits heads

end Traffic
end DumpArchive.Multiplexer
