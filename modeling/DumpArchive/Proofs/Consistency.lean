import DumpArchive.Proofs.Conservation

/-! What always holds of a multiplexer, its producers and its stream, in whatever order they take
their turns. -/
namespace DumpArchive.Multiplexer

open Token (Writer)

variable {x y : Exchange} {w v : Wire} {base : Bytes} {max : UInt64}

/-- The stream keeps showing the wire as long as no event fails, and without faults even then. -/
theorem Shows.turned (view : x.engine.Shows base w) (turned : Turned x w y v)
    (fine : (x.engine.writer.sink.Sound ∧ ∀ event ∈ x.mailbox, event.Formed x.engine.writer.max) ∨
      (x.phase = .running → ∀ e, y.phase = .stopped (.error e) → x.engine.registry.entries = [])) :
    y.engine.Shows base v := by
  cases turned with
  | still => exact view
  | finished running nobody ended => exact view.finish ended
  | handled running posted handled => exact view.handle handled
  | @failed event mailbox e engine running posted handled =>
    have after : engine.Shows base w.terminate := by
      rcases fine with ⟨sound, formed⟩ | somebody
      · exact view.fail sound (formed event (by simp [posted])) handled
      · cases handled with
        | failed known limit clean =>
          have entry := mem_of_namespaceOf? known
          simp [somebody running e rfl] at entry
    exact ⟨after.accepted, after.formed, after.cursor⟩

theorem sound_turned (sound : x.engine.writer.sink.Sound)
    (formed : ∀ event ∈ x.mailbox, event.Formed x.engine.writer.max) (turned : Turned x w y v) :
    y.engine.writer.sink.Sound := by
  cases turned with
  | still => exact sound
  | finished running nobody ended =>
    obtain ⟨writer, flushed, after⟩ := Writer.flush_sound sound
    simp only [Multiplexer.finish, flushed] at ended
    obtain ⟨-, rfl⟩ := Prod.mk.inj ended
    exact after
  | handled running posted handled =>
    cases handled with
    | ignored unknown => exact sound
    | added known formed wrote => exact wrote.sound sound
    | ended known formed wrote => exact wrote.sound sound
  | @failed event mailbox e engine running posted handled =>
    cases handled with
    | failed known limit clean =>
      exact (clean sound (formed event (by simp [posted]))).2.sound sound

theorem cap_turned (turned : Turned x w y v) : y.engine.registry.cap = x.engine.registry.cap := by
  cases turned with
  | still => rfl
  | finished running nobody ended =>
    simp only [Multiplexer.finish] at ended
    split at ended
    all_goals
      obtain ⟨-, rfl⟩ := Prod.mk.inj ended
      rfl
  | handled running posted handled => cases handled <;> rfl
  | failed running posted handled =>
    cases handled
    rfl

namespace Traffic

variable {t : Traffic}

/-- The moves of producers, and the beginning of a run, leave the stream alone. -/
structure Aloof (t next : Traffic) : Prop where
  writer : next.exchange.engine.writer = t.exchange.engine.writer
  current : next.exchange.engine.current = t.exchange.engine.current
  cap : next.exchange.engine.registry.cap = t.exchange.engine.registry.cap

theorem Aloof.refl (t : Traffic) : t.Aloof t := ⟨rfl, rfl, rfl⟩

theorem aloof_of_engine {next : Traffic} (same : next.exchange.engine = t.exchange.engine) :
    t.Aloof next := by
  constructor <;> rw [same]

theorem engine_post? {event : Event} (posted : x.post? event = some y) : y.engine = x.engine := by
  unfold Exchange.post? at posted
  split at posted
  · contradiction
  · rw [← Option.some.inj posted]

theorem engine_posted (event : Event) (x : Exchange) :
    ((x.post? event).getD x).engine = x.engine := by
  cases posted : x.post? event with
  | none => rfl
  | some y => exact engine_post? posted

theorem engine_answer? {number : Nat} {ns : Namespace} {reply : Option (Except EngineError Nat)}
    (answered : x.answer? number ns = (reply, y)) : y.engine = x.engine := by
  unfold Exchange.answer? at answered
  repeat' split at answered
  all_goals rw [← (Prod.mk.inj answered).2]

theorem engine_write (index : Nat) (record : Bytes) (t : Traffic) :
    (t.write index record).exchange.engine = t.exchange.engine := by
  unfold write
  repeat' split
  all_goals first | rfl | exact engine_post? ‹_›

theorem engine_collect (index : Nat) (t : Traffic) :
    (t.collect index).exchange.engine = t.exchange.engine := by
  unfold collect
  repeat' split
  all_goals first | rfl | exact engine_answer? ‹_›

theorem engine_release (index : Nat) (t : Traffic) :
    (t.release index).exchange.engine = t.exchange.engine := by
  unfold release
  split
  · rfl
  · next h _ =>
    split
    · exact engine_posted (.closed h.number) t.exchange
    · rfl

theorem engine_run (t : Traffic) : t.run.exchange.engine = t.exchange.engine := by
  unfold run
  split <;> rfl

theorem aloof_register (ns : Namespace) (t : Traffic) : t.Aloof (t.register ns) := by
  rcases register_cases ns t with refused | ⟨-, enrolled⟩
  · rw [refused]
    exact .refl t
  · rw [enrolled]
    exact ⟨rfl, rfl, rfl⟩

/-- One move: the engine takes a turn, or the wire stays as it is. -/
theorem Accounted.step (accounted : t.Accounted max w) (move : Move) :
    ∃ after, (t.step move).Accounted max after ∧
      ((after = w ∧ t.Aloof (t.step move)) ∨
        (move = .turn ∧ Turned t.exchange w t.exchange.step after)) := by
  cases move with
  | register ns => exact ⟨w, accounted.register ns, .inl ⟨rfl, aloof_register ns t⟩⟩
  | write index record =>
    exact ⟨w, accounted.write index record,
      .inl ⟨rfl, aloof_of_engine (engine_write index record t)⟩⟩
  | collect index =>
    exact ⟨w, accounted.collect index, .inl ⟨rfl, aloof_of_engine (engine_collect index t)⟩⟩
  | release index =>
    exact ⟨w, accounted.release index, .inl ⟨rfl, aloof_of_engine (engine_release index t)⟩⟩
  | run => exact ⟨w, accounted.run, .inl ⟨rfl, aloof_of_engine (engine_run t)⟩⟩
  | turn =>
    obtain ⟨after, turned, next⟩ := accounted.turn
    exact ⟨after, next, .inr ⟨rfl, turned⟩⟩

theorem exchange_turn (t : Traffic) : t.turn.exchange = t.exchange.step := by
  unfold turn
  simp only
  split <;> rfl

theorem Aloof.view {next : Traffic} (aloof : t.Aloof next) (view : t.exchange.engine.Shows base w) :
    next.exchange.engine.Shows base w :=
  ⟨aloof.writer ▸ view.accepted, aloof.writer ▸ view.formed, aloof.current ▸ view.cursor⟩

theorem outcomes_step (move : Move) (t : Traffic) :
    ∃ more, (t.step move).outcomes = t.outcomes ++ more := by
  cases move with
  | register ns =>
    rcases register_cases ns t with refused | ⟨-, enrolled⟩
    · exact ⟨[], by simp [step, refused]⟩
    · exact ⟨[], by simp [step, enrolled, enroll]⟩
  | turn =>
    simp only [Traffic.step, turn]
    split
    · exact ⟨_, rfl⟩
    · exact ⟨[], by simp⟩
  | _ =>
    refine ⟨[], ?_⟩
    simp only [step, write, collect, release, run, List.append_nil]
    repeat' split
    all_goals rfl

/-- Without faults the wire stays on the stream, and so it does with faults until a run fails. -/
theorem Accounted.step_view (accounted : t.Accounted max w)
    (view : t.exchange.engine.Shows base w) (move : Move)
    (fine : t.exchange.engine.writer.sink.Sound ∨
      ∀ e, (t.step move).outcomes.head? ≠ some (.error e)) :
    ∃ after, (t.step move).Accounted max after ∧
      (t.step move).exchange.engine.Shows base after := by
  obtain ⟨after, next, ⟨rfl, aloof⟩ | ⟨rfl, turned⟩⟩ := accounted.step move
  · exact ⟨after, next, aloof.view view⟩
  · refine ⟨after, next, ?_⟩
    change t.turn.exchange.engine.Shows base after
    rw [exchange_turn]
    apply view.turned turned
    rcases fine with sound | fine
    · exact .inl ⟨sound, accounted.limit ▸ accounted.formed⟩
    · refine .inr fun running e stopped => ?_
      by_contra somebody
      obtain ⟨entry, member⟩ := List.exists_mem_of_ne_nil _ somebody
      apply fine e
      change t.turn.outcomes.head? = _
      rw [turn_of_stopped running stopped, accounted.clean member]
      rfl

theorem Accounted.sound_step (accounted : t.Accounted max w)
    (sound : t.exchange.engine.writer.sink.Sound) (move : Move) :
    (t.step move).exchange.engine.writer.sink.Sound := by
  obtain ⟨after, -, ⟨-, aloof⟩ | ⟨rfl, turned⟩⟩ := accounted.step move
  · exact aloof.writer ▸ sound
  · change t.turn.exchange.engine.writer.sink.Sound
    rw [exchange_turn]
    exact sound_turned sound (accounted.limit ▸ accounted.formed) turned

theorem Accounted.cap_step (accounted : t.Accounted max w) (move : Move) :
    (t.step move).exchange.engine.registry.cap = t.exchange.engine.registry.cap := by
  obtain ⟨after, -, ⟨-, aloof⟩ | ⟨rfl, turned⟩⟩ := accounted.step move
  · exact aloof.cap
  · change t.turn.exchange.engine.registry.cap = _
    rw [exchange_turn]
    exact cap_turned turned

theorem Accounted.execute_sound (accounted : t.Accounted max w)
    (view : t.exchange.engine.Shows base w) (sound : t.exchange.engine.writer.sink.Sound)
    (moves : List Move) :
    ∃ after, (t.execute moves).Accounted max after ∧
      (t.execute moves).exchange.engine.Shows base after ∧
      (t.execute moves).exchange.engine.registry.cap = t.exchange.engine.registry.cap := by
  induction moves generalizing t w with
  | nil => exact ⟨w, accounted, view, rfl⟩
  | cons move moves ih =>
    obtain ⟨mid, next, shown⟩ := accounted.step_view view move (.inl sound)
    obtain ⟨after, last, last', cap⟩ := ih next shown (accounted.sound_step sound move)
    exact ⟨after, last, last', cap.trans (accounted.cap_step move)⟩

theorem outcomes_execute (moves : List Move) (t : Traffic) :
    ∃ more, (t.execute moves).outcomes = t.outcomes ++ more := by
  induction moves generalizing t with
  | nil => exact ⟨[], by simp [execute]⟩
  | cons move moves ih =>
    obtain ⟨first, one⟩ := outcomes_step move t
    obtain ⟨rest, all⟩ := ih (t.step move)
    exact ⟨first ++ rest, by rw [execute, all, one, List.append_assoc]⟩

theorem Accounted.execute (accounted : t.Accounted max w)
    (view : t.exchange.engine.Shows base w) (moves : List Move)
    (fine : ∀ e, (t.execute moves).outcomes.head? ≠ some (.error e)) :
    ∃ after, (t.execute moves).Accounted max after ∧
      (t.execute moves).exchange.engine.Shows base after := by
  induction moves generalizing t w with
  | nil => exact ⟨w, accounted, view⟩
  | cons move moves ih =>
    have first : ∀ e, (t.step move).outcomes.head? ≠ some (.error e) := by
      intro e failed
      obtain ⟨more, all⟩ := outcomes_execute moves (t.step move)
      apply fine e
      rw [Traffic.execute, all, List.head?_append, failed]
      rfl
    obtain ⟨mid, next, shown⟩ := accounted.step_view view move (.inr first)
    exact ih next shown fine

theorem shows_start (writer : Writer) (cap : Option UInt64) :
    (start writer cap).exchange.engine.Shows writer.sink.accepted .empty :=
  ⟨by simp [start, Exchange.start, Multiplexer.start, Wire.empty, Wire.bytes],
    by simp [Wire.empty, Wire.blocks], rfl⟩

/-- A state that any moves over a stream without faults lead to. The registered namespaces are
valid, distinct, not closed and within the cap; the stream is the wire and the cursor its
unfinished block, of a registered namespace; the ended namespaces are the closed ones; the
summary is of the closed namespaces and of those that have records, with all their records. -/
structure Consistent (t : Traffic) (base : Bytes) (cap : Option UInt64) (w : Wire) : Prop where
  registered : t.exchange.engine.registry.Valid
  cap : t.exchange.engine.registry.cap = cap
  accepted : t.exchange.engine.writer.sink.accepted = base ++ w.bytes
  formed : ∀ b ∈ w.blocks, b.Formed t.exchange.engine.writer.max
  tidy : w.Tidy
  cursor : t.exchange.engine.current = w.cursor
  ongoing : ∀ ns ∈ w.cursor, ns ∈ t.exchange.engine.registry.keys
  closed : w.ended.Nodup ∧ ∀ ns, ns ∈ w.ended ↔ ns ∈ t.exchange.engine.registry.closed
  counted : (∀ s, .ok s ∉ t.outcomes) → t.exchange.engine.summary = t.summary
  summary : t.summary.Accounts
    (fun ns => ns ∈ t.exchange.engine.registry.closed ∨ Block.recordsOf ns w.blocks ≠ [])
    (fun ns => Block.recordsOf ns w.blocks)

theorem Accounted.consistent (accounted : t.Accounted max w)
    (view : t.exchange.engine.Shows base w) :
    t.Consistent base t.exchange.engine.registry.cap w := by
  have tracks := accounted.tracks
  have bare : ∀ b ∈ w.blocks, b.header.eof → b.records = [] :=
    fun b member => (tracks.tidy.filled b member).1
  refine ⟨tracks.valid, rfl, view.accepted, view.formed, tracks.tidy, view.cursor, ?_, ⟨?_, ?_⟩, ?_, ?_⟩
  · intro ns here
    obtain ⟨b, unfinished, rfl⟩ := Option.map_eq_some_iff.1 here
    exact tracks.ongoing b unfinished
  · rw [← List.nodup_reverse, ← tracks.closed]
    exact tracks.valid.once
  · intro ns
    rw [tracks.closed, List.mem_reverse]
  · intro none
    have nothing : t.outcomes.findSome? Except.toOption = Option.none := by
      apply List.findSome?_eq_none_iff.2
      intro outcome member
      cases outcome with
      | error e => rfl
      | ok s => exact absurd member (none s)
    simp [Traffic.summary, nothing]
  · rw [accounted.summary]
    refine (Summary.accounts_ofBlocks bare).congr ?_ fun _ _ => rfl
    intro ns
    have past : ns ∈ t.exchange.engine.registry.closed ↔
        ∃ b ∈ w.blocks, b.header.eof ∧ b.header.ns = ns := by
      rw [tracks.closed, List.mem_reverse, Wire.mem_ended]
    rw [past]
    constructor
    · rintro ⟨b, member, same, ends | filled⟩
      · exact .inl ⟨b, member, ends, same⟩
      · refine .inr fun nothing => ?_
        have none := List.flatMap_eq_nil_iff.1 nothing b member
        exact filled (by simpa [same] using none)
    · rintro (⟨b, member, ends, same⟩ | filled)
      · exact ⟨b, member, same, .inl ends⟩
      · by_contra silent
        exact filled (Block.recordsOf_eq_nil silent)

/-- In every state that the moves of producers and engine lead to, all parts agree. -/
theorem consistent_execute (writer : Writer) (cap : Option UInt64) (sound : writer.sink.Sound)
    (moves : List Move) :
    ∃ w, ((start writer cap).execute moves).Consistent writer.sink.accepted cap w := by
  obtain ⟨w, accounted, view, same⟩ :=
    (accounted_start writer cap).execute_sound (shows_start writer cap) sound moves
  have consistent := accounted.consistent view
  rw [same] at consistent
  exact ⟨w, consistent⟩

theorem consistent_one_record :
    ∃ w, ((start (.start .empty 64) (some 1)).execute
      [.register ⟨"a", "b"⟩, .run, .write 0 [5, 0, 0, 0, 0], .turn]).Consistent [] (some 1) w :=
  consistent_execute (.start .empty 64) (some 1) Sink.sound_empty _

end Traffic
end DumpArchive.Multiplexer
