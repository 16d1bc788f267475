import DumpArchive.Proofs.Consistency
import DumpArchive.Proofs.Faults

/-! Acknowledgements on a stream that may fail anywhere. What has been acknowledged is what stands
on the stream, and after a run that has failed nothing more is written. -/
namespace DumpArchive.Multiplexer

variable {x y : Exchange} {w v : Wire} {base : Bytes} {max : UInt64}

/-- The records of the writes that were acknowledged, also of one that does not know it yet. -/
def Handle.acknowledged (x : Exchange) (h : Handle) : List Bytes :=
  h.written ++ if acked h.number x.acks = [] then [] else h.pending.toList

theorem Handle.Kept.acknowledged {h : Handle} (kept : h.Kept (h.sight x w)) :
    Block.recordsOf h.ns w.blocks = h.acknowledged x := by
  obtain ⟨extra, standing, split⟩ := kept.written
  have split : Block.recordsOf h.ns w.blocks = h.written ++ extra := split
  rw [split, Handle.acknowledged]
  congr 1
  generalize h.pending = pending at standing ⊢
  cases standing with
  | idle none _ => simp
  | posted none _ => exact (if_pos none).symm
  | acknowledged one _ =>
    have some : acked h.number x.acks ≠ [] := by
      intro none
      have one : acked h.number x.acks = [_] := one
      simp [none] at one
    simp [some]

theorem Handle.mem_acknowledged {h : Handle} {record : Bytes} (member : record ∈ h.acknowledged x) :
    (∃ size, (record, .ok size) ∈ h.replies) ∨ h.pending = some record := by
  rcases List.mem_append.1 member with old | new
  · obtain ⟨⟨other, reply⟩, replied, same⟩ := List.mem_filterMap.1 old
    cases reply with
    | ok size =>
      obtain rfl := by simpa using same
      exact .inl ⟨size, replied⟩
    | error e => simp at same
  · split at new
    · simp at new
    · exact .inr (by simpa using new)

/-- An acknowledgement that was not fetched is for the write that is going on. -/
theorem Handle.Kept.unheard {h : Handle} (kept : h.Kept (h.sight x w)) {size : Nat}
    (told : size ∈ acked h.number x.acks) : ∃ record, h.pending = some record ∧ size = record.length := by
  obtain ⟨extra, standing, -⟩ := kept.written
  generalize h.pending = pending at standing ⊢
  cases standing with
  | idle none _ =>
    have none : acked h.number x.acks = [] := none
    simp [none] at told
  | posted none _ =>
    have none : acked h.number x.acks = [] := none
    simp [none] at told
  | @acknowledged record one _ =>
    have one : acked h.number x.acks = [record.length] := one
    exact ⟨record, rfl, by simpa [one] using told⟩

theorem ne_of_acked_eq_nil {number : Nat} {acks : List (Nat × Nat)} (none : acked number acks = []) :
    ∀ a ∈ acks, a.1 ≠ number := by
  intro a member same
  simpa [same] using List.filterMap_eq_nil_iff.1 none a member

theorem Cut.congr {m next : Multiplexer} {shown : Wire} {tail : Bytes}
    (cut : m.Cut base w shown tail) (accepted : next.writer.sink.accepted = m.writer.sink.accepted)
    (limit : next.writer.max = m.writer.max) (blocks : v.blocks = w.blocks) :
    next.Cut base v shown tail where
  accepted := accepted.trans cut.accepted
  formed := limit ▸ cut.formed
  absent := limit ▸ cut.absent
  stage := by simpa only [Wire.enter, blocks] using cut.stage

/-- A turn that stops the engine while a producer is registered was at an event that failed. -/
theorem failing_step {e : FrameError} (running : x.phase = .running)
    (somebody : x.engine.registry.entries ≠ []) (stopped : x.step.phase = .stopped (.error e)) :
    ∃ event engine, x.engine.handle event = (.error e, engine) ∧
      x.step.engine = engine.abandon := by
  have busy : x.engine.registry.entries.isEmpty = false := by simpa using somebody
  unfold Exchange.step at stopped ⊢
  simp only [running, busy, Bool.false_eq_true, if_false] at stopped ⊢
  split at stopped
  · simp [running] at stopped
  · next event mailbox posted =>
    split at stopped
    · next f engine failed =>
      obtain rfl := by simpa using stopped
      exact ⟨event, engine, failed, rfl⟩
    · simp at stopped
    · simp at stopped

/-- What has broken off stays so: nobody is left whose events would be written. -/
theorem Cut.turned {shown : Wire} {tail : Bytes} (cut : x.engine.Cut base w shown tail)
    (nobody : x.engine.registry.entries = []) (turned : Turned x w y v) :
    y.engine.Cut base v shown tail := by
  cases turned with
  | still => exact cut
  | finished running none ended =>
    have accepted := x.engine.writer.wrote_flush
    have limit := x.engine.writer.max_flush
    simp only [Multiplexer.finish] at ended
    split at ended
    all_goals
      next flushed =>
      obtain ⟨rfl, rfl⟩ := Prod.mk.inj ended
      rw [flushed] at accepted limit
      exact cut.congr accepted limit rfl
  | handled running posted handled =>
    cases handled with
    | ignored unknown => simpa [onWire, unknown] using cut
    | added known => exact absurd (mem_of_namespaceOf? known) (by simp [nobody])
    | ended known => exact absurd (mem_of_namespaceOf? known) (by simp [nobody])
  | failed running posted handled =>
    cases handled with
    | failed known => exact absurd (mem_of_namespaceOf? known) (by simp [nobody])

namespace Traffic

variable {t : Traffic} {h k : Handle} {index : Nat}

/-- The stream shows the wire, or it has broken off at a failed event of a run that has ended. -/
inductive Visible (t : Traffic) (base : Bytes) (w : Wire) : Prop
  | whole (view : t.exchange.engine.Shows base w)
  | broken {shown : Wire} {tail : Bytes} (ended : t.outcomes ≠ [])
    (cut : t.exchange.engine.Cut base w shown tail)

/-- The next turn is at an event that fails, so that producers are let go of. -/
def Breaks (t : Traffic) : Prop :=
  t.exchange.phase = .running ∧ t.exchange.engine.registry.entries ≠ [] ∧
    ∃ e, t.exchange.step.phase = .stopped (.error e)

theorem shows_turn {after : Wire} (view : t.exchange.engine.Shows base w) (steady : ¬ t.Breaks)
    (turned : Turned t.exchange w t.exchange.step after) :
    t.exchange.step.engine.Shows base after := by
  refine view.turned turned (.inr fun running e stopped => ?_)
  by_contra somebody
  exact steady ⟨running, somebody, e, stopped⟩

theorem cut_turn {after : Wire} (view : t.exchange.engine.Shows base w) (breaks : t.Breaks)
    (turned : Turned t.exchange w t.exchange.step after) :
    ∃ shown tail, t.exchange.step.engine.Cut base after shown tail := by
  obtain ⟨running, somebody, e, stopped⟩ := breaks
  obtain ⟨event, engine, failed, same⟩ := failing_step running somebody stopped
  obtain ⟨shown, tail, cut⟩ := view.cut failed
  rw [same]
  refine ⟨shown, tail, cut.congr rfl rfl ?_⟩
  generalize t.exchange.step = next at turned stopped
  cases turned with
  | still => simp [running] at stopped
  | finished _ nobody => exact absurd nobody somebody
  | handled => simp [running] at stopped
  | failed => exact w.blocks_terminate

theorem ended_step (ended : t.outcomes ≠ []) (move : Move) : (t.step move).outcomes ≠ [] := by
  obtain ⟨more, outcomes⟩ := outcomes_step move t
  simp [outcomes, ended]

theorem Accounted.cut_step {shown : Wire} {tail : Bytes} (accounted : t.Accounted max w)
    (ended : t.outcomes ≠ []) (cut : t.exchange.engine.Cut base w shown tail) (move : Move) :
    ∃ after, (t.step move).Accounted max after ∧
      (t.step move).exchange.engine.Cut base after shown tail := by
  obtain ⟨after, next, ⟨rfl, aloof⟩ | ⟨rfl, turned⟩⟩ := accounted.step move
  · exact ⟨after, next, cut.congr (by rw [aloof.writer]) (by rw [aloof.writer]) rfl⟩
  · have nobody := accounted.tracks.stopped (accounted.finished.2 ended)
    refine ⟨after, next, ?_⟩
    change t.turn.exchange.engine.Cut base after shown tail
    rw [exchange_turn]
    exact cut.turned nobody turned

/-- A turn at an event that fails ends the run and breaks the stream off. -/
theorem Accounted.break_turn (accounted : t.Accounted max w)
    (view : t.exchange.engine.Shows base w) (breaks : t.Breaks) :
    ∃ after shown tail, t.turn.Accounted max after ∧ t.turn.outcomes ≠ [] ∧
      t.turn.exchange.engine.Cut base after shown tail := by
  obtain ⟨after, turned, next⟩ := accounted.turn
  obtain ⟨shown, tail, cut⟩ := cut_turn view breaks turned
  obtain ⟨running, -, e, stopped⟩ := breaks
  refine ⟨after, shown, tail, next, by simp [turn_of_stopped running stopped], ?_⟩
  rwa [exchange_turn]

/-- Any other move leaves the stream with the wire on it. -/
theorem Accounted.whole_step (accounted : t.Accounted max w)
    (view : t.exchange.engine.Shows base w) (move : Move) (steady : move = .turn → ¬ t.Breaks) :
    ∃ after, (t.step move).Accounted max after ∧
      (t.step move).exchange.engine.Shows base after := by
  obtain ⟨after, next, ⟨rfl, aloof⟩ | ⟨rfl, turned⟩⟩ := accounted.step move
  · exact ⟨after, next, aloof.view view⟩
  · refine ⟨after, next, ?_⟩
    change t.turn.exchange.engine.Shows base after
    rw [exchange_turn]
    exact shows_turn view (steady rfl) turned

theorem Accounted.visible_step (accounted : t.Accounted max w) (visible : t.Visible base w)
    (move : Move) :
    ∃ after, (t.step move).Accounted max after ∧ (t.step move).Visible base after := by
  cases visible with
  | broken ended cut =>
    obtain ⟨after, next, still⟩ := accounted.cut_step ended cut move
    exact ⟨after, next, .broken (ended_step ended move) still⟩
  | whole view =>
    by_cases breaks : move = .turn ∧ t.Breaks
    · obtain ⟨rfl, breaks⟩ := breaks
      obtain ⟨after, shown, tail, next, ended, cut⟩ := accounted.break_turn view breaks
      exact ⟨after, next, .broken ended cut⟩
    · obtain ⟨after, next, still⟩ :=
        accounted.whole_step view move fun turn breaking => breaks ⟨turn, breaking⟩
      exact ⟨after, next, .whole still⟩

theorem Accounted.visible_execute (accounted : t.Accounted max w) (visible : t.Visible base w)
    (moves : List Move) :
    ∃ after, (t.execute moves).Accounted max after ∧ (t.execute moves).Visible base after := by
  induction moves generalizing t w with
  | nil => exact ⟨w, accounted, visible⟩
  | cons move moves ih =>
    obtain ⟨mid, next, seen⟩ := accounted.visible_step visible move
    exact ih next seen

/-! ### The replies of handles -/

/-- Why a write returns with a reply. -/
inductive Returned (t : Traffic) (h : Handle) (record : Bytes) : Except EngineError Nat → Prop
  | rejected {e : FrameError} (refused : Record.check record t.exchange.engine.writer.max = .error e) :
    Returned t h record (.error (.frame e))
  | told (pending : h.pending = some record)
    (acknowledged : Multiplexer.acked h.number t.exchange.acks = [record.length]) :
    Returned t h record (.ok record.length)
  | gone : Returned t h record (.error (.engineGone h.ns.shown))

/-- What a move makes of the handle at a place. -/
inductive Onward (t : Traffic) : Option Handle → Option Handle → Prop
  | absent : Onward t none none
  | opened {k : Handle} (silent : k.replies = []) : Onward t none (some k)
  | same {h k : Handle} (number : k.number = h.number) (ns : k.ns = h.ns)
    (replies : k.replies = h.replies) : Onward t (some h) (some k)
  | returned {h k : Handle} {record : Bytes} {reply : Except EngineError Nat}
    (number : k.number = h.number) (ns : k.ns = h.ns)
    (replies : k.replies = h.replies ++ [(record, reply)]) (why : Returned t h record reply) :
    Onward t (some h) (some k)

theorem Onward.refl (o : Option Handle) : Onward t o o := by
  cases o with
  | none => exact .absent
  | some h => exact .same rfl rfl rfl

theorem onward_set {i : Nat} {after : Handle} (found : t.handles[i]? = some h)
    (onward : Onward t (some h) (some after)) (index : Nat) :
    Onward t t.handles[index]? (t.handles.set i after)[index]? := by
  by_cases same : i = index
  · subst same
    rw [found, List.getElem?_set_self (List.getElem?_eq_some_iff.1 found).1]
    exact onward
  · rw [List.getElem?_set_ne same]
    exact .refl _

theorem Accounted.onward (accounted : t.Accounted max w) (move : Move) (index : Nat) :
    Onward t t.handles[index]? (t.step move).handles[index]? := by
  cases move with
  | register ns =>
    rcases register_cases ns t with refused | ⟨-, enrolled⟩
    · rw [Traffic.step, refused]
      exact .refl _
    · rw [Traffic.step, enrolled, Traffic.enroll]
      rcases Nat.lt_trichotomy index t.handles.length with old | rfl | beyond
      · rw [List.getElem?_append_left old]
        exact .refl _
      · rw [List.getElem?_concat_length, List.getElem?_eq_none (Nat.le_refl _)]
        exact .opened rfl
      · rw [List.getElem?_eq_none (Nat.le_of_lt beyond),
          List.getElem?_eq_none (by simpa using beyond)]
        exact .absent
  | write i record =>
    simp only [Traffic.step, Traffic.write]
    split
    · exact .refl _
    · next h found =>
      split
      · next free =>
        split
        · next e refused =>
          refine onward_set found ?_ index
          exact .returned rfl rfl rfl (.rejected refused)
        · split
          · refine onward_set found ?_ index
            exact .returned rfl rfl rfl .gone
          · refine onward_set found ?_ index
            exact .same rfl rfl rfl
      · exact .refl _
  | collect i =>
    simp only [Traffic.step, Traffic.collect]
    split
    · exact .refl _
    · next h found =>
      have kept := accounted.kept h (List.mem_of_getElem? found)
      split
      · exact .refl _
      · next record pending =>
        obtain ⟨extra, standing, -⟩ := kept.written
        rw [pending] at standing
        rw [answer?_eq]
        cases standing with
        | posted none _ =>
          have none : Multiplexer.acked h.number t.exchange.acks = [] := none
          simp only [none]
          split
          · exact .refl _
          · next reply exchange learns =>
            split at learns
            · simp at learns
            · obtain ⟨rfl, rfl⟩ := by simpa using learns
              refine onward_set found ?_ index
              exact .returned rfl rfl rfl .gone
        | acknowledged one _ =>
          have one : Multiplexer.acked h.number t.exchange.acks = [record.length] := one
          simp only [one]
          refine onward_set found ?_ index
          exact .returned rfl rfl rfl (.told pending one)
  | release i =>
    simp only [Traffic.step, Traffic.release]
    split
    · exact .refl _
    · next h found =>
      split
      · refine onward_set found ?_ index
        exact .same rfl rfl rfl
      · exact .refl _
  | run =>
    simp only [Traffic.step, Traffic.run]
    split <;> exact .refl _
  | turn =>
    simp only [Traffic.step, Traffic.turn]
    split <;> exact .refl _

/-- A write that has succeeded was told the size of its record. -/
def Measured (t : Traffic) : Prop :=
  ∀ h ∈ t.handles, ∀ record size, (record, .ok size) ∈ h.replies → size = record.length

theorem Accounted.measured_step (accounted : t.Accounted max w) (measured : t.Measured)
    (move : Move) : (t.step move).Measured := by
  intro k member record size replied
  obtain ⟨index, there⟩ := List.mem_iff_getElem?.1 member
  have onward := accounted.onward move index
  rw [there] at onward
  generalize here : t.handles[index]? = before at onward
  cases onward with
  | opened silent => simp [silent] at replied
  | same _ _ replies =>
    exact measured _ (List.mem_of_getElem? here) record size (replies ▸ replied)
  | returned _ _ replies why =>
    rw [replies] at replied
    rcases List.mem_append.1 replied with old | new
    · exact measured _ (List.mem_of_getElem? here) record size old
    · obtain ⟨rfl, rfl⟩ := by simpa using new
      cases why with
      | told => rfl

theorem Accounted.measured_execute (accounted : t.Accounted max w) (measured : t.Measured)
    (moves : List Move) : (t.execute moves).Measured := by
  induction moves generalizing t w with
  | nil => exact measured
  | cons move moves ih =>
    obtain ⟨mid, next, -⟩ := accounted.step move
    exact ih next (accounted.measured_step measured move)

/-! ### After a run -/

theorem quiet_step (nobody : x.engine.registry.entries = []) :
    x.step.acks = x.acks ∧
      x.step.engine.writer.sink.accepted = x.engine.writer.sink.accepted ∧
      x.step.engine.registry.closed = x.engine.registry.closed := by
  have accepted := x.engine.writer.wrote_flush
  unfold Exchange.step
  split
  · simp only [nobody, List.isEmpty_nil, if_true, Multiplexer.finish]
    split
    all_goals
      next flushed =>
      rw [flushed] at accepted
      exact ⟨trivial, accepted, rfl⟩
  · exact ⟨rfl, rfl, rfl⟩

theorem acks_post? {event : Event} (posted : x.post? event = some y) : y.acks = x.acks := by
  unfold Exchange.post? at posted
  split at posted
  · contradiction
  · rw [← Option.some.inj posted]

theorem acks_answer? {number : Nat} {ns : Namespace} {reply : Option (Except EngineError Nat)}
    (answered : x.answer? number ns = (reply, y)) : ∀ a ∈ y.acks, a ∈ x.acks := by
  unfold Exchange.answer? at answered
  repeat' split at answered
  all_goals
    rw [← (Prod.mk.inj answered).2]
    first
      | exact fun a member => member
      | exact fun a member => List.mem_of_mem_filter member

/-- When nobody is registered no write is acknowledged any more. -/
theorem acks_step (nobody : t.exchange.engine.registry.entries = []) (move : Move) :
    ∀ a ∈ (t.step move).exchange.acks, a ∈ t.exchange.acks := by
  cases move with
  | register ns =>
    rcases register_cases ns t with refused | ⟨-, enrolled⟩
    · rw [Traffic.step, refused]
      exact fun a member => member
    · rw [Traffic.step, enrolled]
      exact fun a member => member
  | write index record =>
    simp only [Traffic.step, write]
    repeat' split
    all_goals first
      | exact fun a member => member
      | (next posted => exact fun a member => acks_post? posted ▸ member)
  | collect index =>
    simp only [Traffic.step, collect]
    repeat' split
    all_goals first
      | exact fun a member => member
      | (next answered => exact acks_answer? answered)
  | release index =>
    simp only [Traffic.step, release]
    split
    · exact fun a member => member
    · next h _ =>
      split
      · cases posted : t.exchange.post? (.closed h.number) with
        | none => exact fun a member => member
        | some exchange => exact fun a member => acks_post? posted ▸ member
      · exact fun a member => member
  | run =>
    simp only [Traffic.step, run]
    split <;> exact fun a member => member
  | turn =>
    change ∀ a ∈ t.turn.exchange.acks, _
    rw [exchange_turn, (quiet_step nobody).1]
    exact fun a member => member

theorem accepted_step (nobody : t.exchange.engine.registry.entries = [])
    (accounted : t.Accounted max w) (move : Move) :
    (t.step move).exchange.engine.writer.sink.accepted = t.exchange.engine.writer.sink.accepted := by
  obtain ⟨after, -, ⟨-, aloof⟩ | ⟨rfl, -⟩⟩ := accounted.step move
  · rw [aloof.writer]
  · change t.turn.exchange.engine.writer.sink.accepted = _
    rw [exchange_turn, (quiet_step nobody).2.1]

theorem Accounted.accepted_execute (accounted : t.Accounted max w) (ended : t.outcomes ≠ [])
    (moves : List Move) : (t.execute moves).exchange.engine.writer.sink.accepted =
      t.exchange.engine.writer.sink.accepted := by
  induction moves generalizing t w with
  | nil => rfl
  | cons move moves ih =>
    obtain ⟨mid, next, -⟩ := accounted.step move
    have nobody := accounted.tracks.stopped (accounted.finished.2 ended)
    exact (ih next (ended_step ended move)).trans (accepted_step nobody accounted move)

/-- A write begun after a run is over gets no acknowledgement, in whatever order things go on. -/
theorem Accounted.later_replies (accounted : t.Accounted max w) (ended : t.outcomes ≠ [])
    (found : t.handles[index]? = some h) (quiet : ∀ a ∈ t.exchange.acks, a.1 ≠ h.number)
    (moves : List Move) :
    ∃ k later, (t.execute moves).handles[index]? = some k ∧ k.replies = h.replies ++ later ∧
      ∀ record reply, (record, reply) ∈ later → Record.Formed max record →
        reply = .error (.engineGone h.ns.shown) := by
  induction moves generalizing t w h with
  | nil => exact ⟨h, [], found, by simp, by simp⟩
  | cons move moves ih =>
    obtain ⟨mid, next, -⟩ := accounted.step move
    have nobody := accounted.tracks.stopped (accounted.finished.2 ended)
    have still := fun a member => quiet a (acks_step nobody move a member)
    have onward := accounted.onward move index
    rw [found] at onward
    generalize there : (t.step move).handles[index]? = after at onward
    cases onward with
    | @same _ k number ns replies =>
      obtain ⟨last, later, reached, grown, gone⟩ :=
        ih next (ended_step ended move) there (number ▸ still)
      exact ⟨last, later, reached, replies ▸ grown, ns ▸ gone⟩
    | @returned _ k record reply number ns replies why =>
      obtain ⟨last, later, reached, grown, gone⟩ :=
        ih next (ended_step ended move) there (number ▸ still)
      refine ⟨last, (record, reply) :: later, reached, by simp [grown, replies], ?_⟩
      intro other answer member formed
      rcases List.mem_cons.1 member with here | behind
      · obtain ⟨rfl, rfl⟩ := Prod.mk.inj here
        cases why with
        | rejected refused =>
          rw [accounted.limit, Record.check_eq_ok_iff.2 formed] at refused
          contradiction
        | told pending acknowledged => simp [acked_eq_nil quiet] at acknowledged
        | gone => rfl
      · exact ns ▸ gone other answer behind formed

/-- What holds once a run is over: nobody is registered or can be, and nobody waits for ever. -/
structure Halted (t : Traffic) : Prop where
  count : t.exchange.engine.registry.count = 0
  refused : ∀ ns, t.exchange.open? ns =
    .error (if ns.isNamed then .finished ns.shown else .invalid ns.shown)
  answered : ∀ index h record, t.handles[index]? = some h → h.pending = some record →
    ∃ reply, (t.collect index).handles[index]? = some (h.answer record reply)

theorem Accounted.halted (accounted : t.Accounted max w) (ended : t.outcomes ≠ []) : t.Halted := by
  have past := accounted.finished.2 ended
  have nobody := accounted.tracks.stopped past
  refine ⟨by simp [Registry.count, nobody], fun ns => ?_, fun index h record found pending => ?_⟩
  · have refused : t.exchange.engine.registry.add ns t.exchange.engine.nextProducer =
        .error (if ns.isNamed then .finished ns.shown else .invalid ns.shown) := by
      unfold Registry.add
      cases named : ns.isNamed <;> simp [past]
    simp only [Exchange.open?, Multiplexer.open?, refused]
  · have place := (List.getElem?_eq_some_iff.1 found).1
    have unknown : t.exchange.engine.namespaceOf? h.number = none :=
      namespaceOf?_eq_none_iff.2 (by simp [nobody])
    simp only [Traffic.collect, found, pending, answer?_eq, unknown]
    cases told : Multiplexer.acked h.number t.exchange.acks with
    | nil => exact ⟨_, List.getElem?_set_self place⟩
    | cons size rest => exact ⟨_, List.getElem?_set_self place⟩

/-! ### What stands on the stream -/

/-- The records of the writes under a namespace that were acknowledged. -/
def acknowledged (t : Traffic) (ns : Namespace) : List Bytes :=
  (t.handles.filter (·.ns = ns)).flatMap (·.acknowledged t.exchange)

/-- The stream holds what it held at first, then blocks of which the last may be unfinished, and
then nothing that is a token. Under each namespace stand the records of the writes that were
acknowledged, in their order, and no record of any other write. Acknowledgements say the size. -/
structure Covers (t : Traffic) (base : Bytes) (max : UInt64) (shown : Wire) (tail : Bytes) :
    Prop where
  accepted : t.exchange.engine.writer.sink.accepted = base ++ (shown.bytes ++ tail)
  formed : ∀ b ∈ shown.blocks, b.Formed max
  absent : ¬ Token.Stands max tail
  records : ∀ ns, Block.recordsOf ns shown.blocks = t.acknowledged ns
  measured : t.Measured
  unheard : ∀ h ∈ t.handles, ∀ size ∈ Multiplexer.acked h.number t.exchange.acks,
    ∃ record, h.pending = some record ∧ size = record.length
  answered : ∀ h ∈ t.handles, ∀ record ∈ Block.recordsOf h.ns shown.blocks,
    (∃ size, (record, .ok size) ∈ h.replies) ∨ h.pending = some record

theorem Accounted.acknowledged_eq (accounted : t.Accounted max w) (ns : Namespace) :
    Block.recordsOf ns w.blocks = t.acknowledged ns := by
  have distinct := t.namespaces_labels ▸ accounted.distinct
  by_cases known : ns ∈ t.handles.map (·.ns)
  · obtain ⟨h, member, rfl⟩ := List.mem_map.1 known
    rw [Traffic.acknowledged, filter_eq_singleton distinct member]
    simpa using (accounted.kept h member).acknowledged
  · rw [Traffic.acknowledged, filter_eq_nil_of_key known]
    apply Block.recordsOf_eq_nil
    rintro ⟨b, member, rfl, -⟩
    exact known (t.namespaces_labels ▸ accounted.known b member)

theorem Accounted.covers (accounted : t.Accounted max w) (visible : t.Visible base w)
    (measured : t.Measured) : ∃ shown tail, t.Covers base max shown tail := by
  have limit := accounted.limit
  obtain ⟨shown, tail, accepted, formed, absent, same⟩ : ∃ (shown : Wire) (tail : Bytes),
      t.exchange.engine.writer.sink.accepted = base ++ (shown.bytes ++ tail) ∧
      (∀ b ∈ shown.blocks, b.Formed max) ∧ ¬ Token.Stands max tail ∧
      ∀ ns, Block.recordsOf ns shown.blocks = Block.recordsOf ns w.blocks := by
    cases visible with
    | whole view =>
      exact ⟨w, [], by simpa using view.accepted, limit ▸ view.formed, Token.not_stands_nil,
        fun _ => rfl⟩
    | broken ended cut =>
      exact ⟨_, _, cut.accepted, limit ▸ cut.formed, limit ▸ cut.absent, cut.recordsOf⟩
  refine ⟨shown, tail, accepted, formed, absent, fun ns => (same ns).trans
    (accounted.acknowledged_eq ns), measured, ?_, ?_⟩
  · exact fun h member size told => (accounted.kept h member).unheard told
  · intro h member record stands
    rw [same, (accounted.kept h member).acknowledged] at stands
    exact Handle.mem_acknowledged stands

/-- Whatever the faults of the stream, after any moves it shows the acknowledged records and no
others. Once a run has failed nobody is registered or will be, nothing more is written, and every
record that is written from then on is refused, however things go on. -/
theorem acknowledged_execute (writer : Token.Writer) (cap : Option UInt64) (moves : List Move) :
    let t := (start writer cap).execute moves
    (∃ shown tail, t.Covers writer.sink.accepted writer.max shown tail) ∧
    ∀ e, .error e ∈ t.outcomes → ∀ more,
      (t.execute more).Halted ∧
      (t.execute more).exchange.engine.writer.sink.accepted =
        t.exchange.engine.writer.sink.accepted ∧
      ∀ (index : Nat) (h : Handle), t.handles[index]? = some h → h.isFree →
        ∃ (k : Handle) (later : List (Bytes × Except EngineError Nat)),
          (t.execute more).handles[index]? = some k ∧ k.replies = h.replies ++ later ∧
            ∀ record reply, (record, reply) ∈ later → Record.Formed writer.max record →
              reply = .error (.engineGone h.ns.shown) := by
  intro t
  have measured : (start writer cap).Measured := by simp [Measured, start]
  obtain ⟨w, accounted, visible⟩ : ∃ w, t.Accounted writer.max w ∧
      t.Visible writer.sink.accepted w :=
    (accounted_start writer cap).visible_execute (.whole (shows_start writer cap)) moves
  refine ⟨accounted.covers visible ((accounted_start writer cap).measured_execute measured moves),
    fun e failed more => ?_⟩
  have ended : t.outcomes ≠ [] := List.ne_nil_of_mem failed
  obtain ⟨last, later, -⟩ := accounted.visible_execute visible more
  refine ⟨later.halted ?_, accounted.accepted_execute ended more, fun index h found free => ?_⟩
  · obtain ⟨rest, grown⟩ := outcomes_execute more t
    simp [grown, ended]
  · refine accounted.later_replies ended found (ne_of_acked_eq_nil ?_) more
    have kept := accounted.kept h (List.mem_of_getElem? found)
    have none : h.pending = none := by simp_all [Handle.isFree]
    apply List.eq_nil_iff_forall_not_mem.2
    intro size told
    obtain ⟨record, pending, -⟩ := kept.unheard told
    simp [none] at pending

/-- The stream fails within the first record, and the run with it. -/
theorem acknowledged_execute_cut_record :
    ∃ t, (start (.start (.fresh (.periodic 0 (by decide) none (some (35, ⟨.other, "injected"⟩)))
        none [] none) 64) none).execute
      [.register ⟨"a", "b"⟩, .run, .write 0 [5, 0, 0, 0, 0], .turn] = t ∧
    t.outcomes = [.error (.io ⟨.other, "injected"⟩)] ∧ ∀ more, (t.execute more).Halted := by
  refine ⟨_, rfl, ?outcomes, fun more => ?halted⟩
  case outcomes => cbv
  case halted =>
    have failed : .error (.io ⟨.other, "injected"⟩) ∈ ((start (.start (.fresh (.periodic 0 (by decide)
        none (some (35, ⟨.other, "injected"⟩))) none [] none) 64) none).execute
        [.register ⟨"a", "b"⟩, .run, .write 0 [5, 0, 0, 0, 0], .turn]).outcomes := by
      apply List.mem_of_mem_head?
      cbv
    exact ((acknowledged_execute _ none _).2 _ failed more).1

end Traffic
end DumpArchive.Multiplexer
