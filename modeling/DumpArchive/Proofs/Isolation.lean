import DumpArchive.Proofs.Acknowledgements
import DumpArchive.Proofs.FaultFreeMultiplexer

/-! What producers can do to each other, which is nothing. Whatever they do, no run fails over it;
and a record that is refused goes no further than the reply to its write. -/
namespace DumpArchive

open Document (Fields Value)

theorem Record.check_error {record : Bytes} {max : UInt64} {e : FrameError}
    (refused : Record.check record max = .error e) :
    (∃ size, e = .recordTooLarge size max) ∨ ∃ defect, e = .invalidRecord defect := by
  simp only [Record.check] at refused
  split at refused
  · exact .inl ⟨_, (Except.error.inj refused).symm⟩
  · right
    split at refused
    · exact ⟨_, (Except.error.inj refused).symm⟩
    · split at refused
      · exact ⟨_, (Except.error.inj refused).symm⟩
      · split at refused
        · exact ⟨_, (Except.error.inj refused).symm⟩
        · contradiction

theorem CollectionHeader.length_open_le (ns : Namespace) :
    (CollectionHeader.record ⟨ns, false⟩).length ≤ (CollectionHeader.record ⟨ns, true⟩).length := by
  simp only [CollectionHeader.record, CollectionHeader.fields, Fields.encode,
    Document.length_enclose, Fields.bytes, List.length_cons, List.length_append, if_true,
    Bool.false_eq_true, if_false]
  omega

namespace Multiplexer

/-- The header at the end of a namespace is the longer one of its two. -/
theorem heads_of_end {max : UInt64} {ns : Namespace}
    (most : (CollectionHeader.record ⟨ns, true⟩).length ≤ max.toNat)
    (sized : Document.Sized (CollectionHeader.record ⟨ns, true⟩).length) : Heads max ns := by
  have shorter := CollectionHeader.length_open_le ns
  intro eof
  cases eof with
  | false => exact Fields.formed_encode (shorter.trans most) (Nat.lt_of_le_of_lt shorter sized)
  | true => exact Fields.formed_encode most sized

theorem Exchange.step_of_idle {x : Exchange} (idle : x.phase ≠ .running) : x.step = x := by
  unfold Exchange.step
  split
  · contradiction
  · rfl

namespace Traffic

variable {t : Traffic} {max : UInt64} {w : Wire} {h : Handle} {index : Nat}

/-! ### No run fails -/

/-- A handle goes on: it keeps its namespace and its replies. -/
theorem Onward.goes {o : Option Handle} (onward : Onward t (some h) o) :
    ∃ k more, o = some k ∧ k.ns = h.ns ∧ k.replies = h.replies ++ more := by
  cases onward with
  | same number ns replies => exact ⟨_, [], rfl, ns, by simpa using replies⟩
  | returned number ns replies why => exact ⟨_, _, rfl, ns, replies⟩

theorem Accounted.goes_step (accounted : t.Accounted max w) (found : t.handles[index]? = some h)
    (move : Move) : ∃ k more, (t.step move).handles[index]? = some k ∧ k.ns = h.ns ∧
      k.replies = h.replies ++ more := by
  have onward := accounted.onward move index
  rw [found] at onward
  exact onward.goes

theorem Accounted.goes_execute (accounted : t.Accounted max w)
    (found : t.handles[index]? = some h) (moves : List Move) :
    ∃ k, (t.execute moves).handles[index]? = some k ∧ k.ns = h.ns := by
  induction moves generalizing t w h with
  | nil => exact ⟨h, found, rfl⟩
  | cons move moves ih =>
    obtain ⟨mid, -, here, first, -⟩ := accounted.goes_step found move
    obtain ⟨after, next, -⟩ := accounted.step move
    obtain ⟨k, last, same⟩ := ih next here
    exact ⟨k, last, same.trans first⟩

/-- Only a turn of the engine ends a run. -/
theorem outcomes_of_ne_turn {move : Move} (aside : move ≠ .turn) :
    (t.step move).outcomes = t.outcomes := by
  cases move with
  | turn => contradiction
  | register ns =>
    rcases register_cases ns t with refused | ⟨-, enrolled⟩
    · rw [Traffic.step, refused]
    · rw [Traffic.step, enrolled, enroll]
  | _ =>
    simp only [step, write, collect, release, run]
    repeat' split
    all_goals rfl

/-- All runs that have ended have come to a summary. -/
def Unfailing (t : Traffic) : Prop := ∀ outcome ∈ t.outcomes, ∃ s, outcome = .ok s

theorem Accounted.unfailing_step (accounted : t.Accounted max w)
    (sound : t.exchange.engine.writer.sink.Sound) (heads : ∀ h ∈ t.handles, Heads max h.ns)
    (unfailing : t.Unfailing) (move : Move) : (t.step move).Unfailing := by
  by_cases aside : move = .turn
  · subst aside
    by_cases running : t.exchange.phase = .running
    · rcases accounted.step_phase sound heads running with still | ⟨s, ends⟩
      · rw [Traffic.step, turn_of_same (still.trans running.symm)]
        exact unfailing
      · rw [Traffic.step, turn_of_stopped running ends]
        exact List.forall_mem_append.2 ⟨unfailing, by simp⟩
    · rw [Traffic.step, turn_of_same (by rw [Exchange.step_of_idle running])]
      exact unfailing
  · rw [Unfailing, outcomes_of_ne_turn aside]
    exact unfailing

theorem Accounted.unfailing_execute (accounted : t.Accounted max w)
    (sound : t.exchange.engine.writer.sink.Sound) (unfailing : t.Unfailing) (moves : List Move)
    (heads : ∀ h ∈ (t.execute moves).handles, Heads max h.ns) : (t.execute moves).Unfailing := by
  induction moves generalizing t w with
  | nil => exact unfailing
  | cons move moves ih =>
    have early : ∀ h ∈ t.handles, Heads max h.ns := by
      intro h member
      obtain ⟨index, found⟩ := List.mem_iff_getElem?.1 member
      obtain ⟨k, last, same⟩ := accounted.goes_execute found (move :: moves)
      exact same ▸ heads k (List.mem_of_getElem? last)
    obtain ⟨after, next, -⟩ := accounted.step move
    exact ih next (accounted.sound_step sound move)
      (accounted.unfailing_step sound early unfailing move) heads

/-! ### A refused record -/

/-- The handles of a traffic in which one of them has got another reply, after so many. -/
def retold (index place : Nat) (reply : Bytes × Except EngineError Nat) (i : Nat) (h : Handle) :
    Handle :=
  if i = index then { h with replies := h.replies.insertIdx place reply } else h

def interject (index place : Nat) (reply : Bytes × Except EngineError Nat) (t : Traffic) :
    Traffic :=
  { t with handles := t.handles.mapIdx (retold index place reply) }

section Retold

variable {place : Nat} {reply : Bytes × Except EngineError Nat} {i : Nat}

@[simp] theorem number_retold : (retold index place reply i h).number = h.number := by
  unfold retold
  split <;> rfl

@[simp] theorem ns_retold : (retold index place reply i h).ns = h.ns := by
  unfold retold
  split <;> rfl

@[simp] theorem pending_retold : (retold index place reply i h).pending = h.pending := by
  unfold retold
  split <;> rfl

@[simp] theorem isFree_retold : (retold index place reply i h).isFree = h.isFree := by
  unfold retold
  split <;> rfl

theorem insertIdx_append {α : Type} {a : α} {l m : List α} {n : Nat} (within : n ≤ l.length) :
    (l ++ m).insertIdx n a = l.insertIdx n a ++ m := by
  induction l generalizing n with
  | nil => simp [Nat.le_zero.1 within]
  | cons b rest ih =>
    cases n with
    | zero => simp
    | succ n => simp [ih (Nat.le_of_succ_le_succ within)]

/-- Later replies come behind the one that was put in. -/
theorem answer_retold {record : Bytes} {later : Except EngineError Nat}
    (within : i = index → place ≤ h.replies.length) :
    (retold index place reply i h).answer record later =
      retold index place reply i (h.answer record later) := by
  unfold retold
  split
  · next same => simp [Handle.answer, insertIdx_append (within same)]
  · rfl

@[simp] theorem exchange_interject (t : Traffic) :
    (t.interject index place reply).exchange = t.exchange := rfl

@[simp] theorem outcomes_interject (t : Traffic) :
    (t.interject index place reply).outcomes = t.outcomes := rfl

@[simp] theorem getElem?_interject (t : Traffic) (i : Nat) :
    (t.interject index place reply).handles[i]? =
      t.handles[i]?.map (retold index place reply i) := by
  simp [interject]

theorem set_interject {x : Exchange} {after other : Handle}
    (same : other = retold index place reply i after) :
    ({ t.interject index place reply with exchange := x } : Traffic).set i other =
      (({ t with exchange := x } : Traffic).set i after).interject index place reply := by
  simp [same, interject, Traffic.set, List.mapIdx_set]

/-- There is such a handle, and it has got as many replies. -/
def Holds (t : Traffic) (index place : Nat) : Prop :=
  ∃ h, t.handles[index]? = some h ∧ place ≤ h.replies.length

theorem Holds.within (holds : t.Holds index place) (found : t.handles[i]? = some h)
    (same : i = index) : place ≤ h.replies.length := by
  obtain ⟨k, here, enough⟩ := holds
  rw [← same, found] at here
  exact Option.some.inj here ▸ enough

/-- No move looks at the replies that have been given. -/
theorem step_interject (holds : t.Holds index place) (move : Move) :
    (t.interject index place reply).step move = (t.step move).interject index place reply := by
  cases move with
  | register ns =>
    obtain ⟨k, found, -⟩ := holds
    have old : t.handles.length ≠ index := by
      have bound := (List.getElem?_eq_some_iff.1 found).1
      omega
    simp only [Traffic.step, Traffic.register, exchange_interject]
    split
    · rfl
    · next number exchange _ => simp [interject, List.mapIdx_concat, retold, old]
  | write i record =>
    simp only [Traffic.step, Traffic.write, exchange_interject, getElem?_interject]
    cases found : t.handles[i]? with
    | none => rfl
    | some h =>
      have within := holds.within found
      simp only [Option.map_some, isFree_retold, number_retold, ns_retold]
      split
      · split
        · exact set_interject (answer_retold within)
        · split
          · exact set_interject (answer_retold within)
          · exact set_interject (by unfold retold; split <;> rfl)
      · rfl
  | collect i =>
    simp only [Traffic.step, Traffic.collect, exchange_interject, getElem?_interject]
    cases found : t.handles[i]? with
    | none => rfl
    | some h =>
      have within := holds.within found
      simp only [Option.map_some, pending_retold, number_retold, ns_retold]
      split
      · rfl
      · split
        · rfl
        · exact set_interject (answer_retold within)
  | release i =>
    simp only [Traffic.step, Traffic.release, exchange_interject, getElem?_interject]
    cases found : t.handles[i]? with
    | none => rfl
    | some h =>
      simp only [Option.map_some, isFree_retold, number_retold]
      split
      · exact set_interject (by unfold retold; split <;> rfl)
      · rfl
  | run =>
    simp only [Traffic.step, Traffic.run, exchange_interject]
    split <;> rfl
  | turn =>
    simp only [Traffic.step, Traffic.turn, exchange_interject]
    split <;> rfl

theorem Accounted.execute_interject (accounted : t.Accounted max w) (holds : t.Holds index place)
    (moves : List Move) :
    (t.interject index place reply).execute moves =
      (t.execute moves).interject index place reply := by
  induction moves generalizing t w with
  | nil => rfl
  | cons move moves ih =>
    obtain ⟨h, found, enough⟩ := holds
    obtain ⟨k, more, here, -, grown⟩ := accounted.goes_step found move
    have still : (t.step move).Holds index place := ⟨k, here, by simp [grown]; omega⟩
    obtain ⟨after, next, -⟩ := accounted.step move
    rw [Traffic.execute, step_interject ⟨h, found, enough⟩, ih next still]
    rfl

end Retold

/-- A refused record is one reply more for its own handle. -/
theorem write_refused {record : Bytes} {e : FrameError} (found : t.handles[index]? = some h)
    (free : h.isFree)
    (refused : Record.check record t.exchange.engine.writer.max = .error e) :
    t.step (.write index record) =
      t.interject index h.replies.length (record, .error (.frame e)) := by
  have nothing : h.pending = none := by
    have idle : h.released = false ∧ h.pending = none := by simpa [Handle.isFree] using free
    exact idle.2
  have handles : t.handles.set index (h.answer record (.error (.frame e))) =
      t.handles.mapIdx (retold index h.replies.length (record, .error (.frame e))) := by
    refine List.ext_getElem? fun i => ?_
    rw [List.getElem?_mapIdx]
    by_cases same : i = index
    · subst same
      rw [List.getElem?_set_self (List.getElem?_eq_some_iff.1 found).1, found]
      simp [retold, Handle.answer, nothing]
    · rw [List.getElem?_set_ne (Ne.symm same)]
      cases t.handles[i]? <;> simp [retold, same]
  simp only [Traffic.step, Traffic.write, found, free, if_true, refused, Traffic.set, interject,
    handles]

/-- However the producers open, write, close and drop, no run fails if the stream has no faults and
the header that ends a namespace is a document within the limit. A write of a record that is none,
or too large, returns that error to its own handle at once. Nothing else comes of it, then or later:
all is as it is without the call, but for that one reply. -/
theorem isolated (writer : Token.Writer) (cap : Option UInt64) (moves : List Move)
    (sound : writer.sink.Sound)
    (heads : ∀ h ∈ ((start writer cap).execute moves).handles,
      (CollectionHeader.record ⟨h.ns, true⟩).length ≤ writer.max.toNat ∧
        Document.Sized (CollectionHeader.record ⟨h.ns, true⟩).length) :
    (∀ outcome ∈ ((start writer cap).execute moves).outcomes, ∃ s, outcome = .ok s) ∧
    ∀ before index record after h, moves = before ++ .write index record :: after →
      ((start writer cap).execute before).handles[index]? = some h → h.isFree →
      ¬ Record.Formed writer.max record →
      ∃ e : FrameError,
        ((∃ size, e = .recordTooLarge size writer.max) ∨ ∃ defect, e = .invalidRecord defect) ∧
        let t := (start writer cap).execute before
        let u := (start writer cap).execute moves
        let v := (start writer cap).execute (before ++ after)
        t.step (.write index record) = t.set index (h.answer record (.error (.frame e))) ∧
        (h.answer record (.error (.frame e))).isFree ∧
        u.exchange = v.exchange ∧ u.outcomes = v.outcomes ∧ u.summary = v.summary ∧
        u.handles = v.handles.mapIdx fun i k =>
          if i = index then
            { k with replies := k.replies.insertIdx h.replies.length (record, .error (.frame e)) }
          else k := by
  have begun := accounted_start writer cap
  refine ⟨begun.unfailing_execute sound (by simp [Unfailing, start]) moves fun h member =>
    heads_of_end (heads h member).1 (heads h member).2, ?_⟩
  rintro before index record after h rfl found free malformed
  obtain ⟨w, accounted, -⟩ := begun.execute_sound (shows_start writer cap) sound before
  have refused : ∃ e, Record.check record writer.max = .error e := by
    cases passed : Record.check record writer.max with
    | error e => exact ⟨e, rfl⟩
    | ok _ => exact absurd (Record.check_eq_ok_iff.1 passed) malformed
  obtain ⟨e, refused⟩ := refused
  have own : Record.check record ((start writer cap).execute before).exchange.engine.writer.max =
      .error e := by
    rw [accounted.limit, refused]
  have interjected := write_refused found free own
  have holds : ((start writer cap).execute before).Holds index h.replies.length :=
    ⟨h, found, Nat.le_refl _⟩
  refine ⟨e, Record.check_error refused, ?_⟩
  intro t u v
  have same : u = v.interject index h.replies.length (record, .error (.frame e)) := by
    simp only [u, v, execute_append, execute, interjected]
    exact accounted.execute_interject holds after
  rw [same]
  refine ⟨?_, ?_, rfl, rfl, rfl, rfl⟩
  · simp only [t, Traffic.step, Traffic.write, found, free, if_true, own]
  · have held : h.released = false ∧ h.pending = none := by simpa [Handle.isFree] using free
    simp [Handle.isFree, Handle.answer, held.1]

theorem isolated_lone_byte : ∃ t u,
    (start (.start .empty 64) none).execute [.register ⟨"a", "b"⟩, .run, .write 0 [1],
      .write 0 [5, 0, 0, 0, 0], .turn, .collect 0, .release 0, .turn, .turn] = t ∧
    (start (.start .empty 64) none).execute [.register ⟨"a", "b"⟩, .run,
      .write 0 [5, 0, 0, 0, 0], .turn, .collect 0, .release 0, .turn, .turn] = u ∧
    (∀ outcome ∈ t.outcomes, ∃ s, outcome = .ok s) ∧ t.exchange = u.exchange ∧
    t.outcomes = u.outcomes ∧ t.summary = u.summary := by
  have heads : ∀ h ∈ ((start (.start .empty 64) none).execute [.register ⟨"a", "b"⟩, .run,
      .write 0 [1], .write 0 [5, 0, 0, 0, 0], .turn, .collect 0, .release 0, .turn,
      .turn]).handles, (CollectionHeader.record ⟨h.ns, true⟩).length ≤ (64 : UInt64).toNat ∧
        Document.Sized (CollectionHeader.record ⟨h.ns, true⟩).length := by
    have names : ((start (.start .empty 64) none).execute [.register ⟨"a", "b"⟩, .run,
        .write 0 [1], .write 0 [5, 0, 0, 0, 0], .turn, .collect 0, .release 0, .turn,
        .turn]).handles.map (·.ns) = [⟨"a", "b"⟩] := by
      cbv
    intro h member
    have same := List.mem_map_of_mem (f := (·.ns)) member
    rw [names, List.mem_singleton] at same
    rw [same]
    have size : (CollectionHeader.record ⟨⟨"a", "b"⟩, true⟩).length = 39 := by cbv
    rw [size]
    decide
  have malformed : ¬ Record.Formed 64 [1] := by
    intro formed
    simpa [Record.minSize] using formed.least
  obtain ⟨fine, apart⟩ := isolated (.start .empty 64) none _ Sink.sound_empty heads
  obtain ⟨e, -, -, -, exchange, outcomes, summary, -⟩ := apart [.register ⟨"a", "b"⟩, .run] 0 [1]
    [.write 0 [5, 0, 0, 0, 0], .turn, .collect 0, .release 0, .turn, .turn]
    (.fresh 0 ⟨"a", "b"⟩) rfl (by cbv) rfl malformed
  exact ⟨_, _, rfl, rfl, fine, exchange, outcomes, summary⟩

end Traffic
end Multiplexer
end DumpArchive
