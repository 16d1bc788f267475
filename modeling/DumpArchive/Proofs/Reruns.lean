import DumpArchive.Proofs.Acknowledgements

/-! Runs after a run. A run finds its data complete unless an earlier one has broken off: that one
has let go of its producers, so nothing is left to show the next that their namespaces are open. -/
namespace DumpArchive

namespace Token

variable {max : UInt64} {tokens others : List Token} {tail : Bytes}

/-- Whole tokens and what is no token are told apart. -/
theorem flatMap_bytes_stop (first : ∀ t ∈ tokens, t.Formed max) (second : ∀ t ∈ others, t.Formed max)
    (absent : ¬ Stands max tail)
    (same : tokens.flatMap Token.bytes ++ tail = others.flatMap Token.bytes) :
    tail = [] ∧ others = tokens := by
  induction tokens generalizing others with
  | nil =>
    cases others with
    | nil => exact ⟨by simpa using same, rfl⟩
    | cons u others =>
      obtain ⟨here, -⟩ := List.forall_mem_cons.1 second
      exact absurd ⟨u, _, here, by simpa using same⟩ absent
  | cons t tokens ih =>
    obtain ⟨here, rest⟩ := List.forall_mem_cons.1 first
    rw [List.flatMap_cons, List.append_assoc] at same
    cases others with
    | nil => exact absurd (List.append_eq_nil_iff.1 same).1 (bytes_ne_nil here)
    | cons u others =>
      obtain ⟨there, more⟩ := List.forall_mem_cons.1 second
      obtain ⟨rfl, left⟩ := bytes_append_inj here there same
      obtain ⟨nothing, rfl⟩ := ih rest more left
      exact ⟨nothing, rfl⟩

end Token

namespace Wire

open Block (Plain)

variable {max : UInt64} {w : Wire} {blocks : List Block} {tail : Bytes}

def tokens (w : Wire) : List Token :=
  (w.complete.map Block.plain).flatMap Plain.tokens ++
    w.unfinished.toList.flatMap fun b => .record b.lead :: b.records.map .record

theorem flatMap_plain (blocks : List Block) :
    ((blocks.map Block.plain).flatMap Plain.tokens).flatMap Token.bytes =
      blocks.flatMap Block.bytes := by
  rw [List.flatMap_assoc, List.flatMap_map]
  exact List.flatMap_congr fun b _ => b.bytes_plain

theorem formed_plain (formed : ∀ b ∈ blocks, b.Formed max) :
    ∀ t ∈ (blocks.map Block.plain).flatMap Plain.tokens, t.Formed max := by
  intro t member
  obtain ⟨b, held, token⟩ := List.mem_flatMap.1 member
  obtain ⟨c, block, rfl⟩ := List.mem_map.1 held
  exact (formed c block).plain.1 t token

theorem bytes_tokens (w : Wire) : w.tokens.flatMap Token.bytes = w.bytes := by
  rw [tokens, List.flatMap_append, flatMap_plain, bytes]
  cases w.unfinished with
  | none => rfl
  | some b => simp [Block.front, Token.bytes, List.flatMap_map]

theorem formed_tokens (formed : ∀ b ∈ w.blocks, b.Formed max) : ∀ t ∈ w.tokens, t.Formed max := by
  obtain ⟨complete, unfinished⟩ := List.forall_mem_append.1 formed
  refine List.forall_mem_append.2 ⟨formed_plain complete, ?_⟩
  intro t member
  obtain ⟨b, last, token⟩ := List.mem_flatMap.1 member
  have good := unfinished b last
  rcases List.mem_cons.1 token with rfl | body
  · exact good.lead
  · obtain ⟨r, held, rfl⟩ := List.mem_map.1 body
    exact good.records r held

/-- A wire that shows whole blocks has no unfinished one. -/
theorem unfinished_eq_none (same : w.tokens = (blocks.map Block.plain).flatMap Plain.tokens) :
    w.unfinished = none := by
  have ends := Block.follow_blocks (blocks.map Block.plain)
  rw [← same, tokens, Block.Place.follow_append _ (Block.follow_blocks _)] at ends
  cases unfinished : w.unfinished with
  | none => rfl
  | some b =>
    have inside : Block.Place.inside.follow (b.records.map .record ++ []) = some .inside :=
      Block.Place.follow_records []
    rw [List.append_nil] at inside
    simp [unfinished, Block.Place.follow, inside] at ends

/-- Whole blocks are no wire that has broken off. -/
theorem eq_of_bytes (formed : ∀ b ∈ w.blocks, b.Formed max) (absent : ¬ Token.Stands max tail)
    (whole : ∀ b ∈ blocks, b.Formed max)
    (same : w.bytes ++ tail = blocks.flatMap Block.bytes) :
    w.unfinished = none ∧ blocks = w.blocks := by
  rw [← bytes_tokens, ← flatMap_plain] at same
  obtain ⟨-, tokens⟩ :=
    Token.flatMap_bytes_stop (formed_tokens formed) (formed_plain whole) absent same
  have none := unfinished_eq_none tokens.symm
  refine ⟨none, ?_⟩
  rw [Wire.blocks, none] at formed ⊢
  simp only [Wire.tokens, none, Option.toList_none, List.flatMap_nil, List.append_nil]
    at tokens formed ⊢
  exact eq_of_map_eq (g := Plain.block?) (fun b member => (whole b member).plain.2)
    (fun b member => (formed b member).plain.2) (Plain.flatMap_tokens_inj tokens)

end Wire

namespace Multiplexer.Traffic

variable {t : Traffic} {max : UInt64} {w shown : Wire} {base tail : Bytes}

/-- The data is whole blocks, in which every namespace that was ever opened has its end, once and
as the last of its blocks. -/
structure Complete (t : Traffic) (base : Bytes) (blocks : List Block) : Prop where
  accepted : t.exchange.engine.writer.sink.accepted = base ++ blocks.flatMap Block.bytes
  formed : ∀ b ∈ blocks, b.Formed t.exchange.engine.writer.max
  sequence : Block.Sequence (t.handles.map (·.ns)) blocks

/-- Every namespace that was opened is registered or closed. -/
def Home (t : Traffic) : Prop := ∀ label ∈ t.labels,
  label ∈ t.exchange.engine.registry.entries ∨ label.1 ∈ t.exchange.engine.registry.closed

/-- A run is over, and a namespace that was opened will never be closed. -/
def Lost (t : Traffic) : Prop :=
  t.outcomes ≠ [] ∧ ∃ label ∈ t.labels, label.1 ∉ t.exchange.engine.registry.closed

theorem labels_step (move : Move) (other : ∀ ns, move ≠ .register ns) :
    (t.step move).labels = t.labels := by
  cases move with
  | register ns => exact absurd rfl (other ns)
  | write index record =>
    simp only [Traffic.step, write]
    split
    · rfl
    · next h found =>
      split
      · split
        · exact labels_set found rfl rfl
        · split
          · exact labels_set found rfl rfl
          · next exchange _ => exact labels_set (t := { t with exchange }) found rfl rfl
      · rfl
  | collect index =>
    simp only [Traffic.step, collect]
    split
    · rfl
    · next h found =>
      split
      · rfl
      · split
        · rfl
        · next exchange _ => exact labels_set (t := { t with exchange }) found rfl rfl
  | release index =>
    simp only [Traffic.step, release]
    split
    · rfl
    · next h found =>
      split
      · exact labels_set (t := { t with exchange := _ }) found rfl rfl
      · rfl
  | run =>
    simp only [Traffic.step, run]
    split <;> rfl
  | turn =>
    simp only [Traffic.step, turn]
    split <;> rfl

theorem engine_step (move : Move) (other : ∀ ns, move ≠ .register ns) (idle : move ≠ .turn) :
    (t.step move).exchange.engine = t.exchange.engine := by
  cases move with
  | register ns => exact absurd rfl (other ns)
  | write index record => exact engine_write index record t
  | collect index => exact engine_collect index t
  | release index => exact engine_release index t
  | run => exact engine_run t
  | turn => exact absurd rfl idle

theorem home_turn {after : Wire} (home : t.Home) (steady : ¬ t.Breaks)
    (turned : Turned t.exchange w t.exchange.step after) : t.turn.Home := by
  have names : t.turn.labels = t.labels := labels_step .turn (by simp)
  intro label member
  rw [names] at member
  rw [exchange_turn]
  generalize stepped : t.exchange.step = next at turned
  cases turned with
  | still => exact home label member
  | finished running nobody ended =>
    have closed := (home label member).resolve_left (by simp [nobody])
    simp only [Multiplexer.finish] at ended
    split at ended
    all_goals
      obtain ⟨-, rfl⟩ := Prod.mk.inj ended
      exact .inr closed
  | handled running posted handled =>
    cases handled with
    | ignored => exact home label member
    | added => exact home label member
    | @ended producer ns writer known =>
      by_cases same : label.1 = ns
      · exact .inr (by simp [Registry.close, same])
      · rcases home label member with here | closed
        · exact .inl (List.mem_filter.2 ⟨here, by simpa using same⟩)
        · exact .inr (List.mem_cons_of_mem _ closed)
  | @failed event mailbox e engine running posted handled =>
    cases handled with
    | failed known =>
      refine absurd ⟨running, ?_, e, by rw [stepped]⟩ steady
      exact List.ne_nil_of_mem (mem_of_namespaceOf? known)

theorem Accounted.home_step (accounted : t.Accounted max w) (home : t.Home) (move : Move)
    (steady : move = .turn → ¬ t.Breaks) : (t.step move).Home := by
  cases move with
  | register ns =>
    rcases register_cases ns t with refused | ⟨-, enrolled⟩
    · rwa [Traffic.step, refused]
    · rw [Traffic.step, enrolled]
      intro label member
      rw [labels_enroll] at member
      rcases List.mem_append.1 member with old | new
      · rcases home label old with here | closed
        · exact .inl (List.mem_append_left _ here)
        · exact .inr closed
      · exact .inl (List.mem_append_right _ new)
  | turn =>
    obtain ⟨after, turned, -⟩ := accounted.turn
    exact home_turn home (steady rfl) turned
  | _ =>
    unfold Home
    rw [labels_step _ (by simp), engine_step _ (by simp) (by simp)]
    exact home

theorem Accounted.lost_step (accounted : t.Accounted max w) (lost : t.Lost) (move : Move) :
    (t.step move).Lost := by
  obtain ⟨ended, label, opened, open'⟩ := lost
  have past := accounted.finished.2 ended
  have nobody := accounted.tracks.stopped past
  refine ⟨ended_step ended move, label, ?_⟩
  cases move with
  | register ns =>
    rcases register_cases ns t with refused | ⟨admits, -⟩
    · rw [Traffic.step, refused]
      exact ⟨opened, open'⟩
    · have going := admits.going
      simp [past] at going
  | turn =>
    rw [labels_step .turn (by simp)]
    change _ ∧ label.1 ∉ t.turn.exchange.engine.registry.closed
    rw [exchange_turn, (quiet_step nobody).2.2]
    exact ⟨opened, open'⟩
  | _ =>
    rw [labels_step _ (by simp), engine_step _ (by simp) (by simp)]
    exact ⟨opened, open'⟩

/-- The producers that are let go of leave their namespaces open. -/
theorem Accounted.lost_turn (accounted : t.Accounted max w) (breaks : t.Breaks) : t.turn.Lost := by
  obtain ⟨running, somebody, e, stopped⟩ := breaks
  obtain ⟨entry, member⟩ := List.exists_mem_of_ne_nil _ somebody
  obtain ⟨event, engine, failed, same⟩ := failing_step running somebody stopped
  have closed : t.turn.exchange.engine.registry.closed = t.exchange.engine.registry.closed := by
    have handled := Multiplexer.handled event t.exchange.engine
    rw [failed] at handled
    rw [exchange_turn, same]
    cases handled
    rfl
  refine ⟨by simp [turn_of_stopped running stopped], entry, ?_, ?_⟩
  · rw [show t.turn.labels = t.labels from labels_step .turn (by simp)]
    exact accounted.owned entry member
  · rw [closed]
    exact accounted.tracks.valid.apart _ (List.mem_map_of_mem member)

theorem Accounted.lost_execute (accounted : t.Accounted max w) (lost : t.Lost)
    (cut : t.exchange.engine.Cut base w shown tail) (moves : List Move) :
    ∃ after, (t.execute moves).Accounted max after ∧ (t.execute moves).Lost ∧
      (t.execute moves).exchange.engine.Cut base after shown tail := by
  induction moves generalizing t w with
  | nil => exact ⟨w, accounted, lost, cut⟩
  | cons move moves ih =>
    obtain ⟨mid, next, still⟩ := accounted.cut_step lost.1 cut move
    exact ih next (accounted.lost_step lost move) still

theorem Accounted.home_execute (accounted : t.Accounted max w)
    (view : t.exchange.engine.Shows base w) (home : t.Home) (moves : List Move)
    (steady : ∀ front back, moves = front ++ .turn :: back → ¬ (t.execute front).Breaks) :
    ∃ after, (t.execute moves).Accounted max after ∧
      (t.execute moves).exchange.engine.Shows base after ∧ (t.execute moves).Home := by
  induction moves generalizing t w with
  | nil => exact ⟨w, accounted, view, home⟩
  | cons move moves ih =>
    have first : move = .turn → ¬ t.Breaks := fun turn => steady [] moves (by rw [turn]; rfl)
    obtain ⟨mid, next, still⟩ := accounted.whole_step view move first
    refine ih next still (accounted.home_step home move first) fun front back split => ?_
    exact steady (move :: front) back (by rw [split]; rfl)

/-- Where a namespace stays open the data is not complete. -/
theorem Accounted.not_complete (accounted : t.Accounted max w) (lost : t.Lost)
    (cut : t.exchange.engine.Cut base w shown tail) : ¬ ∃ blocks, t.Complete base blocks := by
  rintro ⟨blocks, accepted, formed, sequence⟩
  obtain ⟨-, label, opened, stays⟩ := lost
  rw [cut.accepted] at accepted
  obtain ⟨none, rfl⟩ := Wire.eq_of_bytes cut.formed cut.absent formed
    (List.append_cancel_left accepted)
  have stands : shown.blocks = w.blocks := by
    rcases cut.stage with same | ⟨header, rfl⟩
    · exact same
    · simp [Wire.enter] at none
  have known : label.1 ∈ t.handles.map (·.ns) :=
    t.namespaces_labels ▸ List.mem_map_of_mem opened
  have ends := sequence.ended label.1 known
  rw [stands, ← Wire.mem_ended] at ends
  exact stays (by simpa [accounted.tracks.closed] using ends)

theorem Accounted.complete (accounted : t.Accounted max w)
    (view : t.exchange.engine.Shows base w) (home : t.Home) (ended : t.outcomes ≠ []) :
    t.Complete base w.blocks := by
  obtain ⟨nobody, whole⟩ := accounted.whole ended
  refine ⟨?_, view.formed, accounted.sequence fun label opened => ?_⟩
  · rw [view.accepted]
    simp [Wire.bytes, Wire.blocks, whole]
  · exact (home label opened).resolve_left (by simp [nobody])

/-- A turn at an event that fails spoils the data for good. -/
theorem not_complete_of_breaks (writer : Token.Writer) (cap : Option UInt64)
    {front : List Move} (back : List Move) (breaks : ((start writer cap).execute front).Breaks) :
    ¬ ∃ blocks, ((start writer cap).execute (front ++ .turn :: back)).Complete
      writer.sink.accepted blocks := by
  obtain ⟨w, accounted, visible⟩ := (accounted_start writer cap).visible_execute
    (.whole (shows_start writer cap)) front
  have view : ((start writer cap).execute front).exchange.engine.Shows writer.sink.accepted w := by
    cases visible with
    | whole view => exact view
    | broken ended =>
      exact absurd (accounted.tracks.stopped (accounted.finished.2 ended)) breaks.2.1
  obtain ⟨after, shown, tail, next, -, cut⟩ := accounted.break_turn view breaks
  obtain ⟨last, final, lost, still⟩ := next.lost_execute (accounted.lost_turn breaks) cut back
  rw [execute_append]
  exact final.not_complete lost still

/-- The stream fails after the header and two bytes of the first record, the run with it, and the
next run succeeds over what is there. -/
theorem rerun_over_cut_record :
    ∃ t, (start (.start (.fresh (.periodic 0 (by decide) none (some (35, ⟨.other, "injected"⟩)))
        none [] none) 64) none).execute
      [.register ⟨"a", "b"⟩, .run, .write 0 [5, 0, 0, 0, 0], .turn, .run, .turn] = t ∧
    t.outcomes = [.error (.io ⟨.other, "injected"⟩), .ok .empty] ∧
    ¬ ∃ blocks, t.Complete [] blocks := by
  refine ⟨_, rfl, by cbv, ?_⟩
  have breaks : ((start (.start (.fresh (.periodic 0 (by decide) none
        (some (35, ⟨.other, "injected"⟩))) none [] none) 64) none).execute
      [.register ⟨"a", "b"⟩, .run, .write 0 [5, 0, 0, 0, 0]]).Breaks := by
    refine ⟨?running, ?somebody, .io ⟨.other, "injected"⟩, ?stopped⟩
    case running => cbv
    case somebody =>
      apply List.ne_nil_of_mem (a := (⟨"a", "b"⟩, 0))
      apply List.mem_of_mem_head?
      cbv
    case stopped => cbv
  exact not_complete_of_breaks _ none [.run, .turn] breaks

/-- When a run has succeeded the data is complete if and only if no turn before was at an event
that failed. In particular a run that follows such a failure succeeds over incomplete data. -/
theorem complete_iff (writer : Token.Writer) (cap : Option UInt64) (moves : List Move)
    {s : Summary} (success : .ok s ∈ ((start writer cap).execute moves).outcomes) :
    (∃ blocks, ((start writer cap).execute moves).Complete writer.sink.accepted blocks) ↔
      ∀ front back, moves = front ++ .turn :: back →
        ¬ ((start writer cap).execute front).Breaks := by
  constructor
  · rintro complete front back rfl breaks
    exact not_complete_of_breaks writer cap back breaks complete
  · intro steady
    obtain ⟨w, accounted, view, home⟩ := (accounted_start writer cap).home_execute
      (shows_start writer cap) (by simp [Home, start, labels]) moves steady
    exact ⟨w.blocks, accounted.complete view home (List.ne_nil_of_mem success)⟩

theorem complete_iff_one_record :
    ∃ t, (start (.start .empty 64) none).execute [.register ⟨"a", "b"⟩, .run,
      .write 0 [5, 0, 0, 0, 0], .turn, .collect 0, .release 0, .turn, .turn] = t ∧
    .ok ⟨[(⟨"a", "b"⟩, ⟨1, 5, 247625837⟩)]⟩ ∈ t.outcomes ∧
    ((∃ blocks, t.Complete [] blocks) ↔ ∀ front back,
      [.register ⟨"a", "b"⟩, .run, .write 0 [5, 0, 0, 0, 0], .turn, .collect 0, .release 0, .turn,
        .turn] = front ++ .turn :: back → ¬ ((start (.start .empty 64) none).execute front).Breaks) := by
  have success : .ok ⟨[(⟨"a", "b"⟩, ⟨1, 5, 247625837⟩)]⟩ ∈
      ((start (.start .empty 64) none).execute [.register ⟨"a", "b"⟩, .run,
        .write 0 [5, 0, 0, 0, 0], .turn, .collect 0, .release 0, .turn, .turn]).outcomes := by
    apply List.mem_of_mem_head?
    cbv
  exact ⟨_, rfl, success, complete_iff _ none _ success⟩

end Multiplexer.Traffic
end DumpArchive
