import DumpArchive.Catalog
import DumpArchive.Proofs.SinkFaults
import DumpArchive.Proofs.Retries

/-! Calls of a writer, one after the other, over any sink. Each call hands its items over one by one
until one is refused or does not go out whole; what the sink has accepted and what the writer has
counted is the account of all of them, whatever became of the calls before. -/
namespace DumpArchive

/-- A document that says what follows on the stream. -/
inductive Heading where
  | archive (header : ArchiveHeader)
  | collection (header : CollectionHeader)
  | entry (e : CatalogEntry)

def Heading.record : Heading → Bytes
  | .archive header => header.record
  | .collection header => header.record
  | .entry e => e.record

namespace Token.Writer

/-- What is handed over in one piece, and counted when all of it has gone out. -/
inductive Item where
  | magic
  | token (t : Token)

def Item.bytes : Item → Bytes
  | .magic => magicBytes
  | .token t => t.bytes

/-- Only records are checked before they are handed over. -/
def Item.check (max : UInt64) : Item → Except FrameError Unit
  | .token (.record b) => Record.check b max
  | _ => .ok ()

inductive Call where
  | magic
  | record (bytes : Bytes)
  | heading (h : Heading)
  | delimiter
  | catalog (c : Catalog)
  | limit (max : UInt64)
  | flush

namespace Call

def perform : Call → Writer → Except FrameError Unit × Writer
  | .magic, w => w.writeMagic
  | .record b, w => w.writeToken (.record b)
  | .heading h, w => w.writeToken (.record h.record)
  | .delimiter, w => w.writeToken .delimiter
  | .catalog c, w => c.write w
  | .limit max, w => (.ok (), { w with max })
  | .flush, w => w.flush

/-- What a call hands over, in order. -/
def items : Call → List Item
  | .magic => [.magic]
  | .record b => [.token (.record b)]
  | .heading h => [.token (.record h.record)]
  | .delimiter => [.token .delimiter]
  | .catalog c => .magic :: c.tokens.map .token
  | .limit _ => []
  | .flush => []

end Call

/-- Makes some calls and gives the answers. An error does not keep the next call from being made. -/
def performAll : List Call → Writer → List (Except FrameError Unit) × Writer
  | [], w => ([], w)
  | call :: rest, w =>
    let (answer, w) := call.perform w
    let (answers, w) := performAll rest w
    (answer :: answers, w)

/-- Hands items over until one is refused or does not go out whole. -/
def send : List Item → Writer → Except FrameError Unit × Writer
  | [], w => (.ok (), w)
  | item :: rest, w => match item.check w.max with
    | .error e => (.error e, w)
    | .ok () => match w.put item.bytes with
      | (.error e, w) => (.error e, w)
      | (.ok (), w) => send rest w

/-- The same over raw calls of the sink, given up when `fuel` of them have not been enough for one
item. -/
def sendWithin (fuel : Nat) : List Item → Writer → Option (Except FrameError Unit × Writer)
  | [], w => some (.ok (), w)
  | item :: rest, w => match item.check w.max with
    | .error e => some (.error e, w)
    | .ok () => match w.sink.writeAllWithin stuck fuel item.bytes with
      | none => none
      | some (.error e, sink) => some (.error (.io e), { w with sink })
      | some (.ok (), sink) =>
        sendWithin fuel rest { w with sink, written := w.written + item.bytes.length }

def Call.performWithin (fuel : Nat) (call : Call) (w : Writer) :
    Option (Except FrameError Unit × Writer) :=
  match call with
  | .limit max => some (.ok (), { w with max })
  | .flush => match w.sink.flushWithin fuel with
    | none => none
    | some (.error e, sink) => some (.error (.io e), { w with sink })
    | some (.ok (), sink) => some (.ok (), { w with sink })
  | call => sendWithin fuel call.items w

def performAllWithin (fuel : Nat) :
    List Call → Writer → Option (List (Except FrameError Unit) × Writer)
  | [], w => some ([], w)
  | call :: rest, w => match call.performWithin fuel w with
    | none => none
    | some (answer, w) => match performAllWithin fuel rest w with
      | none => none
      | some (answers, w) => some (answer :: answers, w)

/-! ### Calls by their items -/

variable {w next other : Writer} {item : Item} {items rest : List Item}

theorem writeToken_eq_send (t : Token) (w : Writer) : w.writeToken t = w.send [.token t] := by
  cases t with
  | delimiter =>
    simp only [writeToken, send, Item.check, Item.bytes, Token.bytes]
    split <;> simp_all
  | record b =>
    simp only [writeToken, send, Item.check, Item.bytes, Token.bytes]
    repeat' split
    all_goals simp_all

theorem send_cons (item : Item) (rest : List Item) (w : Writer) :
    w.send (item :: rest) = match w.send [item] with
      | (.error e, w) => (.error e, w)
      | (.ok (), w) => w.send rest := by
  simp only [send]
  repeat' split
  all_goals simp_all

theorem writeTokens_eq_send (tokens : List Token) (w : Writer) :
    w.writeTokens tokens = w.send (tokens.map .token) := by
  induction tokens generalizing w with
  | nil => rfl
  | cons t tokens ih =>
    rw [writeTokens, List.map_cons, send_cons, writeToken_eq_send]
    rcases w.send [.token t] with ⟨e | ⟨⟨⟩⟩, w⟩
    · rfl
    · exact ih w

theorem writeMagic_eq_send (w : Writer) : w.writeMagic = w.send [.magic] := by
  simp only [writeMagic, send, Item.check, Item.bytes]
  split <;> simp_all

theorem write_eq_send (c : Catalog) (w : Writer) :
    c.write w = w.send (.magic :: c.tokens.map .token) := by
  rw [Catalog.write, send_cons, writeMagic_eq_send]
  rcases w.send [.magic] with ⟨e | ⟨⟨⟩⟩, w⟩
  · rfl
  · exact writeTokens_eq_send c.tokens w

/-- A call hands something over, sets the limit or flushes. -/
theorem Call.kinds (call : Call) :
    call.items ≠ [] ∨ (∃ max, call = .limit max) ∨ call = .flush := by
  cases call <;> simp [Call.items]

/-- Every call that hands something over does it item by item. -/
theorem Call.perform_eq_send (call : Call) (w : Writer) (hands : call.items ≠ []) :
    call.perform w = w.send call.items := by
  cases call with
  | magic => exact writeMagic_eq_send w
  | record b => exact writeToken_eq_send (.record b) w
  | heading h => exact writeToken_eq_send (.record h.record) w
  | delimiter => exact writeToken_eq_send .delimiter w
  | catalog c => exact write_eq_send c w
  | limit max => exact absurd rfl hands
  | flush => exact absurd rfl hands

theorem Call.performWithin_eq (call : Call) (hands : call.items ≠ []) (fuel : Nat) (w : Writer) :
    call.performWithin fuel w = w.sendWithin fuel call.items := by
  cases call with
  | limit | flush => exact absurd rfl hands
  | _ => rfl

/-! ### What becomes of the items -/

/-- The writer `next` is `w` after `out` has gone out, `count` bytes of it in whole items. -/
structure Accounts (w : Writer) (out : Bytes) (count : Nat) (next : Writer) : Prop where
  accepted : next.sink.accepted = w.sink.accepted ++ out
  written : next.written = w.written + count

theorem Accounts.trans {front back : Bytes} {n m : Nat} (first : w.Accounts front n next)
    (second : next.Accounts back m other) : w.Accounts (front ++ back) (n + m) other where
  accepted := by rw [second.accepted, first.accepted, List.append_assoc]
  written := by rw [second.written, first.written, Nat.add_assoc]

/-- Items of one call under a limit, with the answer to the call, all that has gone out of them and
how much of it in whole items. They go out whole up to one that is refused, of which nothing goes
out, or one that meets an error of the stream, of which a strict part does. -/
inductive Sent (max : UInt64) : List Item → Except FrameError Unit → Bytes → Nat → Prop
  | done : Sent max [] (.ok ()) [] 0
  | whole {item : Item} {rest : List Item} {answer : Except FrameError Unit} {out : Bytes}
      {count : Nat} : item.check max = .ok () → Sent max rest answer out count →
      Sent max (item :: rest) answer (item.bytes ++ out) (item.bytes.length + count)
  | cut {item : Item} {rest : List Item} {part : Bytes} {e : IoError} :
      item.check max = .ok () → part <+: item.bytes → part ≠ item.bytes →
      Sent max (item :: rest) (.error (.io e)) part 0
  | refused {item : Item} {rest : List Item} {e : FrameError} : item.check max = .error e →
      Sent max (item :: rest) (.error e) [] 0

/-- The account of some calls under a limit: their answers, all that has gone out and how much of
it in whole items. Only the calls that set it change the limit, and flushes put nothing out. -/
inductive Ledger : UInt64 → List Call → List (Except FrameError Unit) → Bytes → Nat → Prop
  | done {max : UInt64} : Ledger max [] [] [] 0
  | limit {max next : UInt64} {rest : List Call} {answers : List (Except FrameError Unit)}
      {out : Bytes} {count : Nat} : Ledger next rest answers out count →
      Ledger max (.limit next :: rest) (.ok () :: answers) out count
  | flush {max : UInt64} {rest : List Call} {answer : Except FrameError Unit}
      {answers : List (Except FrameError Unit)} {out : Bytes} {count : Nat} :
      (∀ e, answer = .error e → ∃ broken, e = .io broken) → Ledger max rest answers out count →
      Ledger max (.flush :: rest) (answer :: answers) out count
  | handed {max : UInt64} {call : Call} {rest : List Call} {answer : Except FrameError Unit}
      {answers : List (Except FrameError Unit)} {front back : Bytes} {n m : Nat} :
      call.items ≠ [] → Sent max call.items answer front n → Ledger max rest answers back m →
      Ledger max (call :: rest) (answer :: answers) (front ++ back) (n + m)

theorem alike_put (b : Bytes) (w : Writer) : w.sink.Alike (w.put b).2.sink := by
  have alike := Sink.writeAll_alike stuck b w.sink
  unfold put
  split <;> simp_all

theorem max_put (b : Bytes) (w : Writer) : (w.put b).2.max = w.max := by
  unfold put
  split <;> rfl

theorem accounts_of_put {b : Bytes} (h : w.put b = (.ok (), next)) :
    w.Accounts b b.length next := by
  refine ⟨(wrote_of_put h).accepted, ?_⟩
  unfold put at h
  split at h
  · simp at h
  · obtain rfl := by simpa using h
    rfl

theorem cut_of_put {b : Bytes} {e : FrameError} (h : w.put b = (.error e, next)) :
    ∃ part broken, e = .io broken ∧ part <+: b ∧ part ≠ b ∧ w.Accounts part 0 next := by
  unfold put at h
  split at h
  · next broken sink failed =>
    obtain ⟨part, front, cut, accepted⟩ := Sink.accepted_of_writeAll_error failed
    obtain ⟨rfl, rfl⟩ := by simpa using h
    exact ⟨part, broken, rfl, front, cut, accepted, rfl⟩
  · simp at h

/-- What stays as it is while items are handed over. -/
theorem send_frame (items : List Item) (w : Writer) :
    (w.send items).2.max = w.max ∧ w.sink.Alike (w.send items).2.sink := by
  induction items generalizing w with
  | nil => exact ⟨rfl, .refl _⟩
  | cons item rest ih =>
    have limit := max_put item.bytes w
    have alike := alike_put item.bytes w
    simp only [send]
    split
    · exact ⟨rfl, .refl _⟩
    · split
      · simp_all
      · next mid put =>
        rw [put] at limit alike
        obtain ⟨same, like⟩ := ih mid
        exact ⟨same.trans limit, alike.trans like⟩

theorem sent_send (items : List Item) (w : Writer) :
    ∃ out count, Sent w.max items (w.send items).1 out count ∧
      w.Accounts out count (w.send items).2 := by
  induction items generalizing w with
  | nil => exact ⟨[], 0, .done, by simp [send], rfl⟩
  | cons item rest ih =>
    simp only [send]
    split
    · next e bad => exact ⟨[], 0, .refused bad, by simp, rfl⟩
    · next passed =>
      split
      · next e mid failed =>
        obtain ⟨part, broken, rfl, front, cut, accounts⟩ := cut_of_put failed
        exact ⟨part, 0, .cut passed front cut, accounts⟩
      · next mid put =>
        have limit : mid.max = w.max := by simpa [put] using max_put item.bytes w
        obtain ⟨out, count, sent, accounts⟩ := ih mid
        rw [limit] at sent
        exact ⟨_, _, .whole passed sent, (accounts_of_put put).trans accounts⟩

theorem flush_cases (w : Writer) :
    (∀ e, w.flush.1 = .error e → ∃ broken, e = .io broken) ∧ w.Accounts [] 0 w.flush.2 ∧
      w.flush.2.max = w.max := by
  refine ⟨fun e failed => ?_, ⟨by simp [wrote_flush], ?_⟩, max_flush w⟩
  · unfold flush at failed
    split at failed
    · next broken sink flushed => exact ⟨broken, by simpa using failed.symm⟩
    · simp at failed
  · unfold flush
    split <;> rfl

theorem ledger_performAll (calls : List Call) (w : Writer) :
    ∃ out count, Ledger w.max calls (performAll calls w).1 out count ∧
      w.Accounts out count (performAll calls w).2 := by
  induction calls generalizing w with
  | nil => exact ⟨[], 0, .done, by simp [performAll], rfl⟩
  | cons call rest ih =>
    rcases call.kinds with hands | ⟨max, rfl⟩ | rfl
    · obtain ⟨front, n, sent, first⟩ := sent_send call.items w
      obtain ⟨back, m, ledger, second⟩ := ih (w.send call.items).2
      rw [(send_frame call.items w).1] at ledger
      simp only [performAll, call.perform_eq_send w hands]
      exact ⟨_, _, .handed hands sent ledger, first.trans second⟩
    · obtain ⟨out, count, ledger, accounts⟩ := ih { w with max }
      exact ⟨out, count, .limit ledger, accounts.accepted, accounts.written⟩
    · obtain ⟨broken, first, limit⟩ := flush_cases w
      obtain ⟨out, count, ledger, second⟩ := ih w.flush.2
      rw [limit] at ledger
      have both := first.trans second
      rw [List.nil_append, Nat.zero_add] at both
      exact ⟨out, count, .flush broken ledger, both⟩

theorem Sent.count_le {max : UInt64} {items : List Item} {answer : Except FrameError Unit}
    {out : Bytes} {count : Nat} (sent : Sent max items answer out count) : count ≤ out.length := by
  induction sent with
  | done => exact Nat.le_refl _
  | whole good sent ih =>
    rw [List.length_append]
    omega
  | cut => exact Nat.zero_le _
  | refused => exact Nat.zero_le _

theorem Ledger.count_le {max : UInt64} {calls : List Call} {answers : List (Except FrameError Unit)}
    {out : Bytes} {count : Nat} (ledger : Ledger max calls answers out count) :
    count ≤ out.length := by
  induction ledger with
  | done => exact Nat.le_refl _
  | limit ledger ih => exact ih
  | flush broken ledger ih => exact ih
  | handed hands sent ledger ih =>
    have first := sent.count_le
    rw [List.length_append]
    omega

/-- The count stays within the bytes that the sink has accepted, so a word of 64 bits holds it until
these are `2 ^ 64`. -/
theorem written_le_length (sink : Sink) (max : UInt64) (calls : List Call) :
    sink.accepted.length + (performAll calls (.start sink max)).2.written ≤
      (performAll calls (.start sink max)).2.sink.accepted.length := by
  obtain ⟨out, count, ledger, accounts⟩ := ledger_performAll calls (.start sink max)
  have within := ledger.count_le
  have start : (Writer.start sink max).written = 0 := rfl
  have same : (Writer.start sink max).sink = sink := rfl
  rw [accounts.written, accounts.accepted, start, same, List.length_append]
  omega

/-! ### Every call ends -/

/-- With enough fuel, and then with any more, a loop over raw calls comes to a result. -/
def Ends {α : Type} (loop : Nat → Option α) (result : α) : Prop :=
  ∃ enough, ∀ fuel, enough ≤ fuel → loop fuel = some result

theorem ends_send (hard : w.sink.Hard) (items : List Item) :
    Ends (w.sendWithin · items) (w.send items) := by
  induction items generalizing w with
  | nil => exact ⟨0, fun _ _ => rfl⟩
  | cons item rest ih =>
    let calls := item.bytes.length * (w.sink.schedule.patience + 1)
    have loop (fuel : Nat) (enough : calls ≤ fuel) :=
      Sink.writeAllWithin_eq hard stuck item.bytes fuel enough
    have alike := Sink.writeAll_alike stuck item.bytes w.sink
    cases checked : item.check w.max with
    | error e => exact ⟨0, fun _ _ => by simp only [sendWithin, send, checked]⟩
    | ok =>
      match whole : w.sink.writeAll stuck item.bytes with
      | (.error e, sink) =>
        refine ⟨calls, fun fuel enough => ?_⟩
        simp only [sendWithin, send, put, checked, loop fuel enough, whole]
      | (.ok (), sink) =>
        rw [whole] at alike
        let mid : Writer := { w with sink, written := w.written + item.bytes.length }
        obtain ⟨enough, ends⟩ := ih (w := mid) (alike.hard hard)
        refine ⟨Max.max calls enough, fun fuel most => ?_⟩
        have here := loop fuel (Nat.le_trans (Nat.le_max_left ..) most)
        simp only [sendWithin, send, put, checked, here, whole]
        exact ends fuel (Nat.le_trans (Nat.le_max_right ..) most)

theorem ends_perform (hard : w.sink.Hard) (call : Call) :
    Ends (call.performWithin · w) (call.perform w) := by
  rcases call.kinds with hands | ⟨max, rfl⟩ | rfl
  · simp only [call.performWithin_eq hands, call.perform_eq_send w hands]
    exact ends_send hard call.items
  · exact ⟨0, fun _ _ => rfl⟩
  · refine ⟨w.sink.flushes.length + 1, fun fuel enough => ?_⟩
    simp only [Call.performWithin, Call.perform, flush, Sink.flushWithin_eq hard fuel enough]
    split <;> simp_all

theorem hard_perform (hard : w.sink.Hard) (call : Call) : (call.perform w).2.sink.Hard := by
  rcases call.kinds with hands | ⟨max, rfl⟩ | rfl
  · rw [call.perform_eq_send w hands]
    exact (send_frame call.items w).2.hard hard
  · exact hard
  · have after : w.flush.2.sink = w.sink.flushAgain.2 := by
      unfold flush
      split <;> simp_all
    simp only [Call.perform, after, Sink.flushAgain, Sink.flush]
    repeat' split
    all_goals exact ⟨hard.fault, hard.flush⟩

theorem ends_performAll (hard : w.sink.Hard) (calls : List Call) :
    Ends (performAllWithin · calls w) (performAll calls w) := by
  induction calls generalizing w with
  | nil => exact ⟨0, fun _ _ => rfl⟩
  | cons call rest ih =>
    obtain ⟨first, here⟩ := ends_perform hard call
    obtain ⟨others, there⟩ := ih (hard_perform hard call)
    refine ⟨Max.max first others, fun fuel enough => ?_⟩
    have made := here fuel (Nat.le_trans (Nat.le_max_left ..) enough)
    have more := there fuel (Nat.le_trans (Nat.le_max_right ..) enough)
    simp only at made more
    simp only [performAllWithin, made, more, performAll]

/-! ### Short writes and interruptions -/

/-- The sinks differ in their calls only, and nothing else does. -/
structure Twin (w other : Writer) : Prop where
  sink : w.sink.Twin other.sink
  limit : other.max = w.max
  written : other.written = w.written

theorem Twin.put (twin : w.Twin other) (b : Bytes) :
    (other.put b).1 = (w.put b).1 ∧ (w.put b).2.Twin (other.put b).2 := by
  obtain ⟨same, sinks⟩ := twin.sink.writeAll stuck b
  match whole : w.sink.writeAll stuck b, also : other.sink.writeAll stuck b with
  | (.error e, sink), (answer, last) =>
    simp only [whole, also] at same sinks
    subst same
    simp only [Writer.put, whole, also]
    exact ⟨trivial, sinks, twin.limit, twin.written⟩
  | (.ok (), sink), (answer, last) =>
    simp only [whole, also] at same sinks
    subst same
    simp only [Writer.put, whole, also]
    exact ⟨trivial, sinks, twin.limit, congrArg (· + b.length) twin.written⟩

theorem Twin.send (twin : w.Twin other) (items : List Item) :
    (other.send items).1 = (w.send items).1 ∧ (w.send items).2.Twin (other.send items).2 := by
  induction items generalizing w other with
  | nil => exact ⟨rfl, twin⟩
  | cons item rest ih =>
    obtain ⟨same, puts⟩ := twin.put item.bytes
    simp only [Writer.send, twin.limit]
    cases item.check w.max with
    | error e => exact ⟨rfl, twin⟩
    | ok =>
      match first : w.put item.bytes, second : other.put item.bytes with
      | (.error e, mid), (answer, last) =>
        simp only [first, second] at same puts
        subst same
        exact ⟨rfl, puts⟩
      | (.ok (), mid), (answer, last) =>
        simp only [first, second] at same puts
        subst same
        exact ih puts

theorem Twin.flush (twin : w.Twin other) :
    other.flush.1 = w.flush.1 ∧ w.flush.2.Twin other.flush.2 := by
  obtain ⟨same, sinks⟩ := twin.sink.flushAgain
  match first : w.sink.flushAgain, second : other.sink.flushAgain with
  | (.error e, sink), (answer, last) =>
    simp only [first, second] at same sinks
    subst same
    simp only [Writer.flush, first, second]
    exact ⟨trivial, sinks, twin.limit, twin.written⟩
  | (.ok (), sink), (answer, last) =>
    simp only [first, second] at same sinks
    subst same
    simp only [Writer.flush, first, second]
    exact ⟨trivial, sinks, twin.limit, twin.written⟩

theorem Twin.perform (twin : w.Twin other) (call : Call) :
    (call.perform other).1 = (call.perform w).1 ∧
      (call.perform w).2.Twin (call.perform other).2 := by
  rcases call.kinds with hands | ⟨max, rfl⟩ | rfl
  · rw [call.perform_eq_send w hands, call.perform_eq_send other hands]
    exact twin.send call.items
  · exact ⟨rfl, twin.sink, rfl, twin.written⟩
  · exact twin.flush

theorem Twin.performAll (twin : w.Twin other) (calls : List Call) :
    (performAll calls other).1 = (performAll calls w).1 ∧
      (performAll calls w).2.Twin (performAll calls other).2 := by
  induction calls generalizing w other with
  | nil => exact ⟨rfl, twin⟩
  | cons call rest ih =>
    obtain ⟨same, first⟩ := twin.perform call
    obtain ⟨others, last⟩ := ih first
    simp only [Writer.performAll, same, others]
    exact ⟨trivial, last⟩

/-- Any calls of a writer over any sink whose faults are no interruptions. Made over raw calls of
the sink they all end. The sink has accepted, call by call, the items that were written, a strict
part of each item that failed with an error of the stream, and nothing of an item that was refused;
the writer has counted the items that were written. If the sink takes something whenever it can,
answers, accepted bytes and count are those of the same sink with no write cut short and no call
interrupted. -/
theorem accounted_performAll (w : Writer) (hard : w.sink.Hard) (calls : List Call) :
    Ends (performAllWithin · calls w) (performAll calls w) ∧
    (∃ out count, Ledger w.max calls (performAll calls w).1 out count ∧
      (performAll calls w).2.sink.accepted = w.sink.accepted ++ out ∧
      (performAll calls w).2.written = w.written + count) ∧
    (w.sink.schedule.Moving →
      let plain := performAll calls { w with sink := w.sink.smooth }
      (performAll calls w).1 = plain.1 ∧
      (performAll calls w).2.sink.accepted = plain.2.sink.accepted ∧
      (performAll calls w).2.written = plain.2.written) := by
  refine ⟨ends_performAll hard calls, ?_, fun moving => ?_⟩
  · obtain ⟨out, count, ledger, accounts⟩ := ledger_performAll calls w
    exact ⟨out, count, ledger, accounts.accepted, accounts.written⟩
  · have twin : Twin { w with sink := w.sink.smooth } w := ⟨Sink.twin_smooth moving, rfl, rfl⟩
    obtain ⟨answers, last⟩ := twin.performAll calls
    exact ⟨answers, last.sink.accepted, last.written⟩

/-- Three bytes at a time, every second write and the first flush interrupted, and a fault inside
the delimiter. -/
theorem accounted_performAll_cut_delimiter :
    let broken : IoError := ⟨.other, "injected"⟩
    let schedule := Stream.Schedule.periodic 2 (by decide) (some 3) (some (7, broken))
    let w := Writer.start (.fresh schedule none [Sink.interruption] none) 5
    let calls : List Call := [.record [5, 0, 0, 0, 0], .flush, .delimiter, .record [1]]
    w.sink.Hard ∧ w.sink.schedule.Moving ∧
      (performAll calls w).1 = [.ok (), .ok (), .error (.io broken),
        .error (.invalidRecord (.tooShort 1))] ∧
      (performAll calls w).2.sink.accepted = [5, 0, 0, 0, 0, 255, 255] ∧
      (performAll calls w).2.written = 5 := by
  intro broken schedule w calls
  have hard : w.sink.Hard := by
    refine ⟨fun place e fault => ?_, fun e fault => ?_⟩
    · obtain ⟨rfl, rfl⟩ : 7 = place ∧ broken = e := by simpa using Option.some.inj fault
      decide
    · cases fault
  have moving : w.sink.schedule.Moving := fun call => by
    simp [w, schedule, Writer.start, Sink.fresh, Stream.Schedule.periodic]
  obtain ⟨-, -, same⟩ := accounted_performAll w hard calls
  obtain ⟨answers, accepted, written⟩ := same moving
  refine ⟨hard, moving, ?_, ?_, ?_⟩
  · rw [answers]
    cbv
  · rw [accepted]
    cbv
  · rw [written]
    cbv

end Token.Writer
end DumpArchive
