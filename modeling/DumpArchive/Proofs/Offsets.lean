import DumpArchive.Proofs.Requests

/-! The offset of a reader and the position of its stream. They part in one way only: a request for
bytes takes some of them and then meets the fault. What it has taken is counted here as lost. -/
namespace DumpArchive

namespace Source

/-- The bytes that a request takes from the stream before it fails. -/
def lost (want : Nat) (s : Source) : Nat :=
  match s.fill want with
  | (.ok _, _) => 0
  | (.error _, next) => next.position - s.position

theorem lost_of_ok {want : Nat} {s next : Source} {data : Bytes}
    (h : s.fill want = (.ok data, next)) : s.lost want = 0 := by
  simp only [lost, h]

theorem lost_of_error {want : Nat} {s next : Source} {e : IoError}
    (h : s.fill want = (.error e, next)) : s.lost want = next.position - s.position := by
  simp only [lost, h]

theorem position_of_read_error {want : Nat} {s next : Source} {e : IoError}
    (h : s.read want = (.error e, next)) : next.position = s.position := by
  simp only [read] at h
  split at h
  · obtain ⟨-, rfl⟩ := by simpa using h
    rfl
  · simp at h

theorem position_fill_ge (want : Nat) (s : Source) : s.position ≤ (s.fill want).2.position := by
  have left := s.pending_fill_le want
  have extent := s.extent_fill want
  simp only [Source.extent] at extent
  omega

/-- No request goes beyond the fault. -/
theorem position_fillOnto_le {place : Nat} {e : IoError} (taken : Bytes) (want : Nat) (s : Source)
    (fault : s.schedule.fault = some (place, e)) :
    (s.fillOnto taken want).2.position ≤ max s.position place := by
  fun_induction fillOnto taken want s with
  | case1 taken s => exact Nat.le_max_left ..
  | case2 taken want s more f next failed =>
    rw [position_of_read_error failed]
    exact Nat.le_max_left ..
  | case3 taken want s more next answered =>
    obtain ⟨-, position, -⟩ := of_read answered
    rw [position]
    exact Nat.le_max_left ..
  | case4 taken want s more b chunk next answered ih =>
    obtain ⟨-, position, unharmed⟩ := of_read answered
    have same : next.schedule = s.schedule := by simpa [answered] using schedule_read want s
    have before := unharmed place e fault
    exact Nat.le_trans (ih (same ▸ fault)) (by omega)

/-- A request that fails does so with the fault of the stream, and where that is. -/
theorem of_fillOnto_error {taken : Bytes} {want : Nat} {s next : Source} {e : IoError}
    (h : s.fillOnto taken want = (.error e, next)) :
    ∃ place, s.schedule.fault = some (place, e) ∧ place ≤ next.position := by
  fun_induction fillOnto taken want s with
  | case1 => simp at h
  | case2 taken want s more f mid failed =>
    obtain ⟨rfl, rfl⟩ := by simpa using h
    rw [position_of_read_error failed]
    exact of_read_error failed
  | case3 => simp at h
  | case4 taken want s more b chunk mid answered ih =>
    have same : mid.schedule = s.schedule := by simpa [answered] using schedule_read want s
    exact same ▸ ih h

end Source

namespace Token.Reader

/-- What calls that lose `lost` bytes do to the position of the stream and to the offset. -/
structure Books (r : Reader) (lost : Nat) (next : Reader) : Prop where
  schedule : next.source.schedule = r.source.schedule
  extent : next.source.extent = r.source.extent
  taken : r.source.position ≤ next.source.position
  counted : r.offset ≤ next.offset
  balance : next.source.position + r.offset = r.source.position + next.offset + lost
  within : ∀ place e, r.source.schedule.fault = some (place, e) →
    next.source.position ≤ Max.max r.source.position place

/-- What a call does. Bytes are lost only if it fails with the fault of the stream. -/
structure Account {α : Type} (r : Reader) (lost : Nat) (answer : Except FrameError α)
    (next : Reader) : Prop extends r.Books lost next where
  failed : lost ≠ 0 → ∃ place e, r.source.schedule.fault = some (place, e) ∧
    place ≤ next.source.position ∧ answer = .error (.io e)

variable {α β : Type} {r mid next : Reader} {first last : Nat} {answer : Except FrameError α}
  {other : Except FrameError β} {a : α}

theorem Books.rfl : r.Books 0 r where
  schedule := .refl _
  extent := .refl _
  taken := Nat.le_refl _
  counted := Nat.le_refl _
  balance := .refl _
  within _ _ _ := Nat.le_max_left ..

theorem Books.trans (before : r.Books first mid) (after : mid.Books last next) :
    r.Books (first + last) next where
  schedule := after.schedule.trans before.schedule
  extent := after.extent.trans before.extent
  taken := Nat.le_trans before.taken after.taken
  counted := Nat.le_trans before.counted after.counted
  balance := by
    have one := before.balance
    have two := after.balance
    omega
  within place e fault := by
    have one := before.within place e fault
    have two := after.within place e (before.schedule ▸ fault)
    omega

/-- Once the fault has been reached nothing is taken, counted or lost any more. -/
theorem Books.still {place : Nat} {e : IoError} (books : r.Books first next)
    (fault : r.source.schedule.fault = some (place, e)) (reached : place ≤ r.source.position) :
    next.source.position = r.source.position ∧ next.offset = r.offset ∧ first = 0 := by
  have taken := books.taken
  have counted := books.counted
  have balance := books.balance
  have within := books.within place e fault
  omega

/-- Calls that lose bytes end at the fault. -/
theorem Books.stops {place : Nat} {e : IoError} (books : r.Books first next)
    (fault : r.source.schedule.fault = some (place, e)) (reached : place ≤ next.source.position)
    (some : first ≠ 0) : next.source.position = place := by
  have within := books.within place e fault
  by_contra beyond
  obtain ⟨-, -, nothing⟩ := books.still fault (by omega)
  exact some nothing

theorem Account.rfl : r.Account 0 answer r := ⟨Books.rfl, fun some => absurd (.refl _) some⟩

/-- What is made of an answer does not matter as long as failures stay what they are. -/
theorem Account.map (account : r.Account first answer next)
    (same : ∀ e, answer = .error e → other = .error e) : r.Account first other next where
  toBooks := account.toBooks
  failed some := by
    obtain ⟨place, e, fault, reached, failed⟩ := account.failed some
    exact ⟨place, e, fault, reached, same _ failed⟩

/-- An answer costs nothing. -/
theorem Account.lost_of_ok (account : r.Account first (.ok a) next) : first = 0 := by
  by_contra some
  obtain ⟨place, e, fault, reached, failed⟩ := account.failed some
  cases failed

theorem Account.trans (before : r.Account first (.ok a) mid) (after : mid.Account last other next) :
    r.Account (first + last) other next where
  toBooks := before.toBooks.trans after.toBooks
  failed some := by
    obtain rfl := before.lost_of_ok
    rw [← before.schedule]
    exact after.failed (by omega)

theorem account_readRaw (n : Nat) (r : Reader) :
    r.Account (r.source.lost n) (r.readRaw n).1 (r.readRaw n).2 := by
  have schedule := r.source.schedule_fill n
  have extent := r.source.extent_fill n
  have taken := r.source.position_fill_ge n
  have within (place : Nat) (e : IoError) (fault : r.source.schedule.fault = some (place, e)) :
      (r.source.fill n).2.position ≤ Max.max r.source.position place :=
    Source.position_fillOnto_le [] n r.source fault
  unfold readRaw
  match filled : r.source.fill n with
  | (.ok bytes, source) =>
    rw [filled] at schedule extent taken within
    have position := Source.position_of_fill filled
    rw [Source.lost_of_ok filled]
    refine ⟨⟨schedule, extent, taken, Nat.le_add_right .., ?_, within⟩, by simp⟩
    simp only
    omega
  | (.error e, source) =>
    rw [filled] at schedule extent taken within
    obtain ⟨place, fault, reached⟩ := Source.of_fillOnto_error filled
    rw [Source.lost_of_error filled]
    refine ⟨⟨schedule, extent, taken, Nat.le_refl _, ?_, within⟩, fun _ => ?_⟩
    · simp only at taken ⊢
      omega
    · exact ⟨place, e, fault, reached, .refl _⟩

theorem account_readLead (r : Reader) :
    r.Account (r.source.lost 4) r.readLead.1 r.readLead.2 := by
  have raw := account_readRaw 4 r
  unfold readLead
  match read : r.readRaw 4 with
  | (.error e, next) =>
    rw [read] at raw
    exact raw.map fun e same => by simpa using same
  | (.ok four, next) =>
    rw [read] at raw
    dsimp only
    repeat' split
    all_goals exact raw.map (by simp)

theorem account_readBody (start : Nat) (four : Bytes) (size : Nat) (r : Reader) :
    r.Account (r.source.lost (size - 4)) (r.readBody start four size).1
      (r.readBody start four size).2 := by
  have raw := account_readRaw (size - 4) r
  unfold readBody
  match read : r.readRaw (size - 4) with
  | (.error e, next) =>
    rw [read] at raw
    exact raw.map fun e same => by simpa using same
  | (.ok body, next) =>
    rw [read] at raw
    dsimp only
    repeat' split
    all_goals exact raw.map (by simp)

/-- What the next token loses: of its length, or of what is behind a length. -/
def lostToken (r : Reader) : Nat :=
  r.source.lost 4 + match r.readLead with
    | (.ok (some (_, .record size)), next) => next.source.lost (size - 4)
    | _ => 0

theorem account_readToken (r : Reader) :
    r.Account r.lostToken r.readToken.1 r.readToken.2 := by
  have lead := account_readLead r
  unfold lostToken readToken
  match read : r.readLead with
  | (.error e, next) | (.ok none, next) | (.ok (some (four, .delimiter)), next) =>
    rw [read] at lead
    exact lead.map (by simp)
  | (.ok (some (four, .record size)), next) =>
    rw [read] at lead
    have body := account_readBody r.offset four size next
    dsimp only
    match whole : next.readBody r.offset four size with
    | (.error e, last) | (.ok bytes, last) =>
      rw [whole] at body
      exact lead.trans (body.map (by simp))

theorem account_nextRecord (r : Reader) :
    r.Account r.lostToken r.nextRecord.1 r.nextRecord.2 := by
  have token := account_readToken r
  unfold nextRecord
  match read : r.readToken with
  | (.error e, next) | (.ok none, next) | (.ok (some .delimiter), next)
  | (.ok (some (.record bytes)), next) =>
    rw [read] at token
    exact token.map (by simp)

end Token.Reader

namespace Block

open Token (Reader)

variable {σ : Type} {whole : Bool} {handler : Handler σ} {place : Place} {state : σ}
  {r next : Reader}

theorem account_nextPart (place : Place) (r : Reader) :
    r.Account r.lostToken (nextPart place r).1 (nextPart place r).2 := by
  have token := Reader.account_readToken r
  unfold nextPart
  match read : r.readToken, place with
  | (.error e, next), _ =>
    rw [read] at token
    exact token.map (by simp)
  | (.ok none, next), .between | (.ok none, next), .inside
  | (.ok (some .delimiter), next), .between | (.ok (some .delimiter), next), .inside
  | (.ok (some (.record bytes)), next), .between | (.ok (some (.record bytes)), next), .inside =>
    rw [read] at token
    exact token.map (by simp)

/-- What reading blocks loses, as far as the handler lets it go. -/
def lost (whole : Bool) (handler : Handler σ) (place : Place) (state : σ) (r : Reader) : Nat :=
  r.lostToken + match _found : nextPart place r with
    | (.ok (.header offset record), next) => match handler.header offset record state with
      | (.ok (), state) => lost whole handler .inside state next
      | (.error _, _) => 0
    | (.ok (.body offset record), next) => match handler.body offset record state with
      | (.ok (), state) => lost whole handler .inside state next
      | (.error _, _) => 0
    | (.ok .close, next) => if whole then lost whole handler .between state next else 0
    | (.ok (.finish _), _) => 0
    | (.error _, _) => 0
termination_by r.remaining
decreasing_by all_goals exact remaining_of_nextPart _found (by simp)

theorem lost_of_part {part : Part} (found : nextPart place r = (.ok part, next)) :
    lost whole handler place state r = r.lostToken + match part with
      | .header offset record => match handler.header offset record state with
        | (.ok (), state) => lost whole handler .inside state next
        | (.error _, _) => 0
      | .body offset record => match handler.body offset record state with
        | (.ok (), state) => lost whole handler .inside state next
        | (.error _, _) => 0
      | .close => if whole then lost whole handler .between state next else 0
      | .finish _ => 0 := by
  rw [lost]
  congr 1
  split
  all_goals
    rename_i same
    cases found.symm.trans same
  all_goals rfl

theorem lost_of_error {e : FrameError} (found : nextPart place r = (.error e, next)) :
    lost whole handler place state r = r.lostToken + 0 := by
  rw [lost]
  congr 1
  split
  all_goals
    rename_i same
    cases found.symm.trans same
  rfl

theorem account_traverse (whole : Bool) (handler : Handler σ) (place : Place) (state : σ)
    (r : Reader) :
    r.Account (lost whole handler place state r) (traverse whole handler place state r).1
      (traverse whole handler place state r).2.2 := by
  induction left : r.remaining using Nat.strong_induction_on generalizing r place state with
  | _ n ih =>
    subst left
    have first := account_nextPart place r
    match found : nextPart place r with
    | (.error e, next) =>
      rw [found] at first
      rw [traverse_of_error found, lost_of_error found]
      exact first.map (by simp)
    | (.ok part, next) =>
      rw [found] at first
      rw [traverse_of_part found, lost_of_part found]
      cases part with
      | header offset record =>
        have less := remaining_of_nextPart found (by simp)
        dsimp only
        match handler.header offset record state with
        | (.error e, state) => exact first.trans .rfl
        | (.ok (), state) => exact first.trans (ih _ less .inside state next rfl)
      | body offset record =>
        have less := remaining_of_nextPart found (by simp)
        dsimp only
        match handler.body offset record state with
        | (.error e, state) => exact first.trans .rfl
        | (.ok (), state) => exact first.trans (ih _ less .inside state next rfl)
      | close =>
        have less := remaining_of_nextPart found (by simp)
        cases whole with
        | false => exact first.trans .rfl
        | true => exact first.trans (ih _ less .between state next rfl)
      | finish offset =>
        dsimp only
        match handler.finish offset state with
        | (.error e, state) => exact first.trans .rfl
        | (.ok (), state) => exact first.trans .rfl

end Block

namespace Catalog

open Token (Reader)

/-- What reading a catalog loses. -/
def lost (r : Reader) : Nat :=
  r.source.lost 4 + match r.readRaw 4 with
    | (.ok four, next) =>
      if four = Token.magicBytes then Block.lost false Draft.handler .between ⟨none, []⟩ next else 0
    | (.error _, _) => 0

theorem account_read (r : Reader) : r.Account (lost r) (read r).1 (read r).2 := by
  have raw := Reader.account_readRaw 4 r
  unfold lost read
  match front : r.readRaw 4 with
  | (.error e, next) =>
    rw [front] at raw
    exact raw.map (by simp)
  | (.ok four, next) =>
    rw [front] at raw
    dsimp only
    by_cases magic : four = Token.magicBytes
    · have long : ¬ four.length < 4 := by simp [magic, Token.magicBytes]
      rw [if_pos magic, if_neg long, if_neg (not_not.2 magic)]
      have rest := Block.account_traverse false Draft.handler .between ⟨none, []⟩ next
      rw [Block.read]
      rcases drafted : Block.traverse false Draft.handler .between ⟨none, []⟩ next with
        ⟨answer, ⟨header, entries⟩, last⟩
      rw [drafted] at rest
      rcases answer with e | _ | _
      · exact raw.trans (rest.map (by simp))
      · cases header with
        | none => exact raw.trans (rest.map (by simp))
        | some header =>
          dsimp only
          cases ofEntries header entries <;> exact raw.trans (rest.map (by simp))
      · exact raw.trans (rest.map (by simp))
    · rw [if_neg magic]
      by_cases short : four.length < 4
      · rw [if_pos short]
        exact raw.map (by simp)
      · rw [if_neg short, if_pos magic]
        exact raw.map (by simp)

end Catalog

namespace Request

variable {σ : Type} {requests : List (Request σ)} {state : σ} {r : Reader}

open Token (Reader)

/-- What a request loses. -/
def lost (q : Request σ) (state : σ) (r : Reader) : Nat :=
  match q with
  | .token | .record => r.lostToken
  | .block handler => Block.lost false handler .between state r
  | .blocks handler => Block.lost true handler .between state r
  | .raw n => r.source.lost n
  | .catalog => Catalog.lost r

theorem account_answer (q : Request σ) (state : σ) (r : Reader) :
    r.Account (q.lost state r) (q.answer state r).1 (q.answer state r).2.2 := by
  have keep {α : Type} (f : α → Reply) (answer : Except FrameError α) (e : FrameError)
      (failed : answer = .error e) : answer.map f = .error e := by simp [failed, Except.map]
  cases q with
  | token => exact (Reader.account_readToken r).map (keep _ _)
  | record => exact (Reader.account_nextRecord r).map (keep _ _)
  | block handler => exact (Block.account_traverse false handler .between state r).map (keep _ _)
  | blocks handler => exact (Block.account_traverse true handler .between state r).map (keep _ _)
  | raw n => exact (Reader.account_readRaw n r).map (keep _ _)
  | catalog => exact (Catalog.account_read r).map (keep _ _)

/-- The state of the handlers and the reader after some requests. -/
def after : List (Request σ) → σ → Reader → σ × Reader
  | [], state, r => (state, r)
  | q :: rest, state, r => after rest (q.answer state r).2.1 (q.answer state r).2.2

/-- What some requests lose together. -/
def lostIn : List (Request σ) → σ → Reader → Nat
  | [], _, _ => 0
  | q :: rest, state, r =>
    q.lost state r + lostIn rest (q.answer state r).2.1 (q.answer state r).2.2

theorem books_after (requests : List (Request σ)) (state : σ) (r : Reader) :
    r.Books (lostIn requests state r) (after requests state r).2 := by
  induction requests generalizing state r with
  | nil => exact .rfl
  | cons q rest ih => exact (q.account_answer state r).toBooks.trans (ih _ _)

/-- The offset stays within the bytes of the stream, so a word of 64 bits holds it for every stream
that is shorter than `2 ^ 64` bytes. -/
theorem offset_le_length (schedule : Stream.Schedule) (w : Bytes) (max : UInt64)
    (requests : List (Request σ)) (state : σ) :
    (after requests state (.start (.scheduled schedule w) max)).2.offset ≤ w.length := by
  have books := books_after requests state (.start (.scheduled schedule w) max)
  generalize after requests state (.start (.scheduled schedule w) max) = last at *
  have extent : last.2.source.position + last.2.source.pending.length = 0 + w.length := books.extent
  have balance : last.2.source.position + 0 = 0 + last.2.offset + _ := books.balance
  omega

theorem after_append (front back : List (Request σ)) (state : σ) (r : Reader) :
    after (front ++ back) state r = after back (after front state r).1 (after front state r).2 := by
  induction front generalizing state r with
  | nil => rfl
  | cons q rest ih => exact ih _ _

/-- Where bytes are lost, one request loses all of them and fails with the fault. -/
theorem struck_of_lost (some : lostIn requests state r ≠ 0) :
    ∃ front q back, requests = front ++ q :: back ∧ lostIn front state r = 0 ∧
      let before := after front state r
      q.lost before.1 before.2 = lostIn requests state r ∧
        ∃ place e, r.source.schedule.fault = .some (place, e) ∧
          place ≤ (q.answer before.1 before.2).2.2.source.position ∧
          (q.answer before.1 before.2).1 = .error (.io e) := by
  induction requests generalizing state r with
  | nil => exact absurd rfl some
  | cons q rest ih =>
    have account := q.account_answer state r
    by_cases none : q.lost state r = 0
    · have same : lostIn (q :: rest) state r =
          lostIn rest (q.answer state r).2.1 (q.answer state r).2.2 := by simp [lostIn, none]
      rw [same] at some ⊢
      obtain ⟨front, p, back, rfl, clean, all, place, e, fault, reached, failed⟩ := ih some
      refine ⟨q :: front, p, back, rfl, by simp [lostIn, none, clean], all, place, e, ?_, reached,
        failed⟩
      rw [← account.schedule]
      exact fault
    · obtain ⟨place, e, fault, reached, failed⟩ := account.failed none
      have later := books_after rest (q.answer state r).2.1 (q.answer state r).2.2
      obtain ⟨-, -, nothing⟩ := later.still (account.schedule ▸ fault) reached
      refine ⟨[], q, rest, rfl, rfl, ?_, place, e, fault, reached, failed⟩
      simp [lostIn, nothing, after]

/-- Any requests to a reader whose stream may deliver in pieces, interrupt calls and fail from some
position on. The position of the stream is the offset and what has been lost. Nothing is lost
before the first request that takes some bytes and then fails with the fault; from then on the
position stays at the fault, and the offset behind it by what that request has lost. -/
theorem offset_after (schedule : Stream.Schedule) (w : Bytes) (max : UInt64)
    (requests : List (Request σ)) (state : σ) :
    let start := Reader.start (.scheduled schedule w) max
    let r := (after requests state start).2
    let lost := lostIn requests state start
    r.source.position + r.source.pending.length = w.length ∧
      r.source.position = r.offset + lost ∧
      (lost = 0 ∨ ∃ front q back place e, requests = front ++ q :: back ∧
        schedule.fault = some (place, e) ∧
        let before := after front state start
        before.2.offset = before.2.source.position ∧
          (q.answer before.1 before.2).1 = .error (.io e) ∧ q.lost before.1 before.2 = lost ∧
          ∀ more, let last := (after (front ++ q :: more) state start).2
            last.source.position = place ∧ last.offset + lost = place) := by
  intro start r lost
  have books : start.Books lost r := books_after requests state start
  have extent : r.source.position + r.source.pending.length = 0 + w.length := books.extent
  have balance : r.source.position + 0 = 0 + r.offset + lost := books.balance
  refine ⟨by omega, by omega, or_iff_not_imp_left.2 fun some => ?_⟩
  obtain ⟨front, q, back, split, clean, all, place, e, fault, reached, failed⟩ :=
    struck_of_lost some
  have fault : schedule.fault = .some (place, e) := fault
  have first := books_after front state start
  rw [clean] at first
  have even : (after front state start).2.source.position + 0 =
    0 + (after front state start).2.offset + 0 := first.balance
  refine ⟨front, q, back, place, e, split, fault, by omega, failed, all, fun more => ?_⟩
  rw [after_append]
  generalize after front state start = before at *
  have struck := (q.account_answer before.1 before.2).toBooks
  have later := books_after more (q.answer before.1 before.2).2.1 (q.answer before.1 before.2).2.2
  have source : before.2.source.schedule.fault = .some (place, e) := first.schedule ▸ fault
  have stands := struck.stops source reached (all ▸ some)
  obtain ⟨position, offset, -⟩ := later.still (struck.schedule ▸ source) reached
  have balance := struck.balance
  refine ⟨position.trans stands, ?_⟩
  rw [after, offset]
  omega

/-- A record of which two bytes can be read: they are gone from the stream and not in the offset. -/
theorem offset_behind :
    let broken : IoError := ⟨.other, "injected"⟩
    let schedule := Stream.Schedule.periodic 0 (by decide) none (some (2, broken))
    let start := Reader.start (.scheduled schedule [5, 0, 0, 0, 0]) Record.defaultMax
    let r := (after [.token] () start).2
    transcript [.token] () start = [⟨.error (.io broken), (), 0⟩] ∧
      r.source.position = 2 ∧ r.source.pending = [0, 0, 0] ∧ r.offset ≠ r.source.position := by
  intro broken schedule start r
  have struck : start.source.fill 4 =
      (.error broken, ⟨schedule, [0, 0, 0], 2, 2⟩) := by
    simp [Source.fill, Source.fillOnto, start, Reader.start, Source.read, Source.scheduled,
      schedule, Stream.Schedule.periodic, Stream.Schedule.resume, Stream.Schedule.resumeWithin,
      Stream.Schedule.allowance, Stream.Schedule.atMost]
  have answered : (Request.token (σ := Unit)).answer () start =
      (.error (.io broken), (), ⟨⟨schedule, [0, 0, 0], 2, 2⟩, Record.defaultMax, 0⟩) := by
    simp only [answer, Reader.readToken, Reader.readLead, Reader.readRaw, struck]
    rfl
  have ends : r = ⟨⟨schedule, [0, 0, 0], 2, 2⟩, Record.defaultMax, 0⟩ := by
    simp only [r, after, answered]
  refine ⟨?_, by rw [ends], by rw [ends], by simp [ends]⟩
  rw [transcript_cons, answered]
  rfl

end Request
end DumpArchive
