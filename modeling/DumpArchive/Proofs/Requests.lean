import DumpArchive.Proofs.CallDemands

/-! Requests to a reader, one after the other. How a stream delivers its bytes makes no difference
to them, and a fault none before the first request that needs something at or behind it. -/
namespace DumpArchive

open Token (Reader)

/-- What can be asked of a reader; the handlers of blocks share one state. -/
inductive Request (σ : Type) where
  | token
  | record
  | block (handler : Block.Handler σ)
  | blocks (handler : Block.Handler σ)
  | raw (n : Nat)
  | catalog

inductive Reply where
  | token (t : Option Token)
  | record (bytes : Option Bytes)
  | status (s : Block.Status)
  | raw (bytes : Bytes)
  | catalog (c : Catalog)

/-- A reply with all that can be seen after it: the state of the handlers and the offset. -/
structure Response (σ : Type) where
  reply : Except FrameError Reply
  state : σ
  offset : Nat

namespace Request

variable {σ : Type}

def answer (q : Request σ) (state : σ) (r : Reader) : Except FrameError Reply × σ × Reader :=
  match q with
  | .token => let (t, next) := r.readToken; (t.map .token, state, next)
  | .record => let (bytes, next) := r.nextRecord; (bytes.map .record, state, next)
  | .block handler =>
    let (s, state, next) := Block.read handler state r; (s.map .status, state, next)
  | .blocks handler =>
    let (s, state, next) := Block.readAll handler state r; (s.map .status, state, next)
  | .raw n => let (bytes, next) := r.readRaw n; (bytes.map .raw, state, next)
  | .catalog => let (c, next) := Catalog.read r; (c.map .catalog, state, next)

/-- The responses to some requests. An error does not keep the next request from being made. -/
def transcript : List (Request σ) → σ → Reader → List (Response σ)
  | [], _, _ => []
  | q :: rest, state, r =>
    let (reply, state, next) := q.answer state r
    ⟨reply, state, next.offset⟩ :: transcript rest state next

/-- One more than the last position that a request needs. -/
def reach (q : Request σ) (state : σ) (r : Reader) : Nat :=
  match q with
  | .token | .record => r.reachToken
  | .block handler => Block.reach false handler .between state r
  | .blocks handler => Block.reach true handler .between state r
  | .raw n => r.source.reach n
  | .catalog => Catalog.reach r

/-- How far each of some requests reaches. -/
def reaches : List (Request σ) → σ → Reader → List Nat
  | [], _, _ => []
  | q :: rest, state, r =>
    let (_, next) := q.answer state r
    q.reach state r :: reaches rest next.1 next.2

variable {fault : Stream.Fault} {r other : Reader} {requests : List (Request σ)} {state : σ}

theorem answer_echo (q : Request σ) (state : σ) (twin : r.Twin fault other) :
    Echo fault (Block.Alike fault) (q.reach state r) (q.answer state r) (q.answer state other) := by
  have beside (a b : Reader) (like : a.Twin fault b) : Block.Alike fault (state, a) (state, b) :=
    ⟨rfl, like⟩
  cases q with
  | token => exact (Reader.readToken_echo twin).map Reply.token (Prod.mk state) beside
  | record => exact (Reader.nextRecord_echo twin).map Reply.record (Prod.mk state) beside
  | block handler =>
    exact (Block.traverse_echo false handler .between state twin).map Reply.status id (fun _ _ => id)
  | blocks handler =>
    exact (Block.traverse_echo true handler .between state twin).map Reply.status id (fun _ _ => id)
  | raw n => exact (Reader.readRaw_echo twin n).map Reply.raw (Prod.mk state) beside
  | catalog => exact (Catalog.read_echo twin).map Reply.catalog (Prod.mk state) beside

theorem transcript_cons (q : Request σ) (rest : List (Request σ)) (state : σ) (r : Reader) :
    transcript (q :: rest) state r =
      ⟨(q.answer state r).1, (q.answer state r).2.1, (q.answer state r).2.2.offset⟩ ::
        transcript rest (q.answer state r).2.1 (q.answer state r).2.2 := rfl

theorem reaches_cons (q : Request σ) (rest : List (Request σ)) (state : σ) (r : Reader) :
    reaches (q :: rest) state r =
      q.reach state r :: reaches rest (q.answer state r).2.1 (q.answer state r).2.2 := rfl

/-- Where all requests are before the fault nothing tells the streams apart. -/
theorem transcript_spared (twin : r.Twin fault other)
    (spared : ∀ reach ∈ reaches requests state r, fault.Spares reach) :
    transcript requests state other = transcript requests state r := by
  induction requests generalizing state r other with
  | nil => rfl
  | cons q rest ih =>
    obtain ⟨first, others⟩ := List.forall_mem_cons.1 (reaches_cons q rest state r ▸ spared)
    rcases (q.answer_echo state twin).inv with
      ⟨-, reply, a, b, told, heard, alike, like⟩ | ⟨place, e, b, found, within, -⟩
    · rw [told] at others
      rw [transcript_cons, transcript_cons, told, heard, alike, like.offset, ih like others]
    · exact absurd (first place e found) (Nat.not_le.2 within)

/-- The requests before the first that reaches behind the fault are answered as without it, and
that one fails with it. -/
theorem transcript_struck {place : Nat} {e : IoError} (requests : List (Request σ)) (state : σ)
    (twin : r.Twin (some (place, e)) other) :
    let sure := ((reaches requests state r).takeWhile (· ≤ place)).length
    (transcript requests state other).take sure = (transcript requests state r).take sure ∧
      (sure < requests.length →
        (transcript requests state other)[sure]?.map (·.reply) = some (.error (.io e))) := by
  induction requests generalizing state r other with
  | nil => simp [transcript, reaches]
  | cons q rest ih =>
    rw [transcript_cons, transcript_cons, reaches_cons]
    rcases (q.answer_echo state twin).inv with
      ⟨spared, reply, a, b, told, heard, alike, like⟩ | ⟨other, f, b, found, within, heard⟩
    · obtain ⟨same, fails⟩ := ih a.1 like
      have before : q.reach state r ≤ place := spared place e rfl
      rw [List.takeWhile_cons_of_pos (by simpa using before), told, heard, alike, like.offset]
      refine ⟨?_, fun more => ?_⟩
      · simpa using same
      · simpa using fails (by simpa using more)
    · obtain ⟨rfl, rfl⟩ := by simpa using found
      have beyond : ¬ q.reach state r ≤ place := Nat.not_le.2 within
      rw [List.takeWhile_cons_of_neg (by simpa using beyond), heard]
      simp

theorem twin_start (schedule : Stream.Schedule) (moving : schedule.Moving) (w : Bytes)
    (max : UInt64) : (Reader.start (.ofBytes w) max).Twin schedule.fault
      (.start (.scheduled schedule w) max) where
  sound := Stream.Schedule.sound_steady
  moving := moving
  fault := rfl
  pending := rfl
  position := rfl
  max := rfl
  offset := rfl

/-- Any requests to a reader whose stream delivers some bytes in pieces, interrupts calls and may
fail from some position on. Whatever is asked of the stream is answered after finitely many raw
calls. If the stream does not fail, all replies, handler states and offsets are those of a stream
that delivers the same bytes at once. If it fails, they are the same up to the first request that
needs a byte, or the end of the input, at or behind the place of the fault; that request fails
with the fault itself. -/
theorem transcript_scheduled (schedule : Stream.Schedule) (moving : schedule.Moving) (w : Bytes)
    (max : UInt64) (requests : List (Request σ)) (state : σ) :
    let told := transcript requests state (.start (.ofBytes w) max)
    let heard := transcript requests state (.start (.scheduled schedule w) max)
    let reached := reaches requests state (.start (.ofBytes w) max)
    (∀ (s : Source) (want : Nat), s.schedule = schedule →
      ∃ calls ≤ want * (schedule.patience + 1), ∀ fuel, calls ≤ fuel →
        s.fillWithin fuel [] want = some (s.fill want)) ∧
    (schedule.fault = none → heard = told) ∧
    (∀ place e, schedule.fault = some (place, e) →
      let sure := (reached.takeWhile (· ≤ place)).length
      heard.take sure = told.take sure ∧
        (sure < requests.length → heard[sure]?.map (·.reply) = some (.error (.io e)))) := by
  have twin := twin_start schedule moving w max
  refine ⟨fun s want same => ?_, fun faultless => ?_, fun place e fault => ?_⟩
  · exact ⟨_, Nat.le_refl _, fun fuel enough => s.fillWithin_eq [] want fuel (same ▸ enough)⟩
  · rw [faultless] at twin
    exact transcript_spared twin fun _ _ => by simp [Stream.Fault.Spares]
  · rw [fault] at twin
    exact transcript_struck requests state twin

/-- A record and a delimiter, byte by byte, with every second call interrupted and a fault inside
the delimiter: the record is read, the delimiter is not. -/
theorem transcript_scheduled_cut_delimiter :
    let record : Bytes := [5, 0, 0, 0, 0]
    let broken : IoError := ⟨.other, "injected"⟩
    let schedule := Stream.Schedule.periodic 2 (by decide) (some 1) (some (7, broken))
    let w := record ++ Token.delimiterBytes
    let heard := transcript [.token, .token] () (.start (.scheduled schedule w) Record.defaultMax)
    schedule.Moving ∧ schedule.fault = some (7, broken) ∧
      heard.map (·.reply) = [.ok (.token (some (.record record))), .error (.io broken)] := by
  intro record broken schedule w heard
  have moving : schedule.Moving := fun call => by simp [schedule, Stream.Schedule.periodic]
  refine ⟨moving, rfl, ?_⟩
  obtain ⟨-, -, faulty⟩ :=
    transcript_scheduled schedule moving w Record.defaultMax [.token, .token] ()
  obtain ⟨same, fails⟩ := faulty 7 broken rfl
  have small : Record.defaultMax.toNat < 2 ^ 63 := by decide
  have formed : (Token.record record).Formed Record.defaultMax :=
    Record.check_eq_ok_iff.1 (by decide)
  have start : (Reader.start (.ofBytes w) Record.defaultMax).At Record.defaultMax 0
      ((Token.record record).bytes ++ Token.delimiterBytes) :=
    Reader.at_start Stream.Schedule.sound_steady _
  obtain ⟨next, read, later⟩ := Reader.readToken_append small formed start
  have first := Reader.reachToken_append small formed start
  have second := Reader.reachToken_append (t := .delimiter) small trivial later
  have behind := (Reader.balanced_of_readToken read).position start later
  have position : next.source.position = 5 := behind
  let clean := Reader.start (.ofBytes w) Record.defaultMax
  have asked : answer (.token : Request Unit) () clean =
      (.ok (.token (some (.record record))), (), next) := by
    simp [answer, clean, read, Except.map]
  have reached : reaches [.token, .token] () clean = [5, 9] := by
    rw [reaches_cons, asked, reaches_cons]
    simp only [reach, reaches, first, second, position, clean]
    rfl
  have sure : ((reaches [.token, .token] () clean).takeWhile (· ≤ 7)).length = 1 := by
    rw [reached]
    rfl
  rw [sure] at same fails
  rw [transcript_cons (.token : Request Unit) [.token] () clean, asked] at same
  obtain ⟨one, two, pair⟩ : ∃ one two, heard = [one, two] := ⟨_, _, rfl⟩
  have answered : heard.take 1 = [⟨.ok (.token (some (.record record))), (), next.offset⟩] := same
  have failed : heard[1]?.map (·.reply) = some (.error (.io broken)) := fails (by decide)
  rw [pair] at answered failed ⊢
  simp_all

end Request
end DumpArchive
