import DumpArchive.Demultiplexer.Outlet
import Mathlib.Data.List.Basic

/-! The two ways to read an outlet, in any mix. Each record is handed out once, either whole or in
parts that join to it, and each way hands its records out in their order. Together they are one
ordered view as long as no whole record is asked for while the rest of another is pending. -/
namespace DumpArchive.Outlet

inductive Call where
  /-- The next record as a whole. -/
  | next
  | bytes (n : Nat)
  deriving DecidableEq

inductive Reply where
  | record (b : Bytes)
  | bytes (b : Bytes)
  | ended
  | failed (e : EngineError)

namespace Reply

/-- The bytes that a reply hands out. -/
def handed : Reply → Bytes
  | .record b => b
  | .bytes b => b
  | _ => []

def whole? : Reply → Option Bytes
  | .record b => some b
  | _ => none

def part : Reply → Bytes
  | .bytes b => b
  | _ => []

end Reply

/-- One call. No bytes for a buffer that could hold some report the end of the namespace. -/
def Call.make (supply : Supply) (o : Outlet) : Call → Option Reply × Outlet
  | .next => match o.readRecord supply with
    | (none, o) => (none, o)
    | (some (.error e), o) => (some (.failed e), o)
    | (some (.ok none), o) => (some .ended, o)
    | (some (.ok (some b)), o) => (some (.record b), o)
  | .bytes n => match o.readBytes n supply with
    | (none, o) => (none, o)
    | (some (.error e), o) => (some (.failed e), o)
    | (some (.ok b), o) => (some (if n ≠ 0 ∧ b = [] then .ended else .bytes b), o)

/-- What the outlet holds is no answer to the call. -/
def Call.Asks (o : Outlet) : Call → Prop
  | .next => True
  | .bytes n => n ≠ 0 ∧ o.pending = []

/-- A call that cannot be answered with nothing on offer takes the next of the records that are to
be delivered; behind the last of them it finds how things stand then. -/
def Call.meet (stop : Signal) (records : List Bytes) (o : Outlet) (call : Call) :
    Option Reply × Outlet × List Bytes :=
  match call.make .nothing o with
  | (some reply, o) => (some reply, o, records)
  | (none, _) => match records with
    | record :: rest =>
      let (reply, o) := call.make (.record record) o
      (reply, o, rest)
    | [] =>
      let (reply, o) := call.make (.ofSignal stop) o
      (reply, o, [])

/-- Replies to calls up to one that waits for good, and the records that are left then. -/
def serve (stop : Signal) : List Call → Outlet → List Bytes → List Reply × Outlet × List Bytes
  | [], o, records => ([], o, records)
  | call :: calls, o, records => match call.meet stop records o with
    | (none, o, records) => ([], o, records)
    | (some reply, o, records) =>
      let (replies, o, records) := serve stop calls o records
      (reply :: replies, o, records)

/-- No whole record is asked for while the rest of another is pending. -/
def Orderly (stop : Signal) : List Call → Outlet → List Bytes → Prop
  | [], _, _ => True
  | call :: calls, o, records => (call = .next → o.pending = []) ∧
    match call.meet stop records o with
    | (none, _, _) => True
    | (some _, o, records) => Orderly stop calls o records

/-- Of the records that were taken, those that were handed out whole and those that were handed out
in parts. -/
inductive Dealt : List Bytes → List Bytes → List Bytes → Prop
  | none : Dealt [] [] []
  | whole {r : Bytes} {taken wholes parted : List Bytes} : Dealt taken wholes parted →
    Dealt (r :: taken) (r :: wholes) parted
  | parted {r : Bytes} {taken wholes parted : List Bytes} : Dealt taken wholes parted →
    Dealt (r :: taken) wholes (r :: parted)

variable {stop : Signal} {o after last : Outlet} {records rest left : List Bytes}
  {calls : List Call} {call : Call} {reply : Reply} {replies : List Reply}

/-- Records that an outlet can still get: none behind the end of the namespace. -/
structure Ahead (o : Outlet) (records : List Bytes) : Prop where
  filled : ∀ r ∈ records, r ≠ []
  past : o.ended → records = []

/-- What a call can do. -/
inductive Met (stop : Signal) (o : Outlet) :
    List Bytes → Call → Option Reply → Outlet → List Bytes → Prop
  | nothing {records : List Bytes} : Met stop o records (.bytes 0) (some (.bytes [])) o records
  | rest {records : List Bytes} {n : Nat} : o.pending ≠ [] →
    Met stop o records (.bytes n) (some (.bytes (o.pending.take n)))
      { o with pending := o.pending.drop n } records
  | whole {r : Bytes} {records : List Bytes} :
    Met stop o (r :: records) .next (some (.record r)) o records
  | front {r : Bytes} {records : List Bytes} {n : Nat} : o.pending = [] →
    Met stop o (r :: records) (.bytes n) (some (.bytes (r.take n)))
      { o with pending := r.drop n } records
  | ended {call : Call} : (call = .next ∨ o.pending = []) →
    Met stop o [] call (some .ended) { o with ended := true } []
  | failed {call : Call} {e : EngineError} : Met stop o [] call (some (.failed e)) o []
  | waits {call : Call} : stop = .live → Met stop o [] call none o []

/-- A call that has to ask the engine and finds no record there. -/
theorem Call.make_asking (asks : call.Asks o) (supply : Supply) (bare : ∀ r, supply ≠ .record r) :
    call.make supply o = if o.ended then (some .ended, o) else match supply with
      | .record _ | .nothing => (none, o)
      | .ended => (some .ended, { o with ended := true })
      | .gone => (some (.failed (.engineGone o.ns.shown)), o) := by
  cases call with
  | next => cases ended : o.ended <;> cases supply <;> simp_all [make, readRecord]
  | bytes n =>
    obtain ⟨room, idle⟩ := asks
    cases ended : o.ended <;> cases supply <;> simp_all [make, readBytes, readRecord]

theorem Ahead.met (ahead : Ahead o records) (stop : Signal) (call : Call) :
    Met stop o records call (call.meet stop records o).1 (call.meet stop records o).2.1
      (call.meet stop records o).2.2 := by
  by_cases asks : call.Asks o
  · have idle : call = .next ∨ o.pending = [] := by
      cases call with
      | next => exact .inl rfl
      | bytes n => exact .inr asks.2
    have bare := Call.make_asking asks .nothing nofun
    cases ended : o.ended with
    | true =>
      obtain rfl := ahead.past ended
      have met : Met stop o [] call (some .ended) o [] := by
        have same : { o with ended := true } = o := by cases o; simp_all
        exact same ▸ .ended idle
      simpa [Call.meet, bare, ended] using met
    | false =>
      match records with
      | r :: records =>
        have filled : r ≠ [] := ahead.filled r List.mem_cons_self
        cases call with
        | next => simpa [Call.meet, bare, Call.make, readRecord, ended] using Met.whole
        | bytes n =>
          simpa [Call.meet, bare, Call.make, readBytes, readRecord, takePending, asks.1, asks.2,
            ended, filled] using Met.front asks.2
      | [] =>
        cases stop with
        | live => simpa [Call.meet, bare, ended, Supply.ofSignal] using Met.waits rfl
        | ended =>
          have answer := Call.make_asking asks .ended nofun
          simpa [Call.meet, bare, answer, ended, Supply.ofSignal] using Met.ended idle
        | gone =>
          have answer := Call.make_asking asks .gone nofun
          simpa [Call.meet, bare, answer, ended, Supply.ofSignal] using Met.failed
  · cases call with
    | next => exact absurd trivial asks
    | bytes n =>
      by_cases none : n = 0
      · subst none
        simpa [Call.meet, Call.make, readBytes] using Met.nothing
      · have rest : o.pending ≠ [] := fun idle => asks ⟨none, idle⟩
        simpa [Call.meet, Call.make, readBytes, takePending, none, rest] using Met.rest rest

theorem Met.ahead (met : Met stop o records call (some reply) after rest)
    (ahead : Ahead o records) : Ahead after rest := by
  obtain ⟨filled, past⟩ := ahead
  cases met with
  | nothing | rest | failed => exact ⟨filled, past⟩
  | whole | front =>
    exact ⟨fun r inside => filled r (.tail _ inside), fun ended => by simpa using past ended⟩
  | ended => exact ⟨filled, fun _ => rfl⟩

/-- The first call is met, or waits for good. -/
theorem Ahead.serve_cases (ahead : Ahead o records) (call : Call) (calls : List Call) :
    stop = .live ∧ serve stop (call :: calls) o records = ([], o, records) ∨
      ∃ reply after rest, call.meet stop records o = (some reply, after, rest) ∧
        Met stop o records call (some reply) after rest ∧ Ahead after rest ∧
        serve stop (call :: calls) o records =
          (reply :: (serve stop calls after rest).1, (serve stop calls after rest).2) := by
  have met := ahead.met stop call
  simp only [serve]
  generalize call.meet stop records o = met? at met ⊢
  obtain ⟨reply, after, rest⟩ := met?
  cases reply with
  | none =>
    cases met with
    | waits live => exact .inl ⟨live, rfl⟩
  | some reply => exact .inr ⟨reply, after, rest, rfl, met, met.ahead ahead, rfl⟩

/-- What a run has done with the bytes it started from, in any mix of calls. -/
structure View (o : Outlet) (records : List Bytes) (replies : List Reply) (last : Outlet)
    (left : List Bytes) : Prop where
  dealt : ∃ taken parted, records = taken ++ left ∧
    Dealt taken (replies.filterMap Reply.whole?) parted ∧
    replies.flatMap Reply.part ++ last.pending = o.pending ++ parted.flatten
  ended : .ended ∈ replies → left = []

theorem View.cons (met : Met stop o records call (some reply) after rest)
    (view : View after rest replies last left) : View o records (reply :: replies) last left := by
  obtain ⟨⟨taken, parted, split, dealt, parts⟩, ended⟩ := view
  cases met with
  | nothing | failed => exact ⟨⟨taken, parted, split, dealt, parts⟩, by simpa⟩
  | rest =>
    refine ⟨⟨taken, parted, split, dealt, ?_⟩, by simpa⟩
    simp only [Reply.part, List.flatMap_cons, List.append_assoc, parts]
    rw [← List.append_assoc, List.take_append_drop]
  | @whole r =>
    exact ⟨⟨r :: taken, parted, congrArg _ split, .whole dealt, parts⟩, by simpa⟩
  | @front r _ n idle =>
    refine ⟨⟨r :: taken, r :: parted, congrArg _ split, .parted dealt, ?_⟩, by simpa⟩
    simp only [Reply.part, List.flatMap_cons, List.append_assoc, parts, idle, List.nil_append]
    rw [← List.append_assoc, List.take_append_drop, List.flatten_cons]
  | ended =>
    have left := (List.append_eq_nil_iff.1 split.symm).2
    exact ⟨⟨taken, parted, split, dealt, parts⟩, fun _ => left⟩

/-- What a call hands out and what is left pending and to come add up to what there was. -/
theorem Met.handed (met : Met stop o records call (some reply) after rest)
    (orderly : call = .next → o.pending = []) :
    reply.handed ++ (after.pending ++ rest.flatten) = o.pending ++ records.flatten := by
  cases met with
  | nothing | ended | failed => rfl
  | rest => rw [Reply.handed, ← List.append_assoc, List.take_append_drop]
  | whole => simp [Reply.handed, orderly rfl]
  | front idle =>
    rw [Reply.handed, ← List.append_assoc, List.take_append_drop, idle]
    rfl

/-- What a run has handed out when no record has overtaken the rest of another. -/
structure Ordered (o : Outlet) (records : List Bytes) (replies : List Reply) (last : Outlet)
    (left : List Bytes) : Prop where
  handed : replies.flatMap Reply.handed ++ (last.pending ++ left.flatten) =
    o.pending ++ records.flatten
  ended : .ended ∈ replies → replies.flatMap Reply.handed = o.pending ++ records.flatten

theorem Ordered.cons (met : Met stop o records call (some reply) after rest)
    (orderly : call = .next → o.pending = []) (ordered : Ordered after rest replies last left) :
    Ordered o records (reply :: replies) last left := by
  obtain ⟨handed, ended⟩ := ordered
  have step := met.handed orderly
  refine ⟨by rw [List.flatMap_cons, List.append_assoc, handed, step], fun reported => ?_⟩
  rw [List.flatMap_cons, ← step]
  congr 1
  rcases List.mem_cons.1 reported with rfl | later
  · cases met with
    | ended idle =>
      have pending : o.pending = [] := idle.elim orderly id
      have nothing : replies.flatMap Reply.handed = [] :=
        (List.append_eq_nil_iff.1 (handed.trans (by simp [pending]))).1
      simp [nothing, pending]
  · exact ended later

theorem Ahead.view (ahead : Ahead o records) (stop : Signal) (calls : List Call) :
    View o records (serve stop calls o records).1 (serve stop calls o records).2.1
      (serve stop calls o records).2.2 := by
  induction calls generalizing o records with
  | nil => exact ⟨⟨[], [], rfl, .none, by simp [serve]⟩, by simp [serve]⟩
  | cons call calls ih =>
    rcases ahead.serve_cases call calls with
      ⟨-, served⟩ | ⟨reply, after, rest, -, met, next, served⟩
    · rw [served]
      exact ⟨⟨[], [], rfl, .none, by simp⟩, by simp⟩
    · rw [served]
      exact .cons met (ih next)

theorem Ahead.ordered (ahead : Ahead o records) (orderly : Orderly stop calls o records) :
    Ordered o records (serve stop calls o records).1 (serve stop calls o records).2.1
      (serve stop calls o records).2.2 := by
  induction calls generalizing o records with
  | nil => exact ⟨by simp [serve], by simp [serve]⟩
  | cons call calls ih =>
    rcases ahead.serve_cases call calls with
      ⟨-, served⟩ | ⟨reply, after, rest, found, met, next, served⟩
    · rw [served]
      exact ⟨by simp, by simp⟩
    · rw [served]
      obtain ⟨first, later⟩ := orderly
      rw [found] at later
      exact .cons met first (ih next later)

theorem Ahead.answered (ahead : Ahead o records) (calls : List Call) (done : stop ≠ .live) :
    (serve stop calls o records).1.length = calls.length := by
  induction calls generalizing o records with
  | nil => rfl
  | cons call calls ih =>
    rcases ahead.serve_cases call calls with ⟨live, -⟩ | ⟨reply, after, rest, -, -, next, served⟩
    · exact absurd live done
    · rw [served, List.length_cons, ih next, List.length_cons]

/-- Whatever the mix of calls, nothing is lost and nothing is handed out twice: every record that
was taken is handed out whole or in parts, and each of the two ways keeps the order. The end is
reported behind the last record. The bytes come in the order of the records if no whole record is
asked for while the rest of another is pending, and all of them have come then when the end is
reported. -/
theorem served_once {ns : Namespace} {number : Nat} (filled : ∀ r ∈ records, r ≠ [])
    (run : serve stop calls (fresh ns number) records = (replies, last, left)) :
    (stop ≠ .live → replies.length = calls.length) ∧
    (∃ taken parted, records = taken ++ left ∧
      Dealt taken (replies.filterMap Reply.whole?) parted ∧
      replies.flatMap Reply.part ++ last.pending = parted.flatten) ∧
    (.ended ∈ replies → left = []) ∧
    (Orderly stop calls (fresh ns number) records →
      replies.flatMap Reply.handed ++ (last.pending ++ left.flatten) = records.flatten ∧
      (.ended ∈ replies → replies.flatMap Reply.handed = records.flatten)) := by
  have ahead : Ahead (fresh ns number) records := ⟨filled, by simp [fresh]⟩
  refine ⟨fun done => by simpa [run] using ahead.answered calls done, ?_⟩
  obtain ⟨dealt, ended⟩ := ahead.view stop calls
  rw [run] at dealt ended
  refine ⟨dealt, ended, fun orderly => ?_⟩
  obtain ⟨handed, all⟩ := ahead.ordered orderly
  rw [run] at handed all
  exact ⟨handed, all⟩

theorem served_once_in_parts_then_whole :
    let records : List Bytes := [[6, 0, 0, 0, 1, 0], [5, 0, 0, 0, 0]]
    let calls : List Call := [.bytes 3, .bytes 9, .next, .next]
    let replies : List Reply :=
      [.bytes [6, 0, 0], .bytes [0, 1, 0], .record [5, 0, 0, 0, 0], .ended]
    (∀ r ∈ records, r ≠ []) ∧ Orderly .ended calls (fresh ⟨"a", "b"⟩ 0) records ∧
      serve .ended calls (fresh ⟨"a", "b"⟩ 0) records = (replies, ⟨⟨"a", "b"⟩, 0, [], true⟩, []) ∧
      replies.length = calls.length ∧ replies.flatMap Reply.handed = records.flatten := by
  intro records calls replies
  have filled : ∀ r ∈ records, r ≠ [] := by decide
  have orderly : Orderly .ended calls (fresh ⟨"a", "b"⟩ 0) records :=
    ⟨nofun, nofun, fun _ => rfl, fun _ => rfl, trivial⟩
  have run : serve .ended calls (fresh ⟨"a", "b"⟩ 0) records =
      (replies, ⟨⟨"a", "b"⟩, 0, [], true⟩, []) := rfl
  obtain ⟨answered, -, -, ordered⟩ := served_once filled run
  exact ⟨filled, orderly, run, answered nofun, (ordered orderly).2 (by simp [replies])⟩

/-- A whole record that is asked for too early comes before the rest of the one in front of it, and
the end is reported while that rest is still pending. -/
theorem overtaken_rest :
    let records : List Bytes := [[6, 0, 0, 0, 1, 0], [5, 0, 0, 0, 0]]
    let (replies, last, left) :=
      serve .ended [.bytes 3, .next, .next] (fresh ⟨"a", "b"⟩ 0) records
    (∀ r ∈ records, r ≠ []) ∧
      replies = [.bytes [6, 0, 0], .record [5, 0, 0, 0, 0], .ended] ∧
      left = [] ∧ last.pending = [0, 1, 0] ∧
      ¬ replies.flatMap Reply.handed <+: records.flatten ∧
      replies.flatMap Reply.handed ≠ records.flatten :=
  ⟨by decide, rfl, rfl, rfl, by decide, by decide⟩

end DumpArchive.Outlet
