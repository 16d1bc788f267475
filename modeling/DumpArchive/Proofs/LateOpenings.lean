import DumpArchive.Proofs.DepartingReceivers

/-! Requests that come while a demultiplexer runs. The engine looks whether anyone is still to be
served and shuts its registry only in a later turn, so a request may fall between the two. -/
namespace DumpArchive.Demultiplexer

variable {d : Demultiplexer} {late other : Prop}

/-- Nothing runs twice at a time. -/
def rerun (d : Demultiplexer) : Demultiplexer :=
  match d.stage with
  | .idle => d.run
  | .stopped _ => d.run
  | _ => d

/-- What can happen to a demultiplexer, in any order. -/
inductive Move where
  | run
  | turn
  | answer (taken : Bool)
  | request (e : Entrant)

namespace Move

/-- A request is granted or changes nothing. -/
def make (m : Move) (d : Demultiplexer) : Demultiplexer :=
  match m with
  | .run => d.rerun
  | .turn => d.step
  | .answer taken => d.resolve taken
  | .request e => match e.enter d.roster with
    | .ok (_, roster) => { d with roster }
    | .error _ => d

def execute (moves : List Move) (d : Demultiplexer) : Demultiplexer :=
  moves.foldl (fun d m => m.make d) d

end Move

open Move

/-- A request is granted after the engine has found nobody left and before it shuts the registry. -/
def Late (moves : List Move) (d : Demultiplexer) : Prop :=
  ∃ early e rest granted, moves = early ++ .request e :: rest ∧
    (execute early d).stage = .ending (.ok ()) ∧ e.enter (execute early d).roster = .ok granted

/-- Nobody is registered, and nobody waits: each outlet has ended or learns that the engine is
gone. -/
structure Released (d : Demultiplexer) : Prop where
  nobody : d.roster.registry.count = 0
  told : ∀ number, number ∈ d.ended ∧ d.signal number = .ended ∨ d.signal number = .gone

/-- What every move keeps up, unless there was a late request. -/
structure Orderly (late : Prop) (d : Demultiplexer) : Prop where
  current : ∀ entry ∈ d.current, entry ∈ d.roster.registry.entries
  ending : d.stage = .ending (.ok ()) → d.roster.registry.entries = [] ∨ late
  stopped : ∀ result, d.stage = .stopped result → d.roster.registry.finished ∧
    (d.roster.registry.entries = [] ∨ late ∧ ∃ s, result = .ok s)

theorem Orderly.mono (orderly : d.Orderly late) (implies : late → other) : d.Orderly other :=
  ⟨orderly.current, fun ends => (orderly.ending ends).imp_right implies, fun result stops =>
    (orderly.stopped result stops).imp_right fun left => left.imp_right fun out =>
      out.imp_left implies⟩

/-- An engine that is not about to stop owes nothing but that its block is someone's. -/
theorem Orderly.of_busy (current : ∀ entry ∈ d.current, entry ∈ d.roster.registry.entries)
    (busy : ∀ result, d.stage ≠ .stopped result) (going : d.stage ≠ .ending (.ok ())) :
    d.Orderly late :=
  ⟨current, fun ends => absurd ends going, fun result stops => absurd stops (busy result)⟩

theorem orderly_start (reader : Token.Reader) (cap : Option UInt64) :
    (start reader cap).Orderly late :=
  .of_busy (by simp [start]) (by simp [start]) (by simp [start])

theorem orderly_readHeader (offset : Nat) (record : Bytes) (reading : d.stage = .reading)
    (current : ∀ entry ∈ d.current, entry ∈ d.roster.registry.entries) :
    (d.readHeader offset record).Orderly late := by
  unfold readHeader
  split
  · exact .of_busy current (by simp [reject]) (by simp [reject])
  · next header _ =>
    simp only
    split
    · exact .of_busy current (by simp [reject]) (by simp [reject])
    · split
      · exact .of_busy current (by simp [reject]) (by simp [reject])
      · next route found =>
        split
        · exact .of_busy (by simp) (by simp [reading]) (by simp [reading])
        · refine .of_busy ?_ (by simp [reading]) (by simp [reading])
          obtain ⟨⟨key, value⟩, first, rfl⟩ := Option.map_eq_some_iff.1 found
          have same : key = header.ns := by simpa using List.find?_some first
          rintro entry ⟨⟩
          exact same ▸ List.mem_of_find?_eq_some first

theorem orderly_readBody (offset : Nat) (record : Bytes) (reading : d.stage = .reading)
    (current : ∀ entry ∈ d.current, entry ∈ d.roster.registry.entries) :
    (d.readBody offset record).Orderly late := by
  unfold readBody
  split
  · exact .of_busy current (by simp [reject]) (by simp [reject])
  · exact .of_busy current (by simp [reading]) (by simp [reading])
  · exact .of_busy current (by simp) (by simp)

/-- The end of the input is taken for good only when nobody is registered. -/
theorem orderly_readEnd (offset : Nat)
    (current : ∀ entry ∈ d.current, entry ∈ d.roster.registry.entries) :
    (d.readEnd offset).Orderly late := by
  unfold readEnd
  split
  · next nobody => exact ⟨current, fun _ => .inl nobody, by simp⟩
  · exact .of_busy current (by simp [reject]) (by simp [reject])

theorem Orderly.step (orderly : d.Orderly late) : d.step.Orderly late := by
  unfold Demultiplexer.step
  split
  · next reading =>
    split
    · exact .of_busy orderly.current (by simp) (by simp)
    · next part reader _ =>
      cases part with
      | header offset record => exact orderly_readHeader offset record reading orderly.current
      | body offset record => exact orderly_readBody offset record reading orderly.current
      | close =>
        exact .of_busy orderly.current (by simp [dispatch, reading]) (by simp [dispatch, reading])
      | finish offset => exact orderly_readEnd offset orderly.current
  · next ends =>
    refine ⟨orderly.current, by simp, fun result stops => ⟨rfl, ?_⟩⟩
    obtain rfl := Stage.stopped.inj stops
    exact (orderly.ending ends).imp_right fun late => ⟨late, _, rfl⟩
  · exact ⟨by simp, by simp, fun result stops => ⟨rfl, .inl rfl⟩⟩
  · exact orderly

theorem Orderly.resolve (orderly : d.Orderly late) (taken : Bool) :
    (d.resolve taken).Orderly late := by
  unfold Demultiplexer.resolve
  split
  · split
    · exact .of_busy orderly.current (by simp) (by simp)
    · exact .of_busy orderly.current (by simp) (by simp)
  · exact orderly

theorem Orderly.rerun (orderly : d.Orderly late) : d.rerun.Orderly late := by
  have fresh : d.run.Orderly late := .of_busy (by simp [run]) (by simp [run]) (by simp [run])
  unfold Demultiplexer.rerun
  split
  · exact fresh
  · exact fresh
  · exact orderly

/-- A request that is granted adds an entry; it is late if the engine has found nobody left. -/
theorem Orderly.request (orderly : d.Orderly late) (e : Entrant)
    (timely : ∀ granted, d.stage = .ending (.ok ()) → e.enter d.roster = .ok granted → late) :
    (Move.make (.request e) d).Orderly late := by
  by_cases admits : d.roster.registry.Admits e.ns
  · obtain ⟨next, entered, registry, -⟩ := Entrant.enter_of_admits admits
    simp only [Move.make, entered]
    refine ⟨fun entry block => ?_, fun ends => .inr (timely _ ends entered), fun result stops => ?_⟩
    · rw [registry, Registry.entries_insert]
      exact List.mem_append_left _ (orderly.current entry block)
    · have shut := (orderly.stopped result stops).1
      rw [admits.going] at shut
      contradiction
  · obtain ⟨err, refused⟩ := Entrant.enter_of_not_admits admits
    simpa only [Move.make, refused] using orderly

theorem Orderly.make (orderly : d.Orderly late) (m : Move)
    (timely : ∀ e granted, m = .request e → d.stage = .ending (.ok ()) →
      e.enter d.roster = .ok granted → late) : (m.make d).Orderly late := by
  cases m with
  | run => exact orderly.rerun
  | turn => exact orderly.step
  | answer taken => exact orderly.resolve taken
  | request e => exact orderly.request e fun granted => timely e granted rfl

theorem Orderly.execute (moves : List Move) {d : Demultiplexer} (orderly : d.Orderly False) :
    (execute moves d).Orderly (Late moves d) := by
  suffices all : ∀ done rest, moves = done ++ rest →
      (Move.execute done d).Orderly (Late moves d) →
      (Move.execute moves d).Orderly (Late moves d) by
    exact all [] moves rfl (orderly.mono False.elim)
  intro done rest
  induction rest generalizing done with
  | nil =>
    rintro rfl so
    simpa using so
  | cons m rest ih =>
    intro split so
    apply ih (done ++ [m]) (by simp [split])
    simp only [Move.execute, List.foldl_append, List.foldl_cons, List.foldl_nil]
    refine so.make m fun e granted same ends entered => ?_
    exact ⟨done, e, rest, granted, same ▸ split, ends, entered⟩

theorem Released.of_nobody (current : ∀ entry ∈ d.current, entry ∈ d.roster.registry.entries)
    (nobody : d.roster.registry.entries = []) : d.Released := by
  have idle : d.current = none := by
    cases block : d.current with
    | none => rfl
    | some entry => simpa [nobody] using current entry block
  refine ⟨by simp [Registry.count, nobody], fun number => ?_⟩
  by_cases past : number ∈ d.ended
  · exact .inl ⟨past, by simp [signal, past]⟩
  · exact .inr (by simp [signal, past, nobody, idle])

/-- Once a run has returned, whatever the stream and whenever others ask for namespaces, nobody is
left registered and nobody is left waiting, unless the run succeeded and a request was granted in
the gap between its last look at the registry and the end of all requests. -/
theorem released_execute (reader : Token.Reader) (cap : Option UInt64) (moves : List Move)
    (result : Except EngineError Summary)
    (stop : (execute moves (start reader cap)).stage = .stopped result) :
    (execute moves (start reader cap)).Released ∨
      (∃ s, result = .ok s) ∧ Late moves (start reader cap) := by
  have orderly := (orderly_start reader cap).execute moves
  rcases (orderly.stopped result stop).2 with nobody | ⟨late, succeeded⟩
  · exact .inl (.of_nobody orderly.current nobody)
  · exact .inr ⟨succeeded, late⟩

/-- A request that comes just before the engine looks makes the run fail, and releases whoever came
with it; one that comes after the run is refused. -/
theorem released_execute_unfinished :
    let moves := [.run, .request ⟨⟨"a", "b"⟩, true⟩, .turn, .turn, .request ⟨⟨"c", "d"⟩, true⟩]
    let start := start (.start (.ofBytes []) 64) none
    (execute moves start).stage = .stopped (.error (.frame (.corrupt 0 (.unfinished ["a.b"])))) ∧
      (execute moves start).Released := by
  intro moves start
  have stop : (execute [.run, .request ⟨⟨"a", "b"⟩, true⟩, .turn, .turn,
      .request ⟨⟨"c", "d"⟩, true⟩] (Demultiplexer.start (.start (.ofBytes []) 64) none)).stage =
      .stopped (.error (.frame (.corrupt 0 (.unfinished ["a.b"])))) := by cbv
  refine ⟨stop, (released_execute _ none moves _ stop).resolve_right ?_⟩
  rintro ⟨⟨s, succeeded⟩, -⟩
  contradiction

/-- A stream of one block that ends its namespace, and a request after the engine has come to its
end. -/
def overtaken : Demultiplexer :=
  execute [.request ⟨⟨"a", "b"⟩, false⟩, .run, .turn, .turn, .turn,
      .request ⟨⟨"c", "d"⟩, true⟩, .turn]
    (start (.start (.ofBytes (Block.ofHeader ⟨⟨"a", "b"⟩, true⟩ []).bytes) 128) none)

/-- Its outlet has neither ended nor lost its engine, so the first call on it never returns. -/
theorem stranded_overtaken :
    overtaken.stage = .stopped (.ok (Summary.empty.touch ⟨"a", "b"⟩)) ∧
      overtaken.roster.registry.count = 1 ∧ overtaken.signal 0 = .live ∧
      ((Outlet.fresh ⟨"c", "d"⟩ 0).readRecord (.ofSignal (overtaken.signal 0))).1 = none := by
  have live : overtaken.signal 0 = .live := by cbv
  refine ⟨by cbv, by cbv, live, ?_⟩
  rw [live]
  rfl

end DumpArchive.Demultiplexer
