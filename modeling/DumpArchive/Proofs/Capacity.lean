import DumpArchive.Proofs.WorkerRegistrations

/-! Which cap is enough for a dump. A worker that opens a namespace is not refused for want of room
if the cap is as large as the number of intents, or allows two namespaces for each worker and one
more for each intent without records. -/
namespace DumpArchive.Dump

open Multiplexer (Exchange Traffic Handle Heads)

variable {p : Pool} {t after : Traffic} {max : UInt64} {cap : Option UInt64} {base : Bytes}
  {w v : Worker} {bare namespaces : List Namespace} {intents : List Intent}

namespace Worker

/-- A worker that has failed for want of room in the registry. -/
def Refused (w : Worker) (m : UInt64) : Prop :=
  w.stage = .unwinding (.tooMany m) ∨ w.stage = .failing (.tooMany m) ∨
    w.stage = .done (.error (.tooMany m))

/-- Room is all that a worker can be refused for when it opens a namespace, and nothing else asks
for it. -/
theorem Refused.of_turn {m : UInt64} (refused : (w.turn p).1.Refused m) :
    w.Refused m ∨ ∃ next, w.stage = .attaching next ∧
      p.exchange.open? next.ns = .error (.tooMany m) := by
  obtain ⟨index, ns, producer, stage⟩ := w
  cases stage with
  | opening intent =>
    cases origin : intent.origin <;>
      simp [turn, origin, Refused, enter, crash] at refused
  | reading reader =>
    simp only [turn] at refused
    split at refused
    · next e _ _ => cases e <;> simp [Refused, enter, sourceError] at refused
    · simp [Refused, enter] at refused
    · split at refused
      · simp [Refused, enter] at refused
      · split at refused <;> simp [Refused, enter] at refused
  | waiting reader =>
    simp only [turn, Exchange.answer?] at refused
    split at refused
    · simp [Refused] at refused
    · simp [Refused, enter] at refused
    · next failed =>
      split at failed
      · simp at failed
      · split at failed
        · simp at failed
        · obtain ⟨rfl, -⟩ := by simpa using failed
          simp [Refused, enter] at refused
  | attaching next =>
    simp only [turn] at refused
    split at refused
    · next e opened =>
      obtain rfl : e = .tooMany m := by simpa [Refused, enter] using refused
      exact .inr ⟨next, rfl, opened⟩
    · simp [Refused, enter] at refused
  | checking => cases told : p.failed <;> simp [turn, told, Refused, enter] at refused
  | choosing =>
    simp only [turn] at refused
    split at refused <;> simp [Refused, enter] at refused
  | closing next => cases next <;> simp [turn, Refused, enter] at refused
  | unwinding e =>
    left
    simpa [turn, Refused, enter] using refused
  | failing e =>
    left
    simpa [turn, Refused, enter] using refused
  | done result => exact .inl refused

end Worker

/-- Nobody is refused a namespace for want of room, or has been. -/
structure Pool.Roomy (p : Pool) : Prop where
  opens : ∀ w ∈ p.workers, ∀ next, w.stage = .attaching next →
    ∀ m, p.exchange.open? next.ns ≠ .error (.tooMany m)
  calm : ∀ w ∈ p.workers, ∀ m, ¬ w.Refused m

/-- A pool of some workers of whom nobody was refused for want of room, with an account of what is
registered. -/
def Ample (max : UInt64) (cap : Option UInt64) (base : Bytes) (namespaces bare : List Namespace)
    (size : Nat) (p : Pool) : Prop :=
  ∃ t left, Crewed p t namespaces ∧ t.Steady max cap base ∧ Ledger bare max p t left ∧
    p.workers.length = size ∧ ∀ w ∈ p.workers, ∀ m, ¬ w.Refused m

/-- A cap that is enough: for all namespaces together, or for two of each worker and all that are
bare. -/
def Spacious (cap : Option UInt64) (total size bare : Nat) : Prop :=
  ∀ m ∈ cap, total ≤ m.toNat ∨ 2 * size + bare ≤ m.toNat

variable {size : Nat}

/-- What is registered are some of the namespaces that the dump has to open. -/
theorem Crewed.count_lt {ns : Namespace} (crewed : Crewed p t namespaces)
    (steady : t.Steady max cap base) (listed : ns ∈ namespaces)
    (unused : ns ∉ t.exchange.engine.registry.keys) :
    t.exchange.engine.registry.count < namespaces.length := by
  obtain ⟨wire, accounted, -⟩ := steady.books
  have distinct := List.nodup_cons.2 ⟨unused, accounted.tracks.valid.distinct⟩
  have known : ns :: t.exchange.engine.registry.keys ⊆ namespaces := by
    refine List.cons_subset.2 ⟨listed, fun other key => ?_⟩
    obtain ⟨⟨other, number⟩, entry, rfl⟩ := List.mem_map.1 key
    obtain ⟨h, held, rfl, -⟩ := accounted.owner entry
    exact crewed.opened h held
  have most := distinct.length_le_of_subset known
  simpa [Registry.count, Registry.keys] using most

theorem Ample.roomy (ample : Ample max cap base namespaces bare size p)
    (room : Spacious cap namespaces.length size bare.length) : p.Roomy := by
  obtain ⟨t, left, crewed, steady, ledger, rfl, calm⟩ := ample
  refine ⟨fun w member next stage m refused => ?_, calm⟩
  rw [crewed.exchange] at refused
  obtain ⟨capped, most, unused⟩ := Exchange.of_open?_tooMany refused
  rw [steady.limited] at capped
  have waits : next ∈ p.unopened := List.mem_append_right _
    (List.mem_flatMap.2 ⟨w, member, by simp [Worker.unopened, stage]⟩)
  have all := crewed.count_lt steady (crewed.unopened next waits) unused
  have few := ledger.count_lt steady member stage
  have enough := room m capped
  omega

theorem Ample.step (heads : ∀ ns ∈ namespaces, Heads max ns)
    (room : Spacious cap namespaces.length size bare.length)
    (ample : Ample max cap base namespaces bare size p) (actor : Pool.Actor) :
    Ample max cap base namespaces bare size (p.step actor) := by
  have roomy := ample.roomy room
  obtain ⟨t, left, crewed, steady, ledger, length, calm⟩ := ample
  cases actor with
  | engine =>
    exact ⟨t.turn, left, crewed.turn, steady.turn, ledger.turn steady, length, calm⟩
  | worker index =>
    cases found : p.workers[index]? with
    | none =>
      rw [Pool.step_of_none found]
      exact ⟨t, left, crewed, steady, ledger, length, calm⟩
    | some w =>
      have member := List.mem_of_getElem? found
      obtain ⟨v, queue, failed, after, moved, still, turned⟩ :=
        crewed.moved steady heads member
      obtain ⟨left, ledger⟩ := ledger.work crewed steady still found moved
      rw [Pool.step_of_turn found turned]
      refine ⟨after, left, crewed.work found moved, still, ledger, by simpa using length, ?_⟩
      intro u there m refused
      rcases List.mem_or_eq_of_mem_set there with old | rfl
      · exact calm u old m refused
      · have turns : (w.turn p).1.Refused m := turned ▸ refused
        rcases turns.of_turn with before | ⟨next, stage, full⟩
        · exact calm w member m before
        · exact roomy.opens w member next stage m full

theorem Ample.execute (heads : ∀ ns ∈ namespaces, Heads max ns)
    (room : Spacious cap namespaces.length size bare.length)
    (ample : Ample max cap base namespaces bare size p) (schedule : List Pool.Actor) :
    Ample max cap base namespaces bare size (p.execute schedule) := by
  induction schedule generalizing p with
  | nil => exact ample
  | cons actor rest ih => exact ih (ample.step heads room actor)

variable {concurrency : UInt64} {settings : Settings} {sink : Sink}

/-- The intents whose namespaces are bare. -/
def blanks (max : UInt64) (intents : List Intent) : List Intent := intents.filter (·.isBlank max)

/-- At the start each worker has the namespace of its own intent. -/
theorem ledger_crew (steady : t.Steady max cap base)
    (handles : t.handles = (crew (intents.take concurrency.toNat) 0 0).map
      fun w => .fresh w.producer w.ns) :
    Ledger ((blanks max intents).map (·.ns)) max ⟨t.exchange, intents.drop concurrency.toNat, false,
      crew (intents.take concurrency.toNat) 0 0⟩ t fun _ => [] := by
  obtain ⟨wire, accounted, -⟩ := steady.books
  have listed : ∀ i ∈ intents, i.Listed ((blanks max intents).map (·.ns)) max :=
    fun i member blank => List.mem_map_of_mem (List.mem_filter.2 ⟨member, blank⟩)
  refine ⟨fun ns key => ?_, fun k w found => ?_, by simp, fun i waits => ?_⟩
  · obtain ⟨⟨ns, number⟩, entry, rfl⟩ := List.mem_map.1 key
    obtain ⟨h, held, rfl, -⟩ := accounted.owner entry
    rw [handles] at held
    obtain ⟨w, member, rfl⟩ := List.mem_map.1 held
    obtain ⟨k, found⟩ := List.mem_iff_getElem?.1 member
    obtain ⟨i, -, rfl⟩ := place_crew found
    exact ⟨k, _, found, by simp [Worker.names, Handle.fresh]⟩
  · obtain ⟨i, here, rfl⟩ := place_crew found
    exact .opening rfl (listed i (List.mem_of_mem_take here)) (Nat.zero_le _)
  · exact listed i (List.mem_of_mem_drop waits)

theorem ample_of_begins (named : ∀ i ∈ intents, i.ns.isNamed) (sound : sink.Sound)
    (begins : Begins settings concurrency intents sink p) :
    (∀ ns ∈ intents.map (·.ns), Heads settings.max ns) ∧ ∃ base,
      Ample settings.max settings.cap base (intents.map (·.ns))
        ((blanks settings.max intents).map (·.ns)) (min concurrency.toNat intents.length) p := by
  obtain ⟨-, -, -, heads, -⟩ := of_begins named sound begins
  obtain ⟨c, writer, -, written, begun⟩ := begins
  obtain ⟨-, -, wrote, -⟩ := Catalog.of_write written
  have limit : writer.max = settings.max := wrote.limit
  rw [← limit] at heads ⊢
  obtain ⟨t, steady, ran, handles, rfl, -⟩ := of_begin (wrote.sound sound)
    (fun i member => heads i.ns (List.mem_map_of_mem member)) begun
  refine ⟨heads, _, t, _, crewed_crew ran handles, steady, ledger_crew steady handles, ?_, ?_⟩
  · have names := congrArg List.length (names_crew (intents.take concurrency.toNat) 0 0)
    simpa using names
  · intro w member m
    obtain ⟨i, -, stage⟩ := of_mem_crew member
    simp [Worker.Refused, stage]

/-- Before the engine runs nothing has ended: each worker that was enlisted is registered. -/
theorem of_enlist_tooMany {index : Nat} {x : Exchange} {m : UInt64}
    (refused : enlist index intents x = .error (.tooMany m)) :
    m ∈ x.engine.registry.cap ∧ m.toNat < x.engine.registry.count + intents.length := by
  induction intents generalizing index x with
  | nil => simp [enlist] at refused
  | cons i rest ih =>
    simp only [enlist] at refused
    split at refused
    · next e opened =>
      obtain rfl := Except.error.inj refused
      obtain ⟨capped, most, -⟩ := Exchange.of_open?_tooMany opened
      exact ⟨capped, Nat.lt_of_le_of_lt most (by simp)⟩
    · next number y opened =>
      have grown : y.engine.registry = x.engine.registry.insert i.ns x.engine.nextProducer := by
        obtain ⟨-, -, rfl⟩ := Exchange.open?_eq_ok_iff.1 opened
        rfl
      split at refused
      · next e failed =>
        obtain rfl := Except.error.inj refused
        obtain ⟨capped, less⟩ := ih failed
        rw [grown] at capped less
        refine ⟨capped, ?_⟩
        simp only [Registry.count, Registry.entries_insert, List.length_append, List.length_cons,
          List.length_nil] at less ⊢
        omega
      · contradiction

theorem of_begin_tooMany {writer : Token.Writer} {m : UInt64}
    (refused : begin concurrency intents (.start (.start writer cap)) = .error (.tooMany m)) :
    m ∈ cap ∧ m.toNat < concurrency.toNat ∧ m.toNat < intents.length := by
  unfold begin at refused
  split at refused
  · next e failed =>
    obtain rfl := Except.error.inj refused
    obtain ⟨capped, less⟩ := of_enlist_tooMany failed
    have nobody : (Exchange.start (.start writer cap)).engine.registry.count = 0 := rfl
    rw [nobody, List.length_take] at less
    exact ⟨capped, by omega⟩
  · contradiction

theorem result_ne_tooMany {m : UInt64} (calm : ∀ w ∈ p.workers, ¬ w.Refused m) :
    p.result ≠ .error (.tooMany m) := by
  unfold Pool.result
  split
  · simp
  · split
    · next e found =>
      intro same
      obtain rfl := Except.error.inj same
      obtain ⟨w, member, failed⟩ := List.exists_of_findSome?_eq_some found
      refine calm w member (.inr (.inr ?_))
      cases stage : w.stage with
      | done result =>
        cases result with
        | error e => simpa [Worker.result, stage] using failed
        | ok => simp [Worker.result, stage] at failed
      | _ => simp [Worker.result, stage] at failed
    · simp
  · simp

/-- No dump is refused a namespace for want of room, whatever its schedule and its sources, if the
cap is as large as the number of its intents, or as twice the number of workers and one more for
each intent without records. -/
theorem write_roomy (settings : Settings) (concurrency : UInt64) (intents : List Intent)
    (sink : Sink) (named : ∀ i ∈ intents, i.ns.isNamed) (sound : sink.Sound)
    (room : Spacious settings.cap intents.length concurrency.toNat
      (blanks settings.max intents).length) :
    (∀ p, Begins settings concurrency (ordered intents) sink p →
      ∀ schedule, (p.execute schedule).Roomy) ∧
    ∀ m, (write settings concurrency intents sink).1 ≠ .error (.tooMany m) := by
  have same := perm_ordered intents
  have named : ∀ i ∈ ordered intents, i.ns.isNamed := fun i held => named i (same.mem_iff.1 held)
  have less : Spacious settings.cap ((ordered intents).map (·.ns)).length
      (min concurrency.toNat (ordered intents).length)
      ((blanks settings.max (ordered intents)).map (·.ns)).length := by
    have bare := (same.filter (·.isBlank settings.max)).length_eq
    intro m capped
    have enough := room m capped
    simp only [blanks, List.length_map, same.length_eq, bare] at enough ⊢
    omega
  have runs : ∀ p, Begins settings concurrency (ordered intents) sink p →
      ∀ schedule, (p.execute schedule).Roomy := by
    intro p begins schedule
    obtain ⟨heads, base, ample⟩ := ample_of_begins named sound begins
    exact (ample.execute heads less schedule).roomy less
  refine ⟨runs, fun m refused => ?_⟩
  by_cases begins : ∃ p, Begins settings concurrency (ordered intents) sink p
  · obtain ⟨p, begins⟩ := begins
    obtain ⟨schedule, settled, -⟩ := settleWithin_eq (rounds (ordered intents)) p
    rw [write_of_begins begins, settled] at refused
    exact result_ne_tooMany (fun w member => (runs p begins schedule).calm w member m) refused
  · simp only [write] at refused
    split at refused
    · simp at refused
    · next c made =>
      split at refused
      · simp at refused
      · next writer written =>
        split at refused
        · next e failed =>
          obtain rfl : e = .tooMany m := by simpa using refused
          obtain ⟨capped, workers, some⟩ := of_begin_tooMany failed
          have enough := room m capped
          rw [same.length_eq] at some
          omega
        · next p begun => exact begins ⟨p, c, writer, made, written, begun⟩

/-- The intents with these namespaces in one database, each of which gives the same bytes. -/
def alike (data : Bytes) (names : List String) : List Intent :=
  names.map fun name => ⟨⟨"a", name⟩, "{}", 0, .opens (.ofBytes data)⟩

theorem write_roomy_two_for_one :
    ((∀ i ∈ alike [5, 0, 0, 0, 0] ["b", "c", "d"], i.ns.isNamed) ∧ Sink.empty.Sound ∧
      Spacious (some 2) 3 1 (blanks 128 (alike [5, 0, 0, 0, 0] ["b", "c", "d"])).length) ∧
    ∀ m, (write ⟨128, some 2⟩ 1 (alike [5, 0, 0, 0, 0] ["b", "c", "d"]) .empty).1 ≠
      .error (.tooMany m) := by
  have named : ∀ i ∈ alike [5, 0, 0, 0, 0] ["b", "c", "d"], i.ns.isNamed := by decide
  have room : Spacious (some 2) 3 1
      (blanks 128 (alike [5, 0, 0, 0, 0] ["b", "c", "d"])).length := by
    have none : blanks 128 (alike [5, 0, 0, 0, 0] ["b", "c", "d"]) = [] := by cbv
    rw [none]
    rintro m ⟨⟩
    decide
  exact ⟨⟨named, Sink.sound_empty, room⟩,
    (write_roomy ⟨128, some 2⟩ 1 _ .empty named Sink.sound_empty room).2⟩

/-- Two workers and a cap of three are not enough for four namespaces without records: each of the
workers asks for its next one while it has the first. -/
theorem tooMany_above_concurrency :
    (Feasible ⟨128, none⟩ 2 (alike [] ["b", "c", "d", "e"]) (fun _ => []) ∧ Sink.empty.Sound ∧
      (2 : UInt64) < 3) ∧
    (write ⟨128, some 3⟩ 2 (alike [] ["b", "c", "d", "e"]) .empty).1 = .error (.tooMany 3) := by
  have fits : ∀ d, Record.check d 128 = .ok () → Fits 128 d := fun _ => fits_of_check
  refine ⟨⟨⟨by decide, rfl, by decide, by decide, by decide, ?_, fits _ (by cbv), ?_, ?_⟩,
    Sink.sound_empty, by decide⟩, by cbv⟩
  · intro i member
    obtain ⟨name, -, rfl⟩ := List.mem_map.1 member
    exact ⟨_, rfl, Stream.Schedule.sound_steady, rfl, by simp⟩
  · simp only [entries, alike, List.map_cons, List.map_nil, List.forall_mem_cons]
    exact ⟨fits _ (by cbv), fits _ (by cbv), fits _ (by cbv), fits _ (by cbv), by simp⟩
  · simp only [alike, List.map_cons, List.map_nil, List.forall_mem_cons, Bool.forall_bool]
    exact ⟨⟨fits _ (by cbv), fits _ (by cbv)⟩, ⟨fits _ (by cbv), fits _ (by cbv)⟩,
      ⟨fits _ (by cbv), fits _ (by cbv)⟩, ⟨fits _ (by cbv), fits _ (by cbv)⟩, by simp⟩

end DumpArchive.Dump
