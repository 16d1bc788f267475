import DumpArchive.Proofs.Delivery
import DumpArchive.Proofs.ReceiverRuns

/-! What a run comes to and what its receivers may conclude from what they are told, for any receivers,
any of which may hang up, and any order of the turns. -/
namespace DumpArchive

open Block (deliveries recordsOf)
open Entrant (labels)

/-- What has come of a run that has read `v` of the `w` that it would read without receivers. -/
structure Concluded (quota : Namespace → Option Nat) (wanted : List Namespace)
    (verdict : Except EngineError Summary) (w v : Wire) (result : Except EngineError Summary) :
    Prop where
  gone : ∀ text, result = .error (.consumerGone text) ↔
    ∃ ns front, text = ns.shown ∧ Strands quota wanted (deliveries w.blocks) front ns
  whole : (∀ text, result ≠ .error (.consumerGone text)) → result = verdict ∧ v = w
  part : ∀ ns front, Strands quota wanted (deliveries w.blocks) front ns →
    deliveries v.blocks = front ∧
      ∃ b record, v.unfinished = some b ∧ b.header.ns = ns ∧ (v.push record).bytes <+: w.bytes

namespace Hearing

open Audience (Actor)
open Demultiplexer (Phase Hosts Fate Surveyed)

variable {quota : Namespace → Option Nat} {max : UInt64} {origin : Nat} {v w : Wire}
  {verdict : Except EngineError Summary} {h : Hearing} {r : Receiver} {index : Nat}

def names (h : Hearing) : List Namespace := h.receivers.map (·.outlet.ns)

theorem map_fst_labels (list : List Receiver) :
    (labels list).map Prod.fst = list.map (·.outlet.ns) := by
  simp [labels]

/-- At any time, with `v` read: what the receivers have been told, and what they will be told when
the run is over. -/
structure Faithful (quota : Namespace → Option Nat) (max : UInt64)
    (verdict : Except EngineError Summary) (w v : Wire) (h : Hearing) : Prop where
  read : v.bytes <+: w.bytes
  formed : ∀ b ∈ v.blocks, b.Formed max
  heard : ∀ r ∈ h.receivers, ∃ calls, r.replies = v.tells r.outlet.ns calls ∧
    (0 < calls → h.Stopped ∨ r.outlet.ns ∈ v.ended)
  clean : ∀ r ∈ h.receivers, .ok none ∈ r.replies → r.outlet.ns ∈ v.ended
  nobody : h.Stopped → h.engine.roster.registry.count = 0
  concluded : ∀ result, h.engine.stage = .stopped result →
    Concluded quota h.names verdict w v result
  /-- Whoever keeps reading. -/
  later : h.Stopped → ∀ (index : Nat) (r : Receiver), h.receivers[index]? = some r →
    quota r.outlet.ns ≠ some (recordsOf r.outlet.ns v.blocks).length → ∀ schedule : List Actor,
      ((h.execute quota schedule).receivers[index]?).map (·.replies) = some (r.replies ++
        List.replicate (schedule.count (.receiver index)) (v.closing r.outlet.ns))

/-- After the stop a call is told what there is to tell, unless its receiver is gone or has what it
wants. -/
theorem Called.reply {next : Hearing} {u : Wire} {j : Nat}
    (called : Called quota h v j next u) (follows : h.Follows quota max origin verdict w v)
    (stopped : h.Stopped) (found : h.receivers[index]? = some r)
    (wants : quota r.outlet.ns ≠ some (recordsOf r.outlet.ns v.blocks).length) :
    ∃ s : Receiver, next.receivers[index]? = some s ∧ s.outlet.ns = r.outlet.ns ∧
      s.replies = r.replies ++ if j = index then [v.closing r.outlet.ns] else [] := by
  have rests (apart : j ≠ index) : ∃ s : Receiver, h.receivers[index]? = some s ∧
      s.outlet.ns = r.outlet.ns ∧
      s.replies = r.replies ++ if j = index then [v.closing r.outlet.ns] else [] :=
    ⟨r, found, rfl, by simp [apart]⟩
  cases called with
  | missing missing =>
    apply rests
    rintro rfl
    simp [missing] at found
  | hung here hung =>
    apply rests
    rintro rfl
    obtain rfl := Option.some.inj (found.symm.trans here)
    exact wants ((follows.heard r (List.mem_of_getElem? found)).hung hung)
  | hangs here present spent =>
    apply rests
    rintro rfl
    obtain rfl := Option.some.inj (found.symm.trans here)
    exact wants ((follows.heard r (List.mem_of_getElem? found)).taken ▸ spent)
  | takes here stage =>
    obtain ⟨result, stops⟩ := stopped
    simp [stops] at stage
  | waits here quiet live => exact absurd stopped live
  | told here quiet ns number =>
    by_cases mine : j = index
    · subst mine
      obtain rfl := Option.some.inj (found.symm.trans here)
      obtain ⟨bound, -⟩ := List.getElem?_eq_some_iff.1 found
      exact ⟨_, List.getElem?_set_self bound, ns, by simp⟩
    · exact ⟨r, (List.getElem?_set_ne mine).trans found, rfl, by simp [mine]⟩

/-- The engine rests after the stop, and nothing more is read. -/
theorem Called.stopped {next : Hearing} {u : Wire} {j : Nat} (called : Called quota h v j next u)
    (stopped : h.Stopped) : next.Stopped ∧ u = v := by
  cases called with
  | takes here stage =>
    obtain ⟨result, stops⟩ := stopped
    simp [stops] at stage
  | waits here quiet live => exact absurd stopped live
  | _ => exact ⟨stopped, rfl⟩

/-- After the stop the engine rests and whoever calls is told what there is to tell. -/
theorem Follows.rests (follows : h.Follows quota max origin verdict w v) (stopped : h.Stopped)
    (actor : Actor) :
    (h.step quota actor).Follows quota max origin verdict w v ∧ (h.step quota actor).Stopped ∧
      ∀ (index : Nat) (r : Receiver), h.receivers[index]? = some r →
        quota r.outlet.ns ≠ some (recordsOf r.outlet.ns v.blocks).length →
        ∃ s : Receiver, (h.step quota actor).receivers[index]? = some s ∧
          s.outlet.ns = r.outlet.ns ∧ s.replies = r.replies ++
            if actor = .receiver index then [v.closing r.outlet.ns] else [] := by
  cases actor with
  | engine =>
    have turned : h.step quota .engine = h := by
      obtain ⟨result, stage⟩ := stopped
      rw [Hearing.step, turn_of_ne (by simp [stage])]
      simp [Demultiplexer.step, stage]
    rw [turned]
    exact ⟨follows, stopped, fun i r found _ => ⟨r, found, rfl, by simp⟩⟩
  | receiver j =>
    obtain ⟨u, called, after⟩ := follows.called j
    obtain ⟨still, rfl⟩ := called.stopped stopped
    refine ⟨after, still, fun i r found wants => ?_⟩
    simpa [Hearing.step] using called.reply follows stopped found wants

theorem Follows.later (follows : h.Follows quota max origin verdict w v) (stopped : h.Stopped)
    (found : h.receivers[index]? = some r)
    (wants : quota r.outlet.ns ≠ some (recordsOf r.outlet.ns v.blocks).length)
    (schedule : List Actor) :
    ((h.execute quota schedule).receivers[index]?).map (·.replies) = some (r.replies ++
      List.replicate (schedule.count (.receiver index)) (v.closing r.outlet.ns)) := by
  induction schedule generalizing h r with
  | nil => simp [execute, found]
  | cons actor schedule ih =>
    obtain ⟨after, rests, goes⟩ := follows.rests stopped actor
    obtain ⟨s, there, ns, replies⟩ := goes index r found wants
    have whole : h.execute quota (actor :: schedule) =
      (h.step quota actor).execute quota schedule := rfl
    rw [whole, ih after rests there (ns ▸ wants), ns, replies]
    by_cases mine : actor = .receiver index <;> simp [mine, List.replicate_succ]

theorem Follows.read (follows : h.Follows quota max origin verdict w v) : v.bytes <+: w.bytes := by
  have grows {record : Bytes} {b : Block} (unfinished : v.unfinished = some b) :
      v.bytes <+: (v.push record).bytes := Wire.bytes_push unfinished ▸ List.prefix_append ..
  have ended {result : Except EngineError Summary}
      (fate : Fate quota ((labels h.receivers).map Prod.fst) verdict w v result) :
      v.bytes <+: w.bytes := by
    cases fate with
    | whole same => exact same ▸ List.prefix_rfl
    | stranded unfinished same bytes => exact (grows unfinished).trans bytes
  cases follows.phase with
  | reading shadowed => exact shadowed.reaches.1
  | offering stage unfinished same entry shadowed => exact (grows unfinished).trans shadowed.reaches.1
  | ending stage complete hosts fate => exact ended fate
  | stopped stage nobody signals fate => exact ended fate

/-- If all of the input was read, every receiver had a use for all of its records. -/
theorem Follows.concluded {result : Except EngineError Summary}
    (follows : h.Follows quota max origin verdict w v) (stage : h.engine.stage = .stopped result)
    (sound : ∀ e, verdict = .error e → ∃ fault, e = .frame fault) :
    Concluded quota h.names verdict w v result := by
  have within : ∀ key ∈ h.names, ∀ n ∈ quota key,
      ((deliveries v.blocks).map Prod.fst).count key ≤ n := by
    intro key known n limit
    obtain ⟨s, member, rfl⟩ := List.mem_map.1 known
    rw [← Block.length_recordsOf]
    exact (follows.heard s member).within n limit
  cases follows.phase with
  | reading shadowed => simp [shadowed.underway.reading] at stage
  | offering offers => simp [offers] at stage
  | ending ends => simp [ends] at stage
  | @stopped other stops nobody signals fate =>
    obtain rfl := Demultiplexer.Stage.stopped.inj (stops.symm.trans stage)
    rw [map_fst_labels] at fate
    cases fate with
    | whole same =>
      subst same
      have none : ∀ ns front, ¬ Strands quota h.names (deliveries v.blocks) front ns := by
        intro ns front strands
        obtain ⟨record, back, split⟩ := strands.reached
        exact strands.exceeds split within
      refine ⟨fun text => ⟨fun bad => ?_, ?_⟩, fun _ => ⟨rfl, rfl⟩, ?_⟩
      · obtain ⟨fault, other⟩ := sound _ bad
        simp at other
      · rintro ⟨ns, front, -, strands⟩
        exact absurd strands (none ns front)
      · exact fun ns front strands => absurd strands (none ns front)
    | @stranded ns b record unfinished same bytes strands =>
      refine ⟨fun text => ⟨fun bad => ?_, ?_⟩, fun good => absurd rfl (good _), ?_⟩
      · have text : ns.shown = text := by simpa using bad
        exact ⟨ns, _, text.symm, strands⟩
      · rintro ⟨key, front, rfl, other⟩
        obtain ⟨-, rfl⟩ := strands.unique other
        rfl
      · intro key front other
        obtain ⟨rfl, rfl⟩ := strands.unique other
        exact ⟨rfl, b, record, unfinished, same, bytes⟩

theorem Follows.faithful (follows : h.Follows quota max origin verdict w v)
    (sound : ∀ e, verdict = .error e → ∃ fault, e = .frame fault) :
    h.Faithful quota max verdict w v where
  read := follows.read
  formed := follows.formed
  heard r member := (follows.heard r member).replies
  clean r member told := by
    obtain ⟨calls, replies, -⟩ := (follows.heard r member).replies
    by_contra going
    simp [replies, Wire.tells, Wire.closing, going] at told
  nobody := by
    rintro ⟨result, stage⟩
    cases follows.phase with
    | reading shadowed => simp [shadowed.underway.reading] at stage
    | offering offers => simp [offers] at stage
    | ending ends => simp [ends] at stage
    | stopped stops nobody => simp [Registry.count, nobody]
  concluded result stage := follows.concluded stage sound
  later stopped index r found wants := follows.later stopped found wants

/-- Who can go on: the engine unless it has stopped or a record is on offer to somebody who is
there, and whoever that is. -/
def Ready (actor : Actor) (h : Hearing) : Prop :=
  match actor with
  | .engine => h.engine.stage = .reading ∨ (∃ result, h.engine.stage = .ending result) ∨
    ∃ ns number record, h.engine.stage = .offering ns number record ∧ number ∈ h.gone
  | .receiver index => ∃ r ns record, h.receivers[index]? = some r ∧
    h.engine.stage = .offering ns r.outlet.number record ∧ r.outlet.number ∉ h.gone

/-- The receivers that have not hung up. -/
def present (h : Hearing) : List Nat := (h.receivers.map (·.outlet.number)).filter (· ∉ h.gone)

def work (h : Hearing) : Nat := h.engine.work + h.present.length

/-- A turn gets on with the work, or its actor could not go on and nothing changes that anybody
waits for. -/
inductive Worked (actor : Actor) (h next : Hearing) : Prop
  | less : next.work < h.work → Worked actor h next
  | rests : ¬ Ready actor h → next.engine = h.engine → next.gone = h.gone →
    next.receivers.map (·.outlet.number) = h.receivers.map (·.outlet.number) → Worked actor h next

theorem worked_turn (h : Hearing) : Worked .engine h h.turn := by
  cases stage : h.engine.stage with
  | offering ns number record =>
    by_cases hung : number ∈ h.gone
    · have less := Demultiplexer.work_resolve_lt false h.engine stage
      simp only [turn, stage, if_pos hung]
      exact .less (Nat.add_lt_add_right less _)
    · simp only [turn, stage, if_neg hung]
      exact .rests (by simp [Ready, stage, hung]) rfl rfl rfl
  | reading =>
    rw [turn_of_ne (by simp [stage])]
    exact .less (Nat.add_lt_add_right (Demultiplexer.work_step_lt _ (.inl stage)) _)
  | ending result =>
    rw [turn_of_ne (by simp [stage])]
    exact .less (Nat.add_lt_add_right (Demultiplexer.work_step_lt _ (.inr ⟨result, stage⟩)) _)
  | idle =>
    rw [turn_of_ne (by simp [stage])]
    exact .rests (by simp [Ready, stage]) (by simp [Demultiplexer.step, stage]) rfl rfl
  | stopped result =>
    rw [turn_of_ne (by simp [stage])]
    exact .rests (by simp [Ready, stage]) (by simp [Demultiplexer.step, stage]) rfl rfl

theorem present_hang (member : r ∈ h.receivers) (there : r.outlet.number ∉ h.gone) :
    ({ h with gone := r.outlet.number :: h.gone } : Hearing).present.length < h.present.length := by
  have fewer : ({ h with gone := r.outlet.number :: h.gone } : Hearing).present =
      h.present.filter (· ≠ r.outlet.number) := by
    simp only [present, List.filter_filter, List.mem_cons, not_or, Bool.decide_and]
  rw [fewer, List.length_filter_lt_length_iff_exists]
  refine ⟨r.outlet.number, List.mem_filter.2 ⟨List.mem_map_of_mem member, by simpa using there⟩, ?_⟩
  simp

theorem Called.worked {next : Hearing} {u : Wire} (called : Called quota h v index next u) :
    Worked (.receiver index) h next := by
  -- who has no record on offer cannot go on
  have idle {r : Receiver} (found : h.receivers[index]? = some r)
      (quiet : ∀ ns record, h.engine.stage ≠ .offering ns r.outlet.number record) :
      ¬ Ready (.receiver index) h := by
    rintro ⟨s, ns, record, here, stage, -⟩
    obtain rfl := Option.some.inj (found.symm.trans here)
    exact quiet ns record stage
  cases called with
  | missing missing => exact .rests (by simp [Ready, missing]) rfl rfl rfl
  | hung found hung => exact .rests (by simp [Ready, found, hung]) rfl rfl rfl
  | hangs found present spent =>
    have member := List.mem_of_getElem? found
    exact .less (Nat.add_lt_add_left (present_hang member present) _)
  | @takes r ns record found stage =>
    have less := Demultiplexer.work_resolve_lt true h.engine stage
    have same : (h.receivers.set index ⟨r.outlet, r.replies ++ [.ok (some record)]⟩).map
        (·.outlet.number) = h.receivers.map (·.outlet.number) := map_set_same found rfl
    refine .less ?_
    simp only [work, present, same]
    exact Nat.add_lt_add_right less _
  | waits found quiet live => exact .rests (idle found quiet) rfl rfl rfl
  | told found quiet ns number =>
    exact .rests (idle found quiet) rfl rfl (map_set_same found number)

theorem Follows.worked (follows : h.Follows quota max origin verdict w v) (actor : Actor) :
    Worked actor h (h.step quota actor) := by
  cases actor with
  | engine => exact worked_turn h
  | receiver index =>
    obtain ⟨u, called, -⟩ := follows.called index
    exact called.worked

theorem ready_of_rests {next : Hearing} (engine : next.engine = h.engine) (gone : next.gone = h.gone)
    (numbers : next.receivers.map (·.outlet.number) = h.receivers.map (·.outlet.number))
    {actor : Actor} (ready : Ready actor h) : Ready actor next := by
  cases actor with
  | engine => simpa only [Ready, engine, gone] using ready
  | receiver index =>
    obtain ⟨r, ns, record, found, stage, there⟩ := ready
    have same := congrArg (·[index]?) numbers
    simp only [List.getElem?_map, found, Option.map_some] at same
    obtain ⟨s, here, number⟩ := Option.map_eq_some_iff.1 same
    exact ⟨s, ns, record, here, by rw [engine, number]; exact stage, by rw [gone, number]; exact there⟩

/-- Somebody can go on until the engine has stopped. -/
theorem Follows.ready (follows : h.Follows quota max origin verdict w v) (going : ¬ h.Stopped) :
    ∃ actor ∈ h.actors, Ready actor h := by
  have engine : Actor.engine ∈ h.actors := List.mem_cons_self ..
  cases follows.phase with
  | reading shadowed => exact ⟨.engine, engine, .inl shadowed.underway.reading⟩
  | ending stage => exact ⟨.engine, engine, .inr (.inl ⟨_, stage⟩)⟩
  | stopped stage => exact absurd ⟨_, stage⟩ going
  | @offering ns number record tail b stage unfinished same entry shadowed hosts =>
    by_cases hung : number ∈ h.gone
    · exact ⟨.engine, engine, .inr (.inr ⟨ns, number, record, stage, hung⟩)⟩
    · obtain ⟨r, member, label⟩ := List.mem_map.1 (hosts.routes ns number entry)
      obtain ⟨rfl, rfl⟩ := Prod.mk.inj label
      obtain ⟨i, found⟩ := List.mem_iff_getElem?.1 member
      obtain ⟨bound, -⟩ := List.getElem?_eq_some_iff.1 found
      refine ⟨.receiver i, List.mem_cons_of_mem _ (List.mem_map_of_mem ?_), r, _, record, found,
        stage, hung⟩
      exact List.mem_range.2 bound

theorem names_step (actor : Actor) (h : Hearing) : (h.step quota actor).names = h.names := by
  cases actor with
  | engine =>
    simp only [step, turn]
    split
    · split <;> rfl
    · rfl
  | receiver index =>
    simp only [step, call]
    split
    · rfl
    · split
      · rfl
      · split
        · rfl
        · exact Audience.names_step (.receiver index) h.audience

theorem actors_eq {next : Hearing} (same : next.names = h.names) : next.actors = h.actors :=
  @Audience.actors_eq h.audience next.audience same

theorem advancing (small : max.toNat < 2 ^ 63) (start : Hearing) :
    Advancing (step quota) start.actors
      (fun h => h.names = start.names ∧ ∃ v, h.Follows quota max origin verdict w v) Stopped Ready
      work where
  good actor h := fun ⟨same, v, follows⟩ =>
    ⟨(names_step actor h).trans same, follows.step small actor⟩
  done actor h := fun ⟨_, v, follows⟩ stopped => (follows.rests stopped actor).2.1
  someone h := fun ⟨same, v, follows⟩ going => actors_eq same ▸ follows.ready going
  advance actor h := by
    rintro ⟨-, v, follows⟩ ready
    cases follows.worked actor with
    | less less => exact less
    | rests idle => exact absurd ready idle
  patient actor h := by
    rintro ⟨-, v, follows⟩
    cases follows.worked actor with
    | less less => exact .inl less
    | rests idle engine gone numbers =>
      refine .inr ⟨?_, fun other => ready_of_rests engine gone numbers⟩
      simp only [work, present, engine, gone, numbers]

theorem underway_convene {reader : Token.Reader} {data : Bytes} (ahead : reader.At max origin data)
    (cap : Option UInt64) (entrants : List Entrant) :
    (convene reader cap entrants).engine.Underway max origin .empty data := by
  have enrolled : Entrant.Enrolled ⟨.empty cap, 0⟩ _ _ :=
    Entrant.enrolled entrants (Registry.valid_empty cap)
  exact ⟨rfl, ahead, fun _ => rfl, fun inside => (by cases inside),
    by simp [Wire.empty, Wire.blocks], enrolled.valid, by simp [convene, Demultiplexer.run]⟩

theorem hosts_convene (reader : Token.Reader) (cap : Option UInt64) (entrants : List Entrant) :
    Hosts (labels (convene reader cap entrants).receivers) .empty
      (convene reader cap entrants).engine := by
  have enrolled : Entrant.Enrolled ⟨.empty cap, 0⟩ _ _ :=
    Entrant.enrolled entrants (Registry.valid_empty cap)
  obtain ⟨added, entries, served⟩ := enrolled.entries
  have same : (convene reader cap entrants).engine.roster.registry.entries = added := entries
  have served : (convene reader cap entrants).receivers.map Receiver.entry =
      added.filter (·.2 ≠ .discard) := served
  generalize listed : (convene reader cap entrants).receivers = receivers at served
  have numbered : ∀ (i : Nat) (r : Receiver), receivers[i]? = some r → r.outlet.number = i := by
    intro i r found
    rw [← listed] at found
    exact (enrolled.numbered i r found).trans (Nat.zero_add i)
  refine ⟨⟨?_, ?_, ?_, ?_⟩, by simp [convene, Demultiplexer.run, Demultiplexer.start, Wire.empty,
    Wire.ended, Wire.blocks], by simp [Wire.empty, Wire.ended, Wire.blocks]⟩
  · have names : (labels receivers).map Prod.fst = (added.filter (·.2 ≠ .discard)).map Prod.fst := by
      rw [← served]
      simp [labels, Receiver.entry]
    have distinct : (added.map Prod.fst).Nodup := same ▸ enrolled.valid.distinct
    rw [names]
    exact distinct.sublist (List.filter_sublist.map _)
  · have numbers : (labels receivers).map Prod.snd = List.range receivers.length := by
      refine List.ext_getElem (by simp [labels]) fun i here there => ?_
      have bound : i < receivers.length := by simpa using there
      simpa [labels] using numbered i receivers[i] (List.getElem?_eq_getElem bound)
    rw [numbers]
    exact List.nodup_range
  · intro ns number entry
    rw [same] at entry
    have kept : (ns, Route.outlet number) ∈ receivers.map Receiver.entry := by
      rw [served]
      exact List.mem_filter.2 ⟨entry, by simp⟩
    obtain ⟨r, member, here⟩ := List.mem_map.1 kept
    obtain ⟨rfl, route⟩ := Prod.mk.inj here
    obtain rfl := Route.outlet.inj route
    exact List.mem_map_of_mem member
  · intro l member
    obtain ⟨r, here, rfl⟩ := List.mem_map.1 member
    have kept := List.mem_map_of_mem (f := Receiver.entry) here
    rw [served] at kept
    rw [same]
    exact .inl (List.mem_of_mem_filter kept)

/-- Beside an engine that serves the same namespaces to nobody. -/
theorem mirrors_convene (reader : Token.Reader) (cap : Option UInt64) (entrants : List Entrant) :
    (convene reader cap entrants).engine.Mirrors
      (convene reader cap (entrants.map Entrant.muted)).engine := by
  have nobody : ∀ e ∈ (Registry.empty cap : Registry Route).entries, e.2 = .discard := by
    simp [Registry.empty]
  have alike : Entrant.Like (.empty cap) (.empty cap) := ⟨rfl, rfl, rfl, rfl⟩
  obtain ⟨like, discards⟩ := @Entrant.enrol_muted entrants ⟨.empty cap, 0⟩ ⟨.empty cap, 0⟩ alike nobody
  exact ⟨rfl, rfl, rfl, .of_eq like.keys, rfl, rfl, discards⟩

/-- Before the first turn nothing has been read and nobody has been told anything. -/
theorem follows_convene {reader : Token.Reader} {data : Bytes} (ahead : reader.At max origin data)
    (cap : Option UInt64) (entrants : List Entrant) :
    let silent := (convene reader cap (entrants.map Entrant.muted)).engine
    (convene reader cap entrants).Follows quota max origin silent.scan (silent.survey .empty)
      .empty := by
  have enrolled : Entrant.Enrolled ⟨.empty cap, 0⟩ _ _ :=
    Entrant.enrolled entrants (Registry.valid_empty cap)
  have shadowed := Demultiplexer.Shadowed.mk (underway_convene ahead cap entrants)
    ⟨_, mirrors_convene reader cap entrants, rfl, rfl⟩
  refine ⟨fun i r found => (enrolled.numbered i r found).trans (Nat.zero_add i),
    by simp [Wire.empty, Wire.blocks], .reading shadowed (hosts_convene reader cap entrants), ?_⟩
  intro r member
  obtain ⟨none, going⟩ := enrolled.silent r member
  exact ⟨⟨0, by simp [none, Wire.tells, Wire.empty, Wire.blocks], by simp⟩, by simp [going],
    by simp [Wire.empty, Wire.blocks], by simp [convene]⟩

/-- For receivers and discards asked for in any order, on any input, with receivers that hang up
after any numbers of records, on every schedule: what the run without receivers reads and reports
bounds what every receiver hears, and the run stops with that report or for a receiver that was
gone when the stream came to a record of it. Enough rounds of turns bring it to its stop. -/
theorem faithful_execute {reader : Token.Reader} {data : Bytes} (small : max.toNat < 2 ^ 63)
    (ahead : reader.At max origin data) (cap : Option UInt64) (entrants : List Entrant)
    (quota : Namespace → Option Nat) :
    let start := convene reader cap entrants
    let silent := (convene reader cap (entrants.map Entrant.muted)).engine
    (∃ rest, Surveyed max origin data silent.scan (silent.survey .empty) rest) ∧
      ∀ schedule : List Actor, (start.execute quota schedule).names = start.names ∧
        (∃ v, (start.execute quota schedule).Faithful quota max silent.scan (silent.survey .empty)
          v) ∧
        (Rounds start.actors (start.work + 1) schedule →
          (start.execute quota schedule).Stopped) := by
  intro start silent
  have underway : silent.Underway max origin .empty data := underway_convene ahead cap _
  have discards : silent.Discards := (mirrors_convene reader cap entrants).discards
  obtain ⟨rest, surveyed⟩ := underway.surveyed small discards
  have sound : ∀ e, silent.scan = .error e → ∃ fault, e = .frame fault := by
    intro e bad
    obtain ⟨defect, rfl⟩ := surveyed.corrupt e bad
    exact ⟨_, rfl⟩
  have follows : start.Follows quota max origin silent.scan (silent.survey .empty) .empty :=
    follows_convene ahead cap entrants
  have advances : Advancing (step quota) start.actors (fun h => h.names = start.names ∧
      ∃ v, h.Follows quota max origin silent.scan (silent.survey .empty) v) Stopped Ready work :=
    advancing small start
  refine ⟨⟨rest, surveyed⟩, fun schedule => ?_⟩
  obtain ⟨names, v, after⟩ := advances.good_foldl ⟨rfl, _, follows⟩ schedule
  exact ⟨names, ⟨v, after.faithful sound⟩, fun enough =>
    advances.done_of_rounds ⟨rfl, _, follows⟩ enough⟩

/-- One receiver that wants one record of the two that come, beside requests that are refused: the
name is taken, or there is no room. -/
theorem faithful_execute_one_of_two :
    let block := Block.ofHeader ⟨⟨"a", "b"⟩, false⟩ [[5, 0, 0, 0, 0], [5, 0, 0, 0, 0]]
    let reader := Token.Reader.start (.ofBytes block.bytes) 128
    let start := convene reader (some 1) [⟨⟨"a", "b"⟩, true⟩, ⟨⟨"a", "b"⟩, false⟩, ⟨⟨"a", "c"⟩, true⟩]
    ((128 : UInt64).toNat < 2 ^ 63 ∧ reader.At 128 0 block.bytes) ∧
      ∀ schedule result, (start.execute (fun _ => some 1) schedule).engine.stage = .stopped result →
        result = .error (.consumerGone "a.b") := by
  intro block reader start
  have small : (128 : UInt64).toNat < 2 ^ 63 := by decide
  have ahead : reader.At 128 0 block.bytes :=
    Token.Reader.at_start Stream.Schedule.sound_steady 128
  refine ⟨⟨small, ahead⟩, fun schedule result stage => ?_⟩
  obtain ⟨-, all⟩ := faithful_execute small ahead (some 1)
    [⟨⟨"a", "b"⟩, true⟩, ⟨⟨"a", "b"⟩, false⟩, ⟨⟨"a", "c"⟩, true⟩] fun _ => some 1
  obtain ⟨names, ⟨v, faithful⟩, -⟩ := all schedule
  have concluded := faithful.concluded result stage
  rw [names] at concluded
  refine (concluded.gone "a.b").2 ⟨⟨"a", "b"⟩, [(⟨"a", "b"⟩, [5, 0, 0, 0, 0])], by decide, ?_⟩
  have reached : deliveries ((convene reader (some 1) ([⟨⟨"a", "b"⟩, true⟩, ⟨⟨"a", "b"⟩, false⟩,
      ⟨⟨"a", "c"⟩, true⟩].map Entrant.muted)).engine.survey .empty).blocks =
      [(⟨"a", "b"⟩, [5, 0, 0, 0, 0]), (⟨"a", "b"⟩, [5, 0, 0, 0, 0])] := by cbv
  have listed : start.names = [⟨"a", "b"⟩] := by cbv
  rw [reached, listed]
  exact ⟨⟨[5, 0, 0, 0, 0], [], rfl⟩, by decide, by decide, by decide⟩

end Hearing
end DumpArchive
