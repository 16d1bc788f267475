import DumpArchive.Demultiplexer.Drive
import DumpArchive.Proofs.Receivers
import DumpArchive.Proofs.ListUpdates

/-! Every receiver gets the records of its namespace in the order of the stream, and after them
the end again and again, whatever the order of the turns; enough rounds deliver everything. -/
namespace DumpArchive.Audience

/-- The receivers, by namespace and outlet, that are still served, and those that were. -/
structure Attends (a : Audience) (max : UInt64) (total : Summary) (all left : Namespace → List Bytes) :
    Prop where
  due : a.engine.Due max total left
  numbered : ∀ (i : Nat) (r : Receiver), a.receivers[i]? = some r → r.outlet.number = i
  distinct : (a.receivers.map (·.outlet.ns)).Nodup
  routes : ∀ ns route, (ns, route) ∈ a.engine.roster.registry.entries →
    ∃ r ∈ a.receivers, r.outlet.ns = ns ∧ route = .outlet r.outlet.number
  seated : ∀ r ∈ a.receivers,
    (r.outlet.ns, .outlet r.outlet.number) ∈ a.engine.roster.registry.entries ∧
      r.outlet.number ∉ a.engine.ended ∨
    r.outlet.ns ∉ a.engine.roster.registry.keys ∧ r.outlet.number ∈ a.engine.ended
  heard : ∀ r ∈ a.receivers, ∃ front ends, all r.outlet.ns = front ++ left r.outlet.ns ∧
    r.replies = answers front ends ∧
    (r.outlet.ended ↔ 0 < ends) ∧ (r.outlet.ended → r.outlet.number ∈ a.engine.ended)

variable {a : Audience} {max : UInt64} {total : Summary} {all left : Namespace → List Bytes}
  {r s : Receiver} {index : Nat}

theorem Attends.eq_of_ns (attends : a.Attends max total all left) (first : r ∈ a.receivers)
    (second : s ∈ a.receivers) (same : r.outlet.ns = s.outlet.ns) : r = s :=
  List.inj_on_of_nodup_map attends.distinct first second same

theorem Attends.eq_of_number (attends : a.Attends max total all left) (first : r ∈ a.receivers)
    (second : s ∈ a.receivers) (same : r.outlet.number = s.outlet.number) : r = s := by
  obtain ⟨i, here⟩ := List.mem_iff_getElem?.1 first
  obtain ⟨j, there⟩ := List.mem_iff_getElem?.1 second
  rw [attends.numbered i r here, attends.numbered j s there] at same
  exact Option.some.inj (here.symm.trans (same ▸ there))

theorem Attends.turn (small : max.toNat < 2 ^ 63) (attends : a.Attends max total all left) :
    ({ a with engine := a.engine.step } : Audience).Attends max total all left := by
  have outlets : ∀ ns route, (ns, route) ∈ a.engine.roster.registry.entries →
      ∃ number, route = .outlet number := by
    intro ns route entry
    obtain ⟨r, -, -, same⟩ := attends.routes ns route entry
    exact ⟨_, same⟩
  obtain ⟨due, ⟨entries, ended⟩ | ⟨ns, number, entry, entries, ended⟩⟩ :=
    attends.due.step small outlets
  · refine ⟨due, attends.numbered, attends.distinct, ?_, ?_, ?_⟩
    · simpa only [entries] using attends.routes
    · simpa only [Registry.keys, entries, ended] using attends.seated
    · simpa only [ended] using attends.heard
  · obtain ⟨r, member, same, numbered⟩ := attends.routes ns _ entry
    obtain rfl : number = r.outlet.number := by simpa using numbered
    subst same
    refine ⟨due, attends.numbered, attends.distinct, ?_, ?_, ?_⟩
    · intro key route kept
      simp only [entries] at kept
      exact attends.routes key route (List.mem_of_mem_filter kept)
    · intro s other
      have keys : a.engine.step.roster.registry.keys =
          (a.engine.roster.registry.close r.outlet.ns).keys := by
        simp only [Registry.keys, entries]
      simp only [keys, entries, ended, Registry.keys_close, List.mem_cons]
      by_cases mine : s.outlet.ns = r.outlet.ns
      · obtain rfl := attends.eq_of_ns other member mine
        exact .inr ⟨by simp, .inl rfl⟩
      · have apart : s.outlet.number ≠ r.outlet.number := fun equal =>
          mine (by rw [attends.eq_of_number other member equal])
        rcases attends.seated s other with ⟨served, live⟩ | ⟨gone, past⟩
        · refine .inl ⟨List.mem_filter.2 ⟨served, by simpa using mine⟩, ?_⟩
          simp [apart, live]
        · exact .inr ⟨fun kept => gone (List.mem_of_mem_filter kept), .inr past⟩
    · intro s other
      obtain ⟨front, ends, split, replies, reported, past⟩ := attends.heard s other
      refine ⟨front, ends, split, replies, reported, fun told => ?_⟩
      rw [ended]
      exact List.mem_cons_of_mem _ (past told)

theorem Attends.signal (attends : a.Attends max total all left) (member : r ∈ a.receivers) :
    a.engine.signal r.outlet.number =
      if r.outlet.number ∈ a.engine.ended then .ended else .live := by
  unfold Demultiplexer.signal
  split
  · rfl
  · next live =>
    rcases attends.seated r member with ⟨served, -⟩ | ⟨-, past⟩
    · rw [if_pos]
      simpa using ⟨_, served⟩
    · exact absurd past live

/-- Everything that a call of a receiver can come to. -/
inductive Listened (a : Audience) (index : Nat) : Audience → Prop
  | absent : a.receivers[index]? = none → Listened a index a
  | waits {r : Receiver} : a.receivers[index]? = some r → r.outlet.ended = false →
    r.outlet.number ∉ a.engine.ended →
    (∀ ns record, a.engine.stage ≠ .offering ns r.outlet.number record) → Listened a index a
  | took {r : Receiver} {ns : Namespace} {record : Bytes} : a.receivers[index]? = some r →
    r.outlet.ended = false → a.engine.stage = .offering ns r.outlet.number record →
    Listened a index
      ⟨a.engine.resolve true, a.receivers.set index ⟨r.outlet, r.replies ++ [.ok (some record)]⟩⟩
  | past {r : Receiver} : a.receivers[index]? = some r → r.outlet.number ∈ a.engine.ended →
    (∀ ns record, a.engine.stage ≠ .offering ns r.outlet.number record) →
    Listened a index ⟨a.engine, a.receivers.set index
      ⟨{ r.outlet with ended := true }, r.replies ++ [.ok none]⟩⟩

/-- Records are offered to receivers whose namespace has not ended. -/
theorem Attends.offered {ns : Namespace} {record : Bytes}
    (attends : a.Attends max total all left) (member : r ∈ a.receivers)
    (stage : a.engine.stage = .offering ns r.outlet.number record) :
    r.outlet.ns = ns ∧ r.outlet.number ∉ a.engine.ended := by
  obtain ⟨entry, -⟩ := attends.due.resolve stage
  obtain ⟨s, other, rfl, same⟩ := attends.routes ns _ entry
  have number : r.outlet.number = s.outlet.number := by simpa using same
  obtain rfl := attends.eq_of_number member other number
  rcases attends.seated r member with ⟨-, live⟩ | ⟨gone, -⟩
  · exact ⟨rfl, live⟩
  · exact absurd (List.mem_map_of_mem entry) gone

theorem Attends.listened (attends : a.Attends max total all left) (index : Nat) :
    Listened a index (a.listen index) := by
  unfold listen
  split
  · next none => exact .absent none
  · next r found =>
    have member := List.mem_of_getElem? found
    obtain ⟨front, ends, -, -, -, past⟩ := attends.heard r member
    by_cases offered : ∃ ns record, a.engine.stage = .offering ns r.outlet.number record
    · obtain ⟨ns, record, stage⟩ := offered
      obtain ⟨-, live⟩ := attends.offered member stage
      have unended : r.outlet.ended = false := by
        by_contra told
        exact live (past (by simpa using told))
      simp only [Outlet.readRecord, unended, Bool.false_eq_true, if_false,
        supply_of_offering stage]
      exact .took found unended stage
    · have quiet : ∀ ns record, a.engine.stage ≠ .offering ns r.outlet.number record :=
        fun ns record stage => offered ⟨ns, record, stage⟩
      have supply : a.supply r.outlet.number =
          if r.outlet.number ∈ a.engine.ended then .ended else .nothing := by
        have signal := attends.signal member
        unfold Audience.supply
        split
        · next stage =>
          rw [if_neg (fun same => quiet _ _ (same ▸ stage)), signal]
          split <;> rfl
        · rw [signal]
          split <;> rfl
      cases told : r.outlet.ended with
      | true =>
        have same : ({ r.outlet with ended := true } : Outlet) = r.outlet := by rw [← told]
        simp only [Outlet.readRecord, told, if_true]
        have after := Listened.past found (past told) quiet
        rwa [same] at after
      | false =>
        by_cases ended : r.outlet.number ∈ a.engine.ended
        · rw [if_pos ended] at supply
          simp only [supply, Outlet.readRecord, told, Bool.false_eq_true, if_false]
          exact .past found ended quiet
        · rw [if_neg ended] at supply
          simp only [supply, Outlet.readRecord, told, Bool.false_eq_true, if_false]
          exact .waits found told ended quiet

/-- The receivers of a list in which one has been replaced. -/
theorem Attends.mem_set {after : Receiver} (attends : a.Attends max total all left)
    (found : a.receivers[index]? = some r) (member : s ∈ a.receivers.set index after) :
    s = after ∨ (s ∈ a.receivers ∧ s.outlet.number ≠ r.outlet.number) := by
  obtain ⟨j, here⟩ := List.mem_iff_getElem?.1 member
  rcases getElem?_set_cases here with ⟨-, same⟩ | ⟨apart, old⟩
  · exact .inl same
  · refine .inr ⟨List.mem_of_getElem? old, ?_⟩
    rw [attends.numbered j s old, attends.numbered index r found]
    exact apart

/-- A receiver whose call returns is still at its place. -/
theorem Attends.replace {engine : Demultiplexer} {after : Receiver} {later : Namespace → List Bytes}
    (attends : a.Attends max total all left) (found : a.receivers[index]? = some r)
    (number : after.outlet.number = r.outlet.number) (ns : after.outlet.ns = r.outlet.ns)
    (roster : engine.roster = a.engine.roster) (ended : engine.ended = a.engine.ended)
    (due : engine.Due max total later) (others : ∀ ns, ns ≠ r.outlet.ns → later ns = left ns)
    (own : ∃ front ends, all r.outlet.ns = front ++ later r.outlet.ns ∧
      after.replies = answers front ends ∧
      (after.outlet.ended ↔ 0 < ends) ∧ (after.outlet.ended → r.outlet.number ∈ a.engine.ended)) :
    (⟨engine, a.receivers.set index after⟩ : Audience).Attends max total all later := by
  have member := List.mem_of_getElem? found
  obtain ⟨bound, here⟩ := List.getElem?_eq_some_iff.1 found
  have names : (a.receivers.set index after).map (·.outlet.ns) = a.receivers.map (·.outlet.ns) :=
    map_set_same found ns
  refine ⟨due, ?_, ?_, ?_, ?_, ?_⟩
  · intro i s there
    rw [List.getElem?_set] at there
    split at there
    · next same =>
      rw [← Option.some.inj there, number, attends.numbered index r found, same]
    · exact attends.numbered i s there
  · rw [names]
    exact attends.distinct
  · intro key route entry
    rw [roster] at entry
    obtain ⟨s, other, rfl, rfl⟩ := attends.routes key route entry
    by_cases mine : s.outlet.number = r.outlet.number
    · obtain rfl := attends.eq_of_number other member mine
      exact ⟨after, List.mem_set bound after, ns, by rw [number]⟩
    · refine ⟨s, ?_, rfl, rfl⟩
      obtain ⟨j, there⟩ := List.mem_iff_getElem?.1 other
      have apart : index ≠ j := by
        rintro rfl
        rw [attends.numbered _ s there, attends.numbered _ r found] at mine
        exact mine rfl
      exact List.mem_of_getElem? ((List.getElem?_set_ne apart).trans there)
  · intro s other
    rw [roster, ended]
    rcases attends.mem_set found other with rfl | ⟨old, -⟩
    · rw [number, ns]
      exact attends.seated r member
    · exact attends.seated s old
  · intro s other
    rw [ended]
    rcases attends.mem_set found other with rfl | ⟨old, apart⟩
    · rw [number, ns]
      exact own
    · have elsewhere : s.outlet.ns ≠ r.outlet.ns := fun same =>
        apart (by rw [attends.eq_of_ns old member same])
      rw [others _ elsewhere]
      exact attends.heard s old

theorem Attends.listen (attends : a.Attends max total all left) (index : Nat) :
    ∃ later, (a.listen index).Attends max total all later := by
  have listened := attends.listened index
  generalize a.listen index = next at listened
  cases listened with
  | absent none => exact ⟨left, attends⟩
  | waits found unended live quiet => exact ⟨left, attends⟩
  | @took r ns record found unended stage =>
    have member := List.mem_of_getElem? found
    obtain ⟨same, -⟩ := attends.offered member stage
    obtain ⟨entry, later, due, first, others⟩ := attends.due.resolve stage
    obtain ⟨front, ends, split, replies, told, past⟩ := attends.heard r member
    have none : ends = 0 := by
      by_contra some
      have ended := told.2 (Nat.pos_of_ne_zero some)
      simp [unended] at ended
    obtain ⟨roster, ended⟩ := Demultiplexer.roster_resolve true a.engine
    refine ⟨later, attends.replace found rfl rfl roster ended due (same ▸ others) ?_⟩
    refine ⟨front ++ [record], 0, ?_, ?_, ?_, ?_⟩
    · rw [split, same, first]
      simp
    · rw [replies, none, answers_concat]
    · simp [unended]
    · simp [unended]
  | @past r found ended quiet =>
    have member := List.mem_of_getElem? found
    obtain ⟨front, ends, split, replies, told, past⟩ := attends.heard r member
    refine ⟨left, attends.replace found rfl rfl rfl rfl attends.due (fun _ _ => rfl) ?_⟩
    refine ⟨front, ends + 1, split, ?_, by simp, fun _ => ended⟩
    rw [replies]
    exact answers_ended front ends 1

theorem Attends.step (small : max.toNat < 2 ^ 63) (attends : a.Attends max total all left)
    (actor : Actor) : ∃ later, (Audience.step actor a).Attends max total all later := by
  cases actor with
  | engine => exact ⟨left, attends.turn small⟩
  | receiver index => exact attends.listen index

/-- The engine has stopped and every receiver has been told the end of its namespace. -/
def Done (a : Audience) : Prop :=
  (∃ result, a.engine.stage = .stopped result) ∧ ∀ r ∈ a.receivers, r.outlet.ended

/-- Who can go on: the engine unless it offers a record or has stopped, the receiver that is
offered one, and after the stop those who have not been told. -/
def Ready (actor : Actor) (a : Audience) : Prop :=
  match actor with
  | .engine => a.engine.stage = .reading ∨ ∃ result, a.engine.stage = .ending result
  | .receiver index => ∃ r, a.receivers[index]? = some r ∧
    ((∃ ns record, a.engine.stage = .offering ns r.outlet.number record) ∨
      (∃ result, a.engine.stage = .stopped result) ∧ r.outlet.ended = false)

def untold (a : Audience) : Nat := a.receivers.countP fun r => !r.outlet.ended

def work (a : Audience) : Nat := a.engine.work + a.untold

theorem untold_set (after : Receiver) (found : a.receivers[index]? = some r) :
    (⟨a.engine, a.receivers.set index after⟩ : Audience).untold +
        (if r.outlet.ended then 0 else 1) = a.untold + if after.outlet.ended then 0 else 1 := by
  obtain ⟨bound, here⟩ := List.getElem?_eq_some_iff.1 found
  have positive : r.outlet.ended = false → 0 < a.untold := by
    intro waits
    exact List.countP_pos_iff.2 ⟨r, List.mem_of_getElem? found, by simp [waits]⟩
  simp only [untold, List.countP_set bound, here] at positive ⊢
  cases told : r.outlet.ended <;> cases later : after.outlet.ended <;> simp_all

/-- After the stop nobody is served any more. -/
theorem Attends.ended_of_stopped {result : Except EngineError Summary}
    (attends : a.Attends max total all left) (stopped : a.engine.stage = .stopped result)
    (member : r ∈ a.receivers) : r.outlet.number ∈ a.engine.ended := by
  have nobody : a.engine.roster.registry.entries = [] := by
    cases attends.due with
    | reading reads => simp [reads.reading] at stopped
    | offering offers => simp [offers] at stopped
    | ending ends => simp [ends] at stopped
    | stopped stage nobody => exact nobody
  rcases attends.seated r member with ⟨served, -⟩ | ⟨-, past⟩
  · simp [nobody] at served
  · exact past

/-- A turn does some of the work, or it is the turn of someone who has to wait and hinders
nobody. -/
theorem Attends.work_step (attends : a.Attends max total all left) (actor : Actor) :
    (Audience.step actor a).work < a.work ∨
      (Audience.step actor a).work = a.work ∧ ¬ Ready actor a ∧
        ∀ other, Ready other a → Ready other (Audience.step actor a) := by
  cases actor with
  | engine =>
    by_cases busy : a.engine.stage = .reading ∨ ∃ result, a.engine.stage = .ending result
    · exact .inl (Nat.add_lt_add_right (Demultiplexer.work_step_lt a.engine busy) _)
    · have rests : a.engine.step = a.engine := by
        cases stage : a.engine.stage <;> simp_all [Demultiplexer.step]
      have same : Audience.step .engine a = a := by simp [Audience.step, rests]
      rw [same]
      exact .inr ⟨rfl, busy, fun _ ready => ready⟩
  | receiver index =>
    have listened := attends.listened index
    change (a.listen index).work < _ ∨ (a.listen index).work = _ ∧ _ ∧
      ∀ other, Ready other a → Ready other (a.listen index)
    generalize a.listen index = next at listened
    cases listened with
    | absent none => exact .inr ⟨rfl, by simp [Ready, none], fun _ ready => ready⟩
    | waits found unended live quiet =>
      refine .inr ⟨rfl, ?_, fun _ ready => ready⟩
      rintro ⟨s, here, ⟨ns, record, offers⟩ | ⟨⟨result, stopped⟩, -⟩⟩
      all_goals obtain rfl := Option.some.inj (found.symm.trans here)
      · exact quiet ns record offers
      · exact live (attends.ended_of_stopped stopped (List.mem_of_getElem? found))
    | @took r ns record found unended stage =>
      have less := Demultiplexer.work_resolve_lt true a.engine stage
      have same := untold_set (a := a) ⟨r.outlet, r.replies ++ [.ok (some record)]⟩ found
      simp only [unended, Bool.false_eq_true, if_false] at same
      left
      simp only [work]
      change (a.engine.resolve true).work + untold ⟨a.engine, _⟩ < _
      omega
    | @past r found ended quiet =>
      have told := untold_set (a := a)
        ⟨{ r.outlet with ended := true }, r.replies ++ [.ok none]⟩ found
      cases before : r.outlet.ended with
      | false =>
        left
        simp only [before, Bool.false_eq_true, if_false, if_true] at told
        simp only [work]
        omega
      | true =>
        right
        have resting : ¬ Ready (.receiver index) a := by
          rintro ⟨s, here, ⟨ns, record, offers⟩ | ⟨-, waits⟩⟩
          all_goals obtain rfl := Option.some.inj (found.symm.trans here)
          · exact quiet ns record offers
          · simp [before] at waits
        refine ⟨?_, resting, ?_⟩
        · simp only [before, if_true] at told
          simp only [work]
          omega
        · intro other ready
          cases other with
          | engine => exact ready
          | receiver j =>
            have apart : index ≠ j := fun same => resting (same ▸ ready)
            obtain ⟨s, here, waits⟩ := ready
            exact ⟨s, (List.getElem?_set_ne apart).trans here, waits⟩

theorem Attends.ready (attends : a.Attends max total all left) (undone : ¬ Done a) :
    ∃ actor ∈ a.actors, Ready actor a := by
  have seat : ∀ {s : Receiver}, s ∈ a.receivers → .receiver s.outlet.number ∈ a.actors ∧
      a.receivers[s.outlet.number]? = some s := by
    intro s member
    obtain ⟨i, here⟩ := List.mem_iff_getElem?.1 member
    have bound := (List.getElem?_eq_some_iff.1 here).1
    rw [attends.numbered i s here]
    exact ⟨by simp [actors, bound], here⟩
  cases attends.due with
  | reading reads => exact ⟨.engine, List.mem_cons_self .., .inl reads.reading⟩
  | ending ends => exact ⟨.engine, List.mem_cons_self .., .inr ⟨_, ends⟩⟩
  | offering offers entry =>
    obtain ⟨s, member, rfl, same⟩ := attends.routes _ _ entry
    obtain rfl := by simpa using same
    obtain ⟨actor, here⟩ := seat member
    exact ⟨_, actor, s, here, .inl ⟨_, _, offers⟩⟩
  | stopped stopped =>
    obtain ⟨s, member, waits⟩ : ∃ s ∈ a.receivers, s.outlet.ended = false := by
      by_contra told
      refine undone ⟨⟨_, stopped⟩, fun s member => ?_⟩
      by_contra waits
      exact told ⟨s, member, by simpa using waits⟩
    obtain ⟨actor, here⟩ := seat member
    exact ⟨_, actor, s, here, .inr ⟨⟨_, stopped⟩, waits⟩⟩

theorem Attends.done_step (attends : a.Attends max total all left) (done : Done a)
    (actor : Actor) : Done (Audience.step actor a) := by
  obtain ⟨⟨result, stopped⟩, told⟩ := done
  cases actor with
  | engine =>
    have rests : a.engine.step = a.engine := by simp [Demultiplexer.step, stopped]
    simpa [Audience.step, rests, Done] using ⟨⟨result, stopped⟩, told⟩
  | receiver index =>
    have listened := attends.listened index
    change Done (a.listen index)
    generalize a.listen index = next at listened
    cases listened with
    | absent => exact ⟨⟨result, stopped⟩, told⟩
    | waits => exact ⟨⟨result, stopped⟩, told⟩
    | took found unended stage => simp [stopped] at stage
    | past found =>
      refine ⟨⟨result, stopped⟩, fun s member => ?_⟩
      rcases List.mem_or_eq_of_mem_set member with old | rfl
      · exact told s old
      · rfl

@[simp] theorem ns_readRecord (supply : Outlet.Supply) (o : Outlet) :
    (o.readRecord supply).2.ns = o.ns := by
  unfold Outlet.readRecord
  split
  · rfl
  · split <;> rfl

/-- The namespaces of the receivers. -/
def names (a : Audience) : List Namespace := a.receivers.map (·.outlet.ns)

theorem names_step (actor : Actor) (a : Audience) : (step actor a).names = a.names := by
  cases actor with
  | engine => rfl
  | receiver index =>
    simp only [step, listen]
    split
    · rfl
    · next r found =>
      split
      · rfl
      · next reply outlet replied =>
        have kept : outlet.ns = r.outlet.ns := by
          rw [← ns_readRecord (a.supply r.outlet.number) r.outlet, replied]
        exact map_set_same found kept

theorem actors_eq {other : Audience} (same : other.names = a.names) : other.actors = a.actors := by
  have length := congrArg List.length same
  simp only [names, List.length_map] at length
  simp only [actors, length]

/-- Rounds of turns lead an audience to its end. -/
theorem advancing (small : max.toNat < 2 ^ 63) (total : Summary) (all : Namespace → List Bytes)
    (start : Audience) :
    Advancing step start.actors
      (fun a => a.names = start.names ∧ ∃ left, a.Attends max total all left) Done Ready work where
  good actor a := fun ⟨same, left, attends⟩ =>
    ⟨(names_step actor a).trans same, attends.step small actor⟩
  done actor a := fun ⟨_, left, attends⟩ done => attends.done_step done actor
  someone a := fun ⟨same, left, attends⟩ undone => actors_eq same ▸ attends.ready undone
  advance actor a := by
    rintro ⟨-, left, attends⟩ ready
    rcases attends.work_step actor with less | ⟨-, rests, -⟩
    · exact less
    · exact absurd ready rests
  patient actor a := by
    rintro ⟨-, left, attends⟩
    rcases attends.work_step actor with less | ⟨same, -, keep⟩
    · exact .inl less
    · exact .inr ⟨same, keep⟩

/-- At any time: an engine that has stopped has done so with the summary and has nobody left, and
what a receiver has been answered is the beginning of its records, or all of them and the end. -/
structure Serving (a : Audience) (total : Summary) (all : Namespace → List Bytes) : Prop where
  stopped : ∀ result, a.engine.stage = .stopped result →
    result = .ok total ∧ a.engine.roster.registry.count = 0
  heard : ∀ r ∈ a.receivers, ∃ front back ends, all r.outlet.ns = front ++ back ∧
    r.replies = answers front ends ∧ (0 < ends → back = [])

/-- At the end: every receiver has been answered all of its records and then the end, which is
also what every later call is answered. -/
structure Served (a : Audience) (total : Summary) (all : Namespace → List Bytes) : Prop where
  stopped : a.engine.stage = .stopped (.ok total)
  nobody : a.engine.roster.registry.count = 0
  answered : ∀ (index : Nat) (r : Receiver), a.receivers[index]? = some r →
    ∃ ends : Nat, ∀ later : List Actor, (a.execute later).receivers[index]? = some ⟨r.outlet,
      answers (all r.outlet.ns) (ends + 1 + later.count (.receiver index))⟩

theorem Attends.stopped_eq {result : Except EngineError Summary}
    (attends : a.Attends max total all left) (stopped : a.engine.stage = .stopped result) :
    result = .ok total ∧ a.engine.roster.registry.count = 0 := by
  cases attends.due with
  | reading reads => simp [reads.reading] at stopped
  | offering offers => simp [offers] at stopped
  | ending ends => simp [ends] at stopped
  | stopped stage nobody =>
    rw [stage] at stopped
    exact ⟨(Demultiplexer.Stage.stopped.inj stopped).symm, by simp [Registry.count, nobody]⟩

/-- Whoever has been told the end has no records left. -/
theorem Attends.left_eq_nil (attends : a.Attends max total all left) (member : r ∈ a.receivers)
    (past : r.outlet.number ∈ a.engine.ended) : left r.outlet.ns = [] := by
  rcases attends.seated r member with ⟨-, live⟩ | ⟨gone, -⟩
  · exact absurd past live
  · exact attends.due.left_eq_nil gone

theorem Attends.serving (attends : a.Attends max total all left) : a.Serving total all where
  stopped _ := attends.stopped_eq
  heard r member := by
    obtain ⟨front, ends, split, replies, told, past⟩ := attends.heard r member
    exact ⟨front, left r.outlet.ns, ends, split, replies, fun some =>
      attends.left_eq_nil member (past (told.2 some))⟩

theorem execute_told (told : r.outlet.ended) (found : a.receivers[index]? = some r)
    (later : List Actor) : (a.execute later).receivers[index]? = some ⟨r.outlet,
      r.replies ++ List.replicate (later.count (.receiver index)) (.ok none)⟩ := by
  induction later generalizing a r with
  | nil => simpa [execute] using found
  | cons actor later ih =>
    have whole : a.execute (actor :: later) = (step actor a).execute later := rfl
    rw [whole]
    cases actor with
    | engine => simpa using ih (a := step .engine a) told found
    | receiver j =>
      by_cases mine : j = index
      · subst mine
        obtain ⟨bound, here⟩ := List.getElem?_eq_some_iff.1 found
        have next : (step (.receiver j) a).receivers[j]? =
            some ⟨r.outlet, r.replies ++ [.ok none]⟩ := by
          have reply : r.outlet.readRecord (a.supply r.outlet.number) =
              (some (.ok none), r.outlet) := by simp [Outlet.readRecord, told]
          simp only [step, listen, found, reply]
          simp [bound]
        rw [ih (r := ⟨r.outlet, r.replies ++ [.ok none]⟩) told next]
        simp [List.replicate_succ]
      · have next : (step (.receiver j) a).receivers[index]? = some r := by
          simp only [step, listen]
          split
          · exact found
          · split
            · exact found
            · exact (List.getElem?_set_ne mine).trans found
        rw [ih told next]
        simp [mine]

theorem Attends.served (attends : a.Attends max total all left) (done : Done a) :
    a.Served total all := by
  obtain ⟨⟨result, stopped⟩, told⟩ := done
  obtain ⟨rfl, nobody⟩ := attends.stopped_eq stopped
  refine ⟨stopped, nobody, ?_⟩
  intro index r found
  have member := List.mem_of_getElem? found
  obtain ⟨front, ends, split, replies, reported, past⟩ := attends.heard r member
  have nothing := attends.left_eq_nil member (past (told r member))
  obtain ⟨before, rfl⟩ := Nat.exists_eq_add_one.2 (reported.1 (told r member))
  refine ⟨before, fun later => ?_⟩
  rw [execute_told (told r member) found, replies, answers_ended, split, nothing, List.append_nil]

/-- Nothing goes wrong on any schedule, and enough rounds serve everybody. -/
theorem Attends.delivers (small : max.toNat < 2 ^ 63) (attends : a.Attends max total all left)
    (schedule : List Actor) :
    (a.execute schedule).names = a.names ∧ (a.execute schedule).Serving total all ∧
      (Rounds a.actors (a.work + 1) schedule → (a.execute schedule).Served total all) := by
  have advances := advancing small total all a
  obtain ⟨names, later, still⟩ := advances.good_foldl ⟨rfl, left, attends⟩ schedule
  exact ⟨names, still.serving, fun enough =>
    still.served (advances.done_of_rounds ⟨rfl, left, attends⟩ enough)⟩

/-- An audience before a stream of blocks that is made for its receivers. -/
theorem attends_convene {source : Source} {namespaces : List Namespace} {blocks : List Block}
    (sound : source.schedule.Sound) (pending : source.pending = blocks.flatMap Block.bytes)
    (formed : ∀ b ∈ blocks, b.Formed max) (named : ∀ ns ∈ namespaces, ns.isNamed)
    (distinct : namespaces.Nodup) (sequence : Block.Sequence namespaces blocks) :
    ∃ a, convene source max none namespaces = .ok a ∧ a.names = namespaces ∧
      a.Attends max (.ofBlocks blocks) (Block.recordsOf · blocks) (Block.recordsOf · blocks) := by
  obtain ⟨roster, enlisted, entries⟩ :=
    enlist_eq ⟨.empty none, 0⟩ (Registry.welcomes_empty named distinct rfl)
  have keys : roster.registry.keys = namespaces := by
    rw [Registry.keys, entries]
    have same := ns_seats 0 namespaces
    simpa [Registry.empty, Receiver.entry, Function.comp_def] using same
  have closed : roster.registry.closed = [] := by rw [entries]; rfl
  have uncapped : roster.registry.cap = none := by rw [entries]; rfl
  have valid : roster.registry.Valid :=
    ⟨keys ▸ named, keys ▸ distinct, by simp [closed], by simp [closed], by simp [uncapped]⟩
  have numbered : ∀ (i : Nat) (r : Receiver), (seats 0 namespaces)[i]? = some r →
      r.outlet.number = i := fun i r found => (number_seats found).trans (Nat.zero_add i)
  let engine := { Demultiplexer.start (.start source max) none with roster }
  refine ⟨⟨engine.run, seats 0 namespaces⟩, by simp only [convene, enlisted, engine],
    ns_seats 0 namespaces, ?_⟩
  refine ⟨?_, numbered, ?_, ?_, ?_, ?_⟩
  · have fulfils : Block.Fulfils roster.registry.keys blocks := by
      rw [keys]
      exact Block.fulfils_iff.2 sequence
    have ahead : (Token.Reader.start source max).At max 0 (Rest.between blocks).bytes := by
      rw [Rest.bytes, ← pending]
      exact Token.Reader.at_start sound max
    exact .reading ⟨rfl, rfl, ⟨0, ahead⟩, ⟨by simp, formed⟩, valid, fulfils, by simp⟩ rfl fun _ => rfl
  · rw [ns_seats]
    exact distinct
  · intro ns route entry
    have entry : (ns, route) ∈ roster.registry.entries := entry
    rw [entries] at entry
    obtain ⟨r, member, same⟩ := List.mem_map.1 (by simpa [Registry.empty] using entry)
    obtain ⟨rfl, rfl⟩ := Prod.mk.inj same
    exact ⟨r, member, rfl, rfl⟩
  · intro r member
    refine .inl ⟨?_, List.not_mem_nil⟩
    change _ ∈ roster.registry.entries
    rw [entries]
    exact List.mem_append_right _ (List.mem_map_of_mem member)
  · intro r member
    obtain ⟨none, going, -⟩ := fresh_seats member
    exact ⟨[], 0, rfl, none, by simp [going], by simp [going]⟩

end DumpArchive.Audience
