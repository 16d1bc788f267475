import DumpArchive.Proofs.ConsumerGone
import DumpArchive.Proofs.Rounds

/-! Receivers of a run, from its first turn to its last. At any time each has heard what the engine
has read for it, and when the engine has stopped every further call is told the same. -/
namespace DumpArchive

open Block (deliveries recordsOf)
open Entrant (labels)

variable {quota : Namespace → Option Nat} {max : UInt64} {origin : Nat} {v w u : Wire}
  {verdict : Except EngineError Summary} {gone : List Nat} {stopped later : Prop} {r s : Receiver}
  {index : Nat}

/-- What a receiver has been told, and how many records it has taken. -/
structure Heard (quota : Namespace → Option Nat) (gone : List Nat) (stopped : Prop) (v : Wire)
    (r : Receiver) : Prop where
  replies : ∃ calls, r.replies = v.tells r.outlet.ns calls ∧
    (0 < calls → stopped ∨ r.outlet.ns ∈ v.ended)
  told : r.outlet.ended → r.outlet.ns ∈ v.ended
  within : ∀ n ∈ quota r.outlet.ns, (recordsOf r.outlet.ns v.blocks).length ≤ n
  hung : r.outlet.number ∈ gone →
    quota r.outlet.ns = some (recordsOf r.outlet.ns v.blocks).length

/-- What the engine reads for others is of no account, the end of a namespace included. -/
theorem Heard.grow (heard : Heard quota gone stopped v r) (live : ¬ stopped)
    (same : recordsOf r.outlet.ns u.blocks = recordsOf r.outlet.ns v.blocks)
    (kept : r.outlet.ns ∈ v.ended → r.outlet.ns ∈ u.ended) : Heard quota gone later u r := by
  obtain ⟨calls, replies, past⟩ := heard.replies
  refine ⟨⟨calls, ?_, fun some => .inr (kept ((past some).resolve_left live))⟩,
    fun told => kept (heard.told told), ?_, ?_⟩
  · rw [replies, Wire.tells, Wire.tells, same]
    rcases Nat.eq_zero_or_pos calls with rfl | some
    · rfl
    · have ended := (past some).resolve_left live
      rw [Wire.closing, Wire.closing, if_pos ended, if_pos (kept ended)]
  · rw [same]
    exact heard.within
  · rw [same]
    exact heard.hung

theorem Heard.taken (heard : Heard quota gone stopped v r) :
    r.taken = (recordsOf r.outlet.ns v.blocks).length := by
  obtain ⟨calls, replies, -⟩ := heard.replies
  have none : Receiver.isRecord (v.closing r.outlet.ns) = false := by
    unfold Wire.closing
    split <;> rfl
  rw [Receiver.taken, replies, Wire.tells, List.countP_append, List.countP_replicate, if_neg (by simp [none])]
  simp [List.countP_map, Function.comp_def, Receiver.isRecord]

namespace Hearing

open Audience (Actor)
open Demultiplexer (Phase Hosts Fate)

variable {h : Hearing}

def Stopped (h : Hearing) : Prop := ∃ result, h.engine.stage = .stopped result

/-- The engine has read `v`, and its receivers have heard it. -/
structure Follows (quota : Namespace → Option Nat) (max : UInt64) (origin : Nat)
    (verdict : Except EngineError Summary) (w v : Wire) (h : Hearing) : Prop where
  numbered : ∀ (i : Nat) (r : Receiver), h.receivers[i]? = some r → r.outlet.number = i
  formed : ∀ b ∈ v.blocks, b.Formed max
  phase : Phase quota max origin verdict w (labels h.receivers) v h.engine
  heard : ∀ r ∈ h.receivers, Heard quota h.gone h.Stopped v r

theorem Follows.eq_of_number (follows : h.Follows quota max origin verdict w v)
    (first : r ∈ h.receivers) (second : s ∈ h.receivers)
    (same : r.outlet.number = s.outlet.number) : r = s := by
  obtain ⟨i, here⟩ := List.mem_iff_getElem?.1 first
  obtain ⟨j, there⟩ := List.mem_iff_getElem?.1 second
  rw [follows.numbered i r here, follows.numbered j s there] at same
  exact Option.some.inj (here.symm.trans (same ▸ there))

theorem turn_of_ne (quiet : ∀ ns number record, h.engine.stage ≠ .offering ns number record) :
    h.turn = { h with engine := h.engine.step } := by
  unfold turn
  split
  · next ns number record stage => exact absurd stage (quiet ns number record)
  · rfl

theorem not_stopped {h : Hearing} (busy : ∀ result, h.engine.stage ≠ .stopped result) : ¬ h.Stopped :=
  fun ⟨result, stopped⟩ => busy result stopped

/-- The record on offer is for a receiver that has hung up. -/
theorem Follows.strands {ns : Namespace} {number : Nat} {record : Bytes} {b : Block}
    (follows : h.Follows quota max origin verdict w v) (unfinished : v.unfinished = some b)
    (same : b.header.ns = ns) (label : (ns, number) ∈ labels h.receivers) (hung : number ∈ h.gone)
    (reaches : deliveries (v.push record).blocks <+: deliveries w.blocks) :
    Strands quota ((labels h.receivers).map Prod.fst) (deliveries w.blocks) (deliveries v.blocks)
      ns := by
  obtain ⟨back, split⟩ := reaches
  rw [Wire.deliveries_push unfinished, same] at split
  refine ⟨⟨record, back, by rw [← split]; simp⟩, List.mem_map_of_mem label, ?_, ?_⟩
  · obtain ⟨r, member, here⟩ := List.mem_map.1 label
    obtain ⟨rfl, rfl⟩ := Prod.mk.inj here
    rw [← Block.length_recordsOf]
    exact (follows.heard r member).hung hung
  · intro other known n limit
    obtain ⟨l, member, rfl⟩ := List.mem_map.1 known
    obtain ⟨s, here, rfl⟩ := List.mem_map.1 member
    rw [← Block.length_recordsOf]
    exact (follows.heard s here).within n limit

theorem Follows.turn (small : max.toNat < 2 ^ 63)
    (follows : h.Follows quota max origin verdict w v) :
    ∃ u, h.turn.Follows quota max origin verdict w u := by
  cases follows.phase with
  | reading shadowed hosts =>
    have reading := shadowed.underway.reading
    obtain ⟨u, phase, formed, same, kept⟩ := shadowed.turn small hosts
    rw [turn_of_ne (by simp [reading])]
    refine ⟨u, follows.numbered, formed, phase, fun r member => ?_⟩
    have label : (r.outlet.ns, r.outlet.number) ∈ labels h.receivers := List.mem_map_of_mem member
    exact (follows.heard r member).grow (not_stopped (by simp [reading])) (same _ label) (kept _)
  | @offering ns number record tail b stage unfinished same entry shadowed hosts =>
    by_cases hung : number ∈ h.gone
    · have turned : h.turn = { h with engine := h.engine.resolve false } := by
        simp only [Hearing.turn, stage, if_pos hung]
      have ends : (h.engine.resolve false).stage = .ending (.error (.consumerGone ns.shown)) := by
        simp [Demultiplexer.resolve, stage]
      obtain ⟨roster, ended⟩ := Demultiplexer.roster_resolve false h.engine
      obtain ⟨bytes, reaches⟩ := shadowed.reaches
      have label := hosts.routes ns number entry
      rw [turned]
      have strands := follows.strands unfinished same label hung reaches
      refine ⟨v, follows.numbered, follows.formed, .ending ends (by simp)
        (hosts.of_eq roster ended rfl) (.stranded unfinished same bytes strands), ?_⟩
      exact fun r member => (follows.heard r member).grow (not_stopped (by simp [stage])) rfl id
    · have turned : h.turn = h := by simp only [Hearing.turn, stage, if_neg hung]
      exact ⟨v, turned.symm ▸ follows⟩
  | ending stage complete hosts fate =>
    rw [turn_of_ne (by simp [stage])]
    refine ⟨v, follows.numbered, follows.formed, hosts.shut stage complete fate,
      fun r member => ?_⟩
    exact (follows.heard r member).grow (not_stopped (by simp [stage])) rfl id
  | stopped stage nobody signals fate =>
    have turned : h.turn = h := by
      rw [turn_of_ne (by simp [stage])]
      simp [Demultiplexer.step, stage]
    exact ⟨v, turned.symm ▸ follows⟩

/-- A receiver whose call returns is still at its place, and so are the others. -/
theorem Follows.replace {engine : Demultiplexer} {after : Receiver}
    (follows : h.Follows quota max origin verdict w v) (found : h.receivers[index]? = some r)
    (number : after.outlet.number = r.outlet.number) (ns : after.outlet.ns = r.outlet.ns)
    (formed : ∀ b ∈ u.blocks, b.Formed max)
    (phase : Phase quota max origin verdict w (labels h.receivers) u engine)
    (own : Heard quota h.gone (∃ result, engine.stage = .stopped result) u after)
    (others : ∀ s ∈ h.receivers, s.outlet.number ≠ r.outlet.number →
      Heard quota h.gone (∃ result, engine.stage = .stopped result) u s) :
    (⟨engine, h.receivers.set index after, h.gone⟩ : Hearing).Follows quota max origin verdict w
      u := by
  have same : labels (h.receivers.set index after) = labels h.receivers :=
    map_set_same found (by rw [number, ns])
  refine ⟨?_, formed, same.symm ▸ phase, ?_⟩
  · intro i s there
    rcases getElem?_set_cases there with ⟨rfl, rfl⟩ | ⟨-, old⟩
    · rw [number, follows.numbered _ r found]
    · exact follows.numbered i s old
  · intro s member
    obtain ⟨i, there⟩ := List.mem_iff_getElem?.1 member
    rcases getElem?_set_cases there with ⟨rfl, rfl⟩ | ⟨apart, old⟩
    · exact own
    · refine others s (List.mem_of_getElem? old) ?_
      rw [follows.numbered i s old, follows.numbered index r found]
      exact apart

/-- What a receiver finds while no record is on offer to it. -/
theorem Follows.supply (follows : h.Follows quota max origin verdict w v) (member : r ∈ h.receivers)
    (quiet : ∀ ns record, h.engine.stage ≠ .offering ns r.outlet.number record) :
    (r.outlet.ns ∈ v.ended ∧ h.audience.supply r.outlet.number = .ended) ∨
    (r.outlet.ns ∉ v.ended ∧ h.Stopped ∧ h.audience.supply r.outlet.number = .gone) ∨
    (r.outlet.ns ∉ v.ended ∧ ¬ h.Stopped ∧ h.audience.supply r.outlet.number = .nothing) := by
  have label : (r.outlet.ns, r.outlet.number) ∈ labels h.receivers := List.mem_map_of_mem member
  have supply : h.audience.supply r.outlet.number = .ofSignal (h.engine.signal r.outlet.number) := by
    unfold Audience.supply
    split
    · next stage => exact if_neg fun same => quiet _ _ (same ▸ stage)
    · rfl
  have working (hosts : Hosts (labels h.receivers) v h.engine) (live : ¬ h.Stopped) :
      (r.outlet.ns ∈ v.ended ∧ h.audience.supply r.outlet.number = .ended) ∨
      (r.outlet.ns ∉ v.ended ∧ h.Stopped ∧ h.audience.supply r.outlet.number = .gone) ∨
      (r.outlet.ns ∉ v.ended ∧ ¬ h.Stopped ∧ h.audience.supply r.outlet.number = .nothing) := by
    rw [supply, hosts.signal label]
    by_cases past : r.outlet.ns ∈ v.ended
    · exact .inl ⟨past, by rw [if_pos past]; rfl⟩
    · exact .inr (.inr ⟨past, live, by rw [if_neg past]; rfl⟩)
  cases follows.phase with
  | reading shadowed hosts =>
    exact working hosts (not_stopped (by simp [shadowed.underway.reading]))
  | offering stage unfinished same entry shadowed hosts =>
    exact working hosts (not_stopped (by simp [stage]))
  | ending stage complete hosts => exact working hosts (not_stopped (by simp [stage]))
  | stopped stage nobody signals =>
    rw [supply, signals _ label]
    by_cases past : r.outlet.ns ∈ v.ended
    · exact .inl ⟨past, by rw [if_pos past]; rfl⟩
    · exact .inr (.inl ⟨past, ⟨_, stage⟩, by rw [if_neg past]; rfl⟩)

/-- A call that finds no record returns what there is to tell, or waits. -/
theorem Follows.listen_quiet (follows : h.Follows quota max origin verdict w v)
    (found : h.receivers[index]? = some r)
    (quiet : ∀ ns record, h.engine.stage ≠ .offering ns r.outlet.number record) :
    (r.outlet.ns ∉ v.ended ∧ ¬ h.Stopped ∧ h.audience.listen index = h.audience) ∨
    (h.Stopped ∨ r.outlet.ns ∈ v.ended) ∧ ∃ outlet : Outlet, outlet.ns = r.outlet.ns ∧
      outlet.number = r.outlet.number ∧ (outlet.ended → r.outlet.ns ∈ v.ended) ∧
      h.audience.listen index = ⟨h.engine, h.receivers.set index
        ⟨outlet, r.replies ++ [v.closing r.outlet.ns]⟩⟩ := by
  have member := List.mem_of_getElem? found
  have here : h.audience.receivers[index]? = some r := found
  have told := (follows.heard r member).told
  unfold Audience.listen
  simp only [here]
  cases ended : r.outlet.ended with
  | true =>
    have past := told ended
    refine .inr ⟨.inr past, r.outlet, rfl, rfl, fun _ => past, ?_⟩
    simp only [Outlet.readRecord, ended, if_true, Wire.closing, if_pos past]
    rfl
  | false =>
    rcases follows.supply member quiet with ⟨past, supply⟩ | ⟨going, stopped, supply⟩ |
      ⟨going, live, supply⟩
    · refine .inr ⟨.inr past, { r.outlet with ended := true }, rfl, rfl, fun _ => past, ?_⟩
      simp only [Outlet.readRecord, ended, supply, Wire.closing, if_pos past]
      rfl
    · refine .inr ⟨.inl stopped, r.outlet, rfl, rfl, by simp [ended], ?_⟩
      simp only [Outlet.readRecord, ended, supply, Wire.closing, if_neg going]
      rfl
    · refine .inl ⟨going, live, ?_⟩
      simp only [Outlet.readRecord, ended, supply]
      rfl

/-- The call is told what there is to tell; nothing else changes. -/
theorem Follows.reply (follows : h.Follows quota max origin verdict w v)
    (found : h.receivers[index]? = some r) (past : h.Stopped ∨ r.outlet.ns ∈ v.ended)
    {outlet : Outlet} (ns : outlet.ns = r.outlet.ns) (number : outlet.number = r.outlet.number)
    (told : outlet.ended → r.outlet.ns ∈ v.ended) :
    (⟨h.engine, h.receivers.set index ⟨outlet, r.replies ++ [v.closing r.outlet.ns]⟩, h.gone⟩ :
      Hearing).Follows quota max origin verdict w v := by
  have member := List.mem_of_getElem? found
  have heard := follows.heard r member
  obtain ⟨calls, replies, -⟩ := heard.replies
  have own : Heard quota h.gone h.Stopped v ⟨outlet, r.replies ++ [v.closing r.outlet.ns]⟩ := by
    refine ⟨⟨calls + 1, ?_, fun _ => ?_⟩, ?_, ?_, ?_⟩
    · simp [replies, Wire.tells, ns, List.replicate_succ']
    · rw [ns]
      exact past
    · rw [ns]
      exact told
    · rw [ns]
      exact heard.within
    · rw [ns, number]
      exact heard.hung
  exact follows.replace found number ns follows.formed follows.phase own
    fun s other _ => follows.heard s other

/-- The record on offer is taken. -/
theorem Follows.take {ns : Namespace} {record : Bytes}
    (follows : h.Follows quota max origin verdict w v) (found : h.receivers[index]? = some r)
    (stage : h.engine.stage = .offering ns r.outlet.number record)
    (present : r.outlet.number ∉ h.gone) (wants : quota r.outlet.ns ≠ some r.taken) :
    h.audience.listen index = ⟨h.engine.resolve true, h.receivers.set index
        ⟨r.outlet, r.replies ++ [.ok (some record)]⟩⟩ ∧
      (⟨h.engine.resolve true, h.receivers.set index ⟨r.outlet, r.replies ++ [.ok (some record)]⟩,
        h.gone⟩ : Hearing).Follows quota max origin verdict w (v.push record) := by
  have member := List.mem_of_getElem? found
  have here : h.audience.receivers[index]? = some r := found
  have heard := follows.heard r member
  have live : ¬ h.Stopped := not_stopped (by simp [stage])
  cases follows.phase with
  | reading shadowed => simp [shadowed.underway.reading] at stage
  | ending ends => simp [ends] at stage
  | stopped stops => simp [stops] at stage
  | @offering key number body tail b offers unfinished same entry shadowed hosts =>
    obtain ⟨rfl, rfl, rfl⟩ := Demultiplexer.Stage.offering.inj (offers.symm.trans stage)
    have own : (r.outlet.ns, r.outlet.number) ∈ labels h.receivers := List.mem_map_of_mem member
    have mine : key = r.outlet.ns := congrArg Prod.fst
      (List.inj_on_of_nodup_map hosts.numbers (hosts.routes key _ entry) own rfl)
    have going : r.outlet.ns ∉ v.ended := fun past =>
      hosts.closed _ past (mine ▸ List.mem_map_of_mem entry)
    have unended : r.outlet.ended = false := by
      by_contra told
      exact going (heard.told (by simpa using told))
    refine ⟨?_, ?_⟩
    · have supply : h.audience.supply r.outlet.number = .record body :=
        Audience.supply_of_offering stage
      simp only [Audience.listen, here, supply, Outlet.readRecord, unended]
      rfl
    · obtain ⟨roster, ended⟩ := Demultiplexer.roster_resolve true h.engine
      have hosted : Hosts (labels h.receivers) (v.push body) (h.engine.resolve true) :=
        hosts.of_eq roster ended (Wire.ended_push body v)
      have still : ¬ ∃ result, (h.engine.resolve true).stage = .stopped result := by
        rintro ⟨result, stops⟩
        simp [shadowed.underway.reading] at stops
      have another : recordsOf r.outlet.ns (v.push body).blocks =
          recordsOf r.outlet.ns v.blocks ++ [body] := by
        rw [Wire.recordsOf_push unfinished, if_pos (same.trans mine)]
      refine follows.replace found rfl rfl shadowed.underway.formed (.reading shadowed hosted) ?_
        fun s other apart => ?_
      · obtain ⟨calls, replies, past⟩ := heard.replies
        obtain rfl : calls = 0 := by
          by_contra some
          exact (past (Nat.pos_of_ne_zero some)).elim live going
        refine ⟨⟨0, ?_, by simp⟩, by simp [unended], ?_, fun hung => absurd hung present⟩
        · simp [replies, Wire.tells, another]
        · intro n limit
          have few := heard.within n limit
          have unspent : (recordsOf r.outlet.ns v.blocks).length ≠ n := by
            rintro rfl
            exact wants (heard.taken ▸ limit)
          simp only [another, List.length_append, List.length_singleton]
          omega
      · have elsewhere : b.header.ns ≠ s.outlet.ns := by
          intro equal
          have label : (s.outlet.ns, s.outlet.number) ∈ labels h.receivers := List.mem_map_of_mem other
          have twice := List.inj_on_of_nodup_map hosts.names label own
            (equal.symm.trans (same.trans mine))
          exact apart (congrArg Prod.snd twice)
        refine (follows.heard s other).grow live ?_ ?_
        · simp [Wire.recordsOf_push unfinished, elsewhere]
        · rw [Wire.ended_push]
          exact id

/-- A receiver that has taken what it wants hangs up. -/
theorem Follows.hang (follows : h.Follows quota max origin verdict w v) (member : r ∈ h.receivers)
    (spent : quota r.outlet.ns = some r.taken) :
    ({ h with gone := r.outlet.number :: h.gone } : Hearing).Follows quota max origin verdict w
      v := by
  refine ⟨follows.numbered, follows.formed, follows.phase, fun s other => ?_⟩
  have heard := follows.heard s other
  refine ⟨heard.replies, heard.told, heard.within, fun hung => ?_⟩
  rcases List.mem_cons.1 hung with same | old
  · obtain rfl := follows.eq_of_number other member same
    rw [spent, heard.taken]
  · exact heard.hung old

/-- What a call can come to. -/
inductive Called (quota : Namespace → Option Nat) (h : Hearing) (v : Wire) (index : Nat) :
    Hearing → Wire → Prop
  | missing : h.receivers[index]? = none → Called quota h v index h v
  | hung {r : Receiver} : h.receivers[index]? = some r → r.outlet.number ∈ h.gone →
    Called quota h v index h v
  | hangs {r : Receiver} : h.receivers[index]? = some r → r.outlet.number ∉ h.gone →
    quota r.outlet.ns = some r.taken →
    Called quota h v index { h with gone := r.outlet.number :: h.gone } v
  | takes {r : Receiver} {ns : Namespace} {record : Bytes} : h.receivers[index]? = some r →
    h.engine.stage = .offering ns r.outlet.number record →
    Called quota h v index ⟨h.engine.resolve true,
      h.receivers.set index ⟨r.outlet, r.replies ++ [.ok (some record)]⟩, h.gone⟩ (v.push record)
  | waits {r : Receiver} : h.receivers[index]? = some r →
    (∀ ns record, h.engine.stage ≠ .offering ns r.outlet.number record) → ¬ h.Stopped →
    Called quota h v index h v
  | told {r : Receiver} {outlet : Outlet} : h.receivers[index]? = some r →
    (∀ ns record, h.engine.stage ≠ .offering ns r.outlet.number record) →
    outlet.ns = r.outlet.ns → outlet.number = r.outlet.number →
    Called quota h v index ⟨h.engine,
      h.receivers.set index ⟨outlet, r.replies ++ [v.closing r.outlet.ns]⟩, h.gone⟩ v

theorem Follows.called (follows : h.Follows quota max origin verdict w v) (index : Nat) :
    ∃ u, Called quota h v index (h.call quota index) u ∧
      (h.call quota index).Follows quota max origin verdict w u := by
  unfold Hearing.call
  split
  · next missing => exact ⟨v, .missing missing, follows⟩
  · next r found =>
    have member := List.mem_of_getElem? found
    split
    · next hung => exact ⟨v, .hung found hung, follows⟩
    · next present =>
      split
      · next spent => exact ⟨v, .hangs found present spent, follows.hang member spent⟩
      · next wants =>
        by_cases offered : ∃ ns record, h.engine.stage = .offering ns r.outlet.number record
        · obtain ⟨ns, record, stage⟩ := offered
          obtain ⟨listened, after⟩ := follows.take found stage present wants
          rw [listened]
          exact ⟨_, .takes found stage, after⟩
        · have quiet : ∀ ns record, h.engine.stage ≠ .offering ns r.outlet.number record :=
            fun ns record stage => offered ⟨ns, record, stage⟩
          rcases follows.listen_quiet found quiet with
            ⟨-, live, waits⟩ | ⟨past, outlet, ns, number, told, listened⟩
          · rw [waits]
            exact ⟨v, .waits found quiet live, follows⟩
          · rw [listened]
            exact ⟨v, .told found quiet ns number, follows.reply found past ns number told⟩

theorem Follows.step (small : max.toNat < 2 ^ 63)
    (follows : h.Follows quota max origin verdict w v) (actor : Actor) :
    ∃ u, (h.step quota actor).Follows quota max origin verdict w u := by
  cases actor with
  | engine => exact follows.turn small
  | receiver index =>
    obtain ⟨u, -, after⟩ := follows.called index
    exact ⟨u, after⟩

end Hearing
end DumpArchive
