import DumpArchive.Dump.Pool
import DumpArchive.Proofs.ListUpdates
import DumpArchive.Proofs.FaultFreeMultiplexer

/-! The handles of a multiplexer in the hands of workers. Nobody has a handle that another has, and
every handle that has not been let go of is in somebody's hands. -/
namespace DumpArchive.Dump

open Multiplexer (Exchange Traffic Handle)

/-- The producers that a worker has in hand. -/
def Worker.held (w : Worker) : List Nat :=
  match w.stage with
  | .failing _ => []
  | .done _ => []
  | .closing (some (_, number)) => [w.producer, number]
  | _ => [w.producer]

variable {t after : Traffic} {workers : List Worker} {w v : Worker} {index : Nat}

theorem manned_congr {number : Nat} {ns : Namespace} {pending : Option Bytes}
    {written : List Bytes} (same : after.handles[number]? = t.handles[number]?)
    (manned : t.Manned number ns pending written) : after.Manned number ns pending written := by
  obtain ⟨h, found, rest⟩ := manned
  exact ⟨h, same.trans found, rest⟩

section Turns

variable {p : Pool} {exchange : Exchange} {queue : List Intent} {failed : Bool}

theorem Pool.step_of_none (missing : p.workers[index]? = none) : p.step (.worker index) = p := by
  simp [Pool.step, missing]

theorem Pool.step_of_turn (found : p.workers[index]? = some w)
    (turned : w.turn p = (v, ⟨exchange, queue, failed, p.workers⟩)) :
    p.step (.worker index) = ⟨exchange, queue, failed, p.workers.set index v⟩ := by
  simp [Pool.step, found, turned]

end Turns

/-- One worker and its handles change. Those of others are as before, a new handle is in hand, and
one that is no longer in hand has been let go of. -/
structure Regrip (t after : Traffic) (w v : Worker) : Prop where
  frame : ∀ n, n ∉ w.held → n < t.handles.length → after.handles[n]? = t.handles[n]?
  held : ∀ n ∈ v.held, n ∈ w.held ∨ t.handles.length ≤ n
  fresh : ∀ n, n < after.handles.length → n < t.handles.length ∨ n ∈ v.held
  dropped : ∀ (n : Nat) (h : Handle), after.handles[n]? = some h → n ∈ w.held → n ∉ v.held →
    h.released

namespace Regrip

variable {number : Nat}

theorem rest (still : v.held = w.held) : Regrip t t w v where
  frame _ _ _ := rfl
  held _ holds := .inl (still ▸ holds)
  fresh _ bound := .inl bound
  dropped _ _ _ holds gone := absurd (still ▸ holds) gone

/-- A worker goes on with the one handle that it has. -/
theorem retain (before : w.held = [number]) (still : v.held = [number])
    (apart : t.Apart after number) : Regrip t after w v where
  frame n other _ := apart.others n (by simpa [before] using other)
  held _ holds := .inl (before ▸ still ▸ holds)
  fresh _ bound := .inl (apart.length ▸ bound)
  dropped _ _ _ holds gone := absurd (still ▸ before ▸ holds) gone

/-- A worker takes another handle, which is new. -/
theorem attach {h : Handle} (before : w.held = [number])
    (still : v.held = [number, t.handles.length]) (grown : after.handles = t.handles ++ [h]) :
    Regrip t after w v where
  frame n _ bound := by rw [grown, List.getElem?_append_left bound]
  held n holds := by
    rw [still] at holds
    rcases List.mem_cons.1 holds with rfl | new
    · exact .inl (before ▸ List.mem_singleton_self n)
    · exact .inr (Nat.le_of_eq (List.mem_singleton.1 new).symm)
  fresh n bound := by
    simp only [grown, List.length_append, List.length_singleton] at bound
    rcases Nat.lt_succ_iff_lt_or_eq.1 bound with old | rfl
    · exact .inl old
    · exact .inr (by simp [still])
  dropped n k there holds gone := by
    rw [before, List.mem_singleton] at holds
    exact absurd (by simp [still, holds]) gone

/-- A worker lets go of a handle. -/
theorem relinquish {h : Handle} (before : w.held = number :: v.held)
    (apart : t.Apart after number) (there : after.handles[number]? = some h)
    (released : h.released) : Regrip t after w v where
  frame n outside _ := apart.others n fun same => outside (by simp [before, same])
  held _ holds := .inl (before ▸ List.mem_cons_of_mem _ holds)
  fresh _ bound := .inl (apart.length ▸ bound)
  dropped n k here holds gone := by
    rw [before] at holds
    obtain rfl := (List.mem_cons.1 holds).resolve_right gone
    obtain rfl := Option.some.inj (there.symm.trans here)
    exact released

end Regrip

structure Hands (workers : List Worker) (t : Traffic) : Prop where
  known : ∀ w ∈ workers, ∀ number ∈ w.held, ∃ ns pending written, t.Manned number ns pending written
  apart : ∀ (i j : Nat) (w v : Worker) (number : Nat), workers[i]? = some w →
    workers[j]? = some v → number ∈ w.held → number ∈ v.held → i = j
  manned : ∀ (number : Nat) (h : Handle), t.handles[number]? = some h → h.released = false →
    ∃ w ∈ workers, number ∈ w.held

namespace Hands

theorem held_lt {number : Nat} (hands : Hands workers t) (member : w ∈ workers)
    (holds : number ∈ w.held) : number < t.handles.length := by
  obtain ⟨ns, pending, written, h, found, -⟩ := hands.known w member number holds
  exact (List.getElem?_eq_some_iff.1 found).1

theorem foreign {other number : Nat} (hands : Hands workers t) (found : workers[index]? = some w)
    (there : workers[other]? = some v) (differs : other ≠ index) (holds : number ∈ v.held) :
    number ∉ w.held ∧ number < t.handles.length :=
  ⟨fun mine => differs (hands.apart other index v w number there found holds mine),
    hands.held_lt (List.mem_of_getElem? there) holds⟩

theorem replace (hands : Hands workers t) (found : workers[index]? = some w)
    (regrip : Regrip t after w v)
    (known : ∀ n ∈ v.held, ∃ ns pending written, after.Manned n ns pending written) :
    Hands (workers.set index v) after := by
  have bound := (List.getElem?_eq_some_iff.1 found).1
  have strange : ∀ (j : Nat) (u : Worker) (n : Nat), j ≠ index → workers[j]? = some u →
      n ∈ u.held → n ∉ v.held := by
    intro j u n other there holds mine
    obtain ⟨apart, less⟩ := hands.foreign found there other holds
    rcases regrip.held n mine with old | new
    · exact apart old
    · omega
  refine ⟨?_, ?_, ?_⟩
  · intro u there n holds
    obtain ⟨j, there⟩ := List.mem_iff_getElem?.1 there
    rcases getElem?_set_cases there with ⟨-, rfl⟩ | ⟨other, old⟩
    · exact known n holds
    · obtain ⟨apart, less⟩ := hands.foreign found old other holds
      obtain ⟨ns, pending, written, manned⟩ :=
        hands.known u (List.mem_of_getElem? old) n holds
      exact ⟨ns, pending, written, manned_congr (regrip.frame n apart less) manned⟩
  · intro i j a b n first second holds also
    rcases getElem?_set_cases first with ⟨here, rfl⟩ | ⟨left, before⟩
    · rcases getElem?_set_cases second with ⟨there, -⟩ | ⟨right, behind⟩
      · exact here.trans there.symm
      · exact absurd holds (strange j b n right behind also)
    · rcases getElem?_set_cases second with ⟨-, rfl⟩ | ⟨right, behind⟩
      · exact absurd also (strange i a n left before holds)
      · exact hands.apart i j a b n before behind holds also
  · intro n h there live
    by_cases mine : n ∈ v.held
    · exact ⟨v, List.mem_set bound v, mine⟩
    · by_cases own : n ∈ w.held
      · have gone := regrip.dropped n h there own mine
        simp [live] at gone
      · have less := (regrip.fresh n (List.getElem?_eq_some_iff.1 there).1).resolve_right mine
        rw [regrip.frame n own less] at there
        obtain ⟨u, old, holds⟩ := hands.manned n h there live
        obtain ⟨j, old⟩ := List.mem_iff_getElem?.1 old
        have apart : index ≠ j := by
          rintro rfl
          obtain rfl := Option.some.inj (found.symm.trans old)
          exact own holds
        exact ⟨u, List.mem_of_getElem? ((List.getElem?_set_ne apart).trans old), holds⟩

theorem turn (hands : Hands workers t) : Hands workers t.turn := by
  have handles := Multiplexer.Traffic.handles_turn t
  refine ⟨fun w member number holds => ?_, hands.apart, ?_⟩
  · obtain ⟨ns, pending, written, manned⟩ := hands.known w member number holds
    exact ⟨ns, pending, written, manned_congr (by rw [handles]) manned⟩
  · rw [handles]
    exact hands.manned

/-- Who is registered and has not been done with is in the hands of somebody. -/
theorem keeper {max : UInt64} {cap : Option UInt64} {base : Bytes} {number : Nat} {ns : Namespace}
    (hands : Hands workers t) (steady : t.Steady max cap base)
    (entry : (ns, number) ∈ t.exchange.engine.registry.entries)
    (empty : t.exchange.mailbox = []) : ∃ w ∈ workers, number ∈ w.held := by
  obtain ⟨wire, accounted, -⟩ := steady.books
  obtain ⟨h, member, rfl, rfl⟩ := accounted.owner entry
  obtain ⟨i, found⟩ := List.mem_iff_getElem?.1 member
  rw [accounted.number_eq found]
  apply hands.manned i h found
  by_contra past
  have closing := (accounted.kept h member).closing (by simpa using past) entry
  simp [Handle.sight, empty] at closing

/-- With nobody registered nobody has a handle. -/
theorem held_eq_nil {max : UInt64} {cap : Option UInt64} {base : Bytes} (hands : Hands workers t)
    (steady : t.Steady max cap base) (nobody : t.exchange.engine.registry.entries = [])
    (member : w ∈ workers) : w.held = [] := by
  apply List.eq_nil_iff_forall_not_mem.2
  intro number holds
  obtain ⟨ns, pending, written, manned⟩ := hands.known w member number holds
  have entry := steady.registered manned
  simp [nobody] at entry

end Hands
end DumpArchive.Dump
