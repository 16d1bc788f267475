import DumpArchive.Dump.Pool
import DumpArchive.Proofs.Positions

/-! Sources that can and cannot be dumped. Whatever the faults of a stream, a reader that gets to
the end of it over records has met all of its bytes, and none of its faults. -/
namespace DumpArchive

/-- Something is delivered whenever something is asked for and there. -/
def Stream.Schedule.Moving (s : Stream.Schedule) : Prop := ∀ call, s.limit call ≠ some 0

namespace Stream.Schedule

theorem moving_steady : steady.Moving := by simp [Moving, steady]

theorem atMost_limit_pos {s : Schedule} (moving : s.Moving) (call : Nat) {want : Nat}
    (positive : 0 < want) : 0 < atMost (s.limit call) want := by
  cases bound : s.limit call with
  | none => exact positive
  | some n =>
    have moves : n ≠ 0 := fun zero => moving call (by rw [bound, zero])
    exact Nat.lt_min.2 ⟨Nat.pos_of_ne_zero moves, positive⟩

/-- A call that does not fail may move something, and no fault is at its position. -/
theorem of_allowance {s : Schedule} (moving : s.Moving) {call position want : Nat}
    {bound : Option Nat} (positive : 0 < want) (h : s.allowance call position = .ok bound) :
    0 < atMost bound want ∧ ∀ place e, s.fault = some (place, e) → position < place := by
  unfold allowance at h
  split at h
  · next faultless =>
    obtain rfl := Except.ok.inj h
    exact ⟨atMost_limit_pos moving call positive, by simp [faultless]⟩
  · next place e faulty =>
    split at h
    · contradiction
    · next before =>
      obtain rfl := Except.ok.inj h
      have left : 0 < place - position := by omega
      refine ⟨Nat.lt_min.2 ⟨atMost_limit_pos moving call left, positive⟩, fun other f same => ?_⟩
      obtain ⟨rfl, -⟩ := by simpa [faulty] using same
      omega

end Stream.Schedule

namespace Source

theorem schedule_read (want : Nat) (s : Source) : (s.read want).2.schedule = s.schedule := by
  simp only [read]
  split <;> rfl

theorem schedule_fillOnto (taken : Bytes) (want : Nat) (s : Source) :
    (s.fillOnto taken want).2.schedule = s.schedule := by
  fun_induction fillOnto taken want s with
  | case1 => rfl
  | case2 taken want s more e next answered => simpa [answered] using schedule_read want s
  | case3 taken want s more next answered => simpa [answered] using schedule_read want s
  | case4 taken want s more b chunk next answered ih =>
    rw [ih]
    simpa [answered] using schedule_read want s

theorem schedule_fill (want : Nat) (s : Source) : (s.fill want).2.schedule = s.schedule :=
  schedule_fillOnto [] want s

theorem ne_nil_of_fillOnto {taken data : Bytes} {want : Nat} {s next : Source} (some : taken ≠ [])
    (h : s.fillOnto taken want = (.ok data, next)) : data ≠ [] := by
  fun_induction fillOnto taken want s with
  | case1 taken s =>
    obtain ⟨rfl, -⟩ := by simpa using h
    simpa using some
  | case2 => simp at h
  | case3 taken want s more mid answered =>
    obtain ⟨rfl, -⟩ := by simpa using h
    simpa using some
  | case4 taken want s more b chunk mid answered ih =>
    exact ih (by simp [List.reverseAux_eq]) h

/-- An empty answer is given at the end of the stream only, and before any fault. -/
theorem of_read_nil {want : Nat} {s next : Source} (moving : s.schedule.Moving)
    (positive : 0 < want) (h : s.read want = (.ok [], next)) :
    s.pending = [] ∧ ∀ place e, s.schedule.fault = some (place, e) → s.extent < place := by
  simp only [read] at h
  split at h
  · simp at h
  · next bound allowed =>
    simp only [Prod.mk.injEq, Except.ok.injEq] at h
    obtain ⟨nothing, -⟩ := h
    obtain ⟨some, unharmed⟩ := Stream.Schedule.of_allowance moving positive allowed
    have ends : s.pending = [] := by
      rcases List.take_eq_nil_iff.1 nothing with zero | nil
      · omega
      · exact nil
    exact ⟨ends, fun place e fault => by simpa [extent, ends] using unharmed place e fault⟩

theorem of_fill_nil {want : Nat} {s next : Source} (moving : s.schedule.Moving)
    (positive : 0 < want) (h : s.fill want = (.ok [], next)) :
    s.pending = [] ∧ ∀ place e, s.schedule.fault = some (place, e) → s.extent < place := by
  unfold fill fillOnto at h
  rw [if_neg (Nat.ne_of_gt positive)] at h
  split at h
  · simp at h
  · next mid answered => exact of_read_nil moving positive answered
  · next b chunk mid answered =>
    exact absurd rfl (ne_nil_of_fillOnto (by simp [List.reverseAux_eq]) h)

end Source

namespace Token.Reader

variable {r mid next : Reader} {data front back : Bytes} {max : UInt64}

/-- Some bytes have been taken from the front of the stream, and nothing else about it is new. -/
structure Took (r : Reader) (data : Bytes) (next : Reader) : Prop where
  pending : r.source.pending = data ++ next.source.pending
  schedule : next.source.schedule = r.source.schedule
  extent : next.source.extent = r.source.extent

theorem Took.trans (first : r.Took front mid) (second : mid.Took back next) :
    r.Took (front ++ back) next where
  pending := by rw [first.pending, second.pending, List.append_assoc]
  schedule := second.schedule.trans first.schedule
  extent := second.extent.trans first.extent

theorem took_of_readRaw {n : Nat} (h : r.readRaw n = (.ok data, next)) : r.Took data next := by
  have placed := (balanced_of_readRaw h).placed
  have same := r.source.schedule_fill n
  unfold readRaw at h
  split at h
  · simp at h
  · next filled =>
    obtain ⟨rfl, rfl⟩ := by simpa using h
    exact ⟨(Source.append_pending_of_fill filled).symm, by simpa [filled] using same,
      placed⟩

theorem took_of_readLead {lead : Lead} (h : r.readLead = (.ok (some (data, lead)), next)) :
    r.Took data next := by
  unfold readLead at h
  split at h
  · simp at h
  · next four mid raw =>
    have took := took_of_readRaw raw
    repeat' split at h
    all_goals simp at h
    obtain ⟨⟨rfl, -⟩, rfl⟩ := h
    exact took

theorem took_of_readBody {start size : Nat} {four record : Bytes}
    (h : r.readBody start four size = (.ok record, next)) :
    ∃ body, record = four ++ body ∧ r.Took body next := by
  simp only [readBody] at h
  split at h
  · simp at h
  · next body mid raw =>
    have took := took_of_readRaw raw
    repeat' split at h
    all_goals simp at h
    obtain ⟨rfl, rfl⟩ := h
    exact ⟨body, rfl, took⟩

theorem took_of_nextRecord (h : r.nextRecord = (.ok (some data), next)) : r.Took data next := by
  unfold nextRecord at h
  split at h
  · simp at h
  · simp at h
  · next record last read =>
    obtain ⟨rfl, rfl⟩ := by simpa using h
    unfold readToken at read
    split at read
    · simp at read
    · simp at read
    · simp at read
    · next four size mid lead =>
      split at read
      · simp at read
      · next bytes last body =>
        obtain ⟨rfl, rfl⟩ := by simpa using read
        obtain ⟨body, rfl, took⟩ := took_of_readBody body
        exact (took_of_readLead lead).trans took
  · simp at h

/-- Where no record comes any more the stream is at its end, and at none of its faults. -/
theorem of_nextRecord_none (moving : r.source.schedule.Moving)
    (h : r.nextRecord = (.ok none, next)) : r.source.pending = [] ∧
      ∀ place e, r.source.schedule.fault = some (place, e) → r.source.extent < place := by
  have raw : ∃ mid, r.readRaw 4 = (.ok [], mid) := by
    unfold nextRecord at h
    split at h
    · simp at h
    · next last read =>
      unfold readToken at read
      split at read
      · simp at read
      · next mid lead =>
        unfold readLead at lead
        split at lead
        · simp at lead
        · next four mid raw =>
          split at lead
          · next nothing => exact ⟨mid, nothing ▸ raw⟩
          · repeat' split at lead
            all_goals simp at lead
      · simp at read
      · split at read <;> simp at read
    · simp at h
    · simp at h
  obtain ⟨mid, raw⟩ := raw
  unfold readRaw at raw
  split at raw
  · simp at raw
  · next filled =>
    obtain ⟨rfl, -⟩ := by simpa using raw
    exact Source.of_fill_nil moving (by decide) filled

/-- The input is read to its end, over records that pass their checks. -/
inductive Drains (max : UInt64) : Reader → Prop
  | done {r next : Reader} : r.nextRecord = (.ok none, next) → Drains max r
  | more {r next : Reader} {record : Bytes} : r.nextRecord = (.ok (some record), next) →
    Record.Formed max record → Drains max next → Drains max r

theorem Drains.clean (drains : r.Drains max) (moving : r.source.schedule.Moving) :
    (∃ records : List Bytes, (∀ b ∈ records, Record.Formed max b) ∧
      r.source.pending = records.flatten) ∧
      ∀ place e, r.source.schedule.fault = some (place, e) → r.source.extent < place := by
  induction drains with
  | done ends =>
    obtain ⟨nothing, unharmed⟩ := of_nextRecord_none moving ends
    exact ⟨⟨[], by simp, nothing⟩, unharmed⟩
  | @more r next record read formed drains ih =>
    obtain ⟨pending, schedule, extent⟩ := took_of_nextRecord read
    obtain ⟨⟨records, others, split⟩, unharmed⟩ := ih (schedule ▸ moving)
    rw [schedule, extent] at unharmed
    exact ⟨⟨record :: records, List.forall_mem_cons.2 ⟨formed, others⟩, by simp [pending, split]⟩,
      unharmed⟩

end Token.Reader

namespace Dump

/-- Records cannot be asked for, or the stream fails before its end is met, or something else than
records is on it. -/
inductive Origin.Spoiled (max : UInt64) : Origin → Prop
  | refuses (error : IoError) : Spoiled max (.refuses error)
  | crashes : Spoiled max .crashes
  | faulty {source : Source} {place : Nat} {error : IoError} : source.schedule.Moving →
    source.schedule.fault = some (place, error) →
    place ≤ source.position + source.pending.length → Spoiled max (.opens source)
  | unclean {source : Source} : source.schedule.Moving →
    (¬ ∃ records : List Bytes, (∀ b ∈ records, Record.Formed max b) ∧
      source.pending = records.flatten) →
    Spoiled max (.opens source)

theorem Origin.Spoiled.not_drains {max : UInt64} {origin : Origin} {source : Source}
    (spoiled : origin.Spoiled max) (opens : origin = .opens source) :
    ¬ (Token.Reader.start source max).Drains max := by
  intro drains
  cases spoiled with
  | refuses => contradiction
  | crashes => contradiction
  | faulty moving fault place =>
    obtain rfl := Origin.opens.inj opens
    have before := (drains.clean moving).2 _ _ fault
    simp only [Token.Reader.start, Source.extent] at before
    omega
  | unclean moving unclean =>
    obtain rfl := Origin.opens.inj opens
    exact unclean (drains.clean moving).1

/-- Too few bytes for a record. -/
theorem Origin.spoiled_of_short {max : UInt64} {source : Source}
    (moving : source.schedule.Moving) (some : source.pending ≠ [])
    (few : source.pending.length < Record.minSize) : (Origin.opens source).Spoiled max := by
  refine .unclean moving ?_
  rintro ⟨records, formed, split⟩
  cases records with
  | nil => exact some split
  | cons b rest =>
    have least := (formed b (List.mem_cons_self ..)).least
    simp only [split, List.flatten_cons, List.length_append] at few
    omega

end Dump
end DumpArchive
