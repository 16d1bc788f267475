import DumpArchive.Proofs.Attempts

/-! What a call needs of its stream. A call that comes to its answer before the fault of the stream
is answered as if there were none; any other call fails with that fault. -/
namespace DumpArchive

/-- Where a stream fails, and how. -/
abbrev Stream.Fault := Option (Nat × IoError)

/-- All that stands before `reach` is before the fault. -/
def Stream.Fault.Spares (fault : Stream.Fault) (reach : Nat) : Prop :=
  ∀ place e, fault = some (place, e) → reach ≤ place

theorem Stream.Fault.spares_or_strikes (fault : Stream.Fault) (reach : Nat) :
    fault.Spares reach ∨ ∃ place e, fault = some (place, e) ∧ place < reach := by
  match fault with
  | none => exact .inl (by simp [Spares])
  | some (place, e) =>
    by_cases before : place < reach
    · exact .inr ⟨place, e, rfl, before⟩
    · refine .inl fun other f same => ?_
      obtain ⟨rfl, -⟩ := by simpa using same
      omega

theorem Stream.Fault.Spares.max {fault : Stream.Fault} {near far : Nat} (first : fault.Spares near)
    (second : fault.Spares far) : fault.Spares (Max.max near far) :=
  fun place e found => Nat.max_le.2 ⟨first place e found, second place e found⟩

namespace Source

/-- One more than the last position that a request needs, none if nothing is asked for. The end of
the input stands right behind its last byte. -/
def reach (want : Nat) (s : Source) : Nat :=
  if want = 0 then 0 else min (s.position + want) (s.extent + 1)

/-- What an answered call took, and that no fault was in its way. -/
theorem of_read {want : Nat} {s next : Source} {chunk : Bytes}
    (h : s.read want = (.ok chunk, next)) :
    chunk.length ≤ want ∧ next.position = s.position + chunk.length ∧
      ∀ place e, s.schedule.fault = some (place, e) → s.position + chunk.length ≤ place := by
  simp only [read] at h
  split at h
  · simp at h
  · next bound allowed =>
    obtain ⟨rfl, rfl⟩ := by simpa using h
    have fits := Stream.Schedule.atMost_le bound want
    refine ⟨by simp only [List.length_take]; omega, by simp, fun place e fault => ?_⟩
    simp only [Stream.Schedule.allowance, fault] at allowed
    split at allowed
    · contradiction
    · obtain rfl := Except.ok.inj allowed
      have left : Stream.Schedule.atMost
          (some (Stream.Schedule.atMost (s.schedule.limit (s.schedule.resume (s.calls + 1)))
            (place - s.position))) want ≤ place - s.position :=
        Nat.le_trans (Nat.min_le_left ..) (Stream.Schedule.atMost_le ..)
      simp only [List.length_take]
      omega

/-- A call fails with the fault, once that has been reached. -/
theorem of_read_error {want : Nat} {s next : Source} {e : IoError}
    (h : s.read want = (.error e, next)) :
    ∃ place, s.schedule.fault = some (place, e) ∧ place ≤ s.position := by
  simp only [read] at h
  split at h
  · next failed refused =>
    obtain ⟨rfl, -⟩ := by simpa using h
    unfold Stream.Schedule.allowance at refused
    split at refused
    · contradiction
    · next place error fault =>
      split at refused
      · next reached =>
        obtain rfl := Except.error.inj refused
        exact ⟨place, fault, reached⟩
      · contradiction
  · simp at h

/-- What is still asked for after an answer reaches as far as before. -/
theorem reach_after {want : Nat} {s next : Source} {chunk : Bytes}
    (h : s.read want = (.ok chunk, next)) (more : want - chunk.length ≠ 0) :
    next.reach (want - chunk.length) = s.reach want := by
  obtain ⟨-, position, -⟩ := of_read h
  have extent : next.extent = s.extent := by simpa [h] using extent_read want s
  rw [reach, reach, if_neg more, if_neg (by omega), position, extent]
  congr 1
  omega

theorem fillOnto_spared (taken : Bytes) (want : Nat) (s : Source) (moving : s.schedule.Moving)
    (spared : Stream.Fault.Spares s.schedule.fault (s.reach want)) :
    (s.fillOnto taken want).1 = .ok (taken.reverse ++ s.pending.take want) := by
  fun_induction fillOnto taken want s with
  | case1 taken s => simp
  | case2 taken want s more e next failed =>
    obtain ⟨place, fault, reached⟩ := of_read_error failed
    have after := spared place e fault
    rw [reach, if_neg more] at after
    simp only [extent] at after
    omega
  | case3 taken want s more next answered =>
    obtain ⟨nothing, -⟩ := of_read_nil moving (Nat.pos_of_ne_zero more) answered
    simp [nothing]
  | case4 taken want s more b chunk next answered ih =>
    obtain ⟨fits, -⟩ := of_read answered
    have same : next.schedule = s.schedule := by simpa [answered] using schedule_read want s
    have ahead := append_pending_of_read answered
    have later : Stream.Fault.Spares s.schedule.fault (next.reach (want - (chunk.length + 1))) := by
      by_cases rest : want - (chunk.length + 1) = 0
      · simp [reach, rest, Stream.Fault.Spares]
      · rwa [← List.length_cons, reach_after answered (by simpa using rest)]
    obtain ⟨rest, rfl⟩ := Nat.exists_eq_add_of_le fits
    rw [ih (same ▸ moving) (same ▸ later), ← ahead, List.take_length_add_append]
    simp [List.reverseAux_eq]

theorem fillOnto_struck (taken : Bytes) (want : Nat) (s : Source) (moving : s.schedule.Moving)
    {place : Nat} {e : IoError} (fault : s.schedule.fault = some (place, e))
    (struck : place < s.reach want) : (s.fillOnto taken want).1 = .error e := by
  fun_induction fillOnto taken want s with
  | case1 taken s => simp [reach] at struck
  | case2 taken want s more failed next refused =>
    obtain ⟨other, same, -⟩ := of_read_error refused
    obtain ⟨-, rfl⟩ := by simpa [fault] using same
    rfl
  | case3 taken want s more next answered =>
    have before := (of_read_nil moving (Nat.pos_of_ne_zero more) answered).2 place e fault
    rw [reach, if_neg more] at struck
    omega
  | case4 taken want s more b chunk next answered ih =>
    obtain ⟨fits, -, unharmed⟩ := of_read answered
    have same : next.schedule = s.schedule := by simpa [answered] using schedule_read want s
    have before := unharmed place e fault
    have rest : want - (b :: chunk).length ≠ 0 := by
      rw [reach, if_neg more] at struck
      omega
    refine ih (same ▸ moving) (same ▸ fault) ?_
    rwa [← List.length_cons, reach_after answered rest]

theorem position_of_fill {want : Nat} {s next : Source} {data : Bytes}
    (h : s.fill want = (.ok data, next)) : next.position = s.position + data.length := by
  have extent : next.extent = s.extent := by simpa [h] using extent_fill want s
  have taken := congrArg List.length (append_pending_of_fill h)
  simp only [Source.extent] at extent
  rw [List.length_append] at taken
  omega

/-- A request that needs nothing at or behind the fault is met as on a stream without. -/
theorem fill_spared {want : Nat} {s : Source} (moving : s.schedule.Moving)
    (spared : Stream.Fault.Spares s.schedule.fault (s.reach want)) :
    ∃ next, s.fill want = (.ok (s.pending.take want), next) ∧
      next.pending = s.pending.drop want ∧
      next.position = s.position + (s.pending.take want).length ∧ next.schedule = s.schedule := by
  have answer : (s.fill want).1 = .ok (s.pending.take want) := fillOnto_spared [] want s moving spared
  match filled : s.fill want with
  | (result, next) =>
    obtain rfl : result = .ok (s.pending.take want) := by simpa [filled] using answer
    refine ⟨next, rfl, ?_, position_of_fill filled, by simpa [filled] using schedule_fill want s⟩
    have split := (append_pending_of_fill filled).trans (List.take_append_drop want s.pending).symm
    exact List.append_cancel_left split

end Source

/-! ### Two readers of the same bytes -/

/-- How an answer on a stream with a fault goes with the answer on one without: it is the same if
all that the call needs is before the fault, and else it is the fault. -/
inductive Echo {α τ : Type} (fault : Stream.Fault) (Like : τ → τ → Prop) (reach : Nat)
    (told heard : Except FrameError α × τ) : Prop
  | same (spared : fault.Spares reach) (answer : heard.1 = told.1) (like : Like told.2 heard.2)
  | struck {place : Nat} {e : IoError} (fault : fault = some (place, e)) (within : place < reach)
    (answer : heard.1 = .error (.io e))

/-- Both answers as pairs, to be put into what the calls are made of. -/
theorem Echo.inv {α τ : Type} {fault : Stream.Fault} {Like : τ → τ → Prop} {reach : Nat}
    {told heard : Except FrameError α × τ} (echo : Echo fault Like reach told heard) :
    (fault.Spares reach ∧ ∃ answer a b, told = (answer, a) ∧ heard = (answer, b) ∧ Like a b) ∨
      ∃ place e b, fault = some (place, e) ∧ place < reach ∧ heard = (.error (.io e), b) := by
  obtain ⟨answer, a⟩ := told
  obtain ⟨heard, b⟩ := heard
  cases echo with
  | same spared same like =>
    obtain rfl : heard = answer := same
    exact .inl ⟨spared, heard, a, b, rfl, rfl, like⟩
  | struck found within failed =>
    obtain rfl : heard = .error (.io _) := failed
    exact .inr ⟨_, _, b, found, within, rfl⟩

theorem Echo.map {α β τ υ : Type} {fault : Stream.Fault} {Like : τ → τ → Prop}
    {After : υ → υ → Prop} {reach : Nat} {told heard : Except FrameError α × τ}
    (echo : Echo fault Like reach told heard) (f : α → β) (g : τ → υ)
    (like : ∀ a b, Like a b → After (g a) (g b)) :
    Echo fault After reach (told.1.map f, g told.2) (heard.1.map f, g heard.2) := by
  cases echo with
  | same spared same alike => exact .same spared (congrArg (Except.map f) same) (like _ _ alike)
  | struck found within failed => exact .struck found within (congrArg (Except.map f) failed)

namespace Token.Reader

/-- Two readers at the same place of the same bytes. The stream of the first has no faults, that of
the second has this one at most. -/
structure Twin (fault : Stream.Fault) (r other : Reader) : Prop where
  sound : r.source.schedule.Sound
  moving : other.source.schedule.Moving
  fault : other.source.schedule.fault = fault
  pending : other.source.pending = r.source.pending
  position : other.source.position = r.source.position
  max : other.max = r.max
  offset : other.offset = r.offset

variable {fault : Stream.Fault} {r other : Reader}

theorem Twin.reach (twin : Twin fault r other) (n : Nat) :
    other.source.reach n = r.source.reach n := by
  simp only [Source.reach, Source.extent, twin.pending, twin.position]

theorem readRaw_echo (twin : Twin fault r other) (n : Nat) :
    Echo fault (Twin fault) (r.source.reach n) (r.readRaw n) (other.readRaw n) := by
  have quiet : Stream.Fault.Spares r.source.schedule.fault (r.source.reach n) := by
    simp [twin.sound.faultless, Stream.Fault.Spares]
  obtain ⟨next, told, ahead, position, schedule⟩ := Source.fill_spared twin.sound.moving quiet
  rcases fault.spares_or_strikes (r.source.reach n) with spared | ⟨place, e, found, within⟩
  · have heard : Stream.Fault.Spares other.source.schedule.fault (other.source.reach n) := by
      rwa [twin.fault, twin.reach]
    obtain ⟨last, heard, left, place, unchanged⟩ := Source.fill_spared twin.moving heard
    rw [twin.pending] at heard left place
    rw [twin.position] at place
    simp only [readRaw, told, heard]
    refine .same spared rfl ⟨?_, ?_, ?_, ?_, ?_, twin.max, ?_⟩
    · exact schedule ▸ twin.sound
    · exact unchanged ▸ twin.moving
    · exact unchanged ▸ twin.fault
    · exact left.trans ahead.symm
    · exact place.trans position.symm
    · simp only [twin.offset]
  · have failed := Source.fillOnto_struck [] n other.source twin.moving
      (twin.fault.trans found) (by rwa [twin.reach])
    refine .struck found within ?_
    unfold readRaw
    rw [Source.fill]
    split
    · simp_all
    · simp_all

/-- One more than the last position that the next token needs. -/
def reachToken (r : Reader) : Nat :=
  match r.readLead with
  | (.ok (some (_, .record size)), next) => Max.max (r.source.reach 4) (next.source.reach (size - 4))
  | _ => r.source.reach 4

theorem reach_le_reachToken (r : Reader) : r.source.reach 4 ≤ r.reachToken := by
  unfold reachToken
  split
  · exact Nat.le_max_left ..
  · exact Nat.le_refl _

section Tokens

variable {max : UInt64} {offset : Nat} {rest : Bytes}

theorem reach_of_le {n : Nat} (some : n ≠ 0) (enough : n ≤ r.remaining) :
    r.source.reach n = r.source.position + n := by
  unfold Reader.remaining at enough
  rw [Source.reach, if_neg some, Source.extent]
  omega

/-- A well-formed token needs its own bytes and nothing behind them. -/
theorem reachToken_append {t : Token} (small : max.toNat < 2 ^ 63) (formed : t.Formed max)
    (place : r.At max offset (t.bytes ++ rest)) :
    r.reachToken = r.source.position + t.bytes.length := by
  have long := place.remaining
  rw [List.length_append] at long
  cases t with
  | delimiter =>
    have width : delimiterBytes.length = 4 := rfl
    obtain ⟨next, lead, -⟩ := readLead_append width (Record.classify_delimiter max) place
    rw [reachToken, lead]
    exact reach_of_le (by decide) (by simp [long, Token.bytes, delimiterBytes])
  | record b =>
    have least := Record.Formed.least formed
    simp only [Record.minSize] at least
    simp only [Token.bytes] at long place ⊢
    have width : (b.take 4).length = 4 := by
      rw [List.length_take]
      omega
    have place : r.At max offset (b.take 4 ++ (b.drop 4 ++ rest)) := by
      rwa [← List.append_assoc, List.take_append_drop]
    obtain ⟨next, lead, later⟩ :=
      readLead_append width (Record.Formed.classify formed small) place
    have behind := (balanced_of_readLead lead).position place (by rwa [width])
    have left := later.remaining
    rw [List.length_append, List.length_drop] at left
    rw [reachToken, lead]
    dsimp only
    rw [reach_of_le (by decide) (by omega), reach_of_le (by omega) (by omega), behind, width]
    omega

end Tokens

theorem readLead_echo (twin : Twin fault r other) :
    Echo fault (Twin fault) (r.source.reach 4) r.readLead other.readLead := by
  rcases (readRaw_echo twin 4).inv with
    ⟨spared, answer, a, b, told, heard, like⟩ | ⟨place, e, b, found, within, heard⟩
  · rw [readLead, readLead, told, heard, twin.max, twin.offset]
    cases answer with
    | error e => exact .same spared rfl like
    | ok four =>
      dsimp only
      by_cases nothing : four = []
      · rw [if_pos nothing, if_pos nothing]
        exact .same spared rfl like
      · rw [if_neg nothing, if_neg nothing]
        by_cases short : four.length < 4
        · rw [if_pos short, if_pos short]
          exact .same spared rfl like
        · rw [if_neg short, if_neg short]
          cases Record.classify four r.max <;> exact .same spared rfl like
  · exact .struck found within (by rw [readLead, heard])

theorem readBody_echo (start : Nat) (four : Bytes) (size : Nat) (twin : Twin fault r other) :
    Echo fault (Twin fault) (r.source.reach (size - 4)) (r.readBody start four size)
      (other.readBody start four size) := by
  rcases (readRaw_echo twin (size - 4)).inv with
    ⟨spared, answer, a, b, told, heard, like⟩ | ⟨place, e, b, found, within, heard⟩
  · rw [readBody, readBody, told, heard]
    cases answer with
    | error e => exact .same spared rfl like
    | ok body =>
      dsimp only
      split
      · exact .same spared rfl like
      · split <;> exact .same spared rfl like
  · exact .struck found within (by rw [readBody, heard])

theorem readToken_echo (twin : Twin fault r other) :
    Echo fault (Twin fault) r.reachToken r.readToken other.readToken := by
  rcases (readLead_echo twin).inv with
    ⟨spared, answer, a, b, told, heard, like⟩ | ⟨place, e, b, found, within, heard⟩
  · rw [reachToken, readToken, readToken, told, heard, twin.offset]
    rcases answer with e | _ | ⟨four, _ | size⟩
    · exact .same spared rfl like
    · exact .same spared rfl like
    · exact .same spared rfl like
    · dsimp only
      rcases (readBody_echo r.offset four size like).inv with
        ⟨after, answer, c, d, told, heard, like⟩ | ⟨place, e, d, found, within, heard⟩
      · rw [told, heard]
        have all := spared.max after
        cases answer <;> exact .same all rfl like
      · exact .struck found (lt_max_of_lt_right within) (by rw [heard])
  · have within := Nat.lt_of_lt_of_le within r.reach_le_reachToken
    exact .struck found within (by rw [readToken, heard])

theorem nextRecord_echo (twin : Twin fault r other) :
    Echo fault (Twin fault) r.reachToken r.nextRecord other.nextRecord := by
  rcases (readToken_echo twin).inv with
    ⟨spared, answer, a, b, told, heard, like⟩ | ⟨place, e, b, found, within, heard⟩
  · rw [nextRecord, nextRecord, told, heard, twin.offset]
    match answer with
    | .error e => exact .same spared rfl like
    | .ok none => exact .same spared rfl like
    | .ok (some .delimiter) => exact .same spared rfl like
    | .ok (some (.record bytes)) => exact .same spared rfl like
  · exact .struck found within (by rw [nextRecord, heard])

end Token.Reader

namespace Block

open Token (Reader)

variable {σ : Type} {fault : Stream.Fault} {r other : Reader} {place : Place}

theorem nextPart_echo (place : Place) (twin : r.Twin fault other) :
    Echo fault (Reader.Twin fault) r.reachToken (nextPart place r) (nextPart place other) := by
  rcases (Reader.readToken_echo twin).inv with
    ⟨spared, answer, a, b, told, heard, like⟩ | ⟨_, e, b, found, within, heard⟩
  · unfold nextPart
    rw [told, heard, twin.offset]
    match answer, place with
    | .error e, _ => exact .same spared rfl like
    | .ok none, .between => exact .same spared rfl like
    | .ok none, .inside => exact .same spared rfl like
    | .ok (some .delimiter), .between => exact .same spared rfl like
    | .ok (some .delimiter), .inside => exact .same spared rfl like
    | .ok (some (.record bytes)), .between => exact .same spared rfl like
    | .ok (some (.record bytes)), .inside => exact .same spared rfl like
  · exact .struck found within (by simp only [nextPart, heard])

/-- One more than the last position that reading blocks needs, as far as the handler lets it go. -/
def reach (whole : Bool) (handler : Handler σ) (place : Place) (state : σ) (r : Reader) : Nat :=
  max r.reachToken <| match _found : nextPart place r with
    | (.ok (.header offset record), next) => match handler.header offset record state with
      | (.ok (), state) => reach whole handler .inside state next
      | (.error _, _) => 0
    | (.ok (.body offset record), next) => match handler.body offset record state with
      | (.ok (), state) => reach whole handler .inside state next
      | (.error _, _) => 0
    | (.ok .close, next) => if whole then reach whole handler .between state next else 0
    | (.ok (.finish _), _) => 0
    | (.error _, _) => 0
termination_by r.remaining
decreasing_by all_goals exact remaining_of_nextPart _found (by simp)

variable {whole : Bool} {handler : Handler σ} {state : σ} {next : Reader}

theorem reachToken_le_reach : r.reachToken ≤ reach whole handler place state r := by
  rw [reach]
  exact Nat.le_max_left ..

theorem reach_of_part {part : Part} (found : nextPart place r = (.ok part, next)) :
    reach whole handler place state r = max r.reachToken (match part with
      | .header offset record => match handler.header offset record state with
        | (.ok (), state) => reach whole handler .inside state next
        | (.error _, _) => 0
      | .body offset record => match handler.body offset record state with
        | (.ok (), state) => reach whole handler .inside state next
        | (.error _, _) => 0
      | .close => if whole then reach whole handler .between state next else 0
      | .finish _ => 0) := by
  rw [reach]
  congr 1
  split
  all_goals
    rename_i same
    cases found.symm.trans same
  all_goals rfl

theorem reach_of_error {e : FrameError} (found : nextPart place r = (.error e, next)) :
    reach whole handler place state r = max r.reachToken 0 := by
  rw [reach]
  congr 1
  split
  all_goals
    rename_i same
    cases found.symm.trans same
  rfl

/-- Two states of a handler that are the same, each with its reader. -/
def Alike (fault : Stream.Fault) (a b : σ × Reader) : Prop := b.1 = a.1 ∧ a.2.Twin fault b.2

/-- A token that is all before the fault, and what is read after it. -/
theorem echo_after {rest : Nat} {told heard : Except FrameError Status × σ × Reader}
    (spared : fault.Spares r.reachToken) (later : Echo fault (Alike fault) rest told heard) :
    Echo fault (Alike fault) (max r.reachToken rest) told heard := by
  cases later with
  | same after same like => exact .same (spared.max after) same like
  | struck found within failed => exact .struck found (lt_max_of_lt_right within) failed

/-- Nothing more is read. -/
theorem echo_last {result : Except FrameError Status} {a b : Reader}
    (spared : fault.Spares r.reachToken) (like : a.Twin fault b) :
    Echo fault (Alike fault) (max r.reachToken 0) (result, state, a) (result, state, b) :=
  echo_after spared (.same (fun _ _ _ => Nat.zero_le _) rfl ⟨rfl, like⟩)

theorem traverse_echo (whole : Bool) (handler : Handler σ) (place : Place) (state : σ)
    (twin : r.Twin fault other) :
    Echo fault (Alike fault) (reach whole handler place state r)
      (traverse whole handler place state r) (traverse whole handler place state other) := by
  induction left : r.remaining using Nat.strong_induction_on
    generalizing r other place state with
  | _ n ih =>
    subst left
    rcases (nextPart_echo place twin).inv with
      ⟨spared, answer, a, b, told, heard, like⟩ | ⟨_, e, b, found, within, heard⟩
    · match answer with
      | .error e =>
        rw [traverse_of_error told, traverse_of_error heard, reach_of_error told]
        exact echo_last spared like
      | .ok part =>
        rw [traverse_of_part told, traverse_of_part heard, reach_of_part told]
        cases part with
        | header offset record =>
          have less := remaining_of_nextPart told (by simp)
          dsimp only
          match handler.header offset record state with
          | (.error e, state) => exact echo_last spared like
          | (.ok (), state) => exact echo_after spared (ih _ less .inside state like rfl)
        | body offset record =>
          have less := remaining_of_nextPart told (by simp)
          dsimp only
          match handler.body offset record state with
          | (.error e, state) => exact echo_last spared like
          | (.ok (), state) => exact echo_after spared (ih _ less .inside state like rfl)
        | close =>
          have less := remaining_of_nextPart told (by simp)
          cases whole with
          | false => exact echo_last spared like
          | true => exact echo_after spared (ih _ less .between state like rfl)
        | finish offset =>
          dsimp only
          match handler.finish offset state with
          | (.error e, state) => exact echo_last spared like
          | (.ok (), state) => exact echo_last spared like
    · rw [traverse_of_error heard]
      exact .struck found (Nat.lt_of_lt_of_le within reachToken_le_reach) rfl

end Block

namespace Catalog

open Token (Reader)

variable {fault : Stream.Fault} {r other : Reader}

/-- One more than the last position that reading a catalog needs. -/
def reach (r : Reader) : Nat :=
  max (r.source.reach 4) <| match r.readRaw 4 with
    | (.ok four, next) =>
      if four = Token.magicBytes then Block.reach false Draft.handler .between ⟨none, []⟩ next else 0
    | (.error _, _) => 0

theorem read_echo (twin : r.Twin fault other) :
    Echo fault (Reader.Twin fault) (reach r) (read r) (read other) := by
  rcases (Reader.readRaw_echo twin 4).inv with
    ⟨spared, answer, a, b, told, heard, like⟩ | ⟨place, e, b, found, within, heard⟩
  · rw [reach, read, read, told, heard]
    have only : fault.Spares (max (r.source.reach 4) 0) := by simpa using spared
    cases answer with
    | error e => exact .same only rfl like
    | ok four =>
      dsimp only
      by_cases magic : four = Token.magicBytes
      · have long : ¬ four.length < 4 := by simp [magic, Token.magicBytes]
        rw [if_pos magic, if_neg long, if_neg long, if_neg (not_not.2 magic),
          if_neg (not_not.2 magic)]
        rcases (Block.traverse_echo false Draft.handler .between ⟨none, []⟩ like).inv with
          ⟨after, answer, ⟨_, c⟩, ⟨draft, d⟩, told, heard, rfl, like⟩ |
            ⟨place, e, d, found, within, heard⟩
        · rw [Block.read, Block.read, told, heard]
          have all := spared.max after
          obtain ⟨_ | header, entries⟩ := draft
          · rcases answer with e | _ | _ <;> exact .same all rfl like
          · rcases answer with e | _ | _
            · exact .same all rfl like
            · dsimp only
              cases ofEntries header entries <;> exact .same all rfl like
            · exact .same all rfl like
        · rw [Block.read, Block.read, heard]
          exact .struck found (lt_max_of_lt_right within) rfl
      · rw [if_neg magic]
        by_cases short : four.length < 4
        · rw [if_pos short, if_pos short]
          exact .same only rfl like
        · rw [if_neg short, if_neg short, if_pos magic, if_pos magic]
          exact .same only rfl like
  · rw [reach]
    exact .struck found (lt_max_of_lt_left within) (by rw [read, heard])

end Catalog
end DumpArchive
