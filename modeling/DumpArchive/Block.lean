import DumpArchive.Token.Reader.Progress

/-! Blocks: one header record, any number of body records, one delimiter. A stream of blocks is
read part by part; `Place` says where in a block the reader stands. -/
namespace DumpArchive

namespace Block

/-- Between blocks, or inside one after its header. -/
inductive Place where
  | between
  | inside
  deriving DecidableEq, Repr

/-- What the next token of a stream of blocks is. Records carry the offset they began at. -/
inductive Part where
  | header (offset : Nat) (record : Bytes)
  | body (offset : Nat) (record : Bytes)
  | close
  | finish (offset : Nat)
  deriving DecidableEq, Repr

open Token (Reader)

/-- Reads one token and places it in the grammar. -/
def nextPart (place : Place) (r : Reader) : Except FrameError Part × Reader :=
  match r.readToken, place with
  | (.error e, next), _ => (.error e, next)
  | (.ok none, next), .between => (.ok (.finish r.offset), next)
  | (.ok none, next), .inside => (.error (.corrupt r.offset .openBlock), next)
  | (.ok (some .delimiter), next), .between => (.error (.corrupt r.offset .emptyBlock), next)
  | (.ok (some .delimiter), next), .inside => (.ok .close, next)
  | (.ok (some (.record bytes)), next), .between => (.ok (.header r.offset bytes), next)
  | (.ok (some (.record bytes)), next), .inside => (.ok (.body r.offset bytes), next)

/-- Takes the records of blocks as they are read and may refuse one. `finish` is told of the
end of the input between two blocks. -/
structure Handler (σ : Type) where
  header : Nat → Bytes → σ → Except FrameError Unit × σ
  body : Nat → Bytes → σ → Except FrameError Unit × σ
  finish : Nat → σ → Except FrameError Unit × σ

inductive Status where
  | block
  | finished
  deriving DecidableEq, Repr

theorem remaining_of_nextPart {place : Place} {r next : Reader} {part : Part}
    (h : nextPart place r = (.ok part, next)) (more : ∀ offset, part ≠ .finish offset) :
    next.remaining < r.remaining := by
  unfold nextPart at h
  split at h
  all_goals first
    | (simp at h; done)
    | (simp only [Prod.mk.injEq, Except.ok.injEq] at h
       obtain ⟨rfl, rfl⟩ := h
       first
         | exact absurd rfl (more _)
         | exact Reader.remaining_of_readToken ‹_›)

theorem remaining_nextPart_le (place : Place) (r : Reader) :
    (nextPart place r).2.remaining ≤ r.remaining := by
  have token := Reader.remaining_readToken_le r
  unfold nextPart
  split <;> simp_all

variable {σ : Type}

/-- Hands every record to the handler until it refuses one, the stream breaks the grammar or
the input ends; unless `whole`, also until the end of a block. -/
def traverse (whole : Bool) (handler : Handler σ) (place : Place) (state : σ) (r : Reader) :
    Except FrameError Status × σ × Reader :=
  match _found : nextPart place r with
  | (.error e, next) => (.error e, state, next)
  | (.ok (.header offset record), next) =>
    match handler.header offset record state with
    | (.error e, state) => (.error e, state, next)
    | (.ok (), state) => traverse whole handler .inside state next
  | (.ok (.body offset record), next) =>
    match handler.body offset record state with
    | (.error e, state) => (.error e, state, next)
    | (.ok (), state) => traverse whole handler .inside state next
  | (.ok .close, next) =>
    if whole then traverse whole handler .between state next else (.ok .block, state, next)
  | (.ok (.finish offset), next) =>
    match handler.finish offset state with
    | (.error e, state) => (.error e, state, next)
    | (.ok (), state) => (.ok .finished, state, next)
termination_by r.remaining
decreasing_by all_goals exact remaining_of_nextPart _found (by simp)

/-- One block, or the end of the input. -/
def read (handler : Handler σ) (state : σ) (r : Reader) :
    Except FrameError Status × σ × Reader :=
  traverse false handler .between state r

/-- Blocks until the input ends. -/
def readAll (handler : Handler σ) (state : σ) (r : Reader) :
    Except FrameError Status × σ × Reader :=
  traverse true handler .between state r

end Block
end DumpArchive
