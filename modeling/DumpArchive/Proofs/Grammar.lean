import DumpArchive.Proofs.Catalogs

/-! The grammar of blocks, and what a handler is told of an input. Every input is blocks or stops
at its first fault; reading makes the calls that are due up to there, or up to the first refusal. -/
namespace DumpArchive

/-- A well-formed token stands at the front. -/
def Token.Stands (max : UInt64) (w : Bytes) : Prop :=
  ∃ (t : Token) (rest : Bytes), t.Formed max ∧ w = t.bytes ++ rest

theorem Token.bytes_ne_nil {max : UInt64} {t : Token} (formed : t.Formed max) : t.bytes ≠ [] := by
  cases t with
  | delimiter => simp [bytes, delimiterBytes]
  | record b =>
    have least := Record.Formed.least formed
    simp only [Record.minSize] at least
    rintro rfl
    simp at least

namespace Token.Reader

variable {max : UInt64} {offset : Nat} {r next : Reader} {w : Bytes} {e : FrameError}

theorem corrupt_of_readLead (stands : r.At max offset w) (h : r.readLead = (.error e, next)) :
    ∃ defect, e = .corrupt offset defect := by
  obtain ⟨mid, raw, -⟩ := readRaw_at stands 4
  simp only [readLead, raw, stands.counted] at h
  split at h
  · simp at h
  · split at h
    · simp only [Prod.mk.injEq, Except.error.injEq] at h
      exact ⟨_, h.1.symm⟩
    · split at h
      · simp only [Prod.mk.injEq, Except.error.injEq] at h
        exact ⟨_, h.1.symm⟩
      · simp at h

theorem corrupt_of_readBody {start size : Nat} {four : Bytes} (stands : r.At max offset w)
    (h : r.readBody start four size = (.error e, next)) : ∃ defect, e = .corrupt start defect := by
  obtain ⟨mid, raw, -⟩ := readRaw_at stands (size - 4)
  simp only [readBody, raw] at h
  split at h
  · simp only [Prod.mk.injEq, Except.error.injEq] at h
    exact ⟨_, h.1.symm⟩
  · split at h
    · simp only [Prod.mk.injEq, Except.error.injEq] at h
      exact ⟨_, h.1.symm⟩
    · simp at h

/-- Without faults a token can only fail as corrupt, at its first byte. -/
theorem corrupt_of_readToken (stands : r.At max offset w) (h : r.readToken = (.error e, next)) :
    ∃ defect, e = .corrupt offset defect := by
  unfold readToken at h
  split at h
  · next failed mid lead =>
    obtain ⟨rfl, -⟩ := by simpa using h
    exact corrupt_of_readLead stands lead
  · simp at h
  · simp at h
  · next four size mid lead =>
    obtain ⟨-, -, rest, -, between⟩ := of_readLead stands lead
    split at h
    · next failed last body =>
      obtain ⟨rfl, -⟩ := by simpa using h
      rw [stands.counted] at body
      exact corrupt_of_readBody between body
    · simp at h

/-- Where bytes are ahead but no well-formed token, reading one fails at the place it stands. -/
theorem readToken_broken (small : max.toNat < 2 ^ 63) (something : w ≠ [])
    (absent : ¬ Token.Stands max w) (stands : r.At max offset w) :
    ∃ defect next, r.readToken = (.error (.corrupt offset defect), next) := by
  match read : r.readToken with
  | (.error e, next) =>
    obtain ⟨defect, rfl⟩ := corrupt_of_readToken stands read
    exact ⟨defect, next, rfl⟩
  | (.ok none, next) => exact absurd (nil_of_readToken stands read) something
  | (.ok (some t), next) =>
    obtain ⟨formed, rest, split, -⟩ := of_readToken small stands read
    exact absurd ⟨t, rest, formed, split⟩ absent

end Token.Reader

namespace Block

open Token (Reader)

/-- The place after some tokens, unless they break the grammar. -/
def Place.follow : Place → List Token → Option Place
  | place, [] => some place
  | _, .record _ :: rest => Place.inside.follow rest
  | .inside, .delimiter :: rest => Place.between.follow rest
  | .between, .delimiter :: _ => none

/-- What a handler is told: the records with the positions of their first bytes, and the end. -/
inductive Call where
  | header (offset : Nat) (record : Bytes)
  | body (offset : Nat) (record : Bytes)
  | finish (offset : Nat)
  deriving DecidableEq, Repr

/-- The call for a record at some place. -/
def Place.call : Place → Nat → Bytes → Call
  | .between, offset, record => .header offset record
  | .inside, offset, record => .body offset record

/-- The position right after what a call is about. -/
def Call.stop : Call → Nat
  | .header offset record => offset + record.length
  | .body offset record => offset + record.length
  | .finish offset => offset

@[simp] theorem Place.stop_call (place : Place) (offset : Nat) (record : Bytes) :
    (place.call offset record).stop = offset + record.length := by
  cases place <;> rfl

/-- The calls for tokens that begin at a position. -/
def calls : Place → Nat → List Token → List Call
  | _, _, [] => []
  | place, offset, .record b :: rest =>
    place.call offset b :: calls .inside (offset + b.length) rest
  | _, offset, .delimiter :: rest =>
    calls .between (offset + Token.delimiterBytes.length) rest

/-- A block whatever its records say: one record, any number of others and a delimiter. -/
structure Plain where
  lead : Bytes
  others : List Bytes

namespace Plain

def tokens (b : Plain) : List Token := .record b.lead :: (b.others.map .record ++ [.delimiter])

def bytes (b : Plain) : Bytes := b.tokens.flatMap Token.bytes

def Formed (max : UInt64) (b : Plain) : Prop := ∀ t ∈ b.tokens, t.Formed max

end Plain

/-- An input that is blocks from one end to the other. -/
structure Concatenates (max : UInt64) (w : Bytes) (blocks : List Plain) : Prop where
  formed : ∀ b ∈ blocks, b.Formed max
  split : w = blocks.flatMap Plain.bytes

/-- What stands at a place where the grammar cannot go on: the end of the input inside a block,
a delimiter where a block should begin, or no token at all. -/
inductive Faulty (max : UInt64) : Place → Bytes → Prop
  | cut : Faulty max .inside []
  | stray (rest : Bytes) : Faulty max .between (Token.delimiterBytes ++ rest)
  | broken {place : Place} {tail : Bytes} (something : tail ≠ [])
      (absent : ¬ Token.Stands max tail) : Faulty max place tail

/-- An input that follows the grammar through the tokens in `front` and then is faulty. -/
structure Stops (max : UInt64) (w : Bytes) (front : List Token) (tail : Bytes) : Prop where
  split : w = front.flatMap Token.bytes ++ tail
  formed : ∀ t ∈ front, t.Formed max
  fault : ∃ place, Place.between.follow front = some place ∧ Faulty max place tail

/-- The calls due on an input, in their order. -/
inductive Due (max : UInt64) (w : Bytes) : List Call → Prop
  | whole {blocks : List Plain} : Concatenates max w blocks →
    Due max w (calls .between 0 (blocks.flatMap Plain.tokens) ++ [.finish w.length])
  | front {front : List Token} {tail : Bytes} : Stops max w front tail →
    Due max w (calls .between 0 front)

namespace Handler

variable {σ : Type}

def tell (handler : Handler σ) : Call → σ → Except FrameError Unit × σ
  | .header offset record, state => handler.header offset record state
  | .body offset record, state => handler.body offset record state
  | .finish offset, state => handler.finish offset state

/-- The state that some calls leave, whatever they were answered. -/
def after (handler : Handler σ) (calls : List Call) (state : σ) : σ :=
  calls.foldl (fun state call => (handler.tell call state).2) state

/-- Refuses none of some calls made one after the other. -/
def Accepts (handler : Handler σ) : List Call → σ → Prop
  | [], _ => True
  | call :: rest, state =>
    (handler.tell call state).1 = .ok () ∧ handler.Accepts rest (handler.tell call state).2

/-- Refuses nothing at all. -/
def Willing (handler : Handler σ) : Prop := ∀ call state, (handler.tell call state).1 = .ok ()

/-- The handler that keeps the calls made, the latest first. -/
def recorder : Handler (List Call) where
  header offset record calls := (.ok (), .header offset record :: calls)
  body offset record calls := (.ok (), .body offset record :: calls)
  finish offset calls := (.ok (), .finish offset :: calls)

variable {handler : Handler σ} {state : σ}

theorem Willing.accepts (willing : handler.Willing) (calls : List Call) (state : σ) :
    handler.Accepts calls state := by
  induction calls generalizing state with
  | nil => trivial
  | cons call rest ih => exact ⟨willing call state, ih _⟩

theorem willing_recorder : recorder.Willing := by
  rintro (_ | _ | _) state <;> rfl

@[simp] theorem after_nil : handler.after [] state = state := rfl

@[simp] theorem after_cons (call : Call) (rest : List Call) :
    handler.after (call :: rest) state = handler.after rest (handler.tell call state).2 := rfl

@[simp] theorem after_append (front back : List Call) :
    handler.after (front ++ back) state = handler.after back (handler.after front state) := by
  simp [after]

theorem accepts_append {front back : List Call} :
    handler.Accepts (front ++ back) state ↔
      handler.Accepts front state ∧ handler.Accepts back (handler.after front state) := by
  induction front generalizing state with
  | nil => simp [Accepts]
  | cons call rest ih => simp [Accepts, ih, and_assoc]

end Handler

/-! ### Every input is blocks or stops at a fault -/

section Split

variable {max : UInt64} {w : Bytes}

theorem Place.follow_append {place mid : Place} {front : List Token} (back : List Token)
    (follows : place.follow front = some mid) : place.follow (front ++ back) = mid.follow back := by
  induction front generalizing place with
  | nil =>
    obtain rfl := by simpa [follow] using follows
    rfl
  | cons t front ih =>
    cases t with
    | record b => exact ih follows
    | delimiter =>
      cases place with
      | between => simp [follow] at follows
      | inside => exact ih follows

theorem Place.follow_records {others : List Bytes} (back : List Token) :
    Place.inside.follow (others.map .record ++ back) = Place.inside.follow back := by
  induction others with
  | nil => rfl
  | cons b others ih => exact ih

theorem follow_blocks (blocks : List Plain) :
    Place.between.follow (blocks.flatMap Plain.tokens) = some .between := by
  induction blocks with
  | nil => rfl
  | cons b blocks ih =>
    have block : Place.between.follow b.tokens = some .between :=
      Place.follow_records [.delimiter]
    rw [List.flatMap_cons, Place.follow_append _ block, ih]

/-- Tokens that lead from between two blocks to there again are those of blocks; inside a block
the rest of that block comes first. -/
theorem blocks_of_follow {place : Place} {tokens : List Token}
    (follows : place.follow tokens = some .between) :
    match place with
    | .between => ∃ blocks : List Plain, tokens = blocks.flatMap Plain.tokens
    | .inside => ∃ (others : List Bytes) (blocks : List Plain),
      tokens = others.map .record ++ (.delimiter :: blocks.flatMap Plain.tokens) := by
  induction tokens generalizing place with
  | nil =>
    obtain rfl := by simpa [Place.follow] using follows
    exact ⟨[], rfl⟩
  | cons t tokens ih =>
    cases t with
    | record b =>
      have inside : Place.inside.follow tokens = some .between := follows
      obtain ⟨others, blocks, rfl⟩ := ih inside
      cases place with
      | between => exact ⟨⟨b, others⟩ :: blocks, by simp [Plain.tokens]⟩
      | inside => exact ⟨b :: others, blocks, by simp⟩
    | delimiter =>
      cases place with
      | between => simp [Place.follow] at follows
      | inside =>
        have between : Place.between.follow tokens = some .between := follows
        obtain ⟨blocks, rfl⟩ := ih between
        exact ⟨[], blocks, rfl⟩

theorem Concatenates.bytes {blocks : List Plain} (whole : Concatenates max w blocks) :
    w = (blocks.flatMap Plain.tokens).flatMap Token.bytes := by
  rw [whole.split, List.flatMap_assoc]
  rfl

theorem Concatenates.tokens {blocks : List Plain} (whole : Concatenates max w blocks) :
    ∀ t ∈ blocks.flatMap Plain.tokens, t.Formed max := by
  intro t member
  obtain ⟨b, blocks, token⟩ := List.mem_flatMap.1 member
  exact whole.formed b blocks t token

/-- From any place the tokens can be followed to the end of the input between two blocks or to
the first fault. -/
theorem exists_tokens (max : UInt64) (place : Place) (w : Bytes) :
    ∃ (tokens : List Token) (tail : Bytes) (last : Place),
      w = tokens.flatMap Token.bytes ++ tail ∧ (∀ t ∈ tokens, t.Formed max) ∧
        place.follow tokens = some last ∧
        (last = .between ∧ tail = [] ∨ Faulty max last tail) := by
  induction size : w.length using Nat.strong_induction_on generalizing place w with
  | _ n ih =>
    subst size
    by_cases stands : Token.Stands max w
    · obtain ⟨t, rest, formed, rfl⟩ := stands
      have shorter : rest.length < (t.bytes ++ rest).length := by
        have := List.length_pos_iff.2 (Token.bytes_ne_nil formed)
        simp only [List.length_append]
        omega
      match t, place, formed with
      | .delimiter, .between, _ =>
        exact ⟨[], _, .between, rfl, by simp, rfl, .inr (.stray rest)⟩
      | .delimiter, .inside, formed =>
        obtain ⟨tokens, tail, last, rfl, others, follows, ends⟩ := ih _ shorter .between rest rfl
        exact ⟨.delimiter :: tokens, tail, last, by simp, by simp_all, follows, ends⟩
      | .record b, place, formed =>
        obtain ⟨tokens, tail, last, rfl, others, follows, ends⟩ := ih _ shorter .inside rest rfl
        exact ⟨.record b :: tokens, tail, last, by simp, by simp_all, by simpa [Place.follow],
          ends⟩
    · by_cases nothing : w = []
      · subst nothing
        cases place with
        | between => exact ⟨[], [], .between, rfl, by simp, rfl, .inl ⟨rfl, rfl⟩⟩
        | inside => exact ⟨[], [], .inside, rfl, by simp, rfl, .inr .cut⟩
      · exact ⟨[], w, place, rfl, by simp, rfl, .inr (.broken nothing stands)⟩

theorem concatenates_or_stops (max : UInt64) (w : Bytes) :
    (∃ blocks, Concatenates max w blocks) ∨ ∃ front tail, Stops max w front tail := by
  obtain ⟨tokens, tail, last, split, formed, follows, ends⟩ := exists_tokens max .between w
  rcases ends with ⟨rfl, rfl⟩ | fault
  · obtain ⟨blocks, rfl⟩ := blocks_of_follow follows
    refine .inl ⟨blocks, ?_, ?_⟩
    · intro b member t token
      exact formed t (List.mem_flatMap.2 ⟨b, member, token⟩)
    · rw [split, List.append_nil, List.flatMap_assoc]
      rfl
  · exact .inr ⟨tokens, tail, split, formed, last, follows, fault⟩

end Split

/-! ### Reading makes the calls that are due -/

section Reading

variable {σ : Type} {handler : Handler σ} {state : σ} {max : UInt64} {offset : Nat}
  {r : Reader} {place last : Place} {record rest tail w : Bytes} {tokens : List Token}

theorem traverse_record (whole : Bool) (handler : Handler σ) (state : σ) (place : Place)
    (small : max.toNat < 2 ^ 63) (formed : Record.Formed max record)
    (stands : r.At max offset (record ++ rest)) :
    ∃ next, next.At max (offset + record.length) rest ∧
      traverse whole handler place state r =
        match handler.tell (place.call offset record) state with
        | (.error e, state) => (.error e, state, next)
        | (.ok (), state) => traverse whole handler .inside state next := by
  cases place with
  | between =>
    obtain ⟨next, found, later⟩ := nextPart_header small formed stands
    rw [stands.counted] at found
    exact ⟨next, later, traverse_of_part found⟩
  | inside =>
    obtain ⟨next, found, later⟩ := nextPart_body small formed stands
    rw [stands.counted] at found
    exact ⟨next, later, traverse_of_part found⟩

/-- Where the grammar cannot go on, reading ends in an error there and tells the handler
nothing. -/
theorem traverse_faulty (whole : Bool) (handler : Handler σ) (state : σ)
    (small : max.toNat < 2 ^ 63) (fault : Faulty max place tail) (stands : r.At max offset tail) :
    ∃ defect next,
      traverse whole handler place state r = (.error (.corrupt offset defect), state, next) := by
  have counted := stands.counted
  cases fault with
  | cut =>
    obtain ⟨next, read, -⟩ := Reader.readToken_nil stands
    exact ⟨.openBlock, next, traverse_of_error (by simp [nextPart, read, counted])⟩
  | stray rest =>
    have token : Token.delimiter.Formed max := trivial
    obtain ⟨next, read, -⟩ := Reader.readToken_append (t := .delimiter) small token stands
    exact ⟨.emptyBlock, next, traverse_of_error (by simp [nextPart, read, counted])⟩
  | broken something absent =>
    obtain ⟨defect, next, read⟩ := Reader.readToken_broken small something absent stands
    exact ⟨defect, next, traverse_of_error (by simp [nextPart, read])⟩

/-- A handler that accepts the calls for some tokens is told of them, and reading goes on right
after them. -/
theorem traverse_tokens (handler : Handler σ) (state : σ) (small : max.toNat < 2 ^ 63)
    (formed : ∀ t ∈ tokens, t.Formed max) (follows : place.follow tokens = some last)
    (accepts : handler.Accepts (calls place offset tokens) state)
    (stands : r.At max offset (tokens.flatMap Token.bytes ++ tail)) :
    ∃ next, next.At max (offset + (tokens.flatMap Token.bytes).length) tail ∧
      traverse true handler place state r =
        traverse true handler last (handler.after (calls place offset tokens) state) next := by
  induction tokens generalizing place offset state r with
  | nil =>
    obtain rfl := by simpa [Place.follow] using follows
    exact ⟨r, by simpa using stands, rfl⟩
  | cons t tokens ih =>
    obtain ⟨first, others⟩ := List.forall_mem_cons.1 formed
    rw [List.flatMap_cons, List.append_assoc] at stands
    rw [List.flatMap_cons, List.length_append, ← Nat.add_assoc]
    cases t with
    | record b =>
      obtain ⟨answered, accepts⟩ := accepts
      obtain ⟨mid, later, reads⟩ := traverse_record true handler state place small first stands
      obtain ⟨next, ends, goes⟩ := ih _ others follows accepts later
      refine ⟨next, ends, ?_⟩
      rw [reads, calls, Handler.after_cons, ← goes]
      split
      · simp_all
      · simp_all
    | delimiter =>
      cases place with
      | between => simp [Place.follow] at follows
      | inside =>
        obtain ⟨mid, found, later⟩ := nextPart_close small stands
        obtain ⟨next, ends, goes⟩ := ih _ others follows accepts later
        refine ⟨next, ends, ?_⟩
        rw [traverse_of_part found]
        exact goes

/-- A call among those for some tokens is about a record of theirs; the calls before it are for
the tokens before that record. -/
theorem calls_eq_append_cons {before after : List Call} {call : Call}
    (follows : place.follow tokens = some last)
    (split : calls place offset tokens = before ++ call :: after) :
    ∃ front record back mid, tokens = front ++ .record record :: back ∧
      place.follow front = some mid ∧ before = calls place offset front ∧
      call = mid.call (offset + (front.flatMap Token.bytes).length) record := by
  induction tokens generalizing place offset before with
  | nil => simp [calls] at split
  | cons t tokens ih =>
    cases t with
    | record b =>
      cases before with
      | nil =>
        obtain ⟨rfl, -⟩ := by simpa [calls] using split
        exact ⟨[], b, tokens, place, rfl, rfl, rfl, by simp⟩
      | cons first before =>
        obtain ⟨rfl, others⟩ := List.cons.inj split
        obtain ⟨front, record, back, mid, rfl, reaches, rfl, rfl⟩ := ih follows others
        refine ⟨.record b :: front, record, back, mid, rfl, reaches, rfl, ?_⟩
        simp [Token.bytes, Nat.add_assoc]
    | delimiter =>
      cases place with
      | between => simp [Place.follow] at follows
      | inside =>
        obtain ⟨front, record, back, mid, rfl, reaches, rfl, rfl⟩ := ih follows split
        refine ⟨.delimiter :: front, record, back, mid, rfl, reaches, rfl, ?_⟩
        simp [Token.bytes, Nat.add_assoc]

/-- A call that is refused is the last: its error is the result, and the reader stands right
behind the record. -/
theorem traverse_refused {before after : List Call} {call : Call} {e : FrameError}
    (small : max.toNat < 2 ^ 63) (formed : ∀ t ∈ tokens, t.Formed max)
    (follows : place.follow tokens = some last)
    (split : calls place offset tokens = before ++ call :: after)
    (accepts : handler.Accepts before state)
    (refused : (handler.tell call (handler.after before state)).1 = .error e)
    (stands : r.At max offset (tokens.flatMap Token.bytes ++ tail)) :
    ∃ next, traverse true handler place state r =
        (.error e, handler.after (before ++ [call]) state, next) ∧
      next.At max call.stop
        ((tokens.flatMap Token.bytes ++ tail).drop (call.stop - offset)) := by
  obtain ⟨front, record, back, mid, rfl, reaches, rfl, rfl⟩ := calls_eq_append_cons follows split
  rw [List.forall_mem_append, List.forall_mem_cons] at formed
  obtain ⟨early, first, -⟩ := formed
  have shape : (front ++ .record record :: back).flatMap Token.bytes ++ tail =
      front.flatMap Token.bytes ++ (record ++ (back.flatMap Token.bytes ++ tail)) := by
    simp [Token.bytes]
  rw [shape] at stands ⊢
  obtain ⟨near, later, goes⟩ := traverse_tokens handler state small early reaches accepts stands
  obtain ⟨next, ends, reads⟩ := traverse_record true handler
    (handler.after (calls place offset front) state) mid small first later
  refine ⟨next, ?_, ?_⟩
  · rw [goes, reads]
    split
    · simp_all
    · simp_all
  · have drop : offset + (front.flatMap Token.bytes).length + record.length - offset =
        (front.flatMap Token.bytes ++ record).length := by
      simp only [List.length_append]
      omega
    rw [Place.stop_call, drop, ← List.append_assoc, List.drop_left]
    exact ends

theorem traverse_finish (whole : Bool) (handler : Handler σ) (state : σ)
    (stands : r.At max offset []) :
    ∃ next, next.At max offset [] ∧ traverse whole handler .between state r =
      match handler.tell (.finish offset) state with
      | (.error e, state) => (.error e, state, next)
      | (.ok (), state) => (.ok .finished, state, next) := by
  obtain ⟨next, found, later⟩ := nextPart_finish stands
  rw [stands.counted] at found
  exact ⟨next, later, traverse_of_part found⟩

variable {source : Source} {blocks : List Plain} {front : List Token}

/-- Whole blocks are read up to the call for the end of the input. -/
theorem readAll_blocks (small : max.toNat < 2 ^ 63) (sound : source.schedule.Sound)
    (whole : Concatenates max source.pending blocks)
    (accepts : handler.Accepts (calls .between 0 (blocks.flatMap Plain.tokens)) state) :
    ∃ next, next.At max source.pending.length [] ∧
      readAll handler state (.start source max) =
        match handler.tell (.finish source.pending.length)
          (handler.after (calls .between 0 (blocks.flatMap Plain.tokens)) state) with
        | (.error e, state) => (.error e, state, next)
        | (.ok (), state) => (.ok .finished, state, next) := by
  have start := Reader.at_start sound max
  rw [whole.bytes, ← List.append_nil (List.flatMap _ _)] at start
  obtain ⟨mid, later, goes⟩ := traverse_tokens handler state small whole.tokens
    (follow_blocks blocks) accepts start
  rw [← whole.bytes, Nat.zero_add] at later
  obtain ⟨next, ends, finishes⟩ := traverse_finish true handler _ later
  exact ⟨next, ends, goes.trans finishes⟩

theorem readAll_accepted (small : max.toNat < 2 ^ 63) (sound : source.schedule.Sound)
    (whole : Concatenates max source.pending blocks)
    (accepts : handler.Accepts
      (calls .between 0 (blocks.flatMap Plain.tokens) ++ [.finish source.pending.length]) state) :
    ∃ next, readAll handler state (.start source max) = (.ok .finished,
      handler.after (calls .between 0 (blocks.flatMap Plain.tokens) ++
        [.finish source.pending.length]) state, next) := by
  obtain ⟨early, last, -⟩ := Handler.accepts_append.1 accepts
  obtain ⟨next, -, reads⟩ := readAll_blocks small sound whole early
  refine ⟨next, ?_⟩
  rw [reads, Handler.after_append]
  split
  · simp_all
  · simp_all

theorem readAll_stopped (small : max.toNat < 2 ^ 63) (sound : source.schedule.Sound)
    (stops : Stops max source.pending front tail)
    (accepts : handler.Accepts (calls .between 0 front) state) :
    ∃ defect next, readAll handler state (.start source max) =
      (.error (.corrupt (front.flatMap Token.bytes).length defect),
        handler.after (calls .between 0 front) state, next) := by
  obtain ⟨last, follows, fault⟩ := stops.fault
  have start := Reader.at_start sound max
  rw [stops.split] at start
  obtain ⟨mid, later, goes⟩ :=
    traverse_tokens handler state small stops.formed follows accepts start
  rw [Nat.zero_add] at later
  obtain ⟨defect, next, fails⟩ := traverse_faulty true handler _ small fault later
  exact ⟨defect, next, goes.trans fails⟩

theorem readAll_refused {before after : List Call} {call : Call} {e : FrameError}
    (small : max.toNat < 2 ^ 63) (sound : source.schedule.Sound)
    (due : Due max source.pending (before ++ call :: after))
    (accepts : handler.Accepts before state)
    (refused : (handler.tell call (handler.after before state)).1 = .error e) :
    ∃ next, readAll handler state (.start source max) =
        (.error e, handler.after (before ++ [call]) state, next) ∧
      next.At max call.stop (source.pending.drop call.stop) := by
  have start := Reader.at_start sound max
  generalize told : before ++ call :: after = all at due
  cases due with
  | @whole blocks whole =>
    -- the call for the end of the input is the last; any other is about a record
    rcases List.eq_nil_or_concat after with rfl | ⟨others, final, rfl⟩
    · obtain ⟨rfl, same⟩ := List.append_inj' told rfl
      obtain rfl := (List.cons.inj same).1
      obtain ⟨next, ends, reads⟩ := readAll_blocks small sound whole accepts
      refine ⟨next, ?_, by simpa [Call.stop] using ends⟩
      rw [reads, Handler.after_append]
      split
      · simp_all
      · simp_all
    · have told : (before ++ call :: others) ++ [final] =
          calls .between 0 (blocks.flatMap Plain.tokens) ++ [.finish source.pending.length] := by
        simpa using told
      obtain ⟨same, -⟩ := List.append_inj' told rfl
      rw [whole.bytes, ← List.append_nil (List.flatMap _ _)] at start ⊢
      exact traverse_refused small whole.tokens (follow_blocks blocks) same.symm accepts refused
        start
  | @front front tail stops =>
    obtain ⟨last, follows, -⟩ := stops.fault
    rw [stops.split] at start ⊢
    exact traverse_refused small stops.formed follows told.symm accepts refused start

/-- Any input, read to its end or to its first fault or refusal. Whole blocks are read as such
and the handler is told of every record and of the end. Other input fails at the first fault, once
the handler has been told of all records before. A refusal ends the reading right behind the
record it is about. -/
theorem readAll_grammar {source : Source} (handler : Handler σ) (state : σ)
    (small : max.toNat < 2 ^ 63) (sound : source.schedule.Sound) :
    (handler.Willing →
      ((∃ status final next,
          readAll handler state (.start source max) = (.ok status, final, next)) ↔
        ∃ blocks, Concatenates max source.pending blocks)) ∧
    (∀ blocks, Concatenates max source.pending blocks →
      let told := calls .between 0 (blocks.flatMap Plain.tokens) ++ [.finish source.pending.length]
      handler.Accepts told state → ∃ next, readAll handler state (.start source max) =
        (.ok .finished, handler.after told state, next)) ∧
    ((∃ blocks, Concatenates max source.pending blocks) ∨
      ∃ front tail, Stops max source.pending front tail) ∧
    (∀ front tail, Stops max source.pending front tail →
      handler.Accepts (calls .between 0 front) state →
      ∃ defect next, readAll handler state (.start source max) =
        (.error (.corrupt (front.flatMap Token.bytes).length defect),
          handler.after (calls .between 0 front) state, next)) ∧
    (∀ before call after e, Due max source.pending (before ++ call :: after) →
      handler.Accepts before state →
      (handler.tell call (handler.after before state)).1 = .error e →
      ∃ next, readAll handler state (.start source max) =
          (.error e, handler.after (before ++ [call]) state, next) ∧
        next.offset = call.stop ∧ next.source.pending = source.pending.drop call.stop) := by
  refine ⟨?_, ?_, concatenates_or_stops max source.pending, ?_, ?_⟩
  · intro willing
    constructor
    · rintro ⟨status, final, next, reads⟩
      rcases concatenates_or_stops max source.pending with parts | ⟨front, tail, stops⟩
      · exact parts
      · obtain ⟨defect, last, fails⟩ := readAll_stopped small sound stops (willing.accepts _ state)
        simp [reads] at fails
    · rintro ⟨blocks, whole⟩
      obtain ⟨next, reads⟩ := readAll_accepted small sound whole (willing.accepts _ state)
      exact ⟨_, _, next, reads⟩
  · intro blocks whole told accepts
    exact readAll_accepted small sound whole accepts
  · intro front tail stops accepts
    exact readAll_stopped small sound stops accepts
  · intro before call after e due accepts refused
    obtain ⟨next, reads, stands⟩ := readAll_refused small sound due accepts refused
    exact ⟨next, reads, stands.counted, stands.ahead⟩

/-- A block of two records is read as such, and its calls are kept. -/
theorem readAll_grammar_one_block :
    let lead : Bytes := [5, 0, 0, 0, 0]
    let other : Bytes := [6, 0, 0, 0, 9, 0]
    ∃ next, readAll Handler.recorder []
        (.start (.ofBytes (lead ++ other ++ Token.delimiterBytes)) Record.defaultMax) =
      (.ok .finished, [.finish 15, .body 5 other, .header 0 lead], next) := by
  intro lead other
  have formed : Plain.Formed Record.defaultMax ⟨lead, [other]⟩ := by
    simp only [Plain.Formed, Plain.tokens, List.map, List.forall_mem_append, List.forall_mem_cons]
    exact ⟨Record.check_eq_ok_iff.1 (by decide), ⟨Record.check_eq_ok_iff.1 (by decide), by simp⟩,
      trivial, by simp⟩
  have small : Record.defaultMax.toNat < 2 ^ 63 := by decide
  have sound : (Source.ofBytes (lead ++ other ++ Token.delimiterBytes)).schedule.Sound :=
    Stream.Schedule.sound_steady
  have reads := readAll_grammar Handler.recorder [] small sound
  exact reads.2.1 [⟨lead, [other]⟩] ⟨by simpa using formed, rfl⟩
    (Handler.willing_recorder.accepts _ _)

end Reading
end Block
end DumpArchive
