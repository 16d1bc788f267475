import DumpArchive.Proofs.Grammar
import DumpArchive.Proofs.Prefixes

/-! An archive can be read in one way. The first bytes of a token say how long it is, so bytes fall
into tokens in one way, tokens into blocks, and the records of a block say what the block is. -/
namespace DumpArchive

variable {max : UInt64} {w x y : Bytes}

theorem Token.declares {t : Token} (formed : t.Formed max) (rest : Bytes) :
    Bytes.toInt ((t.bytes ++ rest).take 4) = match t with
      | .delimiter => -1
      | .record b => b.length := by
  cases t with
  | delimiter => rfl
  | record b =>
    have least := Record.Formed.least formed
    simp only [Record.minSize] at least
    rw [bytes, List.take_append_of_le_length (by omega), Record.Formed.declared formed]

theorem Token.bytes_append_inj {t u : Token} (first : t.Formed max) (second : u.Formed max)
    (same : t.bytes ++ x = u.bytes ++ y) : t = u ∧ x = y := by
  have declared := declares first x
  rw [same, declares second y] at declared
  cases t with
  | delimiter =>
    cases u with
    | delimiter => exact ⟨rfl, List.append_cancel_left same⟩
    | record c =>
      simp only at declared
      omega
  | record b =>
    cases u with
    | delimiter =>
      simp only at declared
      omega
    | record c =>
      have length : b.length = c.length := by
        simp only at declared
        omega
      obtain ⟨rfl, rest⟩ := List.append_inj same length
      exact ⟨rfl, rest⟩

theorem Token.flatMap_bytes_inj {tokens others : List Token} (first : ∀ t ∈ tokens, t.Formed max)
    (second : ∀ t ∈ others, t.Formed max)
    (same : tokens.flatMap Token.bytes = others.flatMap Token.bytes) : tokens = others := by
  induction tokens generalizing others with
  | nil =>
    cases others with
    | nil => rfl
    | cons u others =>
      have nothing := (List.flatMap_eq_nil_iff.1 same.symm) u (List.mem_cons_self ..)
      exact absurd nothing (Token.bytes_ne_nil (second u (List.mem_cons_self ..)))
  | cons t tokens ih =>
    obtain ⟨here, rest⟩ := List.forall_mem_cons.1 first
    cases others with
    | nil =>
      have nothing := (List.flatMap_eq_nil_iff.1 same) t (List.mem_cons_self ..)
      exact absurd nothing (Token.bytes_ne_nil here)
    | cons u others =>
      obtain ⟨there, more⟩ := List.forall_mem_cons.1 second
      obtain ⟨rfl, tail⟩ := Token.bytes_append_inj here there same
      rw [ih rest more tail]

/-- What can be told from its image is determined by it. -/
theorem eq_of_map_eq {α β : Type} {f : α → β} {g : β → Option α} {front back : List α}
    (first : ∀ a ∈ front, g (f a) = some a) (second : ∀ a ∈ back, g (f a) = some a)
    (same : front.map f = back.map f) : front = back := by
  have told : ∀ list : List α, (∀ a ∈ list, g (f a) = some a) →
      (list.map f).map g = list.map some := by
    intro list all
    rw [List.map_map]
    exact List.map_congr_left all
  have images := congrArg (·.map g) same
  simp only [told front first, told back second] at images
  exact List.map_injective_iff.2 (Option.some_injective α) images

namespace Block

theorem records_append_inj {front back : List Bytes} {tokens others : List Token}
    (same : front.map Token.record ++ .delimiter :: tokens =
      back.map Token.record ++ .delimiter :: others) : front = back ∧ tokens = others := by
  induction front generalizing back with
  | nil => cases back <;> simp_all
  | cons b front ih =>
    cases back with
    | nil => simp at same
    | cons c back =>
      simp only [List.map_cons, List.cons_append, List.cons.injEq, Token.record.injEq] at same
      obtain ⟨rfl, rfl⟩ := ih same.2
      rw [same.1]
      exact ⟨rfl, rfl⟩

theorem Plain.flatMap_tokens_inj {blocks others : List Plain}
    (same : blocks.flatMap Plain.tokens = others.flatMap Plain.tokens) : blocks = others := by
  induction blocks generalizing others with
  | nil => cases others <;> simp_all [Plain.tokens]
  | cons b blocks ih =>
    cases others with
    | nil => simp [Plain.tokens] at same
    | cons c others =>
      simp only [List.flatMap_cons, Plain.tokens, List.cons_append, List.append_assoc,
        List.nil_append, List.cons.injEq, Token.record.injEq] at same
      obtain ⟨body, rest⟩ := records_append_inj same.2
      have here : b = c := by
        cases b
        cases c
        simp_all
      rw [here, ih rest]

theorem Concatenates.unique {blocks others : List Plain} (first : Concatenates max w blocks)
    (second : Concatenates max w others) : blocks = others := by
  apply Plain.flatMap_tokens_inj
  exact Token.flatMap_bytes_inj first.tokens second.tokens (first.bytes.symm.trans second.bytes)

/-- A block without what its first record says. -/
def plain (b : Block) : Plain := ⟨b.lead, b.records⟩

/-- The block that this is, if its first record is a header. -/
def Plain.block? (b : Plain) : Option Block :=
  (CollectionHeader.ofRecord? b.lead).map fun header => ⟨b.lead, header, b.others⟩

@[simp] theorem bytes_plain (b : Block) : b.plain.bytes = b.bytes := by
  simp [Plain.bytes, Plain.tokens, plain, Block.bytes, Block.front, Token.bytes, List.flatMap_map]

theorem Plain.formed_iff {b : Plain} :
    b.Formed max ↔ Record.Formed max b.lead ∧ ∀ r ∈ b.others, Record.Formed max r := by
  simp [Plain.Formed, Plain.tokens, or_imp, forall_and, Token.Formed]

theorem Formed.plain {b : Block} (formed : b.Formed max) :
    b.plain.Formed max ∧ b.plain.block? = some b :=
  ⟨Plain.formed_iff.2 ⟨formed.lead, formed.records⟩, by
    simp [Plain.block?, Block.plain, formed.header]⟩

theorem concatenates_plain {blocks : List Block} (formed : ∀ b ∈ blocks, b.Formed max) :
    Concatenates max (blocks.flatMap bytes) (blocks.map plain) where
  formed b member := by
    obtain ⟨c, held, rfl⟩ := List.mem_map.1 member
    exact (formed c held).plain.1
  split := by simp [List.flatMap_map]

/-- A stream is made of one list of blocks only. -/
theorem flatMap_bytes_inj {blocks others : List Block} (first : ∀ b ∈ blocks, b.Formed max)
    (second : ∀ b ∈ others, b.Formed max)
    (same : blocks.flatMap bytes = others.flatMap bytes) : blocks = others :=
  eq_of_map_eq (g := Plain.block?) (fun b member => (first b member).plain.2)
    (fun b member => (second b member).plain.2)
    ((concatenates_plain first).unique (same ▸ concatenates_plain second))

end Block

namespace Catalog.Front

open Block (Plain)

variable {f : Front}

/-- The block of the catalog without what its records say. -/
def plain (f : Front) : Plain := ⟨f.lead, f.listed.map (·.1)⟩

@[simp] theorem bytes_plain (f : Front) : Token.magicBytes ++ f.plain.bytes = f.bytes := by
  simp [Plain.bytes, Plain.tokens, plain, Front.bytes, Front.listing, Token.bytes,
    List.flatMap_map]

theorem Formed.plain (formed : f.Formed max) : f.plain.Formed max := by
  refine Block.Plain.formed_iff.2 ⟨formed.lead, fun r member => ?_⟩
  obtain ⟨e, listed, rfl⟩ := List.mem_map.1 member
  exact (formed.listed e listed).formed

theorem Formed.unique {g : Front} (first : f.Formed max) (second : g.Formed max)
    (same : f.plain = g.plain) : f = g := by
  obtain ⟨lead, listed⟩ := Plain.mk.injEq .. ▸ same
  have header : f.header = g.header := by
    have reads := first.header
    rw [lead, second.header] at reads
    exact (Option.some.inj reads).symm
  have entries : f.listed = g.listed := by
    have told : ∀ {f : Front}, f.Formed max → ∀ e ∈ f.listed,
        (CatalogEntry.ofRecord? e.1).map (fun entry => (e.1, entry)) = some e :=
      fun formed e member => by simp [(formed.listed e member).decodes]
    exact eq_of_map_eq (g := fun b => (CatalogEntry.ofRecord? b).map (b, ·)) (told first)
      (told second) listed
  cases f
  cases g
  simp_all

end Catalog.Front

namespace Layout

open Block (Plain)

variable {l other : Layout}

/-- All blocks of an archive, that of the catalog first. -/
def plains (l : Layout) : List Plain := l.front.plain :: l.blocks.map Block.plain

theorem bytes_plains (l : Layout) :
    l.bytes = Token.magicBytes ++ l.plains.flatMap Plain.bytes := by
  rw [Layout.bytes, ← l.front.bytes_plain, plains, List.flatMap_cons, List.flatMap_map,
    List.append_assoc]
  simp only [Block.bytes_plain]

theorem concatenates (front : l.front.Formed max) (blocks : ∀ b ∈ l.blocks, b.Formed max) :
    Block.Concatenates max (l.plains.flatMap Plain.bytes) l.plains where
  formed := List.forall_mem_cons.2 ⟨front.plain, (Block.concatenates_plain blocks).formed⟩
  split := rfl

/-- The bytes of an archive, whether or not its namespaces come to their end, are of no other. -/
theorem unique (front : l.front.Formed max) (blocks : ∀ b ∈ l.blocks, b.Formed max)
    (also : other.front.Formed max) (others : ∀ b ∈ other.blocks, b.Formed max)
    (same : l.bytes = other.bytes) : l = other := by
  rw [bytes_plains, bytes_plains] at same
  have alike := concatenates also others
  rw [← List.append_cancel_left same] at alike
  have plains := (concatenates front blocks).unique alike
  obtain ⟨first, rest⟩ := List.cons.inj plains
  have fronts := front.unique also first
  have bodies := eq_of_map_eq (g := Plain.block?) (fun b member => (blocks b member).plain.2)
    (fun b member => (others b member).plain.2) rest
  cases l
  cases other
  simp_all

end Layout

/-! ### Limits that fit no signed word -/

theorem Record.classify_large {four : Bytes} {lead : Lead} (large : 2 ^ 63 ≤ max.toNat)
    (announced : Record.classify four max = .ok lead) : lead = .delimiter := by
  have negative : signedMax max < 0 := by
    apply BitVec.toInt_neg_iff.2
    have same : max.toInt64.toBitVec.toNat = max.toNat := rfl
    omega
  simp only [classify] at announced
  split at announced
  · exact (Except.ok.inj announced).symm
  · split at announced
    · contradiction
    · next between =>
      simp only [minSize] at between
      omega

theorem Token.Reader.readToken_large {r next : Reader} {b : Bytes} (large : 2 ^ 63 ≤ r.max.toNat) :
    r.readToken ≠ (.ok (some (.record b)), next) := by
  intro read
  unfold readToken at read
  split at read
  · simp at read
  · simp at read
  · simp at read
  · next lead =>
    unfold readLead at lead
    repeat' split at lead
    all_goals simp at lead
    next announced =>
    obtain ⟨⟨-, rfl⟩, -⟩ := lead
    cases Record.classify_large large announced

theorem Block.nextPart_large {r next : Token.Reader} {part : Part} (large : 2 ^ 63 ≤ r.max.toNat)
    (h : nextPart .between r = (.ok part, next)) : ∃ offset, part = .finish offset := by
  unfold nextPart at h
  split at h
  · simp at h
  · exact ⟨_, by simpa using (congrArg Prod.fst h).symm⟩
  · simp at h
  · simp at h
  · contradiction
  · exact absurd ‹_› (Token.Reader.readToken_large large)
  · contradiction

theorem Catalog.small_of_read {c : Catalog} {r next : Token.Reader}
    (found : Catalog.read r = (.ok c, next)) : r.max.toNat < 2 ^ 63 := by
  by_contra large
  unfold Catalog.read at found
  split at found
  · simp at found
  · next four mid raw =>
    have limit : mid.max = r.max := by
      unfold Token.Reader.readRaw at raw
      split at raw
      · cases raw
      · cases raw
        rfl
    split at found
    · simp at found
    · split at found
      · simp at found
      · split at found
        · simp at found
        · next drafted =>
          -- the first part of a block that is read is a record
          cases part : Block.nextPart .between mid with
          | mk result last =>
            cases result with
            | error e => simp [Block.read, Block.traverse_of_error part] at drafted
            | ok first =>
              obtain ⟨offset, rfl⟩ := Block.nextPart_large (limit ▸ Nat.not_lt.1 large) part
              simp [Block.read, Block.traverse_of_part part, Draft.handler] at drafted
        · simp at found

/-! ### What is verified -/

namespace Restore

variable {source : Source} {s : Summary}

theorem small_of_examine (passed : examine source max = .ok s) : max.toNat < 2 ^ 63 := by
  obtain ⟨a, reader, opened, -⟩ := examine_eq_ok_iff.1 passed
  exact Catalog.small_of_read (openArchive_eq_ok_iff.1 opened).1

/-- What is written as an archive is verified just if its namespaces have all come to their end. -/
theorem examine_layout_iff {l : Layout} (sound : source.schedule.Sound)
    (front : l.front.Formed max) (blocks : ∀ b ∈ l.blocks, b.Formed max)
    (pending : source.pending = l.bytes) :
    (∃ s, examine source max = .ok s) ↔
      max.toNat < 2 ^ 63 ∧ Block.Sequence l.front.namespaces l.blocks := by
  constructor
  · rintro ⟨s, passed⟩
    have small := small_of_examine passed
    obtain ⟨other, formed, same, -⟩ := (verifies_iff sound small).1 (examine_eq_ok_iff.1 passed)
    obtain rfl := Layout.unique front blocks formed.front formed.blocks (pending.symm.trans same)
    exact ⟨small, formed.sequence⟩
  · rintro ⟨small, sequence⟩
    exact ⟨_, examine_eq_ok_iff.2
      ((verifies_iff sound small).2 ⟨l, ⟨front, blocks, sequence⟩, pending, rfl⟩)⟩

/-- A catalog that breaks off is not verified. -/
theorem not_examine_of_records {records : List Bytes} (sound : source.schedule.Sound)
    (formed : ∀ b ∈ records, Record.Formed max b)
    (pending : source.pending = Token.magicBytes ++ records.flatten) :
    ¬ ∃ s, examine source max = .ok s := by
  rintro ⟨s, passed⟩
  have small := small_of_examine passed
  obtain ⟨l, whole, same, -⟩ := (verifies_iff sound small).1 (examine_eq_ok_iff.1 passed)
  have blocks := l.concatenates whole.front whole.blocks
  rw [pending, l.bytes_plains] at same
  have bytes : (records.map Token.record).flatMap Token.bytes = records.flatten := by
    simp [List.flatMap_map, Token.bytes, List.flatMap_id']
  have tokens : records.map Token.record = l.plains.flatMap Block.Plain.tokens := by
    refine Token.flatMap_bytes_inj (by simpa [Token.Formed] using formed) blocks.tokens ?_
    rw [bytes, List.append_cancel_left same, ← blocks.bytes]
  -- the catalog of an archive ends with a delimiter
  have delimiter : Token.delimiter ∈ records.map Token.record := by
    rw [tokens]
    simp [Layout.plains, Block.Plain.tokens]
  simp at delimiter

end Restore
end DumpArchive
