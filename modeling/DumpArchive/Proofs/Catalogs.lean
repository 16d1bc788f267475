import DumpArchive.Catalog
import DumpArchive.Proofs.BlockParts

/-! The catalog at the front of an archive: the magic number and a block of an archive header and
catalog entries. Reading succeeds on just that, and writing puts it there. -/
namespace DumpArchive

namespace Block

variable {σ : Type} {whole : Bool} {handler : Handler σ} {place : Place} {state : σ}
  {r next : Token.Reader}

theorem traverse_of_error {e : FrameError} (found : nextPart place r = (.error e, next)) :
    traverse whole handler place state r = (.error e, state, next) := by
  rw [traverse]
  split <;> simp_all

theorem traverse_of_part {part : Part} (found : nextPart place r = (.ok part, next)) :
    traverse whole handler place state r = match part with
      | .header offset record => match handler.header offset record state with
        | (.error e, state) => (.error e, state, next)
        | (.ok (), state) => traverse whole handler .inside state next
      | .body offset record => match handler.body offset record state with
        | (.error e, state) => (.error e, state, next)
        | (.ok (), state) => traverse whole handler .inside state next
      | .close =>
        if whole then traverse whole handler .between state next else (.ok .block, state, next)
      | .finish offset => match handler.finish offset state with
        | (.error e, state) => (.error e, state, next)
        | (.ok (), state) => (.ok .finished, state, next) := by
  rw [traverse]
  split
  · next same => cases found.symm.trans same
  all_goals
    next same =>
    cases found.symm.trans same
    rfl

end Block

namespace Catalog

open Token (Reader Writer)

/-- The front of an archive as it stands on a stream: the records of the first block, each with
what it says. -/
structure Front where
  lead : Bytes
  header : ArchiveHeader
  listed : List (Bytes × CatalogEntry)

namespace Front

def listing (f : Front) : Bytes := f.listed.flatMap (·.1) ++ Token.delimiterBytes

def bytes (f : Front) : Bytes := Token.magicBytes ++ (f.lead ++ f.listing)

def namespaces (f : Front) : List Namespace := f.listed.map (·.2.ns)

/-- A record that lists a namespace. -/
structure Lists (max : UInt64) (e : Bytes × CatalogEntry) : Prop where
  formed : Record.Formed max e.1
  decodes : CatalogEntry.ofRecord? e.1 = some e.2
  named : e.2.ns.isNamed

structure Formed (max : UInt64) (f : Front) : Prop where
  lead : Record.Formed max f.lead
  header : ArchiveHeader.ofRecord? f.lead = some f.header
  listed : ∀ e ∈ f.listed, Lists max e
  distinct : f.namespaces.Nodup

end Front

variable {max : UInt64} {offset : Nat} {r next : Reader} {draft after : Draft} {w rest : Bytes}
  {listed : List (Bytes × CatalogEntry)}

/-- The draft with more entries. -/
def Draft.extend (draft : Draft) (listed : List (Bytes × CatalogEntry)) : Draft :=
  { draft with entries := draft.entries ++ listed.map (·.2) }

theorem traverse_listed (draft : Draft) (small : max.toNat < 2 ^ 63)
    (lists : ∀ e ∈ listed, Front.Lists max e)
    (ahead : r.At max offset (listed.flatMap (·.1) ++ (Token.delimiterBytes ++ rest))) :
    ∃ next, Block.traverse false Draft.handler .inside draft r =
      (.ok .block, draft.extend listed, next) ∧ ∃ offset, next.At max offset rest := by
  induction listed generalizing r draft offset with
  | nil =>
    obtain ⟨next, found, later⟩ := Block.nextPart_close small ahead
    rw [Block.traverse_of_part found]
    exact ⟨next, by simp [Draft.extend], _, later⟩
  | cons e listed ih =>
    obtain ⟨first, others⟩ := List.forall_mem_cons.1 lists
    rw [List.flatMap_cons, List.append_assoc] at ahead
    obtain ⟨mid, found, later⟩ := Block.nextPart_body small first.formed ahead
    obtain ⟨next, traversed, place⟩ := ih (draft.extend [e]) others later
    refine ⟨next, ?_, place⟩
    rw [Block.traverse_of_part found]
    simpa [Draft.handler, first.decodes, first.named, Draft.extend] using traversed

theorem listed_of_traverse {status : Block.Status} (small : max.toNat < 2 ^ 63)
    (ahead : r.At max offset w)
    (h : Block.traverse false Draft.handler .inside draft r = (.ok status, after, next)) :
    ∃ listed rest, (∀ e ∈ listed, Front.Lists max e) ∧
      w = listed.flatMap (·.1) ++ (Token.delimiterBytes ++ rest) ∧ status = .block ∧
      after = draft.extend listed ∧ ∃ offset, next.At max offset rest := by
  induction left : r.remaining using Nat.strong_induction_on generalizing r draft offset w with
  | _ n ih =>
    subst left
    cases found : Block.nextPart .inside r with
    | mk result mid =>
      cases result with
      | error e => simp [Block.traverse_of_error found] at h
      | ok part =>
        obtain ⟨rest, fronted, place, later⟩ := Block.fronted_of_nextPart small ahead found
        rw [Block.traverse_of_part found] at h
        cases fronted with
        | @body start record rest formed =>
          have less := Block.remaining_of_nextPart found (by simp)
          simp only [Draft.handler] at h
          cases decodes : CatalogEntry.ofRecord? record with
          | none => simp [decodes] at h
          | some e =>
            by_cases named : e.ns.isNamed
            · simp only [decodes, named, if_true] at h
              obtain ⟨listed, rest, lists, rfl, block, rfl, ends⟩ := ih _ less later h rfl
              refine ⟨(record, e) :: listed, rest, ?_, by simp, block, ?_, ends⟩
              · exact List.forall_mem_cons.2 ⟨⟨formed, decodes, named⟩, lists⟩
              · simp [Draft.extend]
            · simp [decodes, named] at h
        | @close rest =>
          simp only [Bool.false_eq_true, if_false, Prod.mk.injEq, Except.ok.injEq] at h
          obtain ⟨rfl, rfl, rfl⟩ := h
          exact ⟨[], rest, by simp, by simp, rfl, by simp [Draft.extend], _, later⟩

/-- Distinct namespaces that have not been seen are only remembered. -/
theorem firstRepeat_append {seen front : List Namespace} (distinct : front.Nodup)
    (apart : ∀ ns ∈ front, ns ∉ seen) (rest : List Namespace) :
    Namespace.firstRepeat seen (front ++ rest) =
      Namespace.firstRepeat (front.reverse ++ seen) rest := by
  induction front generalizing seen with
  | nil => rfl
  | cons ns front ih =>
    obtain ⟨here, others⟩ := List.forall_mem_cons.1 apart
    obtain ⟨fresh, distinct⟩ := List.nodup_cons.1 distinct
    have unseen : ∀ other ∈ front, other ∉ ns :: seen := fun other member =>
      List.not_mem_cons_of_ne_of_not_mem (ne_of_mem_of_not_mem member fresh) (others other member)
    rw [List.cons_append, Namespace.firstRepeat, if_neg here, ih distinct unseen,
      List.reverse_cons, List.append_assoc, List.singleton_append]

theorem firstRepeat_eq_none {list : List Namespace} (distinct : list.Nodup) :
    Namespace.firstRepeat [] list = none := by
  simpa [Namespace.firstRepeat] using firstRepeat_append distinct (by simp) []

theorem ofEntries_eq {header : ArchiveHeader} {entries : List CatalogEntry}
    (distinct : (entries.map (·.ns)).Nodup) :
    ofEntries header entries = .ok ⟨header, entries, distinct⟩ := by
  have none : Namespace.firstRepeat [] (entries.map (·.ns)) = none :=
    firstRepeat_eq_none distinct
  unfold ofEntries
  split
  · simp_all
  · rfl

theorem of_ofEntries {header : ArchiveHeader} {entries : List CatalogEntry} {c : Catalog}
    (h : ofEntries header entries = .ok c) : c.header = header ∧ c.entries = entries := by
  unfold ofEntries at h
  split at h
  · contradiction
  · rw [← Except.ok.inj h]
    exact ⟨rfl, rfl⟩

/-- The catalog says what stands at the front. -/
structure Of (c : Catalog) (f : Front) : Prop where
  header : c.header = f.header
  entries : c.entries = f.listed.map (·.2)

theorem Of.namespaces {c : Catalog} {f : Front} (same : c.Of f) : c.namespaces = f.namespaces := by
  simp [Catalog.namespaces, Front.namespaces, same.entries, Function.comp_def]

theorem Of.named {c : Catalog} {f : Front} (same : c.Of f) (formed : f.Formed max) :
    ∀ ns ∈ c.namespaces, ns.isNamed := by
  rw [same.namespaces]
  intro ns member
  obtain ⟨e, listed, rfl⟩ := List.mem_map.1 member
  exact (formed.listed e listed).named

theorem read_front {f : Front} (small : max.toNat < 2 ^ 63) (formed : f.Formed max)
    (ahead : r.At max offset (f.bytes ++ rest)) :
    ∃ c next, read r = (.ok c, next) ∧ c.Of f ∧ ∃ offset, next.At max offset rest := by
  obtain ⟨first, raw, body⟩ := Reader.readRaw_at ahead 4
  have front : (f.bytes ++ rest).take 4 = Token.magicBytes := rfl
  have behind : (f.bytes ++ rest).drop 4 = f.lead ++ (f.listing ++ rest) := by
    have split : f.bytes ++ rest = Token.magicBytes ++ (f.lead ++ (f.listing ++ rest)) := by
      simp [Front.bytes]
    rw [split]
    rfl
  rw [front] at raw
  rw [behind] at body
  obtain ⟨mid, found, later⟩ := Block.nextPart_header small formed.lead body
  rw [Front.listing, List.append_assoc] at later
  obtain ⟨next, traversed, place⟩ :=
    traverse_listed ⟨some f.header, []⟩ small formed.listed later
  have distinct : ((f.listed.map (·.2)).map (·.ns)).Nodup := by
    simpa [Front.namespaces, Function.comp_def] using formed.distinct
  have drafted : Block.read Draft.handler ⟨none, []⟩ first =
      (.ok .block, ⟨some f.header, f.listed.map (·.2)⟩, next) := by
    rw [Block.read, Block.traverse_of_part found]
    simpa [Draft.handler, formed.header, Draft.extend] using traversed
  have width : ¬ Token.magicBytes.length < 4 := by decide
  refine ⟨⟨f.header, f.listed.map (·.2), distinct⟩, next, ?_, ⟨rfl, rfl⟩, place⟩
  simp only [read, raw, width, drafted, ofEntries_eq distinct, if_false, ne_eq, not_true_eq_false]

theorem draft_of_read (small : max.toNat < 2 ^ 63) (ahead : r.At max offset w)
    (h : Block.read Draft.handler ⟨none, []⟩ r = (.ok .block, after, next)) :
    ∃ f : Front, ∃ rest, Record.Formed max f.lead ∧
      ArchiveHeader.ofRecord? f.lead = some f.header ∧ (∀ e ∈ f.listed, Front.Lists max e) ∧
      w = f.lead ++ (f.listing ++ rest) ∧ after = ⟨some f.header, f.listed.map (·.2)⟩ ∧
      ∃ offset, next.At max offset rest := by
  cases found : Block.nextPart .between r with
  | mk result mid =>
    cases result with
    | error e => simp [Block.read, Block.traverse_of_error found] at h
    | ok part =>
      obtain ⟨rest, fronted, place, later⟩ := Block.fronted_of_nextPart small ahead found
      rw [Block.read, Block.traverse_of_part found] at h
      cases fronted with
      | @header start record rest formed =>
        simp only [Draft.handler] at h
        cases decodes : ArchiveHeader.ofRecord? record with
        | none => simp [decodes] at h
        | some header =>
          simp only [decodes] at h
          obtain ⟨listed, rest, lists, rfl, -, rfl, ends⟩ := listed_of_traverse small later h
          exact ⟨⟨record, header, listed⟩, rest, formed, decodes, lists, by simp [Front.listing],
            by simp [Draft.extend], ends⟩
      | @finish start => simp [Draft.handler] at h

theorem front_of_read {c : Catalog} (small : max.toNat < 2 ^ 63) (ahead : r.At max offset w)
    (h : read r = (.ok c, next)) :
    ∃ f : Front, ∃ rest, f.Formed max ∧ w = f.bytes ++ rest ∧ c.Of f ∧
      ∃ offset, next.At max offset rest := by
  obtain ⟨first, raw, body⟩ := Reader.readRaw_at ahead 4
  simp only [read, raw] at h
  split at h
  · simp at h
  · split at h
    · simp at h
    · next same =>
      have front : w.take 4 = Token.magicBytes := by simpa using same
      split at h
      · simp at h
      · next header entries mid drafted =>
        obtain ⟨f, rest, formed, decodes, lists, behind, whole, ends⟩ :=
          draft_of_read small body drafted
        obtain ⟨rfl, rfl⟩ := by simpa using whole
        split at h
        · simp at h
        · next d made =>
          obtain ⟨rfl, rfl⟩ := by simpa using h
          obtain ⟨named, filled⟩ := of_ofEntries made
          have distinct := d.distinct
          rw [filled, List.map_map] at distinct
          refine ⟨f, rest, ⟨formed, decodes, lists, distinct⟩, ?_, ⟨named, filled⟩, ends⟩
          rw [← List.take_append_drop 4 w, front, behind]
          simp [Front.bytes]
      · simp at h

/-- What is written at the front for a catalog. -/
def front (c : Catalog) : Front :=
  ⟨c.header.record, c.header, c.entries.map fun e => (e.record, e)⟩

theorem of_front (c : Catalog) : c.Of c.front := ⟨rfl, by simp [front, Function.comp_def]⟩

theorem formed_front {c : Catalog} (header : Record.Formed max c.header.record)
    (entries : ∀ e ∈ c.entries, Record.Formed max e.record ∧ e.ns.isNamed) :
    c.front.Formed max where
  lead := header
  header := ArchiveHeader.ofRecord?_record header.length_lt
  listed := by
    intro listed member
    obtain ⟨e, held, rfl⟩ := List.mem_map.1 member
    obtain ⟨formed, named⟩ := entries e held
    exact ⟨formed, CatalogEntry.ofRecord?_record formed.length_lt, named⟩
  distinct := c.of_front.namespaces ▸ c.distinct

theorem write_front {c : Catalog} {writer : Writer} (sound : writer.sink.Sound)
    (formed : c.front.Formed writer.max) :
    ∃ last, c.write writer = (.ok (), last) ∧ writer.Wrote c.front.bytes last := by
  obtain ⟨first, opened⟩ := Writer.put_sound sound Token.magicBytes
  have magic := Writer.wrote_of_put opened
  have tokens : ∀ t ∈ c.tokens, t.Formed first.max := by
    rw [magic.limit]
    have delimiter : Token.delimiter.Formed writer.max := trivial
    have entries : ∀ e ∈ c.entries, Record.Formed writer.max e.record :=
      fun e held => (formed.listed _ (List.mem_map_of_mem held)).formed
    simpa [Catalog.tokens, or_imp, forall_and, Token.Formed, delimiter] using ⟨formed.lead, entries⟩
  obtain ⟨last, written⟩ := Writer.writeTokens_sound (magic.sound sound) tokens
  refine ⟨last, by simp only [write, Writer.writeMagic, opened, written], ?_⟩
  have body := (Writer.wrote_of_writeTokens written).2
  have listing : c.tokens.flatMap Token.bytes = c.front.lead ++ c.front.listing := by
    simp [Catalog.tokens, Front.listing, front, List.flatMap_map, Token.bytes]
  rw [listing] at body
  exact magic.trans body

end Catalog
end DumpArchive
