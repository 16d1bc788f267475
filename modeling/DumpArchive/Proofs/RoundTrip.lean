import DumpArchive.Proofs.Positions
import Mathlib

/-! The round trip of a catalog. Writing lets every catalog through whose records are well formed;
reading wants its entries named as well, and stops at the first that is not. -/
namespace DumpArchive

namespace Token.Writer

variable {w next : Writer}

/-- The count is of items that have gone out whole. -/
theorem written_of_put {item : Bytes} (h : w.put item = (.ok (), next)) :
    next.written = w.written + item.length := by
  unfold put at h
  split at h
  · simp at h
  · obtain rfl := by simpa using h
    rfl

theorem written_of_writeToken {t : Token} (h : w.writeToken t = (.ok (), next)) :
    next.written = w.written + t.bytes.length := by
  cases t with
  | delimiter => exact written_of_put h
  | record b =>
    simp only [writeToken] at h
    split at h
    · simp at h
    · exact written_of_put h

theorem written_of_writeTokens {ts : List Token} (h : w.writeTokens ts = (.ok (), next)) :
    next.written = w.written + (ts.flatMap Token.bytes).length := by
  induction ts generalizing w with
  | nil =>
    obtain rfl := by simpa [writeTokens] using h
    rfl
  | cons t ts ih =>
    simp only [writeTokens] at h
    split at h
    · simp at h
    · next mid first =>
      rw [ih h, written_of_writeToken first, List.flatMap_cons, List.length_append, Nat.add_assoc]

end Token.Writer

namespace Catalog

open Token (Reader Writer)

variable {c : Catalog} {max : UInt64} {offset : Nat} {r : Reader} {writer last : Writer}
  {entries : List CatalogEntry} {e : CatalogEntry} {rest : Bytes}

/-- The records of some entries as they are written. -/
def listing (entries : List CatalogEntry) : Bytes := entries.flatMap (·.record)

theorem flatMap_tokens (c : Catalog) : c.tokens.flatMap Token.bytes =
    c.header.record ++ (listing c.entries ++ Token.delimiterBytes) := by
  simp [tokens, listing, List.flatMap_map, Token.bytes]

theorem bytes_front (c : Catalog) :
    c.front.bytes = Token.magicBytes ++ (c.header.record ++
      (listing c.entries ++ Token.delimiterBytes)) := by
  simp [front, Front.bytes, Front.listing, listing, List.flatMap_map]

/-- What a successful write tells of the catalog, and what it has put out and counted. -/
theorem of_write (h : c.write writer = (.ok (), last)) :
    Record.Formed writer.max c.header.record ∧
      (∀ e ∈ c.entries, Record.Formed writer.max e.record) ∧
      writer.Wrote c.front.bytes last ∧ last.written = writer.written + c.front.bytes.length := by
  simp only [write, Writer.writeMagic] at h
  split at h
  · simp at h
  · next mid opened =>
    have magic := Writer.wrote_of_put opened
    obtain ⟨formed, body⟩ := Writer.wrote_of_writeTokens h
    rw [magic.limit] at formed
    simp only [tokens, List.cons_append, List.forall_mem_cons, List.forall_mem_append,
      List.forall_mem_map] at formed
    obtain ⟨header, entries, -⟩ := formed
    refine ⟨header, entries, ?_, ?_⟩
    · rw [bytes_front, ← flatMap_tokens]
      exact magic.trans body
    · rw [Writer.written_of_writeTokens h, Writer.written_of_put opened, flatMap_tokens,
        bytes_front]
      simp only [List.length_append]
      omega

/-- Named entries are listed one after the other. -/
theorem traverse_listing (draft : Draft) (small : max.toNat < 2 ^ 63)
    (formed : ∀ e ∈ entries, Record.Formed max e.record) (named : ∀ e ∈ entries, e.ns.isNamed)
    (ahead : r.At max offset (listing entries ++ rest)) :
    ∃ next, next.At max (offset + (listing entries).length) rest ∧
      Block.traverse false Draft.handler .inside draft r =
        Block.traverse false Draft.handler .inside
          { draft with entries := draft.entries ++ entries } next := by
  induction entries generalizing r draft offset with
  | nil => exact ⟨r, by simpa [listing] using ahead, by simp⟩
  | cons e entries ih =>
    obtain ⟨first, others⟩ := List.forall_mem_cons.1 formed
    obtain ⟨known, names⟩ := List.forall_mem_cons.1 named
    rw [listing, List.flatMap_cons, List.append_assoc] at ahead
    obtain ⟨mid, found, later⟩ := Block.nextPart_body small first ahead
    obtain ⟨next, ends, goes⟩ :=
      ih { draft with entries := draft.entries ++ [e] } others names later
    refine ⟨next, ?_, ?_⟩
    · simpa [listing, Nat.add_assoc] using ends
    · rw [Block.traverse_of_part found]
      simpa [Draft.handler, CatalogEntry.ofRecord?_record first.length_lt, known] using goes

theorem traverse_unnamed (draft : Draft) (small : max.toNat < 2 ^ 63)
    (formed : Record.Formed max e.record) (unnamed : ¬ e.ns.isNamed)
    (ahead : r.At max offset (e.record ++ rest)) :
    ∃ next, Block.traverse false Draft.handler .inside draft r =
      (.error (.corrupt offset .unnamedEntry), draft, next) := by
  obtain ⟨next, found, -⟩ := Block.nextPart_body small formed ahead
  refine ⟨next, ?_⟩
  rw [Block.traverse_of_part found]
  simp [Draft.handler, CatalogEntry.ofRecord?_record formed.length_lt, unnamed, ahead.counted]

/-- The magic number and the archive header are read, and the entries come next. -/
theorem read_lead {header : ArchiveHeader} (small : max.toNat < 2 ^ 63)
    (formed : Record.Formed max header.record)
    (ahead : r.At max offset (Token.magicBytes ++ (header.record ++ rest))) :
    ∃ first next, r.readRaw 4 = (.ok Token.magicBytes, first) ∧
      Block.read Draft.handler ⟨none, []⟩ first =
        Block.traverse false Draft.handler .inside ⟨some header, []⟩ next ∧
      next.At max (offset + 4 + header.record.length) rest := by
  obtain ⟨first, raw, body⟩ := Reader.readRaw_at ahead 4
  have magic : (Token.magicBytes ++ (header.record ++ rest)).take 4 = Token.magicBytes := rfl
  have behind : (Token.magicBytes ++ (header.record ++ rest)).drop 4 = header.record ++ rest := rfl
  rw [magic] at raw body
  rw [behind] at body
  obtain ⟨next, found, later⟩ := Block.nextPart_header small formed body
  refine ⟨first, next, raw, ?_, later⟩
  rw [Block.read, Block.traverse_of_part found]
  simp [Draft.handler, ArchiveHeader.ofRecord?_record formed.length_lt]

/-- An entry without a name is refused where its record begins. -/
theorem read_unnamed {front back : List CatalogEntry} (small : max.toNat < 2 ^ 63)
    (header : Record.Formed max c.header.record)
    (formed : ∀ e ∈ c.entries, Record.Formed max e.record)
    (split : c.entries = front ++ e :: back) (named : ∀ d ∈ front, d.ns.isNamed)
    (unnamed : ¬ e.ns.isNamed) (ahead : r.At max offset (c.front.bytes ++ rest)) :
    ∃ next, read r = (.error (.corrupt (offset + 4 + c.header.record.length +
      (listing front).length) .unnamedEntry), next) := by
  rw [split, List.forall_mem_append, List.forall_mem_cons] at formed
  obtain ⟨early, here, -⟩ := formed
  have shape : c.front.bytes ++ rest = Token.magicBytes ++ (c.header.record ++ (listing front ++
      (e.record ++ (listing back ++ (Token.delimiterBytes ++ rest))))) := by
    simp [bytes_front, split, listing]
  rw [shape] at ahead
  obtain ⟨first, second, raw, reads, later⟩ := read_lead small header ahead
  obtain ⟨mid, near, goes⟩ := traverse_listing ⟨some c.header, []⟩ small early named later
  obtain ⟨next, fails⟩ := traverse_unnamed ⟨some c.header, [] ++ front⟩ small here unnamed near
  have width : ¬ Token.magicBytes.length < 4 := by decide
  exact ⟨next, by simp only [read, raw, width, if_false, ne_eq, not_true_eq_false, reads, goes,
    fails]⟩

theorem Of.unique {d : Catalog} {f : Front} (first : c.Of f) (second : d.Of f) : c = d := by
  have header := first.header.trans second.header.symm
  have entries := first.entries.trans second.entries.symm
  cases c
  cases d
  simp_all

/-- A catalog whose entries are all named is read back, and the reader stops right behind it. -/
theorem read_named (small : max.toNat < 2 ^ 63) (header : Record.Formed max c.header.record)
    (formed : ∀ e ∈ c.entries, Record.Formed max e.record) (named : ∀ e ∈ c.entries, e.ns.isNamed)
    (ahead : r.At max offset (c.front.bytes ++ rest)) :
    ∃ next, read r = (.ok c, next) ∧ next.At max (offset + c.front.bytes.length) rest ∧
      next.source.position = r.source.position + c.front.bytes.length := by
  have fits := formed_front header fun e member => ⟨formed e member, named e member⟩
  obtain ⟨d, next, reads, same, stands⟩ := read_front small fits ahead
  obtain rfl : d = c := same.unique c.of_front
  have balanced := balanced_of_read reads
  have ends := balanced.stands ahead stands
  exact ⟨next, reads, ends, balanced.position ahead ends⟩

theorem exists_first_unnamed (unnamed : ∃ e ∈ entries, ¬ e.ns.isNamed) :
    ∃ front e back, entries = front ++ e :: back ∧ (∀ d ∈ front, d.ns.isNamed) ∧
      ¬ e.ns.isNamed := by
  have found : (entries.find? fun e => !e.ns.isNamed).isSome := by
    simpa [List.find?_isSome] using unnamed
  obtain ⟨e, first⟩ := Option.isSome_iff_exists.1 found
  obtain ⟨unnamed, front, back, split, named⟩ := List.find?_eq_some_iff_append.1 first
  exact ⟨front, e, back, split, by simpa using named, by simpa using unnamed⟩

/-- What was written for a catalog is read back as that catalog if all of its entries are named,
and whatever comes behind it is left on the stream. Otherwise reading fails where the record of the
first unnamed entry begins. -/
theorem read_write {c : Catalog} {sink : Sink} {last : Writer} (small : max.toNat < 2 ^ 63)
    (written : c.write (.start sink max) = (.ok (), last)) :
    ∃ bytes, last.sink.accepted = sink.accepted ++ bytes ∧ last.written = bytes.length ∧
      ∀ (rest : Bytes) (source : Source), source.schedule.Sound → source.position = 0 →
        source.pending = bytes ++ rest →
        ((∀ e ∈ c.entries, e.ns.db ≠ "" ∧ e.ns.collection ≠ "") →
          ∃ next, read (.start source max) = (.ok c, next) ∧ next.offset = last.written ∧
            next.source.position = last.written ∧ next.source.pending = rest) ∧
        ((∃ e ∈ c.entries, e.ns.db = "" ∨ e.ns.collection = "") →
          ∃ front e back next, c.entries = front ++ e :: back ∧
            (∀ d ∈ front, d.ns.db ≠ "" ∧ d.ns.collection ≠ "") ∧
            (e.ns.db = "" ∨ e.ns.collection = "") ∧
            read (.start source max) = (.error (.corrupt (4 + c.header.record.length +
              (listing front).length) .unnamedEntry), next)) := by
  obtain ⟨header, formed, wrote, count⟩ := of_write written
  have start : (Writer.start sink max).written = 0 := rfl
  rw [start, Nat.zero_add] at count
  have named (e : CatalogEntry) : e.ns.isNamed ↔ e.ns.db ≠ "" ∧ e.ns.collection ≠ "" := by
    simp [Namespace.isNamed]
  refine ⟨c.front.bytes, wrote.accepted, count, ?_⟩
  intro rest source sound begins pending
  have ahead := Reader.at_start sound max
  rw [pending] at ahead
  constructor
  · intro all
    obtain ⟨next, reads, ends, placed⟩ := read_named small header formed
      (fun e member => (named e).2 (all e member)) ahead
    have placed : next.source.position = source.position + c.front.bytes.length := placed
    refine ⟨next, reads, ?_, ?_, ends.ahead⟩
    · rw [ends.counted, count, Nat.zero_add]
    · rw [placed, begins, count, Nat.zero_add]
  · rintro ⟨e, member, empty⟩
    have unnamed (e : CatalogEntry) : ¬ e.ns.isNamed ↔ e.ns.db = "" ∨ e.ns.collection = "" := by
      rw [named, not_and_or, not_not, not_not]
    obtain ⟨front, e, back, split, early, empty⟩ :=
      exists_first_unnamed ⟨e, member, (unnamed e).2 empty⟩
    obtain ⟨next, fails⟩ := read_unnamed small header formed split early empty ahead
    rw [Nat.zero_add] at fails
    exact ⟨front, e, back, next, split, fun d member => (named d).1 (early d member),
      (unnamed e).1 empty, fails⟩

/-- The catalog of two namespaces, with a byte behind it, and one in which the second has no name. -/
theorem read_write_two_entries :
    let c : Catalog := ⟨.current 4, [⟨⟨"a", "b"⟩, "{}"⟩, ⟨⟨"x.y", "z"⟩, "[1]"⟩], by decide⟩
    let d : Catalog := ⟨.current 4, [⟨⟨"a", "b"⟩, "{}"⟩, ⟨⟨"", "z"⟩, "[1]"⟩], by decide⟩
    (∃ last next, c.write (.start .empty 128) = (.ok (), last) ∧
      read (.start (.ofBytes (last.sink.accepted ++ [1])) 128) = (.ok c, next) ∧
      next.offset = last.written ∧ next.source.position = last.written ∧
      next.source.pending = [1]) ∧
    ∃ last next, d.write (.start .empty 128) = (.ok (), last) ∧
      read (.start (.ofBytes last.sink.accepted) 128) = (.error (.corrupt 104 .unnamedEntry), next) := by
  intro c d
  have writes (c : Catalog) (passes : (c.write (.start .empty 128)).1.toOption = some ()) :
      ∃ last, c.write (.start .empty 128) = (.ok (), last) := by
    cases written : c.write (.start .empty 128) with
    | mk result last =>
      cases result with
      | error e => simp [written, Except.toOption] at passes
      | ok _ => exact ⟨last, rfl⟩
  have fresh (last : Writer) {bytes : Bytes}
      (accepted : last.sink.accepted = Sink.empty.accepted ++ bytes) :
      last.sink.accepted = bytes := by
    simpa [Sink.accepted, Sink.empty, Sink.fresh] using accepted
  constructor
  · obtain ⟨last, written⟩ := writes c (by decide +kernel)
    obtain ⟨bytes, accepted, -, reads⟩ := read_write (by decide) written
    obtain rfl : last.sink.accepted = bytes := fresh last accepted
    obtain ⟨next, whole, stops, placed, left⟩ := (reads [1] (.ofBytes (last.sink.accepted ++ [1]))
      Stream.Schedule.sound_steady rfl rfl).1 (by decide)
    exact ⟨last, next, written, whole, stops, placed, left⟩
  · obtain ⟨last, written⟩ := writes d (by decide +kernel)
    obtain ⟨bytes, accepted, -, reads⟩ := read_write (by decide) written
    obtain rfl : last.sink.accepted = bytes := fresh last accepted
    have pending : (Source.ofBytes last.sink.accepted).pending = last.sink.accepted ++ [] :=
      (List.append_nil _).symm
    obtain ⟨front, e, back, next, split, named, unnamed, fails⟩ :=
      (reads [] (.ofBytes last.sink.accepted) Stream.Schedule.sound_steady rfl pending).2 (by decide)
    -- the first entry has a name, and the list ends with the second
    have first : front = [⟨⟨"a", "b"⟩, "{}"⟩] := by
      rcases front with _ | ⟨x, _ | ⟨y, more⟩⟩
      · obtain ⟨rfl, -⟩ := List.cons.inj split
        simp at unnamed
      · rw [(List.cons.inj split).1]
      · obtain ⟨-, split⟩ := List.cons.inj split
        simp at split
    refine ⟨last, next, written, ?_⟩
    rw [fails, first]
    congr 2

end Catalog
end DumpArchive
