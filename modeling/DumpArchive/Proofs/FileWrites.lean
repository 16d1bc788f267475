import DumpArchive.Command.Unpack
import DumpArchive.Proofs.ListUpdates
import DumpArchive.Proofs.Trees
import Mathlib.Data.List.Induction

/-! Files that are written into directories of databases, one after another. Below the directory
of the databases stands what the last write of each file has left and nothing else, and elsewhere
nothing has changed. -/
namespace DumpArchive

open DumpArchive.Path (IsName)

theorem Tree.Sound.way {t : Tree} (sound : t.Sound) {front below : Location} {name : String}
    {node : Node} (found : t.lookup (front ++ name :: below) = some node) :
    t.lookup front = some .directory := by
  induction below using List.reverseRecOn generalizing node with
  | nil => exact sound.above found
  | append_singleton below last ih =>
    rw [← List.cons_append, ← List.append_assoc] at found
    exact ih (sound.above found)

/-- A file that is written into the directory of a database. -/
structure Write where
  db : String
  name : String
  content : Bytes

def Write.spot (w : Write) : String × String := (w.db, w.name)

/-- What the last write of a file has left. -/
def held (writes : List Write) (db name : String) : Option Bytes :=
  (writes.reverse.find? (·.spot = (db, name))).map (·.content)

section Held

variable {writes : List Write} {db name : String} {content : Bytes}

@[simp] theorem held_nil (db name : String) : held [] db name = none := rfl

theorem held_append (front back : List Write) (db name : String) :
    held (front ++ back) db name = (held back db name).or (held front db name) := by
  simp only [held, List.reverse_append, List.find?_append]
  cases back.reverse.find? fun w => decide (w.spot = (db, name)) <;> rfl

theorem held_singleton (w : Write) (db name : String) :
    held [w] db name = if w.spot = (db, name) then some w.content else none := by
  by_cases same : w.spot = (db, name) <;> simp [held, same]

theorem held_eq_none_iff : held writes db name = none ↔ (db, name) ∉ writes.map Write.spot := by
  simp [held]

/-- A file that is written once holds what was written. -/
theorem held_eq_some_iff (distinct : (writes.map Write.spot).Nodup) :
    held writes db name = some content ↔ ⟨db, name, content⟩ ∈ writes := by
  constructor
  · intro last
    obtain ⟨w, found, rfl⟩ := Option.map_eq_some_iff.1 last
    have member := List.mem_reverse.1 (List.mem_of_find?_eq_some found)
    obtain ⟨rfl, rfl⟩ : w.db = db ∧ w.name = name := by
      simpa [Write.spot] using List.find?_some found
    exact member
  · intro member
    have reversed : (writes.reverse.map Write.spot).Nodup := by
      rwa [List.map_reverse, List.nodup_reverse]
    have only : writes.reverse.filter (·.spot = (db, name)) = [⟨db, name, content⟩] :=
      filter_eq_singleton reversed (List.mem_reverse.2 member)
    rw [held, ← List.head?_filter, only]
    rfl

end Held

/-- A tree after directories of databases have been made and files written into them. -/
structure Shelf (t : Tree) (root : String) (place : Location) (databases : List String)
    (writes : List Write) (u : Tree) : Prop where
  sound : u.Sound
  home : u.workingDirectory = t.workingDirectory
  leads : u.Leads root place
  elsewhere : ∀ p, (p = place ∨ ¬ place <+: p) → u.lookup p = t.lookup p
  directories : ∀ db, u.lookup (place ++ [db]) = if db ∈ databases then some .directory else none
  files : ∀ db name, u.lookup (place ++ [db] ++ [name]) = (held writes db name).map .file

namespace Shelf

variable {t u : Tree} {root db name : String} {place : Location} {databases : List String}
  {writes : List Write}

theorem start (sound : t.Sound) (leads : t.Leads root place)
    (empty : ∀ db, t.lookup (place ++ [db]) = none) : Shelf t root place [] [] t := by
  refine ⟨sound, rfl, leads, fun _ _ => rfl, by simpa using empty, fun db name => ?_⟩
  rw [held_nil, Option.map_none]
  cases found : t.lookup (place ++ [db] ++ [name]) with
  | none => rfl
  | some node =>
    have above := sound.above found
    rw [empty db] at above
    contradiction

theorem makeDirectories (shelf : Shelf t root place databases writes u) (named : IsName db)
    (short : (Path.join root db).utf8ByteSize < 4096) :
    ∃ v, u.makeDirectories (Path.join root db) = (.ok (), v) ∧
      Shelf t root place (databases ++ [db]) writes v := by
  have free : ∀ content, u.lookup (place ++ [db]) ≠ some (.file content) := by
    intro content
    rw [shelf.directories db]
    split <;> simp
  refine ⟨_, shelf.leads.makeDirectories named short free, ?_⟩
  by_cases known : u.lookup (place ++ [db]) = some .directory
  · rw [if_pos known]
    have member : db ∈ databases := by
      have stands := shelf.directories db
      rw [known] at stands
      by_contra missing
      simp [missing] at stands
    refine ⟨shelf.sound, shelf.home, shelf.leads, shelf.elsewhere, fun other => ?_, shelf.files⟩
    rw [shelf.directories other]
    by_cases same : other = db
    · simp [same, member]
    · simp [same]
  · rw [if_neg known]
    have kept : ∀ p, u.lookup p = some .directory →
        (u.put (place ++ [db]) .directory).lookup p = some .directory :=
      fun p => Tree.directory_put known
    refine ⟨shelf.sound.put named shelf.leads.directory (fun _ => rfl), shelf.home,
      shelf.leads.mono rfl kept, ?_, fun other => ?_, fun other name => ?_⟩
    · intro p away
      rw [Tree.lookup_put (by simp), if_neg, shelf.elsewhere p away]
      rintro rfl
      rcases away with here | apart
      · simp at here
      · exact apart (List.prefix_append ..)
    · rw [Tree.lookup_put (by simp), shelf.directories other]
      by_cases same : other = db <;> simp [same]
    · rw [Tree.lookup_put (by simp), if_neg (by simp), shelf.files other name]

theorem writeFile (shelf : Shelf t root place databases writes u) (member : db ∈ databases)
    (inside : IsName db) (named : IsName name)
    (near : (Path.join root db).utf8ByteSize < 4096)
    (short : (Path.join (Path.join root db) name).utf8ByteSize < 4096) (content : Bytes) :
    ∃ v, u.writeFile (Path.join (Path.join root db) name) content = (.ok (), v) ∧
      Shelf t root place databases (writes ++ [⟨db, name, content⟩]) v := by
  have above : u.lookup (place ++ [db]) = some .directory := by
    rw [shelf.directories db, if_pos member]
  have free : u.lookup (place ++ [db] ++ [name]) ≠ some .directory := by
    rw [shelf.files db name]
    simp
  have leads := shelf.leads.join inside near above
  refine ⟨_, leads.writeFile named short free content, ?_⟩
  have kept : ∀ p, u.lookup p = some .directory →
      (u.put (place ++ [db] ++ [name]) (.file content)).lookup p = some .directory :=
    fun p => Tree.directory_put free
  refine ⟨shelf.sound.put named above (fun stands => absurd stands free), shelf.home,
    shelf.leads.mono rfl kept, ?_, fun other => ?_, fun other another => ?_⟩
  · intro p away
    rw [Tree.lookup_put (by simp), if_neg, shelf.elsewhere p away]
    rintro rfl
    rcases away with here | apart
    · simp at here
    · exact apart (by simp)
  · rw [Tree.lookup_put (by simp), if_neg (by simp), shelf.directories other]
  · rw [Tree.lookup_put (by simp), held_append, held_singleton, shelf.files other another]
    by_cases same : db = other ∧ name = another
    · obtain ⟨rfl, rfl⟩ := same
      simp [Write.spot]
    · have apart : place ++ [other] ++ [another] ≠ place ++ [db] ++ [name] := by
        rintro equal
        simp only [List.append_assoc, List.append_cancel_left_eq] at equal
        simp_all
      rw [if_neg apart, if_neg (by simpa [Write.spot] using same)]
      rfl

/-- A file that is written once the directory of its database is there. -/
theorem deposit (shelf : Shelf t root place databases writes u) (inside : IsName db)
    (named : IsName name) (near : (Path.join root db).utf8ByteSize < 4096)
    (short : (Path.join (Path.join root db) name).utf8ByteSize < 4096) (content : Bytes) :
    ∃ v w, u.makeDirectories (Path.join root db) = (.ok (), v) ∧
      v.writeFile (Path.join (Path.join root db) name) content = (.ok (), w) ∧
      Shelf t root place (databases ++ [db]) (writes ++ [⟨db, name, content⟩]) w := by
  obtain ⟨v, made, ready⟩ := shelf.makeDirectories inside near
  obtain ⟨w, written, after⟩ := ready.writeFile (by simp) inside named near short content
  exact ⟨v, w, made, written, after⟩

/-- What stands below is a directory of a database or a file in one. -/
theorem lookup_below (shelf : Shelf t root place databases writes u) {below : Location}
    {node : Node} (something : below ≠ []) :
    u.lookup (place ++ below) = some node ↔
      (∃ db ∈ databases, below = [db] ∧ node = .directory) ∨
      ∃ db name content, held writes db name = some content ∧ below = [db, name] ∧
        node = .file content := by
  match below with
  | [db] =>
    rw [shelf.directories db]
    by_cases member : db ∈ databases <;> simp [member, eq_comm]
  | [db, name] =>
    have files := shelf.files db name
    rw [List.append_assoc] at files
    simp only [List.singleton_append] at files
    rw [files]
    cases stands : held writes db name <;> simp [stands, eq_comm]
  | db :: name :: more :: rest =>
    have nothing : u.lookup (place ++ db :: name :: more :: rest) ≠ some node := by
      intro found
      have split : place ++ db :: name :: more :: rest =
          place ++ [db] ++ [name] ++ more :: rest := by simp
      have directory := shelf.sound.way (split ▸ found)
      rw [shelf.files db name] at directory
      simp at directory
    simp [nothing]

end Shelf
end DumpArchive
