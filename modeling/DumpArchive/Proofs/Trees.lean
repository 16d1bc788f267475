import DumpArchive.Proofs.Paths
import Mathlib.Data.List.Nodup
import Mathlib.Data.List.Sort

/-! Trees of directories and files. A path to a directory and a name in it lead to the entry of that
name; operations on it find, list, make or replace what stands there and nothing else. -/
namespace DumpArchive.Tree

open DumpArchive.Path (IsName)

variable {t u : Tree} {place : Location} {path name : String} {node : Node} {content : Bytes}

/-- Every node stands once, under a name in a directory. -/
structure Sound (t : Tree) : Prop where
  distinct : (t.nodes.map Prod.fst).Nodup
  rooted : ∀ n ∈ t.nodes, n.1 ≠ []
  named : ∀ n ∈ t.nodes, ∀ name ∈ n.1, IsName name
  founded : ∀ n ∈ t.nodes, t.lookup n.1.dropLast = some .directory

@[simp] theorem lookup_nil (t : Tree) : t.lookup [] = some .directory := if_pos rfl

theorem find?_put (other : Location) (place : Location) (node : Node) (t : Tree) :
    ((t.put place node).nodes.find? (·.1 = other)).map Prod.snd =
      if other = place then some node else (t.nodes.find? (·.1 = other)).map Prod.snd := by
  have kept : (t.nodes.filter (·.1 ≠ place)).find? (·.1 = other) =
      if other = place then none else t.nodes.find? (·.1 = other) := by
    rw [List.find?_filter]
    split
    · next same =>
      subst same
      rw [List.find?_eq_none]
      simp
    · next apart =>
      congr 1
      funext n
      by_cases here : n.1 = other <;> simp [here, apart]
  simp only [put, remove, List.find?_append, kept]
  by_cases same : other = place
  · subst same
    simp
  · simp [same, Ne.symm same]

theorem lookup_put (something : place ≠ []) (other : Location) (node : Node) (t : Tree) :
    (t.put place node).lookup other = if other = place then some node else t.lookup other := by
  by_cases root : other = []
  · subst root
    rw [lookup_nil, lookup_nil, if_neg (Ne.symm something)]
  · simp only [lookup, if_neg root]
    exact find?_put other place node t

theorem Sound.mem_iff (sound : t.Sound) (something : place ≠ []) :
    (place, node) ∈ t.nodes ↔ t.lookup place = some node := by
  rw [lookup, if_neg something]
  constructor
  · intro member
    obtain ⟨front, back, split⟩ := List.append_of_mem member
    have apart : place ∉ front.map Prod.fst := by
      have distinct := sound.distinct
      rw [split, List.map_append, List.nodup_append] at distinct
      exact fun earlier => distinct.2.2 _ earlier _ (List.mem_cons_self ..) rfl
    have none : front.find? (·.1 = place) = none := by
      rw [List.find?_eq_none]
      rintro ⟨other, kept⟩ earlier
      have elsewhere : other ≠ place := by
        rintro rfl
        exact apart (List.mem_map_of_mem (f := Prod.fst) earlier)
      simpa using elsewhere
    simp [split, List.find?_append, none]
  · intro found
    obtain ⟨⟨here, kept⟩, first, rfl⟩ := Option.map_eq_some_iff.1 found
    obtain rfl : here = place := by simpa using List.find?_some first
    exact List.mem_of_find?_eq_some first

/-- The directory of an entry. -/
theorem Sound.above (sound : t.Sound) (found : t.lookup (place ++ [name]) = some node) :
    t.lookup place = some .directory := by
  have member := (sound.mem_iff (by simp)).2 found
  simpa using sound.founded _ member

theorem Sound.isName (sound : t.Sound) (found : t.lookup (place ++ [name]) = some node) :
    IsName name := by
  have member := (sound.mem_iff (by simp)).2 found
  exact sound.named _ member name (by simp)

theorem Sound.put (sound : t.Sound) (named : IsName name) (above : t.lookup place = some .directory)
    (free : t.lookup (place ++ [name]) = some .directory → node = .directory) :
    (t.put (place ++ [name]) node).Sound := by
  have mem {n : Location × Node} (member : n ∈ (t.put (place ++ [name]) node).nodes) :
      n ∈ t.nodes ∧ n.1 ≠ place ++ [name] ∨ n = (place ++ [name], node) := by
    rcases List.mem_append.1 member with old | new
    · obtain ⟨old, apart⟩ := List.mem_filter.1 old
      exact .inl ⟨old, by simpa using apart⟩
    · exact .inr (List.mem_singleton.1 new)
  have names : ∀ other ∈ place, IsName other := by
    intro other member
    have something : place ≠ [] := List.ne_nil_of_mem member
    exact sound.named _ ((sound.mem_iff something).2 above) other member
  have directories {other : Location} (held : t.lookup other = some .directory) :
      (t.put (place ++ [name]) node).lookup other = some .directory := by
    rw [lookup_put (by simp)]
    split
    · next same => rw [free (same ▸ held)]
    · exact held
  refine ⟨?_, ?_, ?_, ?_⟩
  · rw [Tree.put, List.map_append, List.nodup_append]
    refine ⟨sound.distinct.sublist (List.filter_sublist.map _), by simp, ?_⟩
    rintro other earlier _ new rfl
    obtain ⟨n, kept, rfl⟩ := List.mem_map.1 earlier
    have apart : n.1 ≠ place ++ [name] := by simpa using (List.mem_filter.1 kept).2
    exact apart (by simpa using new)
  · intro n member
    rcases mem member with ⟨old, -⟩ | rfl
    · exact sound.rooted n old
    · simp
  · intro n member
    rcases mem member with ⟨old, -⟩ | rfl
    · exact sound.named n old
    · intro other step
      rcases List.mem_append.1 step with earlier | last
      · exact names other earlier
      · exact List.mem_singleton.1 last ▸ named
  · intro n member
    rcases mem member with ⟨old, -⟩ | rfl
    · exact directories (sound.founded n old)
    · rw [List.dropLast_concat]
      exact directories above

theorem enter_append (t : Tree) (here : Location) (first second : List String) :
    t.enter here (first ++ second) = match t.enter here first with
      | .error fault => .error fault
      | .ok place => t.enter place second := by
  fun_induction enter t here first with
  | case1 here => rfl
  | case2 here rest ih => simpa [enter] using ih
  | case3 here rest apart ih => simpa [enter] using ih
  | case4 here name rest dot dots long => simp [enter, dot, dots, long]
  | case5 here name rest dot dots short found => simp [enter, dot, dots, short, found]
  | case6 here name rest dot dots short content found => simp [enter, dot, dots, short, found]
  | case7 here name rest dot dots short found ih => simpa [enter, dot, dots, short, found] using ih

/-- A last step that is no dots leads to a directory in the one before. -/
theorem enter_concat {here : Location} {front : List String} (dot : name ≠ ".") (dots : name ≠ "..") :
    t.enter here (front ++ [name]) = .ok place ↔
      ∃ above, t.enter here front = .ok above ∧ place = above ++ [name] ∧ isLong name = false ∧
        t.lookup place = some .directory := by
  rw [enter_append]
  cases t.enter here front with
  | error fault => simp
  | ok above =>
    simp only [enter, dot, dots, if_false, Except.ok.injEq, exists_eq_left']
    constructor
    · intro walks
      split at walks
      · contradiction
      · next short =>
        split at walks
        · contradiction
        · contradiction
        · next found =>
          obtain rfl := Except.ok.inj walks
          exact ⟨rfl, by simpa using short, found⟩
    · rintro ⟨rfl, short, found⟩
      simp [short, found]

/-- A walk goes through directories only. -/
theorem enter_mono {here : Location} {steps : List String}
    (kept : ∀ p, t.lookup p = some .directory → u.lookup p = some .directory)
    (walks : t.enter here steps = .ok place) : u.enter here steps = .ok place := by
  fun_induction enter t here steps with
  | case1 here => simpa [enter] using walks
  | case2 here rest ih => simpa [enter] using ih walks
  | case3 here rest apart ih => simpa [enter] using ih walks
  | case4 => contradiction
  | case5 => contradiction
  | case6 => contradiction
  | case7 here name rest dot dots short found ih =>
    simpa [enter, dot, dots, short, kept _ found] using ih walks

/-- The path leads to this directory. -/
structure Leads (t : Tree) (path : String) (place : Location) : Prop where
  passable : refuse? path = none
  walks : t.enter (t.origin path) (Path.steps path) = .ok place
  directory : t.lookup place = some .directory

theorem isLong_eq (named : IsName name) : isLong name = false := by
  have short := named.short
  simp only [isLong, decide_eq_false_iff_not]
  omega

theorem leads_iff : t.Leads path place ↔
    t.locate path = .ok place ∧ t.lookup place = some .directory := by
  constructor
  · rintro ⟨passable, walks, directory⟩
    refine ⟨?_, directory⟩
    simp only [locate, goal, passable, follow]
    rcases List.eq_nil_or_concat (Path.steps path) with nothing | ⟨front, name, split⟩
    · rw [nothing] at walks ⊢
      simpa [Goal.place, enter] using walks
    · rw [split, List.concat_eq_append, enter_append] at walks
      simp only [split, List.concat_eq_append, List.dropLast_concat, List.getLast?_concat]
      cases walked : t.enter (t.origin path) front with
      | error fault => simp [walked] at walks
      | ok above =>
        simp only [walked, enter] at walks
        by_cases dot : name = "."
        · simp_all [Goal.place]
        · by_cases dots : name = ".."
          · simp_all [Goal.place]
          · simp only [dot, dots, if_false] at walks ⊢
            split at walks
            · contradiction
            · next short =>
              split at walks
              · contradiction
              · contradiction
              · simpa [Goal.place, short] using walks
  · rintro ⟨located, directory⟩
    simp only [locate, goal] at located
    cases passable : refuse? path with
    | some fault => simp [passable] at located
    | none =>
      refine ⟨passable, ?_, directory⟩
      simp only [passable, follow] at located
      rcases List.eq_nil_or_concat (Path.steps path) with nothing | ⟨front, name, split⟩
      · rw [nothing] at located ⊢
        simpa [Goal.place, enter] using located
      · simp only [split, List.concat_eq_append, List.dropLast_concat,
          List.getLast?_concat] at located
        rw [split, List.concat_eq_append, enter_append]
        cases walked : t.enter (t.origin path) front with
        | error fault => simp [walked] at located
        | ok above =>
          simp only [walked] at located ⊢
          by_cases dot : name = "."
          · simp_all [Goal.place, enter]
          · by_cases dots : name = ".."
            · simp_all [Goal.place, enter]
            · simp only [dot, dots, if_false, Goal.place] at located
              split at located
              · contradiction
              · next short =>
                obtain rfl := Except.ok.inj located
                simp [enter, dot, dots, short, directory]

theorem origin_congr (same : u.workingDirectory = t.workingDirectory) (path : String) :
    u.origin path = t.origin path := by
  simp only [origin, same]

/-- What is below a directory does not matter to a path that leads there. -/
theorem Leads.mono (leads : t.Leads path place) (same : u.workingDirectory = t.workingDirectory)
    (kept : ∀ p, t.lookup p = some .directory → u.lookup p = some .directory) :
    u.Leads path place := by
  refine ⟨leads.passable, ?_, kept _ leads.directory⟩
  rw [origin_congr same]
  exact enter_mono kept leads.walks

/-- Nor does it matter to where a path goes through such directories. -/
theorem goal_mono {goal : Goal} (same : u.workingDirectory = t.workingDirectory)
    (kept : ∀ p, t.lookup p = some .directory → u.lookup p = some .directory)
    (goes : t.goal path = .ok goal) : u.goal path = .ok goal := by
  unfold Tree.goal at goes ⊢
  split at goes
  · contradiction
  · next passable =>
    rw [origin_congr same]
    unfold follow at goes ⊢
    split at goes
    · contradiction
    · next walks last =>
      rw [enter_mono kept walks, last]
      exact goes
    · next walks last =>
      rw [enter_mono kept walks, last]
      exact goes

/-- All steps but the last lead to the directory of an entry. -/
theorem enter_of_follow {here : Location} {steps : List String}
    (goes : t.follow here steps = .ok (.entry place name)) :
    ∃ front, steps = front ++ [name] ∧ t.enter here front = .ok place ∧ name ≠ "." ∧ name ≠ ".." := by
  rcases List.eq_nil_or_concat steps with rfl | ⟨front, last, rfl⟩
  · simp [follow, enter] at goes
  · simp only [follow, List.concat_eq_append, List.dropLast_concat, List.getLast?_concat] at goes ⊢
    cases walks : t.enter here front with
    | error fault => simp [walks] at goes
    | ok above =>
      by_cases dot : last = "."
      · simp [walks, dot] at goes
      · by_cases dots : last = ".."
        · simp [walks, dots] at goes
        · simp only [walks, dot, dots, if_false, Except.ok.injEq, Goal.entry.injEq] at goes
          obtain ⟨rfl, rfl⟩ := goes
          exact ⟨front, rfl, walks, dot, dots⟩

theorem enter_of_goal (goes : t.goal path = .ok (.entry place name)) :
    ∃ front, Path.steps path = front ++ [name] ∧ t.enter (t.origin path) front = .ok place := by
  unfold goal at goes
  split at goes
  · contradiction
  · obtain ⟨front, split, walks, -⟩ := enter_of_follow goes
    exact ⟨front, split, walks⟩

/-- Where a file is written stands no directory, but perhaps a file. -/
theorem target_eq_ok_iff {there : Location} : t.target path = .ok there ↔
    ∃ directory name, there = directory ++ [name] ∧ t.goal path = .ok (.entry directory name) ∧
      Path.endsInSlash path = false ∧ isLong name = false ∧ t.lookup there ≠ some .directory := by
  unfold target
  constructor
  · intro h
    split at h
    · contradiction
    · contradiction
    · next directory name goes =>
      split at h
      · contradiction
      · next plain =>
        split at h
        · contradiction
        · next short =>
          split at h
          · contradiction
          · next free =>
            obtain rfl := Except.ok.inj h
            exact ⟨directory, name, rfl, goes, by simpa using plain, by simpa using short, free⟩
  · rintro ⟨directory, name, rfl, goes, plain, short, free⟩
    simp [goes, plain, short, free]

theorem target_mono {there : Location} (same : u.workingDirectory = t.workingDirectory)
    (kept : ∀ p, t.lookup p = some .directory → u.lookup p = some .directory)
    (free : u.lookup there ≠ some .directory) (target : t.target path = .ok there) :
    u.target path = .ok there := by
  obtain ⟨directory, name, rfl, goes, plain, short, -⟩ := target_eq_ok_iff.1 target
  exact target_eq_ok_iff.2 ⟨directory, name, rfl, goal_mono same kept goes, plain, short, free⟩

theorem find_of_target {there : Location} (target : t.target path = .ok there)
    (stands : t.lookup there = some (.file content)) : t.find path = .ok (.file content) := by
  obtain ⟨directory, name, rfl, goes, plain, short, -⟩ := target_eq_ok_iff.1 target
  simp only [find, locate, goes, Goal.place, short, stands, plain, Bool.false_eq_true, if_false]

/-- A file that is written stands in no directory's place, so all directories stay. -/
theorem directory_put {there : Location} (free : t.lookup there ≠ some .directory)
    (found : t.lookup place = some .directory) :
    (t.put there node).lookup place = some .directory := by
  have something : there ≠ [] := by
    rintro rfl
    exact free (lookup_nil t)
  have apart : place ≠ there := by
    rintro rfl
    exact free found
  rw [lookup_put something, if_neg apart, found]

/-- The path that a file was written by leads to it. -/
theorem target_put {there : Location} (target : t.target path = .ok there) (content : Bytes) :
    (t.put there (.file content)).target path = .ok there ∧
      (t.put there (.file content)).find path = .ok (.file content) := by
  obtain ⟨directory, name, split, -, -, -, free⟩ := target_eq_ok_iff.1 target
  have something : there ≠ [] := by simp [split]
  have stands : (t.put there (.file content)).lookup there = some (.file content) := by
    rw [lookup_put something, if_pos rfl]
  have same : (t.put there (.file content)).workingDirectory = t.workingDirectory := rfl
  have again := target_mono same (fun _ => directory_put free) (by simp [stands]) target
  exact ⟨again, find_of_target again stands⟩

@[simp] theorem put_put (t : Tree) (place : Location) (first second : Node) :
    (t.put place first).put place second = t.put place second := by
  simp [put, remove, List.filter_filter]

theorem refuse?_join (passable : refuse? path = none) (named : IsName name)
    (short : (Path.join path name).utf8ByteSize < 4096) : refuse? (Path.join path name) = none := by
  have clean : Char.ofNat 0 ∉ path.toList := by
    intro member
    have refused : refuse? path = some .zeroByte := if_pos (by simpa using member)
    simp [passable] at refused
  have joined : Char.ofNat 0 ∉ (Path.join path name).toList :=
    Path.not_mem_join clean named.ended (by decide)
  rw [refuse?, if_neg, if_neg (Path.join_ne_empty named.something), if_neg (by omega)]
  simpa using joined

section Entry

variable (leads : t.Leads path place) (named : IsName name)
  (short : (Path.join path name).utf8ByteSize < 4096)

include leads named short

theorem Leads.goal : t.goal (Path.join path name) = .ok (.entry place name) := by
  have same : t.origin (Path.join path name) = t.origin path := by
    simp only [origin, Path.isAbsolute_join named.isStep]
  simp only [Tree.goal, refuse?_join leads.passable named short, same, follow,
    Path.steps_join named.isStep, List.dropLast_concat, List.getLast?_concat, leads.walks, named.here,
    named.up, if_false]

theorem Leads.locate : t.locate (Path.join path name) = .ok (place ++ [name]) := by
  simp [Tree.locate, leads.goal named short, Goal.place, isLong_eq named]

theorem Leads.find : t.find (Path.join path name) =
    match t.lookup (place ++ [name]) with
    | none => .error .notFound
    | some node => .ok node := by
  simp only [Tree.find, leads.locate named short, Path.endsInSlash_join named.isStep]
  cases t.lookup (place ++ [name]) with
  | none => rfl
  | some node => cases node <;> rfl

theorem Leads.join (found : t.lookup (place ++ [name]) = some .directory) :
    t.Leads (Path.join path name) (place ++ [name]) :=
  leads_iff.2 ⟨leads.locate named short, found⟩

theorem Leads.writeFile (free : t.lookup (place ++ [name]) ≠ some .directory) (content : Bytes) :
    t.writeFile (Path.join path name) content =
      (.ok (), t.put (place ++ [name]) (.file content)) := by
  simp [Tree.writeFile, target, leads.goal named short, Path.endsInSlash_join named.isStep,
    isLong_eq named, free]

theorem Leads.makeDirectories
    (free : ∀ content, t.lookup (place ++ [name]) ≠ some (.file content)) :
    t.makeDirectories (Path.join path name) =
      (.ok (), if t.lookup (place ++ [name]) = some .directory then t
        else t.put (place ++ [name]) .directory) := by
  have same : t.origin (Path.join path name) = t.origin path := by
    simp only [origin, Path.isAbsolute_join named.isStep]
  have walks : t.follow (t.origin path) (Path.steps path ++ [name]) = .ok (.entry place name) := by
    simp only [follow, List.dropLast_concat, List.getLast?_concat, leads.walks, named.here,
      named.up, if_false]
  have makes : t.makeDirectory (t.origin path) (Path.steps path ++ [name]) =
      (.ok (), if t.lookup (place ++ [name]) = some .directory then t
        else t.put (place ++ [name]) .directory) := by
    simp only [makeDirectory, walks, isLong_eq named]
    cases found : t.lookup (place ++ [name]) with
    | none => simp
    | some node =>
      cases node with
      | directory => simp
      | file content => exact absurd found (free content)
  have upward : makeUpward (t.origin path) (Path.steps path ++ [name]).reverse t =
      (.ok (), if t.lookup (place ++ [name]) = some .directory then t
        else t.put (place ++ [name]) .directory) := by
    rw [List.reverse_append, List.reverse_singleton, List.singleton_append, makeUpward,
      List.reverse_cons, List.reverse_reverse, makes]
  simp only [Tree.makeDirectories, Path.join_ne_empty named.something, if_false,
    refuse?_join leads.passable named short, same, Path.steps_join named.isStep, upward]

end Entry

/-- What is found by a path stands there, and the path is none that is refused. -/
theorem Leads.of_find (leads : t.Leads path place) (named : IsName name)
    (finds : t.find (Path.join path name) = .ok node) :
    t.lookup (place ++ [name]) = some node ∧ (Path.join path name).utf8ByteSize < 4096 := by
  by_cases short : (Path.join path name).utf8ByteSize < 4096
  · rw [leads.find named short] at finds
    refine ⟨?_, short⟩
    split at finds
    · contradiction
    · next other found => rw [found, Except.ok.inj finds]
  · have refused : ∃ fault, refuse? (Path.join path name) = some fault := by
      unfold refuse?
      split
      · exact ⟨_, rfl⟩
      · rw [if_neg (Path.join_ne_empty named.something), if_pos (by omega)]
        exact ⟨_, rfl⟩
    obtain ⟨fault, refused⟩ := refused
    simp [Tree.find, Tree.locate, Tree.goal, refused] at finds

theorem Leads.of_isDirectory (leads : t.Leads path place) (named : IsName name)
    (directory : t.isDirectory (Path.join path name) = true) :
    t.Leads (Path.join path name) (place ++ [name]) := by
  unfold isDirectory at directory
  split at directory
  · next finds =>
    obtain ⟨found, short⟩ := leads.of_find named finds
    exact leads.join named short found
  · contradiction

theorem Leads.list (leads : t.Leads path place) : t.list path = .ok (t.names place) := by
  obtain ⟨located, directory⟩ := leads_iff.1 leads
  simp [Tree.list, located, directory]

theorem Sound.mem_names (sound : t.Sound) :
    name ∈ t.names place ↔ ∃ node, t.lookup (place ++ [name]) = some node := by
  rw [names, List.mem_mergeSort, List.mem_filterMap]
  constructor
  · rintro ⟨⟨other, node⟩, member, kept⟩
    obtain ⟨same, last⟩ := Option.ite_none_right_eq_some.1 kept
    have split : other = place ++ [name] := by
      rw [← same]
      exact (List.dropLast_append_getLast? name last).symm
    exact ⟨node, (sound.mem_iff (by simp)).1 (split ▸ member)⟩
  · rintro ⟨node, found⟩
    exact ⟨(place ++ [name], node), (sound.mem_iff (by simp)).2 found, by simp⟩

/-- The names in a directory ascend. -/
theorem Sound.names_pairwise (sound : t.Sound) (place : Location) :
    (t.names place).Pairwise (· < ·) := by
  let last (other : Location) : Option String :=
    if other.dropLast = place then other.getLast? else none
  have split : ∀ other name, last other = some name → other = place ++ [name] := by
    intro other name kept
    obtain ⟨same, ends⟩ := Option.ite_none_right_eq_some.1 kept
    rw [← same]
    exact (List.dropLast_append_getLast? name ends).symm
  have listed : (t.names place).Perm ((t.nodes.map Prod.fst).filterMap last) := by
    rw [List.filterMap_map]
    exact List.mergeSort_perm _ _
  have distinct : (t.names place).Nodup := by
    rw [listed.nodup_iff]
    refine List.Nodup.filterMap ?_ sound.distinct
    intro first second name one two
    rw [split first name one, split second name two]
  have ascends : (t.names place).Pairwise (· ≤ ·) := List.sortedLE_mergeSort.pairwise
  exact ascends.imp₂ (fun a b le ne => lt_of_le_of_ne le ne) distinct

end DumpArchive.Tree
