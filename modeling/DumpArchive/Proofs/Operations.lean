import DumpArchive.Proofs.Trees

/-! Operations on a tree, one after another. What they put below a directory changes the way to it
and the places that are meant, and leaves everything else as it was. -/
namespace DumpArchive.Tree

open DumpArchive.Path (IsStep)

variable {t u v : Tree} {root db name : String} {share wider : Location → Node → Prop}
  {here below p : Location} {node : Node} {content : Bytes}

inductive Operation where
  | makeDirectories (path : String)
  | writeFile (path : String) (content : Bytes)

def Operation.attempt (t : Tree) : Operation → Except Fault Unit × Tree
  | .makeDirectories path => t.makeDirectories path
  | .writeFile path content => t.writeFile path content

/-- The tree after an operation, whether it succeeds or not. -/
def Operation.perform (t : Tree) (o : Operation) : Tree := (o.attempt t).2

/-- Operations that all succeed, one after another. -/
def Succeed : List Operation → Tree → Prop
  | [], _ => True
  | o :: rest, t => (o.attempt t).1 = .ok () ∧ Succeed rest (o.perform t)

theorem succeed_append {front back : List Operation} :
    Succeed (front ++ back) t ↔
      Succeed front t ∧ Succeed back (front.foldl Operation.perform t) := by
  induction front generalizing t with
  | nil => simp [Succeed]
  | cons o rest ih => simp [Succeed, ih, and_assoc]

/-- Operations one after another, until one fails. -/
def attemptAll : List Operation → Tree → Except Fault Unit × Tree
  | [], t => (.ok (), t)
  | o :: rest, t => match o.attempt t with
    | (.error fault, t) => (.error fault, t)
    | (.ok (), t) => attemptAll rest t

theorem attemptAll_append (front back : List Operation) (t : Tree) :
    attemptAll (front ++ back) t = match attemptAll front t with
      | (.error fault, t) => (.error fault, t)
      | (.ok (), t) => attemptAll back t := by
  induction front generalizing t with
  | nil => rfl
  | cons o rest ih =>
    rw [List.cons_append, attemptAll, attemptAll]
    rcases o.attempt t with ⟨fault | _, u⟩
    · rfl
    · exact ih u

theorem attemptAll_eq_ok_iff {operations : List Operation} :
    attemptAll operations t = (.ok (), u) ↔
      Succeed operations t ∧ operations.foldl Operation.perform t = u := by
  induction operations generalizing t with
  | nil => simp [attemptAll, Succeed]
  | cons o rest ih =>
    rw [attemptAll, Succeed, List.foldl_cons, Operation.perform]
    rcases o.attempt t with ⟨fault | _, v⟩
    · simp
    · simp [ih]

/-- An operation for a place below a directory: a directory in it, or a file in one of those. -/
inductive Puts (root : String) : Location → Node → Operation → Prop
  | directory {db : String} : IsStep db →
    Puts root [db] .directory (.makeDirectories (Path.join root db))
  | file {db name : String} {content : Bytes} : IsStep db → IsStep name →
    Puts root [db, name] (.file content) (.writeFile (Path.join (Path.join root db) name) content)

/-- Operations for nothing but a share of the places below a directory. -/
def Performed (root : String) (share : Location → Node → Prop) (t u : Tree) : Prop :=
  ∃ operations : List Operation,
    (∀ o ∈ operations, ∃ below node, share below node ∧ Puts root below node o) ∧
      operations.foldl Operation.perform t = u

namespace Performed

@[simp] theorem refl (t : Tree) : Performed root share t t := ⟨[], by simp, rfl⟩

theorem trans (first : Performed root share t u) (second : Performed root share u v) :
    Performed root share t v := by
  obtain ⟨front, allowed, rfl⟩ := first
  obtain ⟨back, also, rfl⟩ := second
  exact ⟨front ++ back, List.forall_mem_append.2 ⟨allowed, also⟩, List.foldl_append⟩

theorem mono (performed : Performed root share t u)
    (more : ∀ below node, share below node → wider below node) : Performed root wider t u := by
  obtain ⟨operations, allowed, done⟩ := performed
  refine ⟨operations, fun o member => ?_, done⟩
  obtain ⟨below, node, within, puts⟩ := allowed o member
  exact ⟨below, node, more below node within, puts⟩

theorem one {o : Operation} (within : share below node) (puts : Puts root below node o) (t : Tree) :
    Performed root share t (o.attempt t).2 :=
  ⟨[o], by simpa using ⟨_, _, within, puts⟩, rfl⟩

/-- What is left when operations stop at the first that fails is due to those before, and to it. -/
theorem attemptAll {operations : List Operation}
    (allowed : ∀ o ∈ operations, ∃ below node, share below node ∧ Puts root below node o)
    (t : Tree) : Performed root share t (attemptAll operations t).2 := by
  induction operations generalizing t with
  | nil => exact .refl t
  | cons o rest ih =>
    obtain ⟨⟨below, node, within, puts⟩, others⟩ := List.forall_mem_cons.1 allowed
    have first := one within puts t
    rw [Tree.attemptAll]
    split
    · next tried => simpa only [tried] using first
    · next u tried =>
      have first : Performed root share t u := by simpa only [tried] using first
      exact first.trans (ih others u)

end Performed

/-- A place on the way to a directory, or one of its share below it. -/
inductive Reached (u : Tree) (root : String) (share : Location → Node → Prop) :
    Location → Node → Prop
  | way {front : List String} {p : Location} : front <+: Path.steps root →
    u.enter (u.origin root) front = .ok p → Reached u root share p .directory
  | below {place below : Location} {node : Node} :
    u.enter (u.origin root) (Path.steps root) = .ok place → share below node →
    Reached u root share (place ++ below) node

theorem Reached.mono (reached : Reached t root share p node)
    (same : u.workingDirectory = t.workingDirectory)
    (kept : ∀ p, t.lookup p = some .directory → u.lookup p = some .directory)
    (more : ∀ below node, share below node → wider below node) : Reached u root wider p node := by
  have walk {front : List String} {q : Location} (walks : t.enter (t.origin root) front = .ok q) :
      u.enter (u.origin root) front = .ok q := by
    rw [origin_congr same]
    exact enter_mono kept walks
  cases reached with
  | way front walks => exact .way front (walk walks)
  | below walks within => exact .below (walk walks) (more _ _ within)

/-- Trees that differ only on the way to a directory and in a share below it. Directories are made
where nothing was, and none is lost. -/
structure Confined (root : String) (share : Location → Node → Prop) (t u : Tree) : Prop where
  home : u.workingDirectory = t.workingDirectory
  kept : ∀ p, t.lookup p = some .directory → u.lookup p = some .directory
  changed : ∀ p, u.lookup p ≠ t.lookup p → ∃ node, u.lookup p = some node ∧
    Reached u root share p node ∧ (node = .directory → t.lookup p = none)

namespace Confined

theorem refl (t : Tree) : Confined root share t t where
  home := rfl
  kept _ found := found
  changed _ apart := absurd rfl apart

theorem trans (first : Confined root share t u) (second : Confined root share u v) :
    Confined root share t v where
  home := second.home.trans first.home
  kept p found := second.kept p (first.kept p found)
  changed := by
    intro p apart
    by_cases same : v.lookup p = u.lookup p
    · obtain ⟨node, found, reached, fresh⟩ := first.changed p (same ▸ apart)
      exact ⟨node, same.trans found,
        reached.mono second.home second.kept (fun _ _ within => within), fresh⟩
    · obtain ⟨node, found, reached, fresh⟩ := second.changed p same
      refine ⟨node, found, reached, fun made => ?_⟩
      by_contra something
      -- what was there before would have been lost in between
      obtain ⟨other, kept, -⟩ := first.changed p fun also => something (also ▸ fresh made)
      simp [fresh made] at kept

theorem put {place : Location} (something : place ≠ [])
    (free : t.lookup place ≠ some .directory) (fresh : node = .directory → t.lookup place = none)
    (reached : Reached (t.put place node) root share place node) :
    Confined root share t (t.put place node) where
  home := rfl
  kept _ := directory_put free
  changed := by
    intro p apart
    rw [lookup_put something] at apart ⊢
    split at apart
    · next same =>
      subst same
      exact ⟨node, if_pos rfl, reached, fresh⟩
    · contradiction

end Confined

/-- A directory is made where its path leads, if all steps before the last do and nothing stands
there. -/
theorem makeDirectory_cases (here : Location) (steps : List String) (t : Tree) :
    (t.makeDirectory here steps).2 = t ∨ ∃ front name place, steps = front ++ [name] ∧
      t.enter here front = .ok place ∧ t.lookup (place ++ [name]) = none ∧
      (t.makeDirectory here steps).2 = t.put (place ++ [name]) .directory ∧
      (t.put (place ++ [name]) .directory).enter here steps = .ok (place ++ [name]) := by
  unfold makeDirectory
  split
  · exact .inl rfl
  · exact .inl rfl
  · next place name goes =>
    split
    · exact .inl rfl
    · next short =>
      split
      · exact .inl rfl
      · exact .inl rfl
      · next missing =>
        obtain ⟨front, rfl, walks, dot, dots⟩ := enter_of_follow goes
        have kept : ∀ q, t.lookup q = some .directory →
            (t.put (place ++ [name]) .directory).lookup q = some .directory :=
          fun q => directory_put (by simp [missing])
        refine .inr ⟨front, name, place, rfl, walks, missing, rfl, ?_⟩
        exact (enter_concat dot dots).2 ⟨place, enter_mono kept walks, rfl, by simpa using short,
          by rw [lookup_put (by simp), if_pos rfl]⟩

theorem confined_makeDirectory {steps : List String} (within : share [db] .directory)
    (front : steps <+: Path.steps root ++ [db]) :
    Confined root share t (t.makeDirectory (t.origin root) steps).2 := by
  rcases makeDirectory_cases (t.origin root) steps t with
    same | ⟨before, name, place, rfl, walks, missing, made, leads⟩
  · rw [same]
    exact .refl t
  · rw [made]
    refine .put (by simp) (by simp [missing]) (fun _ => missing) ?_
    rcases List.prefix_concat_iff.1 front with whole | early
    · obtain ⟨rfl, rfl⟩ := List.append_inj' whole rfl |>.imp_right List.singleton_inj.1
      exact .below (enter_mono (fun q => directory_put (by simp [missing])) walks) within
    · exact .way early leads

theorem confined_makeUpward {above : List String} (within : share [db] .directory)
    (front : above.reverse <+: Path.steps root ++ [db]) :
    Confined root share t (makeUpward (t.origin root) above t).2 := by
  induction above generalizing t with
  | nil => exact .refl t
  | cons name above ih =>
    have make (t : Tree) := confined_makeDirectory (t := t) within front
    have climb (t : Tree) := ih (t := t) <| by
      rw [List.reverse_cons] at front
      exact (List.prefix_append ..).trans front
    rw [makeUpward]
    split
    · next u tried =>
      have first : Confined root share t u := by simpa only [tried] using make t
      have second := climb u
      rw [origin_congr first.home] at second
      split
      · next fault v climbed => exact first.trans (by simpa only [climbed] using second)
      · next v climbed =>
        have second : Confined root share u v := by simpa only [climbed] using second
        have third := make v
        rw [origin_congr (second.home.trans first.home)] at third
        exact first.trans (second.trans third)
    · next result u _ tried => simpa only [tried] using make t

theorem confined_makeDirectories (step : IsStep db) (within : share [db] .directory) (t : Tree) :
    Confined root share t (t.makeDirectories (Path.join root db)).2 := by
  have same : t.origin (Path.join root db) = t.origin root := by
    simp only [origin, Path.isAbsolute_join step]
  rw [makeDirectories, if_neg (Path.join_ne_empty step.something)]
  split
  · exact .refl t
  · rw [same, Path.steps_join step]
    exact confined_makeUpward within (by simp)

/-- A file in a directory in a directory is written two steps below the first one. -/
theorem place_of_target {there : Location} (step : IsStep db) (named : IsStep name)
    (target : t.target (Path.join (Path.join root db) name) = .ok there) :
    ∃ place, t.enter (t.origin root) (Path.steps root) = .ok place ∧
      there = place ++ [db, name] := by
  obtain ⟨directory, last, rfl, goes, -⟩ := target_eq_ok_iff.1 target
  obtain ⟨front, split, walks⟩ := enter_of_goal goes
  rw [Path.steps_join named, Path.steps_join step] at split
  obtain ⟨rfl, rfl⟩ := List.append_inj' split rfl |>.imp_right List.singleton_inj.1
  have same : t.origin (Path.join (Path.join root db) name) = t.origin root := by
    simp only [origin, Path.isAbsolute_join named, Path.isAbsolute_join step]
  rw [same] at walks
  obtain ⟨place, enters, rfl, -⟩ := (enter_concat step.here step.up).1 walks
  exact ⟨place, enters, by simp⟩

theorem confined_writeFile (step : IsStep db) (named : IsStep name)
    (within : share [db, name] (.file content)) (t : Tree) :
    Confined root share t (t.writeFile (Path.join (Path.join root db) name) content).2 := by
  rw [writeFile]
  split
  · exact .refl t
  · next there target =>
    obtain ⟨-, -, -, -, -, -, free⟩ := target_eq_ok_iff.1 target
    obtain ⟨place, enters, rfl⟩ := place_of_target step named target
    exact .put (by simp) free (by simp)
      (.below (enter_mono (fun q => directory_put free) enters) within)

/-- A file whose place is shared out with nothing but its content is found afterwards. -/
theorem Confined.find {there : Location} (confined : Confined root share t u)
    (step : IsStep db) (named : IsStep name)
    (target : t.target (Path.join (Path.join root db) name) = .ok there)
    (stands : t.lookup there = some (.file content))
    (only : ∀ node, share [db, name] node → node = .file content) :
    u.find (Path.join (Path.join root db) name) = .ok (.file content) := by
  obtain ⟨place, enters, rfl⟩ := place_of_target step named target
  have same : u.lookup (place ++ [db, name]) = some (.file content) := by
    by_contra apart
    obtain ⟨node, found, reached, fresh⟩ := confined.changed _ (stands ▸ apart)
    generalize spot : place ++ [db, name] = there at reached
    cases reached with
    | way =>
      rw [fresh rfl] at stands
      contradiction
    | below again within =>
      rw [origin_congr confined.home, enter_mono confined.kept enters] at again
      obtain rfl := Except.ok.inj again
      obtain rfl := List.append_cancel_left spot
      exact apart (found.trans (congrArg some (only _ within)))
  have free : u.lookup (place ++ [db, name]) ≠ some .directory := by simp [same]
  exact find_of_target (target_mono confined.home confined.kept free target) same

/-- Operations for a share of the places below a directory change nothing else. -/
theorem Performed.confined (performed : Performed root share t u) : Confined root share t u := by
  obtain ⟨operations, allowed, rfl⟩ := performed
  induction operations generalizing t with
  | nil => exact .refl t
  | cons o rest ih =>
    obtain ⟨⟨below, node, within, puts⟩, others⟩ := List.forall_mem_cons.1 allowed
    refine Confined.trans ?_ (ih others)
    cases puts with
    | directory step => exact confined_makeDirectories step within t
    | file step named => exact confined_writeFile step named within t

/-- The tree in which one of some operations that succeed has written its file, and all else. -/
theorem written_of_succeed {operations : List Operation} {path : String}
    (allowed : ∀ o ∈ operations, ∃ below node, share below node ∧ Puts root below node o)
    (succeed : Succeed operations t) (member : .writeFile path content ∈ operations) :
    ∃ mid there, Tree.target mid path = .ok there ∧
      Performed root share (mid.put there (.file content)) (operations.foldl Operation.perform t) := by
  obtain ⟨front, back, rfl⟩ := List.append_of_mem member
  obtain ⟨written, -⟩ := (succeed_append.1 succeed).2
  rw [List.foldl_append, List.foldl_cons]
  generalize front.foldl Operation.perform t = mid at written
  rw [Operation.attempt, Tree.writeFile] at written
  split at written
  · contradiction
  · next there target =>
    have performs : Operation.perform mid (.writeFile path content) =
        mid.put there (.file content) := by
      simp only [Operation.perform, Operation.attempt, Tree.writeFile, target]
    rw [performs]
    exact ⟨mid, there, target, back, fun o later => allowed o (by simp [later]), rfl⟩

/-- A file that was written is found when all is done, if all else leaves its place alone. -/
theorem find_of_succeed {operations : List Operation}
    (allowed : ∀ o ∈ operations, ∃ below node, share below node ∧ Puts root below node o)
    (succeed : Succeed operations t) (step : IsStep db) (named : IsStep name)
    (member : .writeFile (Path.join (Path.join root db) name) content ∈ operations)
    (only : ∀ node, share [db, name] node → node = .file content) :
    (operations.foldl Operation.perform t).find (Path.join (Path.join root db) name) =
      .ok (.file content) := by
  obtain ⟨mid, there, target, after⟩ := written_of_succeed allowed succeed member
  obtain ⟨again, -⟩ := target_put target content
  obtain ⟨directory, last, split, -⟩ := target_eq_ok_iff.1 target
  have stands : (mid.put there (.file content)).lookup there = some (.file content) := by
    rw [lookup_put (by simp [split]), if_pos rfl]
  exact after.confined.find step named again stands only

theorem locate_mono {place : Location} (same : u.workingDirectory = t.workingDirectory)
    (kept : ∀ p, t.lookup p = some .directory → u.lookup p = some .directory)
    {path : String} (leads : t.locate path = .ok place) : u.locate path = .ok place := by
  unfold locate at leads ⊢
  split at leads
  · contradiction
  · next goal goes => simpa only [goal_mono same kept goes] using leads

/-- Where the path of a file leads when it has been written and all is done. -/
theorem locate_of_succeed {operations : List Operation}
    (allowed : ∀ o ∈ operations, ∃ below node, share below node ∧ Puts root below node o)
    (succeed : Succeed operations t) (step : IsStep db) (named : IsStep name)
    (member : .writeFile (Path.join (Path.join root db) name) content ∈ operations) {place : Location}
    (enters : (operations.foldl Operation.perform t).enter
      ((operations.foldl Operation.perform t).origin root) (Path.steps root) = .ok place) :
    (operations.foldl Operation.perform t).locate (Path.join (Path.join root db) name) =
      .ok (place ++ [db, name]) := by
  obtain ⟨mid, there, target, after⟩ := written_of_succeed allowed succeed member
  obtain ⟨again, -⟩ := target_put target content
  obtain ⟨other, walks, rfl⟩ := place_of_target step named again
  have confined := after.confined
  rw [← origin_congr confined.home] at walks
  obtain rfl : other = place :=
    Except.ok.inj ((enter_mono confined.kept walks).symm.trans enters)
  obtain ⟨directory, last, split, goes, -, short, -⟩ := target_eq_ok_iff.1 again
  refine locate_mono confined.home confined.kept ?_
  rw [locate, goes, split]
  simp [Goal.place, short]

end DumpArchive.Tree
