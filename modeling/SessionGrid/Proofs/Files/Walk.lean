import Mathlib.Data.List.Basic
import SessionGrid.Files.Directory
import SessionGrid.Proofs.Bindings

/-!
# Walking through directories

A path that leads to a file goes through directories, and without its last name it leads to the
directory that holds the file (`place_last`). What is added to a tree under a name that is not bound
leaves everything else as it was (`kept_insert`), and in a tree that keeps everything every path leads
where it led before (`Kept.place`).
-/

namespace SessionGrid.Directory

variable {d e : Directory} {p q : List String} {path name : String} {cs ds : List Char}

/-! ## Names -/

/-- Every path has a last name, which may be empty. -/
theorem names_ne_nil (cs : List Char) : names cs ≠ [] := by
  cases cs with
  | nil => exact nofun
  | cons c cs =>
    unfold names
    split
    · exact nofun
    · split <;> exact nofun

/-- A slash parts the names before it from those behind it. -/
theorem names_append_slash (cs ds : List Char) : names (cs ++ '/' :: ds) = names cs ++ names ds := by
  induction cs with
  | nil => rfl
  | cons c cs ih =>
    rw [List.cons_append, names, names, ih]
    split
    · rfl
    · cases parts : names cs with
      | nil => exact absurd parts (names_ne_nil cs)
      | cons n ns => rfl

/-- Without a slash a path is one name. -/
theorem names_of_not_mem (absent : '/' ∉ cs) : names cs = [cs] := by
  induction cs with
  | nil => rfl
  | cons c cs ih =>
    obtain ⟨other, absent⟩ := not_or.1 fun either => absent (List.mem_cons.2 either)
    rw [names, if_neg (Ne.symm other), ih absent]

/-- A name that a file can have. -/
structure IsName (name : String) : Prop where
  ne_empty : name ≠ ""
  ne_dot : name ≠ "."
  ne_up : name ≠ ".."
  oneName : '/' ∉ name.toList

theorem IsName.names (isName : IsName name) : (names name.toList).map String.ofList = [name] := by
  rw [names_of_not_mem isName.oneName, List.map_singleton, String.ofList_toList]

/-- What is held under a place with a last name is an entry of the tree. -/
theorem IsName.entry? (isName : IsName name) (d : Directory) (p : List String) :
    d.entry? (p ++ [name]) = Bindings.find? (join (p ++ [name])) d := by
  have noTop : p ++ [name] ≠ top := by
    intro same
    have last := congrArg List.getLast? same
    simp [top, isName.ne_empty] at last
  have noAbove : ¬ isAbove (p ++ [name]) = true := by
    simp [isAbove, isName.ne_up]
  rw [Directory.entry?, if_neg (not_or.2 ⟨noTop, noAbove⟩)]

/-! ## Directories on the way -/

/-- The place and all on the way to it are directories. -/
def Open (d : Directory) (place : List String) : Prop :=
  ∀ p, p <+: place → d.entry? p = some .directory

/-- What lies above the tree is a directory. -/
theorem entry?_of_isAbove (above : isAbove p = true) (d : Directory) :
    d.entry? p = some .directory :=
  if_pos (.inr above)

/-- The way to the root is open. -/
theorem open_nil (d : Directory) : d.Open [] := by
  intro p before
  rw [List.prefix_nil.1 before]
  exact entry?_of_isAbove rfl d

/-- A way is still open with one more directory at its end. -/
theorem Open.concat (way : d.Open p) (dir : d.entry? (p ++ [name]) = some .directory) :
    d.Open (p ++ [name]) := by
  intro q before
  rcases List.prefix_concat_iff.1 before with rfl | before
  · exact dir
  · exact way q before

theorem open_top (d : Directory) : d.Open top :=
  (open_nil d).concat (if_pos (.inl rfl))

/-- The way to what is above an open place is open. -/
theorem Open.up (way : d.Open p) : d.Open (up p) := by
  unfold Directory.up
  split_ifs with top above
  · exact open_top d
  · apply way.concat
    apply entry?_of_isAbove
    simpa [isAbove] using above
  · intro q before
    exact way q (before.trans (List.dropLast_prefix p))

/-- A name of a directory leads into it, and the walk goes on there. -/
theorem walk_directory (isName : name ≠ "" ∧ name ≠ "." ∧ name ≠ "..")
    (short : ¬ maxName < name.utf8ByteSize) (dir : d.entry? (p ++ [name]) = some .directory)
    (ns : List String) : d.walk p (name :: ns) = d.walk (p ++ [name]) ns := by
  obtain ⟨ne_empty, ne_dot, ne_up⟩ := isName
  rw [walk, if_neg (not_or.2 ⟨ne_empty, ne_dot⟩), if_neg ne_up, if_neg short, dir]
  split_ifs with last
  · rw [last, walk]
  · rfl

/-- A walk to a file goes to the directory that holds it, with a slash at the end or without. -/
theorem walk_last (isName : IsName name) {ns : List String} (way : d.Open p)
    (led : d.walk p (ns ++ [name]) = .ok q) :
    ∃ parent, q = parent ++ [name] ∧ d.Open parent ∧ d.walk p ns = .ok parent ∧
      d.walk p (ns ++ [""]) = .ok parent := by
  -- By induction on the names before the last one: each of them leads to a directory that is open.
  induction ns generalizing p with
  | nil =>
    have noDot : ¬ (name = "" ∨ name = ".") := not_or.2 ⟨isName.ne_empty, isName.ne_dot⟩
    rw [List.nil_append, walk, if_neg noDot, if_neg isName.ne_up] at led
    split_ifs at led with long last
    · cases led
      exact ⟨p, rfl, way, rfl, by simp [walk]⟩
    · exact absurd rfl last
  | cons n ns ih =>
    rw [List.cons_append, walk] at led
    split_ifs at led with stays goesUp long last
    · obtain ⟨parent, place, held, plain, slash⟩ := ih way led
      refine ⟨parent, place, held, ?_, ?_⟩
      · rw [walk, if_pos stays, plain]
      · rw [List.cons_append, walk, if_pos stays, slash]
    · obtain ⟨parent, place, held, plain, slash⟩ := ih way.up led
      refine ⟨parent, place, held, ?_, ?_⟩
      · rw [walk, if_neg stays, if_pos goesUp, plain]
      · rw [List.cons_append, walk, if_neg stays, if_pos goesUp, slash]
    · simp at last
    · split at led
      · next dir =>
        obtain ⟨ne_empty, ne_dot⟩ := not_or.1 stays
        have own := walk_directory ⟨ne_empty, ne_dot, goesUp⟩ long dir
        obtain ⟨parent, place, held, plain, slash⟩ := ih (way.concat dir) led
        refine ⟨parent, place, held, ?_, ?_⟩
        · rw [own, plain]
        · rw [List.cons_append, own, slash]
      · cases led
      · cases led

/-! ## Paths -/

/-- A relative path goes from the top of the tree through all its names. -/
theorem route_of_ne {c : Char} (slash : c ≠ '/') (cs : List Char) :
    route (c :: cs) = ([], (names (c :: cs)).map String.ofList) := by
  unfold route
  split
  · next same =>
    cases same
    exact absurd rfl slash
  · rfl

/-- A path that is neither empty nor too long is walked along its route. -/
theorem place_eq (named : path.toList ≠ []) (short : ¬ maxPath < path.utf8ByteSize) :
    d.place path = d.walk (route path.toList).1 (route path.toList).2 := by
  rw [Directory.place, if_neg short]
  split
  · next empty => exact absurd empty named
  · rfl

/-- A route starts at a place whose way is open. -/
theorem open_route (d : Directory) (cs : List Char) : d.Open (route cs).1 := by
  unfold route
  split
  · exact open_top d
  · exact open_nil d

/-- More names behind a path only make its route longer. -/
theorem route_append (some : cs ≠ []) (ds : List Char) :
    route (cs ++ '/' :: ds) = ((route cs).1, (route cs).2 ++ (names ds).map String.ofList) := by
  cases cs with
  | nil => exact absurd rfl some
  | cons c cs =>
    by_cases slash : c = '/'
    · subst slash
      simp [route, names_append_slash]
    · rw [List.cons_append, route_of_ne slash, route_of_ne slash, ← List.cons_append,
        names_append_slash, List.map_append]

/-- A path that leads somewhere is not too long. -/
theorem not_tooLong (led : d.place path = .ok q) : ¬ maxPath < path.utf8ByteSize := by
  intro long
  rw [Directory.place, if_pos long] at led
  cases led

/-- A path to a file leads through the directory that holds it, whose path ends before the last slash or
with it. -/
theorem place_last {parent : String} (isName : IsName name)
    (text : path.toList = cs ++ '/' :: name.toList)
    (directory : cs ≠ [] ∧ parent.toList = cs ∨ parent.toList = cs ++ ['/'])
    (shorter : parent.utf8ByteSize ≤ path.utf8ByteSize) (led : d.place path = .ok q) :
    ∃ p, q = p ++ [name] ∧ d.place parent = .ok p ∧ d.entry? p = some .directory := by
  have short := not_tooLong led
  have short' : ¬ maxPath < parent.utf8ByteSize := by omega
  have named : path.toList ≠ [] := by simp [text]
  have named' : parent.toList ≠ [] := by
    rcases directory with ⟨some, same⟩ | same
    · rwa [same]
    · simp [same]
  rw [place_eq named short, text] at led
  by_cases root : cs = []
  · subst root
    have same : parent.toList = ['/'] := directory.resolve_left fun other => other.1 rfl
    have way : route ('/' :: name.toList) = (top, [] ++ [name]) :=
      congrArg (Prod.mk top) isName.names
    rw [List.nil_append, way] at led
    obtain ⟨p, place, held, -, slash⟩ := walk_last isName (open_top d) led
    refine ⟨p, place, ?_, held p List.prefix_rfl⟩
    rw [place_eq named' short', same]
    exact slash
  · rw [route_append root, isName.names] at led
    obtain ⟨p, place, held, plain, slash⟩ := walk_last isName (open_route d cs) led
    refine ⟨p, place, ?_, held p List.prefix_rfl⟩
    rw [place_eq named' short']
    rcases directory with ⟨-, same⟩ | same
    · rw [same]
      exact plain
    · rw [same, route_append root]
      exact slash

/-- There is a directory under the path. -/
def IsDirectory (d : Directory) (path : String) : Prop :=
  ∃ place, d.place path = .ok place ∧ d.entry? place = some .directory

/-! ## Trees that keep everything -/

/-- What is there in the first tree is there in the second as it was. -/
def Kept (d e : Directory) : Prop :=
  ∀ key x, Bindings.find? key d = some x → Bindings.find? key e = some x

theorem Kept.refl (d : Directory) : Kept d d := fun _ _ found => found

theorem Kept.trans {c : Directory} (first : Kept c d) (second : Kept d e) : Kept c e :=
  fun key x found => second key x (first key x found)

/-- A new name leaves all entries as they were. -/
theorem kept_insert {key : String} (new : Bindings.find? key d = none) (x : Entry) :
    Kept d (Bindings.insert key x d) := by
  intro other y found
  have ne : key ≠ other := by
    rintro rfl
    rw [new] at found
    cases found
  rw [Bindings.find?_insert, if_neg ne, found]

/-- An entry that is kept is found at the same place. -/
theorem Kept.entry? (kept : Kept d e) {x : Entry} (found : d.entry? p = some x) :
    e.entry? p = some x := by
  unfold Directory.entry? at found ⊢
  split at found
  · next above => rw [if_pos above, found]
  · next inside =>
    rw [if_neg inside]
    exact kept _ _ found

/-- A walk through kept directories ends where it ended. -/
theorem Kept.walk (kept : Kept d e) {ns : List String} (led : d.walk p ns = .ok q) :
    e.walk p ns = .ok q := by
  induction ns generalizing p with
  | nil => exact led
  | cons n ns ih =>
    rw [Directory.walk] at led ⊢
    split_ifs at led ⊢ with stays goesUp long last
    · exact ih led
    · exact ih led
    · exact led
    · split at led
      · next dir =>
        rw [kept.entry? dir]
        exact ih led
      · cases led
      · cases led

/-- Paths lead where they led before. -/
theorem Kept.place (kept : Kept d e) (led : d.place path = .ok q) : e.place path = .ok q := by
  have short := not_tooLong led
  by_cases named : path.toList = []
  · rw [Directory.place, if_neg short, named] at led
    cases led
  · rw [place_eq named short] at led ⊢
    exact kept.walk led

end SessionGrid.Directory
