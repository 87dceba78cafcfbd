import Mathlib.Data.List.Basic

/-!
# Unix paths

The two operations of `std::path` the receiver applies to a name it was sent, with
Unix rules: `fileName` is the last component after dropping empty and `.`
components, and nothing when that one is `..`; `join` appends a relative path.
`parts` are all components, as paths are compared by them.
-/
namespace Path

/-- The components of a path, without empty and `.` ones. -/
def components (path : List Char) : List (List Char) :=
  (path.splitOn '/').filter (fun c => c ≠ [] ∧ c ≠ ['.'])

/-- `Path::file_name`: the last component, if it names something. -/
def fileName (path : String) : Option String :=
  match (components path.toList).getLast? with
  | some c => if c = ['.', '.'] then none else some (String.ofList c)
  | none => none

/-- `Path::join`: an absolute `path` replaces the directory, a relative one is
appended after a separator. -/
def join (dir path : String) : String :=
  if path.toList.head? = some '/' then path
  else if dir.toList.getLast? = some '/' ∨ dir.toList = [] then dir ++ path
  else dir ++ "/" ++ path

/-- A piece of a split list has no separator in it. -/
theorem not_mem_of_mem_splitOn {α : Type} [DecidableEq α] {sep : α} {l piece : List α}
    (h : piece ∈ l.splitOn sep) : sep ∉ piece := by
  induction l generalizing piece with
  | nil => simp_all
  | cons x l ih =>
    rw [List.splitOn_cons_eq_if_modifyHead] at h
    split at h
    · rcases List.mem_cons.mp h with rfl | h
      · exact List.not_mem_nil
      · exact ih h
    · rename_i hx
      obtain ⟨first, rest, hsplit⟩ := List.exists_cons_of_ne_nil (List.splitOn_ne_nil sep l)
      rw [hsplit, List.modifyHead_cons] at h
      rcases List.mem_cons.mp h with rfl | h
      · have hfirst : sep ∉ first := ih (hsplit ▸ List.mem_cons_self)
        have hne : sep ≠ x := fun heq => hx (by simp [heq])
        exact List.not_mem_cons_of_ne_of_not_mem hne hfirst
      · exact ih (hsplit ▸ List.mem_cons_of_mem _ h)

/-- A name is one component: not empty, no separator in it, neither `.` nor `..`. -/
def IsComponent (name : String) : Prop :=
  '/' ∉ name.toList ∧ name.toList ≠ [] ∧ name.toList ≠ ['.'] ∧ name.toList ≠ ['.', '.']

/-- What `file_name` returns is one component. -/
theorem isComponent_of_fileName {path name : String} (h : fileName path = some name) :
    IsComponent name := by
  unfold fileName at h
  split at h
  · rename_i c hlast
    have hc := List.mem_of_getLast? hlast
    obtain ⟨hsplit, hkept⟩ := List.mem_filter.mp hc
    have hdots : c ≠ ['.', '.'] := by
      intro hdots
      simp [hdots] at h
    rw [if_neg hdots] at h
    cases h
    simp only [IsComponent, String.toList_ofList]
    have hkept : c ≠ [] ∧ c ≠ ['.'] := by simpa using hkept
    exact ⟨not_mem_of_mem_splitOn hsplit, hkept.1, hkept.2, hdots⟩
  · cases h

/-- The names `file_name` leaves as they are. -/
theorem fileName_eq_self_iff {name : String} : fileName name = some name ↔ IsComponent name := by
  refine ⟨isComponent_of_fileName, fun ⟨hsep, hne, hdot, hdots⟩ => ?_⟩
  have hcomponents : components name.toList = [name.toList] := by
    simp [components, List.splitOn_eq_singleton hsep, hne, hdot]
  simp [fileName, hcomponents, hdots]

/-! ## All components -/

/-- What `Path::components` yields: the root, a `.` at the start of a relative path, and
the other components. -/
inductive Part
  | rootDir
  | curDir
  | parentDir
  | normal (name : String)
  deriving DecidableEq, Repr

def Part.ofComponent (c : List Char) : Part :=
  if c = ['.', '.'] then .parentDir else .normal (String.ofList c)

/-- The root or the `.` at the start. -/
def start (path : List Char) : List Part :=
  if path.head? = some '/' then [.rootDir]
  else if (path.splitOn '/').head? = some ['.'] then [.curDir]
  else []

/-- `Path::components`. -/
def parts (path : String) : List Part :=
  start path.toList ++ (components path.toList).map Part.ofComponent

/-- `Path::parent`, by its components. -/
def parent (path : String) : Option (List Part) :=
  match (parts path).getLast? with
  | none | some .rootDir => none
  | some _ => some (parts path).dropLast

theorem start_cases (path : List Char) :
    start path = [.rootDir] ∨ start path = [.curDir] ∨ start path = [] := by
  unfold start
  split
  · exact .inl rfl
  · split
    · exact .inr (.inl rfl)
    · exact .inr (.inr rfl)

/-- `Path::file_name` as the last of the components. -/
theorem fileName_eq_getLast (path : String) :
    fileName path =
      match (parts path).getLast? with
      | some (.normal name) => some name
      | _ => none := by
  rw [fileName, parts, List.getLast?_append, List.getLast?_map]
  cases (components path.toList).getLast? with
  | none =>
    rw [Option.map_none, Option.none_or]
    rcases start_cases path.toList with hstart | hstart | hstart <;> rw [hstart] <;> rfl
  | some c =>
    rw [Option.map_some, Option.some_or, Part.ofComponent]
    by_cases hdots : c = ['.', '.']
    · simp only [if_pos hdots]
    · simp only [if_neg hdots]

variable {name : String}

theorem IsComponent.head_ne (h : IsComponent name) : name.toList.head? ≠ some '/' :=
  fun hhead => h.1 (List.mem_of_head? hhead)

theorem IsComponent.parts_eq (h : IsComponent name) :
    start name.toList = [] ∧ (components name.toList).map Part.ofComponent = [.normal name] := by
  have hhead := h.head_ne
  obtain ⟨hsep, hne, hdot, hdots⟩ := h
  have hsplit : name.toList.splitOn '/' = [name.toList] := List.splitOn_eq_singleton hsep
  have hcomponents : components name.toList = [name.toList] := by
    simp [components, hsplit, hne, hdot]
  refine ⟨?_, ?_⟩
  · rw [start, if_neg hhead, hsplit, List.head?_cons, if_neg (by simpa using hdot)]
  · rw [hcomponents, List.map_cons, List.map_nil, Part.ofComponent, if_neg hdots,
      String.ofList_toList]

/-- What follows a separator adds its own components. -/
theorem components_append_sep (dir rest : List Char) :
    components (dir ++ '/' :: rest) = components dir ++ components rest := by
  rw [components, List.splitOn_append_cons_self, List.filter_append]
  rfl

/-- The start of a path does not depend on what follows a separator. -/
theorem start_append_sep (dir rest : List Char) :
    start (dir ++ '/' :: rest) = start (dir ++ ['/']) := by
  have hhead : (dir ++ '/' :: rest).head? = (dir ++ ['/']).head? := by cases dir <;> rfl
  rw [start, start, hhead, List.splitOn_append_cons_self, List.splitOn_append_cons_self,
    List.head?_append_of_ne_nil _ (List.splitOn_ne_nil _ _),
    List.head?_append_of_ne_nil _ (List.splitOn_ne_nil _ _)]

theorem start_sep_end {dir : List Char} (hdir : dir ≠ []) : start (dir ++ ['/']) = start dir := by
  rw [start, List.splitOn_append_cons_self, List.head?_append_of_ne_nil _ hdir,
    List.head?_append_of_ne_nil _ (List.splitOn_ne_nil _ _)]
  rfl

/-- A path and a component after a separator. -/
theorem parts_append_sep {path : List Char} (dir : List Char) (h : IsComponent name)
    (hpath : path = dir ++ '/' :: name.toList) :
    start path ++ (components path).map Part.ofComponent =
      start (dir ++ ['/']) ++ (components dir).map Part.ofComponent ++ [.normal name] := by
  rw [hpath, start_append_sep, components_append_sep, List.map_append, h.parts_eq.2,
    List.append_assoc]

/-- **Joining a single component extends the path by it.** -/
theorem parts_join (dir : String) (h : IsComponent name) :
    parts (join dir name) = parts dir ++ [.normal name] := by
  have hnil : components [] = [] := rfl
  rw [join, if_neg h.head_ne]
  split
  · rename_i hend
    rcases hend with hsep | hempty
    · obtain ⟨front, hfront⟩ := List.getLast?_eq_some_iff.mp hsep
      rw [parts, parts, parts_append_sep front h, hfront, components_append_sep, hnil,
        List.append_nil]
      rw [String.toList_append, hfront, List.append_assoc]
      rfl
    · obtain ⟨hstart, hname⟩ := h.parts_eq
      rw [parts, parts, String.toList_append, hempty, List.nil_append, hstart, hname]
      rfl
  · rename_i hend
    have hne : dir.toList ≠ [] := fun hempty => hend (.inr hempty)
    rw [parts, parts, parts_append_sep dir.toList h, start_sep_end hne]
    rw [String.toList_append, String.toList_append, List.append_assoc]
    rfl

/-- The parent of what is joined to a path is that path. -/
theorem parent_join (dir : String) (h : IsComponent name) :
    parent (join dir name) = some (parts dir) := by
  rw [parent, parts_join dir h, List.getLast?_concat, List.dropLast_concat]

example : fileName "docs//report.pdf/./" = some "report.pdf" := by decide

example : fileName "../.." = none := by decide

end Path
