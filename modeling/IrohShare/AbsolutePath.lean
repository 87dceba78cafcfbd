import IrohShare.Path

/-!
# Absolute paths

`std::path::absolute` with Unix rules: no link is followed and `..` stays; a relative
path is put behind the working directory, repeated separators and `.` components go,
two slashes at the start stay two, and so does one at the end.

Its components are those of the path, behind those of the working directory if the path
is relative, so a path keeps its `file_name`.  What comes out is a normal form, which is
left as it is by any process in any directory.
-/
namespace Path

/-- A component as the path of that component alone. -/
def Part.toPath : Part → String
  | rootDir => "/"
  | curDir => "."
  | parentDir => ".."
  | normal name => name

/-- `strip_prefix(".")` where it applies. -/
def stripCurDir : List Part → List Part
  | .curDir :: rest => rest
  | ps => ps

/-- `PathBuf::extend`: one `push` for each component. -/
def pushAll (base : String) (ps : List Part) : String :=
  ps.foldl (fun p part => join p part.toPath) base

/-- A path starts with a separator. -/
def IsAbsolute (path : String) : Prop := path.toList.head? = some '/'

instance (path : String) : Decidable (IsAbsolute path) :=
  inferInstanceAs (Decidable (path.toList.head? = some '/'))

/-- `std::path::absolute`; `currentDir` is asked for relative paths only. -/
def absolute (currentDir : Except String String) (path : String) : Except String String :=
  if path.toList = [] then .error "cannot make an empty path absolute"
  else
    let components := stripCurDir (parts path)
    let normalized :=
      if IsAbsolute path then
        if path.toList.take 2 = ['/', '/'] ∧ path.toList.take 3 ≠ ['/', '/', '/'] then
          .ok (pushAll "//" components.tail)
        else .ok (pushAll "" components)
      else currentDir.map (fun dir => pushAll dir components)
    if path.toList.getLast? = some '/' then normalized.map (fun p => join p "") else normalized

/-- A component other than the root and `.`. -/
def Part.Proper : Part → Prop
  | rootDir | curDir => False
  | parentDir => True
  | normal name => IsComponent name

theorem proper_of_mem_components {path : List Char} {part : Part}
    (h : part ∈ (components path).map Part.ofComponent) : part.Proper := by
  obtain ⟨c, hc, rfl⟩ := List.mem_map.mp h
  obtain ⟨hsplit, hkept⟩ := List.mem_filter.mp hc
  have hkept : c ≠ [] ∧ c ≠ ['.'] := by simpa using hkept
  unfold Part.ofComponent
  split
  · trivial
  · rename_i hdots
    simp only [Part.Proper, IsComponent, String.toList_ofList]
    exact ⟨not_mem_of_mem_splitOn hsplit, hkept.1, hkept.2, hdots⟩

/-- Pushing `..` extends the path by it. -/
theorem parts_join_parentDir (dir : String) :
    parts (join dir "..") = parts dir ++ [.parentDir] := by
  have hhead : ("..".toList.head? = some '/') = False := by decide
  have hcomponents : (components "..".toList).map Part.ofComponent = [.parentDir] := by decide
  have hsep : ∀ front : List Char, start (front ++ '/' :: "..".toList) ++
      (components (front ++ '/' :: "..".toList)).map Part.ofComponent =
      start (front ++ ['/']) ++ (components front).map Part.ofComponent ++ [.parentDir] := by
    intro front
    rw [start_append_sep, components_append_sep, List.map_append, hcomponents, List.append_assoc]
  rw [join, if_neg (by rw [hhead]; exact id)]
  split
  · rename_i hend
    rcases hend with hslash | hempty
    · obtain ⟨front, hfront⟩ := List.getLast?_eq_some_iff.mp hslash
      have hdir : parts dir =
        start (front ++ ['/']) ++ (components front).map Part.ofComponent := by
        rw [parts, hfront, components_append_sep]
        simp [show components [] = [] from rfl]
      rw [hdir, ← hsep front, parts, String.toList_append, hfront, List.append_assoc]
      rfl
    · rw [parts, parts, String.toList_append, hempty]
      rfl
  · rename_i hend
    have hne : dir.toList ≠ [] := fun hempty => hend (.inr hempty)
    have hjoined : (dir ++ "/" ++ "..").toList = dir.toList ++ '/' :: "..".toList := by
      rw [String.toList_append, String.toList_append, List.append_assoc]
      rfl
    rw [parts, hjoined, hsep dir.toList, start_sep_end hne, parts]

theorem parts_join_proper (dir : String) {part : Part} (h : part.Proper) :
    parts (join dir part.toPath) = parts dir ++ [part] := by
  cases part with
  | rootDir | curDir => exact h.elim
  | parentDir => exact parts_join_parentDir dir
  | normal name => exact parts_join dir h

/-- **Pushing components extends the path by them.** -/
theorem parts_pushAll (base : String) {ps : List Part} (h : ∀ part ∈ ps, part.Proper) :
    parts (pushAll base ps) = parts base ++ ps := by
  induction ps generalizing base with
  | nil => simp [pushAll]
  | cons part ps ih =>
    rw [pushAll, List.foldl_cons, ← pushAll,
      ih _ (fun p hp => h p (List.mem_cons_of_mem _ hp)),
      parts_join_proper base (h part List.mem_cons_self), List.append_assoc, List.singleton_append]

/-- A separator at the end changes no component. -/
theorem parts_join_empty (path : String) : parts (join path "") = parts path := by
  rw [join, if_neg (by simp)]
  split
  · rw [parts, parts, String.toList_append]
    simp
  · rename_i hend
    have hne : path.toList ≠ [] := fun hempty => hend (.inr hempty)
    have hjoined : (path ++ "/" ++ "").toList = path.toList ++ ['/'] := by
      rw [String.toList_append, String.toList_append]
      simp
    rw [parts, hjoined, start_sep_end hne, components_append_sep, parts]
    simp [show components [] = [] from rfl]

theorem IsAbsolute.join {dir : String} (h : IsAbsolute dir) (path : String) :
    IsAbsolute (join dir path) := by
  have hne : dir.toList ≠ [] := by
    intro hnil
    simp [IsAbsolute, hnil] at h
  unfold Path.join
  split
  · assumption
  · split
    · rw [IsAbsolute, String.toList_append, List.head?_append_of_ne_nil _ hne]
      exact h
    · rw [IsAbsolute, String.toList_append, String.toList_append, List.append_assoc,
        List.head?_append_of_ne_nil _ hne]
      exact h

theorem IsAbsolute.pushAll {base : String} (h : IsAbsolute base) (ps : List Part) :
    IsAbsolute (pushAll base ps) := by
  induction ps generalizing base with
  | nil => exact h
  | cons part ps ih => exact ih (h.join _)

/-- The components of a path without a `.` at its start. -/
theorem stripCurDir_parts (path : String) :
    stripCurDir (parts path) =
      (if IsAbsolute path then [.rootDir] else []) ++
        (components path.toList).map Part.ofComponent := by
  rw [parts, start]
  by_cases hroot : IsAbsolute path
  · rw [if_pos hroot, if_pos (show path.toList.head? = some '/' from hroot)]
    rfl
  · rw [if_neg hroot, if_neg (show ¬ path.toList.head? = some '/' from hroot)]
    split
    · rfl
    · cases hrest : (components path.toList).map Part.ofComponent with
      | nil => rfl
      | cons part rest =>
        have hproper : part.Proper := proper_of_mem_components (hrest ▸ List.mem_cons_self)
        cases part with
        | curDir => exact hproper.elim
        | rootDir | parentDir | normal => rfl

/-- **The components of an absolute path.** -/
theorem parts_absolute {dir path result : String} (hdir : IsAbsolute dir)
    (h : absolute (.ok dir) path = .ok result) :
    IsAbsolute result ∧ parts result =
      (if IsAbsolute path then [] else parts dir) ++ stripCurDir (parts path) := by
  have hproper : ∀ part ∈ (components path.toList).map Part.ofComponent, part.Proper :=
    fun _ hmem => proper_of_mem_components hmem
  have hkey : ∀ base : String, IsAbsolute base → parts base = (if IsAbsolute path then [.rootDir]
      else parts dir) → IsAbsolute (pushAll base ((components path.toList).map Part.ofComponent)) ∧
      parts (pushAll base ((components path.toList).map Part.ofComponent)) =
        (if IsAbsolute path then [] else parts dir) ++ stripCurDir (parts path) := by
    intro base hbase hparts
    refine ⟨hbase.pushAll _, ?_⟩
    rw [parts_pushAll base hproper, hparts, stripCurDir_parts]
    split <;> simp
  -- what is left is the separator at the end
  have hend : ∀ normalized : String, IsAbsolute normalized ∧ parts normalized =
      (if IsAbsolute path then [] else parts dir) ++ stripCurDir (parts path) →
      (if path.toList.getLast? = some '/' then (.ok normalized : Except String String).map
        (fun p => join p "") else .ok normalized) = .ok result →
      IsAbsolute result ∧ parts result =
        (if IsAbsolute path then [] else parts dir) ++ stripCurDir (parts path) := by
    rintro normalized ⟨habs, hparts⟩ h
    split at h
    · cases h
      exact ⟨habs.join _, (parts_join_empty normalized).trans hparts⟩
    · cases h
      exact ⟨habs, hparts⟩
  unfold absolute at h
  split at h
  · cases h
  · dsimp only at h
    rw [stripCurDir_parts] at h
    by_cases hroot : IsAbsolute path
    · rw [if_pos hroot, if_pos hroot] at h
      by_cases htwo : path.toList.take 2 = ['/', '/'] ∧ path.toList.take 3 ≠ ['/', '/', '/']
      · rw [if_pos htwo] at h
        exact hend _ (hkey "//" (by decide) (by rw [if_pos hroot]; decide)) h
      · rw [if_neg htwo] at h
        exact hend _ (hkey "/" (by decide) (by rw [if_pos hroot]; decide)) h
    · rw [if_neg hroot, if_neg hroot] at h
      exact hend _ (hkey dir hdir (by rw [if_neg hroot])) h

/-- Without a working directory only an absolute path is taken, as with any. -/
theorem absolute_of_error {e path result : String} (dir : String)
    (h : absolute (.error e) path = .ok result) : absolute (.ok dir) path = .ok result := by
  unfold absolute at h ⊢
  by_cases hroot : IsAbsolute path
  · simpa only [if_pos hroot] using h
  · simp only [if_neg hroot, Except.map] at h
    split at h
    · cases h
    · split at h <;> cases h

/-- **A path keeps its name.** -/
theorem fileName_absolute {currentDir : Except String String} {path result name : String}
    (hcurrent : ∀ dir, currentDir = .ok dir → IsAbsolute dir)
    (h : absolute currentDir path = .ok result) (hname : fileName path = some name) :
    fileName result = some name := by
  obtain ⟨dir, hdir, h⟩ : ∃ dir, IsAbsolute dir ∧ absolute (.ok dir) path = .ok result := by
    cases currentDir with
    | ok dir => exact ⟨dir, hcurrent dir rfl, h⟩
    | error e => exact ⟨"/", by decide, absolute_of_error "/" h⟩
  have hlast : (stripCurDir (parts path)).getLast? = some (.normal name) := by
    have hcomponents : ((components path.toList).map Part.ofComponent).getLast? =
        some (.normal name) := by
      unfold fileName at hname
      split at hname
      · rename_i c hc
        split at hname
        · cases hname
        · cases hname
          rw [List.getLast?_map, hc, Option.map_some, Part.ofComponent, if_neg ‹_›]
      · cases hname
    rw [stripCurDir_parts, List.getLast?_append, hcomponents, Option.some_or]
  rw [fileName_eq_getLast, (parts_absolute hdir h).2, List.getLast?_append, hlast, Option.some_or]

/-! ## Normal paths -/

/-- The paths that `absolute` makes: one root or two slashes, the components, and perhaps a
separator at the end. -/
inductive Normal : String → Prop
  | mk {root : String} {ps : List Part} (slash : Bool) : root = "/" ∨ root = "//" →
      (∀ part ∈ ps, part.Proper) →
      Normal (if slash then join (pushAll root ps) "" else pushAll root ps)

/-- The text of a component other than the root and `.`. -/
theorem Part.Proper.text {part : Part} (h : part.Proper) : part.toPath.toList ≠ [] ∧
    part.toPath.toList.head? ≠ some '/' ∧ part.toPath.toList.getLast? ≠ some '/' := by
  cases part with
  | rootDir | curDir => exact h.elim
  | parentDir => decide
  | normal name =>
    exact ⟨h.2.1, h.head_ne, fun hlast => h.1 (List.mem_of_getLast? hlast)⟩

/-- Joining what is not absolute puts something behind the path. -/
theorem prefix_join (dir : String) {path : String} (h : path.toList.head? ≠ some '/') :
    dir.toList <+: (join dir path).toList := by
  rw [join, if_neg h]
  split
  · rw [String.toList_append]
    exact List.prefix_append _ _
  · rw [String.toList_append, String.toList_append, List.append_assoc]
    exact List.prefix_append _ _

theorem prefix_pushAll (base : String) {ps : List Part} (h : ∀ part ∈ ps, part.Proper) :
    base.toList <+: (pushAll base ps).toList := by
  induction ps generalizing base with
  | nil => exact List.prefix_refl _
  | cons part ps ih =>
    exact (prefix_join base (h part List.mem_cons_self).text.2.1).trans
      (ih _ fun p hp => h p (List.mem_cons_of_mem _ hp))

/-- Behind the root there is no further separator. -/
theorem pushAll_root {root : String} (hroot : root.toList.getLast? = some '/') {ps : List Part}
    (h : ∀ part ∈ ps, part.Proper) :
    ∃ rest, (pushAll root ps).toList = root.toList ++ rest ∧ rest.head? ≠ some '/' := by
  cases ps with
  | nil => exact ⟨[], (List.append_nil _).symm, nofun⟩
  | cons part ps =>
    obtain ⟨hne, hhead, -⟩ := (h part List.mem_cons_self).text
    have hjoin : (join root part.toPath).toList = root.toList ++ part.toPath.toList := by
      rw [join, if_neg hhead, if_pos (.inl hroot), String.toList_append]
    obtain ⟨rest, hrest⟩ := prefix_pushAll (join root part.toPath)
      fun p hp => h p (List.mem_cons_of_mem _ hp)
    refine ⟨part.toPath.toList ++ rest, ?_, ?_⟩
    · rw [← List.append_assoc, ← hjoin, hrest]
      rfl
    · rwa [List.head?_append_of_ne_nil _ hne]

/-- A path that ends with a component does not end with a separator. -/
theorem getLast_pushAll (base : String) {ps : List Part} (hne : ps ≠ [])
    (h : ∀ part ∈ ps, part.Proper) : (pushAll base ps).toList.getLast? ≠ some '/' := by
  obtain ⟨hpart, hhead, hlast⟩ := (h _ (List.getLast_mem hne)).text
  rw [← List.dropLast_append_getLast hne, pushAll, List.foldl_append, List.foldl_cons,
    List.foldl_nil, join, if_neg hhead]
  split
  · rwa [String.toList_append, List.getLast?_append_of_ne_nil _ hpart]
  · rwa [String.toList_append, String.toList_append, List.getLast?_append_of_ne_nil _ hpart]

theorem join_empty_toList {path : String} (hne : path.toList ≠ []) :
    (join path "").toList =
      path.toList ++ if path.toList.getLast? = some '/' then [] else ['/'] := by
  rw [join, if_neg (by simp)]
  by_cases hend : path.toList.getLast? = some '/'
  · rw [if_pos (.inl hend), if_pos hend, String.toList_append]
    rfl
  · rw [if_neg (not_or.mpr ⟨hend, hne⟩), if_neg hend, String.toList_append, String.toList_append]
    simp

/-- How a normal path starts and ends. -/
theorem text_normal {root : String} (hroot : root = "/" ∨ root = "//") {ps : List Part}
    (hproper : ∀ part ∈ ps, part.Proper) (slash : Bool) :
    let path := if slash then join (pushAll root ps) "" else pushAll root ps
    (∃ rest, path.toList = root.toList ++ rest ∧ rest.head? ≠ some '/') ∧
      (path.toList.getLast? = some '/' ↔ slash = true ∨ ps = []) := by
  have hlast : root.toList.getLast? = some '/' := by
    rcases hroot with rfl | rfl <;> decide
  obtain ⟨rest, hrest, hhead⟩ := pushAll_root hlast hproper
  have hne : (pushAll root ps).toList ≠ [] := by
    rw [hrest]
    rcases hroot with rfl | rfl <;> simp
  have hend : (pushAll root ps).toList.getLast? = some '/' ↔ ps = [] := by
    refine ⟨fun hslash => ?_, ?_⟩
    · by_contra hps
      exact getLast_pushAll root hps hproper hslash
    · rintro rfl
      exact hlast
  cases slash with
  | false => exact ⟨⟨rest, hrest, hhead⟩, hend.trans (by simp)⟩
  | true =>
    simp only [if_true, join_empty_toList hne, true_or, iff_true]
    split
    · rename_i hslash
      rw [List.append_nil]
      exact ⟨⟨rest, hrest, hhead⟩, hslash⟩
    · rename_i hslash
      refine ⟨⟨rest ++ ['/'], by rw [hrest, List.append_assoc], ?_⟩, List.getLast?_concat⟩
      -- only the root itself has a separator at its end
      have hrest' : rest ≠ [] := by
        rintro rfl
        rw [hrest, List.append_nil] at hslash
        exact hslash hlast
      rwa [List.head?_append_of_ne_nil _ hrest']

/-- The components of a normal path. -/
theorem parts_normal {root : String} (hroot : root = "/" ∨ root = "//") {ps : List Part}
    (hproper : ∀ part ∈ ps, part.Proper) (slash : Bool) :
    parts (if slash then join (pushAll root ps) "" else pushAll root ps) = .rootDir :: ps := by
  have hparts : parts root = [.rootDir] := by
    rcases hroot with rfl | rfl <;> decide
  have hpushed : parts (pushAll root ps) = .rootDir :: ps := by
    rw [parts_pushAll root hproper, hparts]
    rfl
  split
  · rw [parts_join_empty, hpushed]
  · exact hpushed

theorem Normal.isAbsolute {path : String} (h : Normal path) : IsAbsolute path := by
  obtain ⟨slash, hroot, hproper⟩ := h
  obtain ⟨⟨rest, hrest, -⟩, -⟩ := text_normal hroot hproper slash
  rw [IsAbsolute, hrest]
  rcases hroot with rfl | rfl <;> rfl

/-- Two slashes at the start of a path are those of its root. -/
theorem two_slashes_iff {root : String} (hroot : root = "/" ∨ root = "//") {path rest : List Char}
    (hpath : path = root.toList ++ rest) (hhead : rest.head? ≠ some '/') :
    path.take 2 = ['/', '/'] ∧ path.take 3 ≠ ['/', '/', '/'] ↔ root = "//" := by
  subst hpath
  rcases hroot with rfl | rfl <;> cases rest with
  | nil => decide
  | cons c rest => simp_all

/-- **A normal path is left as it is**, wherever the process is. -/
theorem Normal.absolute_eq {path : String} (h : Normal path) (currentDir : Except String String) :
    absolute currentDir path = .ok path := by
  have habs := h.isAbsolute
  have hne : path.toList ≠ [] := by
    intro hnil
    rw [IsAbsolute, hnil] at habs
    cases habs
  obtain @⟨root, ps, slash, hroot, hproper⟩ := h
  obtain ⟨⟨rest, hrest, hhead⟩, hend⟩ := text_normal hroot hproper slash
  have htwo := two_slashes_iff hroot hrest hhead
  have hbase : (if root = "//" then .ok (pushAll "//" ps) else .ok (pushAll "" (.rootDir :: ps))) =
      (.ok (pushAll root ps) : Except String String) := by
    rcases hroot with rfl | rfl
    · exact if_neg (by decide)
    · exact if_pos rfl
  have hstrip : stripCurDir (.rootDir :: ps) = .rootDir :: ps := rfl
  rw [absolute, if_neg hne, parts_normal hroot hproper slash, hstrip]
  dsimp only [List.tail_cons]
  rw [if_pos habs, if_congr htwo rfl rfl, hbase, if_congr hend rfl rfl]
  cases slash with
  | true => rfl
  | false =>
    by_cases hps : ps = []
    · subst hps
      rcases hroot with rfl | rfl <;> rfl
    · rw [if_neg (by simp [hps])]
      rfl

/-- A separator at the end is not seen by what is joined. -/
theorem join_join_empty {base : String} (hne : base.toList ≠ []) {path : String}
    (hpath : path.toList.head? ≠ some '/') : join (join base "") path = join base path := by
  by_cases hend : base.toList.getLast? = some '/'
  · have hsame : join base "" = base := by
      rw [join, if_neg (by simp), if_pos (.inl hend)]
      simp
    rw [hsame]
  · have hslash : join base "" = base ++ "/" := by
      rw [join, if_neg (by simp), if_neg (not_or.mpr ⟨hend, hne⟩)]
      simp
    have hlast : (base ++ "/").toList.getLast? = some '/' := by
      rw [String.toList_append]
      exact List.getLast?_concat
    rw [hslash, join, if_neg hpath, if_pos (.inl hlast), join, if_neg hpath,
      if_neg (not_or.mpr ⟨hend, hne⟩)]

theorem pushAll_ne_nil {root : String} (hroot : root = "/" ∨ root = "//") {ps : List Part}
    (hproper : ∀ part ∈ ps, part.Proper) : (pushAll root ps).toList ≠ [] := by
  intro hnil
  obtain ⟨rest, hrest⟩ := prefix_pushAll root hproper
  rw [hnil] at hrest
  rcases hroot with rfl | rfl <;> cases hrest

/-- Pushing onto a normal path. -/
theorem Normal.pushAll {dir : String} (h : Normal dir) {ps : List Part}
    (hps : ∀ part ∈ ps, part.Proper) : Normal (pushAll dir ps) := by
  obtain @⟨root, front, slash, hroot, hproper⟩ := h
  have hall : ∀ part ∈ front ++ ps, part.Proper := by
    intro part hpart
    rcases List.mem_append.mp hpart with hpart | hpart
    · exact hproper part hpart
    · exact hps part hpart
  have happend : Path.pushAll (Path.pushAll root front) ps = Path.pushAll root (front ++ ps) :=
    (List.foldl_append ..).symm
  cases slash with
  | false => exact happend ▸ .mk false hroot hall
  | true =>
    cases ps with
    | nil => exact .mk true hroot hproper
    | cons part ps =>
      have hjoin := join_join_empty (pushAll_ne_nil hroot hproper)
        (hps part List.mem_cons_self).text.2.1
      have hsame : Path.pushAll (join (Path.pushAll root front) "") (part :: ps) =
          Path.pushAll (Path.pushAll root front) (part :: ps) :=
        congrArg (Path.pushAll · ps) hjoin
      rw [if_pos rfl, hsame, happend]
      exact .mk false hroot hall

theorem Normal.join_empty {path : String} (h : Normal path) : Normal (join path "") := by
  obtain @⟨root, ps, slash, hroot, hproper⟩ := h
  cases slash with
  | false => exact .mk true hroot hproper
  | true =>
    rw [if_pos rfl, join_join_empty (pushAll_ne_nil hroot hproper) (by simp)]
    exact .mk true hroot hproper

/-- **Absolute paths are normal.** -/
theorem normal_absolute {currentDir : Except String String} {path result : String}
    (hcurrent : ∀ dir, currentDir = .ok dir → Normal dir)
    (h : absolute currentDir path = .ok result) : Normal result := by
  have hproper : ∀ part ∈ (components path.toList).map Part.ofComponent, part.Proper :=
    fun _ hmem => proper_of_mem_components hmem
  have hend : ∀ normalized : Except String String, (∀ p, normalized = .ok p → Normal p) →
      (if path.toList.getLast? = some '/' then normalized.map (fun p => join p "")
        else normalized) = .ok result → Normal result := by
    intro normalized hnormal h
    split at h
    · cases normalized with
      | error e => cases h
      | ok p =>
        cases h
        exact (hnormal p rfl).join_empty
    · exact hnormal result h
  unfold absolute at h
  split at h
  · cases h
  · refine hend _ ?_ h
    rw [stripCurDir_parts]
    intro p hp
    by_cases hroot : IsAbsolute path
    · rw [if_pos hroot, if_pos hroot] at hp
      split at hp <;> cases hp
      · exact .mk false (.inr rfl) hproper
      · show Normal (pushAll "/" ((components path.toList).map Part.ofComponent))
        exact .mk false (.inl rfl) hproper
    · rw [if_neg hroot, if_neg hroot] at hp
      cases currentDir with
      | error e => cases hp
      | ok dir =>
        cases hp
        exact (hcurrent dir rfl).pushAll hproper

example : absolute (.ok "/home/u") "./docs//a/../b.txt/" = .ok "/home/u/docs/a/../b.txt/" := by
  decide

end Path
