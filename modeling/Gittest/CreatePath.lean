import Gittest.Proof.CreatePathCalls

/-!
# What `create_path` makes

Over a tree without links, `create_path` goes through the names of the path and makes the directories
that are missing. It fails at a name that is no directory, and then nothing was missing before it.
-/

namespace Gittest

/-! ### The names, one after the other -/

/-- The directory at a place, there already or made now. -/
def FileTree.ensure (t : FileTree) (place : List Text) : Option FileTree :=
  if t.kind place = some .directory then some t else t.make place

/-- What the loop does, without the buffer. -/
def makeAll : FileTree → List Text → List Text → Int × FileTree
  | t, _, [] => (0, t)
  | t, place, name :: rest =>
      match t.ensure (place ++ [name]) with
      | none => (-1, t)
      | some t => makeAll t (place ++ [name]) rest

/-- The tree with all directories on the way to a place. -/
def FileTree.Extends (t t' : FileTree) (place : List Text) : Prop :=
  ∀ other, t'.kind other = if other <+: place then some .directory else t.kind other

section Make

variable {t : FileTree} {place names : List Text}

theorem FileTree.directory_of_le (hplace : t.kind place = some .directory) {other : List Text}
    (hother : other <+: place) : t.kind other = some .directory := by
  by_cases heq : other = place
  · rw [heq]
    exact hplace
  · exact t.directory_of_prefix hplace hother heq

/-- A file on the way: what lies before it is there, and nothing is made. -/
theorem makeAll_blocked (hplace : t.kind place = some .directory) {file : List Text}
    (hfile : t.kind file = some .regular) (hwithin : file <+: place ++ names) :
    makeAll t place names = (-1, t) := by
  induction names generalizing place with
  | nil =>
    rw [List.append_nil] at hwithin
    rw [t.directory_of_le hplace hwithin] at hfile
    cases hfile
  | cons name rest ih =>
    have hrest : place ++ name :: rest = place ++ [name] ++ rest := by
      rw [List.append_assoc]
      rfl
    have hbehind : place.length < file.length := by
      by_contra hshort
      have hle := List.prefix_of_prefix_length_le hwithin (List.prefix_append place _) (by omega)
      rw [t.directory_of_le hplace hle] at hfile
      cases hfile
    have hnext : place ++ [name] <+: file := by
      rw [hrest] at hwithin
      apply List.prefix_of_prefix_length_le (List.prefix_append _ _) hwithin
      rw [List.length_append, List.length_singleton]
      omega
    by_cases heq : place ++ [name] = file
    · have hfails : t.ensure (place ++ [name]) = none := by
        rw [heq, FileTree.ensure, hfile, if_neg (by decide), FileTree.make_taken hfile]
      rw [makeAll, hfails]
    · have hdir := t.directory_of_prefix hfile hnext heq
      have hensure : t.ensure (place ++ [name]) = some t := if_pos hdir
      rw [hrest] at hwithin
      rw [makeAll, hensure]
      exact ih hdir hwithin

/-- With no file on the way, what is missing is made. -/
theorem makeAll_extends (hplace : t.kind place = some .directory)
    (hclear : ∀ other, other <+: place ++ names → t.kind other ≠ some .regular) :
    ∃ t', makeAll t place names = (0, t') ∧ t.Extends t' (place ++ names) := by
  induction names generalizing t place with
  | nil =>
    refine ⟨t, rfl, fun other => ?_⟩
    split
    · rename_i hother
      rw [List.append_nil] at hother
      exact t.directory_of_le hplace hother
    · rfl
  | cons name rest ih =>
    have hrest : place ++ name :: rest = place ++ [name] ++ rest := by
      rw [List.append_assoc]
      rfl
    have hon : place ++ [name] <+: place ++ name :: rest := hrest ▸ List.prefix_append _ _
    rw [hrest] at hclear ⊢
    cases hkind : t.kind (place ++ [name]) with
    | some found =>
      cases found with
      | directory =>
        have hensure : t.ensure (place ++ [name]) = some t := if_pos hkind
        rw [makeAll, hensure]
        exact ih hkind hclear
      | regular => exact absurd hkind (hclear _ (List.prefix_append _ _))
    | none =>
      have hparent : t.kind (place ++ [name]).dropLast = some .directory := by
        rw [List.dropLast_concat]
        exact hplace
      obtain ⟨made, hmake, hupdate⟩ := FileTree.make_free hkind hparent
      have hensure : t.ensure (place ++ [name]) = some made := by
        rw [FileTree.ensure, hkind, if_neg (by decide), hmake]
      have hmade : made.kind (place ++ [name]) = some .directory := by
        rw [hupdate, Function.update_self]
      have hother : ∀ other, other ≠ place ++ [name] → made.kind other = t.kind other := by
        intro other hne
        rw [hupdate, Function.update_of_ne hne]
      have hclear' : ∀ other, other <+: place ++ [name] ++ rest → made.kind other ≠ some .regular := by
        intro other hwithin
        by_cases heq : other = place ++ [name]
        · rw [heq, hmade]
          decide
        · rw [hother other heq]
          exact hclear other hwithin
      obtain ⟨t', hrun, hextends⟩ := ih hmade hclear'
      refine ⟨t', ?_, fun other => ?_⟩
      · rw [makeAll, hensure]
        exact hrun
      · rw [hextends other]
        split
        · rfl
        · rename_i hnot
          apply hother
          rintro rfl
          exact hnot (List.prefix_append _ _)

theorem FileTree.ensure_directory {t' : FileTree} (hensure : t.ensure place = some t') :
    t'.kind place = some .directory := by
  unfold ensure at hensure
  split at hensure
  · rename_i hdir
    rw [← Option.some.inj hensure]
    exact hdir
  · rw [make] at hensure
    split at hensure
    · rw [← Option.some.inj hensure]
      exact Function.update_self _ _ _
    · cases hensure

end Make

/-! ### The strings -/

section Strings

variable {name : Text} {t : FileTree}

/-- The call finds the directory or makes it, wherever the string is one of the tree. -/
theorem ensureDir_eq {path : Text} (hlocate : t.locate path = some (pathNames path)) :
    ensureDir fileTreeSystem t path = t.ensure (pathNames path) := by
  have hlstat : fileTreeSystem.lstat t path = (t.kind (pathNames path)).map FileKind.type := by
    change (t.locate path).bind _ = _
    rw [hlocate]
    rfl
  have hmkdir : fileTreeSystem.mkdir t path = t.make (pathNames path) := by
    change (t.locate path).bind _ = _
    rw [hlocate]
    rfl
  unfold ensureDir isDir FileTree.ensure
  rw [hlstat, hmkdir]
  cases hkind : t.kind (pathNames path) with
  | none => rfl
  | some found =>
    cases found with
    | directory => rfl
    | regular => rfl

theorem pathNames_snoc {head : Text} (hname : name ≠ []) (hplain : 47 ∉ name) :
    pathNames (head ++ [47] ++ name) = pathNames (head ++ [47]) ++ [name] := by
  rw [List.append_assoc]
  change pathNames (head ++ 47 :: name) = _
  rw [pathNames_append, pathNames_concat, pathNames_name hname hplain]

/-- The loop has come to a name, with `done` behind it, and made the directories on the way there. -/
structure Cursor (t : FileTree) (done : Text) (segs : List Segment) : Prop where
  ends : ∃ head, done = head ++ [47]
  absolute : done.head? = some 47
  noNul : 0 ∉ done ++ segmentsText segs
  directory : t.kind (pathNames done) = some .directory
  ordinary : ∀ name ∈ pathNames done ++ segs.map Segment.name, FileTree.Ordinary name

section Step

variable {done : Text} {seg : Segment} {segs : List Segment}

theorem Cursor.pathNames_cut (hcursor : Cursor t done (seg :: segs)) :
    pathNames (done ++ seg.name) = pathNames done ++ [seg.name] := by
  obtain ⟨head, rfl⟩ := hcursor.ends
  exact pathNames_snoc seg.notEmpty seg.plain

/-- The string that ends behind a name is one of the tree. -/
theorem Cursor.locate (hcursor : Cursor t done (seg :: segs)) :
    t.locate (done ++ seg.name) = some (pathNames (done ++ seg.name)) := by
  have hplace := hcursor.pathNames_cut
  apply FileTree.locate_eq
  · rw [List.head?_append, hcursor.absolute]
    rfl
  · intro name hmem
    apply hcursor.ordinary
    rw [hplace] at hmem
    rw [List.map_cons, ← List.singleton_append, ← List.append_assoc]
    exact List.mem_append_left _ hmem
  · rw [hplace, List.dropLast_concat]
    exact hcursor.directory

theorem pathNames_text (hcursor : Cursor t done (seg :: segs)) :
    pathNames (done ++ seg.text) = pathNames done ++ [seg.name] := by
  rw [Segment.text, ← List.append_assoc, pathNames_append, pathNames_replicate, List.append_nil,
    hcursor.pathNames_cut]

theorem Cursor.next (hcursor : Cursor t done (seg :: segs)) {t' : FileTree}
    (hensure : t.ensure (pathNames done ++ [seg.name]) = some t') :
    Cursor t' (done ++ seg.text) segs := by
  have hnames := pathNames_text hcursor
  constructor
  case ends =>
    refine ⟨done ++ seg.name ++ List.replicate seg.extra 47, ?_⟩
    rw [Segment.text, ← List.replicate_succ, List.replicate_succ']
    simp only [List.append_assoc]
  case absolute =>
    rw [List.head?_append, hcursor.absolute]
    rfl
  case noNul =>
    rw [List.append_assoc]
    exact hcursor.noNul
  case directory =>
    rw [hnames]
    exact FileTree.ensure_directory hensure
  case ordinary =>
    rw [hnames, List.append_assoc]
    exact hcursor.ordinary

/-- What the calls make. -/
theorem ensureAll_eq_makeAll (hcursor : Cursor t done segs) :
    ensureAll fileTreeSystem t (cuts done segs)
      = makeAll t (pathNames done) (segs.map Segment.name) := by
  induction segs generalizing t done with
  | nil => rfl
  | cons seg segs ih =>
    rw [cuts, ensureAll, ensureDir_eq hcursor.locate, hcursor.pathNames_cut, List.map_cons, makeAll]
    cases hensure : t.ensure (pathNames done ++ [seg.name]) with
    | none => rfl
    | some t' =>
      have hrest := ih (hcursor.next hensure)
      rw [pathNames_text hcursor] at hrest
      exact hrest

end Step

end Strings

/-! ### The call -/

section Call

variable (t : FileTree) (stack : Vector UInt8 (pathMax + 1)) {path : CString}

/-- At the first name. -/
theorem Cursor.start {m : Nat} {segs : List Segment}
    (hnul : 0 ∉ List.replicate (m + 1) 47 ++ segmentsText segs)
    (hordinary : ∀ name ∈ segs.map Segment.name, FileTree.Ordinary name) :
    Cursor t (List.replicate (m + 1) 47) segs := by
  have hslashes := pathNames_replicate (m + 1)
  constructor
  case ends => exact ⟨List.replicate m 47, List.replicate_succ'⟩
  case absolute => rfl
  case noNul => exact hnul
  case directory =>
    rw [hslashes]
    exact t.root
  case ordinary =>
    rw [hslashes, List.nil_append]
    exact hordinary

/-- An absolute path that fits is gone through name by name. -/
theorem createPath_eq (hshort : path.chars.length < pathMax)
    (habsolute : path.chars = [] ∨ path.chars.head? = some 47)
    (hordinary : ∀ name ∈ pathNames path.chars, FileTree.Ordinary name) {fuel : Nat}
    (hfuel : pathMax ≤ fuel) :
    createPath fileTreeSystem fuel stack t path.array = .ok (makeAll t [] (pathNames path.chars)) := by
  obtain ⟨m, segs, htext, hnames⟩ := exists_absolute habsolute
  have hnul : 0 ∉ List.replicate (m + 1) 47 ++ segmentsText segs := by
    rw [← htext, List.mem_append, not_or]
    exact ⟨path.noNul, by decide⟩
  rw [hnames] at hordinary ⊢
  rw [createPath_cuts fileTreeSystem t stack hshort htext hfuel,
    ensureAll_eq_makeAll (Cursor.start t hnul hordinary), pathNames_replicate]

end Call

/-! ### What is made -/

/-- The path is one that can be made: no prefix of it names a file. -/
def Makeable (t : FileTree) (path : CString) : Prop :=
  path.chars = [] ∨ path.chars.head? = some 47 ∧ path.chars.length < pathMax
    ∧ ∀ place, place <+: pathNames path.chars → t.kind place ≠ some .regular

/-- The loop ends, and the call returns 0 for the paths that can be made. Then the prefixes of the
path have become directories and nothing else has changed. Otherwise nothing has changed at all: the
prefixes in front of a file were directories before. -/
def MakesDirectories (t : FileTree) (stack : Vector UInt8 (pathMax + 1)) (path : CString) : Prop :=
  ∃ ret t', (∀ fuel, pathMax ≤ fuel →
      createPath fileTreeSystem fuel stack t path.array = .ok (ret, t'))
    ∧ (ret = 0 ↔ Makeable t path)
    ∧ (ret = 0 → t.Extends t' (pathNames path.chars))
    ∧ (ret ≠ 0 → ret = -1 ∧ t' = t)
    ∧ ∀ place found, t.kind place = some found → t'.kind place = some found

section Makes

variable {t : FileTree} {stack : Vector UInt8 (pathMax + 1)} {path : CString}

theorem makesDirectories_of_unchanged (hbad : ¬Makeable t path)
    (hcall : ∀ fuel, pathMax ≤ fuel →
      createPath fileTreeSystem fuel stack t path.array = .ok (-1, t)) :
    MakesDirectories t stack path := by
  refine ⟨-1, t, hcall, ?_, ?_, fun _ => ⟨rfl, rfl⟩, fun _ _ hfound => hfound⟩
  · constructor
    · intro hzero
      cases hzero
    · intro hmakeable
      exact absurd hmakeable hbad
  · intro hzero
    cases hzero

theorem FileTree.Extends.keeps {t' : FileTree} {place : List Text} (hextends : t.Extends t' place)
    (hclear : ∀ other, other <+: place → t.kind other ≠ some .regular) {other : List Text}
    {found : FileKind} (hfound : t.kind other = some found) : t'.kind other = some found := by
  rw [hextends other]
  split
  · rename_i hwithin
    cases found with
    | directory => rfl
    | regular => exact absurd hfound (hclear other hwithin)
  · exact hfound

theorem makesDirectories_short (hshort : path.chars.length < pathMax)
    (hordinary : ∀ name ∈ pathNames path.chars, FileTree.Ordinary name) :
    MakesDirectories t stack path := by
  by_cases habsolute : path.chars = [] ∨ path.chars.head? = some 47
  case neg =>
    obtain ⟨hne, hrelative⟩ := not_or.mp habsolute
    apply makesDirectories_of_unchanged
    · rintro (hempty | ⟨hhead, -, -⟩)
      · exact hne hempty
      · exact hrelative hhead
    · intro fuel _
      exact createPath_relative fileTreeSystem t stack hshort hne hrelative fuel
  have hcall := fun fuel (hfuel : pathMax ≤ fuel) =>
    createPath_eq t stack hshort habsolute hordinary hfuel
  by_cases hclear : ∀ place, place <+: pathNames path.chars → t.kind place ≠ some .regular
  · obtain ⟨t', hmake, hextends⟩ : ∃ t', makeAll t [] (pathNames path.chars) = (0, t')
        ∧ t.Extends t' (pathNames path.chars) := makeAll_extends t.root hclear
    rw [hmake] at hcall
    refine ⟨0, t', hcall, ⟨fun _ => ?_, fun _ => rfl⟩, fun _ => hextends,
      fun hne => absurd rfl hne, fun place found hfound => hextends.keeps hclear hfound⟩
    rcases habsolute with hempty | hhead
    · exact Or.inl hempty
    · exact Or.inr ⟨hhead, hshort, hclear⟩
  · have hclear' := hclear
    push Not at hclear
    obtain ⟨file, hwithin, hfile⟩ := hclear
    have hmake : makeAll t [] (pathNames path.chars) = (-1, t) :=
      makeAll_blocked t.root hfile hwithin
    rw [hmake] at hcall
    apply makesDirectories_of_unchanged _ hcall
    rintro (hempty | ⟨-, -, hmakeable⟩)
    · rw [hempty, pathNames_nil, List.prefix_nil] at hwithin
      rw [hwithin, t.root] at hfile
      cases hfile
    · exact hclear' hmakeable

end Makes

/-- All of it holds if the path fits, or if it is too long and its length is so as an `int` too. -/
theorem createPath_makes_iff (t : FileTree) (stack : Vector UInt8 (pathMax + 1)) (path : CString)
    (hordinary : ∀ name ∈ pathNames path.chars, FileTree.Ordinary name) :
    MakesDirectories t stack path
      ↔ path.chars.length < pathMax ∨ pathMax ≤ toInt path.chars.length := by
  constructor
  · rintro ⟨ret, t', hcall, -⟩
    by_contra hneither
    obtain ⟨hlong, hwraps⟩ := not_or.mp hneither
    have hoverrun := createPath_overruns fileTreeSystem t stack (Nat.le_of_not_lt hlong)
      (Int.lt_of_not_ge hwraps) pathMax
    rw [hcall pathMax (Nat.le_refl _)] at hoverrun
    cases hoverrun
  · rintro (hshort | hlong)
    · exact makesDirectories_short hshort hordinary
    · apply makesDirectories_of_unchanged
      · intro hmakeable
        have hshort : path.chars.length < pathMax := by
          rcases hmakeable with hempty | ⟨-, hshort, -⟩
          · rw [hempty]
            decide
          · exact hshort
        rw [toInt_eq (by simp only [pathMax, intMin, intMax] at hshort ⊢; omega)] at hlong
        omega
      · intro fuel _
        exact createPath_long fileTreeSystem t stack hlong fuel

/-- The tree that has nothing but its root. -/
def bareTree : FileTree where
  kind
    | [] => some .directory
    | _ :: _ => none
  root := rfl
  parent := by
    intro place name found hfound
    cases place <;> cases hfound

theorem createPath_makes_two :
    MakesDirectories bareTree (Vector.replicate (pathMax + 1) 170)
      ⟨ascii "/var//log/", by decide⟩ := by
  have hnames : pathNames (ascii "/var//log/") = [ascii "var", ascii "log"] := rfl
  apply (createPath_makes_iff bareTree (Vector.replicate (pathMax + 1) 170)
    ⟨ascii "/var//log/", by decide⟩ _).mpr (Or.inl (by decide))
  intro name hname
  rcases List.mem_pair.mp (hnames ▸ hname) with rfl | rfl
  · exact ⟨by decide, by decide⟩
  · exact ⟨by decide, by decide⟩

/-- Two gigabytes of slashes: the length is negative as an `int`. -/
theorem createPath_overruns_slashes :
    ¬MakesDirectories bareTree (Vector.replicate (pathMax + 1) 170)
      (CString.replicate 2147483648 47 (by decide)) := by
  rintro ⟨ret, t', hcall, -⟩
  have hlength : (CString.replicate 2147483648 47 (by decide)).chars.length = 2147483648 :=
    List.length_replicate
  have hint : toInt (2147483648 : Nat) = -2147483648 := rfl
  have hlong : pathMax ≤ (CString.replicate 2147483648 47 (by decide)).chars.length := by
    rw [hlength, pathMax]
    omega
  have hoverrun := createPath_overruns fileTreeSystem bareTree (Vector.replicate (pathMax + 1) 170) hlong
    (by rw [hlength, hint, pathMax]; omega) pathMax
  rw [hcall pathMax (Nat.le_refl _)] at hoverrun
  cases hoverrun

end Gittest
