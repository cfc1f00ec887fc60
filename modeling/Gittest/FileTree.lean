import Gittest.LinuxUtils
import Mathlib.Data.List.Induction
import Mathlib.Logic.Function.Basic

/-!
# A tree of directories and files

The system calls over a tree without links. A name stands for a place in the tree by way of the
directories on its path, `.` and `..` among them.
-/

namespace Gittest

inductive FileKind where
  | directory
  | regular
  deriving DecidableEq, Repr

def FileKind.type : FileKind → FileType
  | .directory => .directory
  | .regular => .regular

section Update

variable {K : Type} {kind : List Text → Option K} {directory : K} {place : List Text}

theorem root_update (hroot : kind [] = some directory) (hfree : kind place = none) :
    Function.update kind place (some directory) [] = some directory := by
  have hne : [] ≠ place := by
    rintro rfl
    rw [hroot] at hfree
    cases hfree
  rw [Function.update_of_ne hne]
  exact hroot

/-- A directory more, in a directory: what anything lies in is still one. -/
theorem parent_update
    (hparents : ∀ place name found, kind (place ++ [name]) = some found → kind place = some directory)
    (hfree : kind place = none) (hparent : kind place.dropLast = some directory)
    (other : List Text) (name : Text) (found : K)
    (hfound : Function.update kind place (some directory) (other ++ [name]) = some found) :
    Function.update kind place (some directory) other = some directory := by
  have hother : kind other = some directory := by
    by_cases heq : other ++ [name] = place
    · rw [← heq, List.dropLast_concat] at hparent
      exact hparent
    · rw [Function.update_of_ne heq] at hfound
      exact hparents other name found hfound
  have hne : other ≠ place := by
    rintro rfl
    rw [hfree] at hother
    cases hother
  rw [Function.update_of_ne hne]
  exact hother

end Update

/-- What is where. The root is a directory, and so is what anything lies in. -/
structure FileTree where
  kind : List Text → Option FileKind
  root : kind [] = some .directory
  parent : ∀ place name found, kind (place ++ [name]) = some found → kind place = some .directory

/-- The names that slashes separate. -/
def pathNames (path : Text) : List Text := (path.splitOn 47).filter fun name => !name.isEmpty

namespace FileTree

/-- From a directory on through the names. The last one need not exist. -/
def resolve (t : FileTree) : List Text → List Text → Option (List Text)
  | place, [] => some place
  | place, name :: rest =>
      if t.kind place ≠ some .directory then none
      else if name = ascii "." then t.resolve place rest
      else if name = ascii ".." then t.resolve place.dropLast rest
      else t.resolve (place ++ [name]) rest

/-- The place that an absolute path names. There is no working directory: nothing asks for a relative
path. -/
def locate (t : FileTree) (path : Text) : Option (List Text) :=
  if path.head? = some 47 then t.resolve [] (pathNames path) else none

def lstat (t : FileTree) (path : Text) : Option FileType :=
  (t.locate path).bind fun place => (t.kind place).map FileKind.type

def addDirectory (t : FileTree) (place : List Text) (hfree : t.kind place = none)
    (hparent : t.kind place.dropLast = some .directory) : FileTree where
  kind := Function.update t.kind place (some .directory)
  root := root_update t.root hfree
  parent := parent_update t.parent hfree hparent

/-- A directory cannot be made of what exists, nor where there is no directory to make it in. -/
def make (t : FileTree) (place : List Text) : Option FileTree :=
  if h : t.kind place = none ∧ t.kind place.dropLast = some .directory then
    some (t.addDirectory place h.1 h.2)
  else
    none

def mkdir (t : FileTree) (path : Text) : Option FileTree :=
  (t.locate path).bind t.make

end FileTree

def fileTreeSystem : FileSystem FileTree where
  lstat := FileTree.lstat
  mkdir := FileTree.mkdir

/-! ### Places -/

namespace FileTree

variable {t : FileTree} {place other : List Text}

theorem make_taken {found : FileKind} (hfound : t.kind place = some found) :
    t.make place = none := by
  rw [make, dif_neg]
  rintro ⟨hnone, -⟩
  rw [hfound] at hnone
  cases hnone

theorem make_free (hfree : t.kind place = none) (hparent : t.kind place.dropLast = some .directory) :
    ∃ t', t.make place = some t' ∧ t'.kind = Function.update t.kind place (some .directory) :=
  ⟨t.addDirectory place hfree hparent, dif_pos ⟨hfree, hparent⟩, rfl⟩

/-- What something lies in is a directory, on every level. -/
theorem directory_of_prefix {found : FileKind} (hfound : t.kind other = some found)
    (hwithin : place <+: other) (hne : place ≠ other) : t.kind place = some .directory := by
  obtain ⟨rest, rfl⟩ := hwithin
  induction rest using List.reverseRecOn generalizing found with
  | nil => exact absurd (List.append_nil place).symm hne
  | append_singleton rest name ih =>
    rw [← List.append_assoc] at hfound
    have hparent := t.parent _ _ _ hfound
    by_cases hrest : rest = []
    · rw [hrest, List.append_nil] at hparent
      exact hparent
    · exact ih hparent fun heq => hrest (List.append_cancel_left (heq.symm.trans
        (List.append_nil place).symm))

/-- A name that is no way to write another place. -/
def Ordinary (name : Text) : Prop := name ≠ ascii "." ∧ name ≠ ascii ".."

theorem resolve_ordinary {names : List Text} (hordinary : ∀ name ∈ names, Ordinary name)
    (hdirs : ∀ front, front <+: names → front ≠ names → t.kind (place ++ front) = some .directory) :
    t.resolve place names = some (place ++ names) := by
  induction names generalizing place with
  | nil =>
    rw [List.append_nil]
    rfl
  | cons name rest ih =>
    obtain ⟨hdot, hdots⟩ := hordinary name List.mem_cons_self
    have hplace := hdirs [] List.nil_prefix (List.cons_ne_nil _ _).symm
    rw [List.append_nil] at hplace
    have hdirs' : ∀ front, front <+: rest → front ≠ rest →
        t.kind (place ++ [name] ++ front) = some .directory := by
      intro front hfront hne
      rw [List.append_assoc]
      exact hdirs (name :: front) (List.prefix_cons_inj name |>.mpr hfront)
        fun heq => hne (List.cons_inj_right name |>.mp heq)
    rw [resolve, if_neg (not_not_intro hplace), if_neg hdot, if_neg hdots,
      ih (fun n hn => hordinary n (List.mem_cons_of_mem name hn)) hdirs', List.append_assoc]
    rfl

/-- An absolute path with ordinary names leads to where its names say, if they lead anywhere. -/
theorem locate_eq {path : Text} (habsolute : path.head? = some 47)
    (hordinary : ∀ name ∈ pathNames path, Ordinary name)
    (hparent : t.kind (pathNames path).dropLast = some .directory) :
    t.locate path = some (pathNames path) := by
  rw [locate, if_pos habsolute]
  apply resolve_ordinary hordinary
  intro front hfront hne
  rw [List.nil_append]
  by_cases heq : front = (pathNames path).dropLast
  · rw [heq]
    exact hparent
  · have hlt := Nat.lt_of_le_of_ne hfront.length_le fun hlength => hne (hfront.eq_of_length hlength)
    apply directory_of_prefix hparent _ heq
    apply List.prefix_of_prefix_length_le hfront (List.dropLast_prefix _)
    rw [List.length_dropLast]
    omega

end FileTree

/-! ### The names of a path -/

def EndsInName (text : Text) : Prop := ∃ c, text.getLast? = some c ∧ c ≠ 47

theorem pathNames_append (xs ys : Text) :
    pathNames (xs ++ 47 :: ys) = pathNames xs ++ pathNames ys := by
  unfold pathNames
  rw [List.splitOn_append_cons_self, List.filter_append]

theorem pathNames_nil : pathNames [] = [] := rfl

theorem pathNames_concat (text : Text) : pathNames (text ++ [47]) = pathNames text := by
  rw [pathNames_append, pathNames_nil, List.append_nil]

theorem pathNames_name {name : Text} (hname : name ≠ []) (hplain : 47 ∉ name) :
    pathNames name = [name] := by
  unfold pathNames
  rw [List.splitOn_eq_singleton hplain, List.filter_cons_of_pos, List.filter_nil]
  cases name with
  | nil => exact absurd rfl hname
  | cons _ _ => rfl

/-- A name and the slashes behind it. -/
structure Segment where
  name : Text
  extra : Nat
  notEmpty : name ≠ []
  plain : 47 ∉ name

def Segment.text (seg : Segment) : Text := seg.name ++ 47 :: List.replicate seg.extra 47

def segmentsText (segs : List Segment) : Text := segs.flatMap Segment.text

theorem segmentsText_cons (seg : Segment) (segs : List Segment) :
    segmentsText (seg :: segs)
      = seg.name ++ 47 :: (List.replicate seg.extra 47 ++ segmentsText segs) := by
  change seg.name ++ 47 :: List.replicate seg.extra 47 ++ segmentsText segs = _
  rw [List.append_assoc, List.cons_append]

theorem segmentsText_first (seg : Segment) (segs : List Segment) :
    ∃ c rest, segmentsText (seg :: segs) = c :: rest ∧ c ∈ seg.name := by
  obtain ⟨c, name, hname⟩ := List.exists_cons_of_ne_nil seg.notEmpty
  refine ⟨c, name ++ 47 :: (List.replicate seg.extra 47 ++ segmentsText segs), ?_, ?_⟩
  · rw [segmentsText_cons, hname]
    rfl
  · rw [hname]
    exact List.mem_cons_self

theorem pathNames_slashes (n : Nat) (text : Text) :
    pathNames (List.replicate n 47 ++ text) = pathNames text := by
  induction n with
  | zero => rfl
  | succ n ih =>
    have hslash := pathNames_append [] (List.replicate n 47 ++ text)
    rw [List.replicate_succ, List.cons_append]
    rw [List.nil_append, pathNames_nil, List.nil_append] at hslash
    rw [hslash, ih]

theorem pathNames_replicate (n : Nat) : pathNames (List.replicate n 47) = [] := by
  have hslashes := pathNames_slashes n []
  rwa [List.append_nil] at hslashes

theorem pathNames_segments (segs : List Segment) :
    pathNames (segmentsText segs) = segs.map Segment.name := by
  induction segs with
  | nil => rfl
  | cons seg segs ih =>
    rw [segmentsText_cons, pathNames_append, pathNames_name seg.notEmpty seg.plain, pathNames_slashes,
      ih]
    rfl

/-- With a slash at its end a text is slashes and then names, each with its slashes. -/
theorem exists_segments (text : Text) :
    ∃ n segs, text ++ [47] = List.replicate n 47 ++ segmentsText segs := by
  induction text with
  | nil => exact ⟨1, [], rfl⟩
  | cons c text ih =>
    obtain ⟨n, segs, htext⟩ := ih
    by_cases hslash : c = 47
    · refine ⟨n + 1, segs, ?_⟩
      rw [hslash, List.cons_append, htext]
      rfl
    cases n with
    | zero =>
      cases segs with
      | nil =>
        have hlength := congrArg List.length htext
        rw [List.length_append] at hlength
        cases hlength
      | cons seg segs =>
        have hplain : 47 ∉ c :: seg.name := by
          rw [List.mem_cons, not_or]
          exact ⟨Ne.symm hslash, seg.plain⟩
        refine ⟨0, ⟨c :: seg.name, seg.extra, List.cons_ne_nil _ _, hplain⟩ :: segs, ?_⟩
        rw [List.cons_append, htext]
        rfl
    | succ n =>
      have hplain : 47 ∉ [c] := fun hmem => hslash (List.mem_singleton.mp hmem).symm
      refine ⟨0, ⟨[c], n, List.cons_ne_nil _ _, hplain⟩ :: segs, ?_⟩
      rw [List.cons_append, htext]
      rfl

end Gittest
