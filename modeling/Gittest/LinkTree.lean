import Gittest.FileTree

/-!
# A tree with symbolic links

The system calls over a tree that has symbolic links too. A link is followed where more of the path is
behind it, and at the end if the call follows there; of so many links that the system gives up, none.
-/

namespace Gittest

inductive NodeKind where
  | directory
  | regular
  | symlink (target : Text)
  deriving DecidableEq, Repr

def NodeKind.type : NodeKind → FileType
  | .directory => .directory
  | .regular => .regular
  | .symlink _ => .symlink

/-- What is where. A place has no links on its way. -/
structure LinkTree where
  kind : List Text → Option NodeKind
  root : kind [] = some .directory
  parent : ∀ place name found, kind (place ++ [name]) = some found → kind place = some .directory

/-- The names that slashes separate; a slash at the end stands for a dot behind it. -/
def pathComponents (path : Text) : List Text :=
  pathNames path ++ if path.getLast? = some 47 then [ascii "."] else []

namespace LinkTree

def target (t : LinkTree) (place : List Text) : Option Text :=
  match t.kind place with
  | some (.symlink target) => some target
  | _ => none

/-- Where a name in a directory leads to. -/
def enter (place : List Text) (name : Text) : List Text :=
  if name = ascii "." then place
  else if name = ascii ".." then place.dropLast
  else place ++ [name]

/-- From a directory on through the names, up to a link that is to be followed: `jump` goes on from
the directory that it lies in, with its target and the names behind it. The last name need not exist. -/
def walkNames (t : LinkTree) (follow : Bool)
    (jump : List Text → Text → List Text → Option (List Text)) :
    List Text → List Text → Option (List Text)
  | place, [] => some place
  | place, name :: rest =>
      if t.kind place ≠ some .directory then none
      else
        match t.target (enter place name) with
        | none => t.walkNames follow jump (enter place name) rest
        | some target =>
            if rest = [] ∧ follow = false then some (enter place name) else jump place target rest

/-- Through the names, with so many links to follow at most. -/
def walk (t : LinkTree) (follow : Bool) : Nat → List Text → List Text → Option (List Text)
  | 0 => t.walkNames follow fun _ _ _ => none
  | links + 1 => t.walkNames follow fun place target rest =>
      if target = [] then none
      else t.walk follow links (if target.head? = some 47 then [] else place)
        (pathComponents target ++ rest)

/-- What an absolute path names. There is no working directory: nothing asks for a relative path. -/
def lookUp (t : LinkTree) (maxLinks : Nat) (follow : Bool) (path : Text) : Option FileType :=
  if path.head? = some 47 then
    (t.walk follow maxLinks [] (pathComponents path)).bind fun place =>
      (t.kind place).map NodeKind.type
  else
    none

def lstat (t : LinkTree) (maxLinks : Nat) (path : Text) : Option FileType :=
  t.lookUp maxLinks false path

def stat (t : LinkTree) (maxLinks : Nat) (path : Text) : Option FileType :=
  t.lookUp maxLinks true path

def addDirectory (t : LinkTree) (place : List Text) (hfree : t.kind place = none)
    (hparent : t.kind place.dropLast = some .directory) : LinkTree where
  kind := Function.update t.kind place (some .directory)
  root := root_update t.root hfree
  parent := parent_update t.parent hfree hparent

/-- A directory cannot be made of what exists, a link included, nor where there is no directory to
make it in. -/
def make (t : LinkTree) (place : List Text) : Option LinkTree :=
  if h : t.kind place = none ∧ t.kind place.dropLast = some .directory then
    some (t.addDirectory place h.1 h.2)
  else
    none

/-- A slash at the end of the path is no dot here. -/
def mkdir (t : LinkTree) (maxLinks : Nat) (path : Text) : Option LinkTree :=
  if path.head? = some 47 then
    (t.walk false maxLinks [] (pathNames path)).bind t.make
  else
    none

end LinkTree

def linkTreeSystem (maxLinks : Nat) : FileSystem LinkTree where
  lstat t := t.lstat maxLinks
  mkdir t := t.mkdir maxLinks

/-! ### The way to a place -/

namespace LinkTree

section Walk

variable {t t' : LinkTree} {follow : Bool} {jump jump' : List Text → Text → List Text → Option (List Text)}
  {place found : List Text} {name : Text} {rest names : List Text}

theorem directory_of_walkNames (hwalk : t.walkNames follow jump place (name :: rest) = some found) :
    t.kind place = some .directory := by
  by_contra hnot
  rw [walkNames, if_pos hnot] at hwalk
  cases hwalk

theorem walkNames_step (hdir : t.kind place = some .directory)
    (htarget : t.target (enter place name) = none) :
    t.walkNames follow jump place (name :: rest)
      = t.walkNames follow jump (enter place name) rest := by
  rw [walkNames, if_neg (not_not_intro hdir), htarget]

theorem walkNames_link (hdir : t.kind place = some .directory) {target : Text}
    (htarget : t.target (enter place name) = some target) :
    t.walkNames follow jump place (name :: rest)
      = if rest = [] ∧ follow = false then some (enter place name) else jump place target rest := by
  rw [walkNames, if_neg (not_not_intro hdir), htarget]

/-! ### A larger tree -/

/-- What is there is there in the other tree too. -/
def Within (t t' : LinkTree) : Prop := ∀ place kind, t.kind place = some kind → t'.kind place = some kind

theorem Within.target (hwithin : t.Within t') {kind : NodeKind} (hkind : t.kind place = some kind) :
    t'.target place = t.target place := by
  unfold LinkTree.target
  rw [hkind, hwithin place kind hkind]

/-- The same names lead to the same place, also to one where something that is no link has come. -/
theorem walkNames_within (hwithin : t.Within t')
    (hjump : ∀ place target rest, jump place target rest = some found →
      jump' place target rest = some found)
    (hfree : t.kind found = none → t'.target found = none)
    (hwalk : t.walkNames follow jump place names = some found) :
    t'.walkNames follow jump' place names = some found := by
  induction names generalizing place with
  | nil => exact hwalk
  | cons name rest ih =>
    have hdir := directory_of_walkNames hwalk
    have hdir' := hwithin place _ hdir
    cases hkind : t.kind (enter place name) with
    | none =>
      have htarget : t.target (enter place name) = none := by rw [target, hkind]
      rw [walkNames_step hdir htarget] at hwalk
      -- The walk cannot go on from where nothing is.
      cases rest with
      | nil =>
        obtain rfl : enter place name = found := Option.some.inj hwalk
        exact walkNames_step hdir' (hfree hkind)
      | cons next rest =>
        rw [directory_of_walkNames hwalk] at hkind
        cases hkind
    | some kind =>
      have hsame := hwithin.target hkind
      cases htarget : t.target (enter place name) with
      | none =>
        rw [walkNames_step hdir htarget] at hwalk
        rw [walkNames_step hdir' (hsame.trans htarget)]
        exact ih hwalk
      | some target =>
        rw [walkNames_link hdir htarget] at hwalk
        rw [walkNames_link hdir' (hsame.trans htarget)]
        split
        · rename_i hlast
          rwa [if_pos hlast] at hwalk
        · rename_i hmore
          rw [if_neg hmore] at hwalk
          exact hjump place target rest hwalk

theorem walk_within {links : Nat} (hwithin : t.Within t')
    (hfree : t.kind found = none → t'.target found = none)
    (hwalk : t.walk follow links place names = some found) :
    t'.walk follow links place names = some found := by
  induction links generalizing place names with
  | zero => exact walkNames_within hwithin (fun _ _ _ hjump => hjump) hfree hwalk
  | succ links ih =>
    refine walkNames_within hwithin (fun place target rest hjump => ?_) hfree hwalk
    by_cases hempty : target = []
    · rwa [if_pos hempty] at hjump ⊢
    · rw [if_neg hempty] at hjump ⊢
      exact ih hjump

/-! ### The last link -/

/-- Where the last link is not followed, the same names lead to the same place or to that link. -/
theorem walkNames_nofollow
    (hjump : ∀ place target rest, jump place target rest = some found →
      ∃ last, jump' place target rest = some last ∧ (last = found ∨ (t.target last).isSome))
    (hwalk : t.walkNames true jump place names = some found) :
    ∃ last, t.walkNames false jump' place names = some last ∧
      (last = found ∨ (t.target last).isSome) := by
  induction names generalizing place with
  | nil => exact ⟨place, rfl, Or.inl (Option.some.inj hwalk)⟩
  | cons name rest ih =>
    have hdir := directory_of_walkNames hwalk
    cases htarget : t.target (enter place name) with
    | none =>
      rw [walkNames_step hdir htarget] at hwalk ⊢
      exact ih hwalk
    | some target =>
      rw [walkNames_link hdir htarget] at hwalk ⊢
      rw [if_neg (fun hlast => Bool.noConfusion hlast.2)] at hwalk
      split
      · exact ⟨enter place name, rfl, Or.inr (by rw [htarget]; rfl)⟩
      · exact hjump place target rest hwalk

theorem walk_nofollow {links : Nat} (hwalk : t.walk true links place names = some found) :
    ∃ last, t.walk false links place names = some last ∧
      (last = found ∨ (t.target last).isSome) := by
  induction links generalizing place names with
  | zero =>
    refine walkNames_nofollow (fun place target rest hjump => ?_) hwalk
    cases hjump
  | succ links ih =>
    refine walkNames_nofollow (fun place target rest hjump => ?_) hwalk
    by_cases hempty : target = []
    · rw [if_pos hempty] at hjump
      cases hjump
    · rw [if_neg hempty] at hjump ⊢
      exact ih hjump

end Walk

/-! ### The calls -/

section Calls

variable {t t' : LinkTree} {maxLinks : Nat} {follow : Bool} {path : Text} {found : FileType}

theorem lookUp_eq_some : t.lookUp maxLinks follow path = some found ↔ path.head? = some 47 ∧
    ∃ place, t.walk follow maxLinks [] (pathComponents path) = some place ∧
      (t.kind place).map NodeKind.type = some found := by
  unfold lookUp
  split
  · rename_i habsolute
    rw [Option.bind_eq_some_iff]
    exact (and_iff_right habsolute).symm
  · rename_i hrelative
    exact iff_of_false nofun fun hfound => hrelative hfound.1

theorem type_of_target {place : List Text} (htarget : (t.target place).isSome) :
    (t.kind place).map NodeKind.type = some .symlink := by
  unfold target at htarget
  split at htarget
  · rename_i hkind
    rw [hkind]
    rfl
  · cases htarget

/-- What resolves to a directory is one, or a link. -/
theorem lstat_of_stat (hstat : t.stat maxLinks path = some .directory) :
    t.lstat maxLinks path = some .directory ∨ t.lstat maxLinks path = some .symlink := by
  obtain ⟨habsolute, place, hwalk, hkind⟩ := lookUp_eq_some.mp hstat
  obtain ⟨last, hwalk', rfl | hlink⟩ := walk_nofollow hwalk
  · exact Or.inl (lookUp_eq_some.mpr ⟨habsolute, last, hwalk', hkind⟩)
  · exact Or.inr (lookUp_eq_some.mpr ⟨habsolute, last, hwalk', type_of_target hlink⟩)

theorem make_eq_some {place : List Text} (hmake : t.make place = some t') :
    t.kind place = none ∧ t'.kind = Function.update t.kind place (some .directory) := by
  unfold make at hmake
  split at hmake
  · rename_i hfree
    rw [← Option.some.inj hmake]
    exact ⟨hfree.1, rfl⟩
  · cases hmake

theorem within_of_make {place : List Text} (hmake : t.make place = some t') : t.Within t' := by
  obtain ⟨hfree, hupdate⟩ := make_eq_some hmake
  intro other kind hkind
  have hne : other ≠ place := by
    rintro rfl
    rw [hfree] at hkind
    cases hkind
  rw [hupdate, Function.update_of_ne hne]
  exact hkind

theorem mkdir_eq_some : t.mkdir maxLinks path = some t' ↔ path.head? = some 47 ∧
    ∃ place, t.walk false maxLinks [] (pathNames path) = some place ∧ t.make place = some t' := by
  unfold mkdir
  split
  · rename_i habsolute
    rw [Option.bind_eq_some_iff]
    exact (and_iff_right habsolute).symm
  · rename_i hrelative
    exact iff_of_false nofun fun hfound => hrelative hfound.1

theorem pathComponents_eq (hends : EndsInName path) : pathComponents path = pathNames path := by
  obtain ⟨c, hlast, hc⟩ := hends
  have hno : path.getLast? ≠ some 47 := fun hslash => hc (Option.some.inj (hlast.symm.trans hslash))
  rw [pathComponents, if_neg hno, List.append_nil]

/-- Directories stay where they are, also behind links. -/
theorem lstat_within (hwithin : t.Within t') (hlstat : t.lstat maxLinks path = some .directory) :
    t'.lstat maxLinks path = some .directory := by
  obtain ⟨habsolute, place, hwalk, htype⟩ := lookUp_eq_some.mp hlstat
  obtain ⟨kind, hkind, htype'⟩ := Option.map_eq_some_iff.mp htype
  refine lookUp_eq_some.mpr ⟨habsolute, place, ?_, ?_⟩
  · apply walk_within hwithin _ hwalk
    intro hnone
    rw [hkind] at hnone
    cases hnone
  · rw [hwithin place kind hkind, Option.map_some, htype']

end Calls

end LinkTree

end Gittest
