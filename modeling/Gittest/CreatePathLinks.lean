import Gittest.LinkTree
import Gittest.Proof.CreatePathCalls

/-!
# What `create_path` makes of links

`is_dir` does not follow a link at the end of what it is asked for, and `mkdir` takes no name that
exists. So a link to a directory, at the end of some prefix of the path, is neither taken for a
directory nor replaced by one.
-/

namespace Gittest

/-! ### Calls that go by the book -/

section Lawful

variable {σ : Type} {fs : FileSystem σ} {s s' : σ} {name other : Text} {names : List Text}

/-- A name that is taken is refused. A directory that has been made is there, and so are those that
were there before. -/
structure FileSystem.Lawful (fs : FileSystem σ) : Prop where
  taken : ∀ s name found, EndsInName name → fs.lstat s name = some found → fs.mkdir s name = none
  made : ∀ s name s', EndsInName name → fs.mkdir s name = some s' →
    fs.lstat s' name = some .directory
  kept : ∀ s name s' other, fs.mkdir s name = some s' → fs.lstat s other = some .directory →
    fs.lstat s' other = some .directory

theorem isDir_eq_zero (hlstat : fs.lstat s name = some .directory) : isDir fs s name = 0 := by
  rw [isDir, hlstat]

theorem isDir_neg (hlstat : fs.lstat s name ≠ some .directory) : isDir fs s name = -1 := by
  unfold isDir
  split
  · rfl
  · rename_i hdir
    exact absurd hdir hlstat
  · rfl

theorem ensureDir_directory (hlstat : fs.lstat s name = some .directory) :
    ensureDir fs s name = some s := by
  rw [ensureDir, isDir_eq_zero hlstat]
  rfl

theorem ensureDir_other (hlstat : fs.lstat s name ≠ some .directory) :
    ensureDir fs s name = fs.mkdir s name := by
  rw [ensureDir, isDir_neg hlstat]
  rfl

theorem FileSystem.Lawful.ensured (hlawful : fs.Lawful) (hends : EndsInName name)
    (hensure : ensureDir fs s name = some s') : fs.lstat s' name = some .directory := by
  by_cases hlstat : fs.lstat s name = some .directory
  · rw [ensureDir_directory hlstat] at hensure
    rwa [← Option.some.inj hensure]
  · rw [ensureDir_other hlstat] at hensure
    exact hlawful.made s name s' hends hensure

theorem FileSystem.Lawful.keeps (hlawful : fs.Lawful) (hensure : ensureDir fs s name = some s')
    (hother : fs.lstat s other = some .directory) : fs.lstat s' other = some .directory := by
  by_cases hlstat : fs.lstat s name = some .directory
  · rw [ensureDir_directory hlstat] at hensure
    rwa [← Option.some.inj hensure]
  · rw [ensureDir_other hlstat] at hensure
    exact hlawful.kept s name s' other hensure hother

theorem ensureAll_cons (hensure : ensureDir fs s name = some s') :
    ensureAll fs s (name :: names) = ensureAll fs s' names := by
  rw [ensureAll, hensure]

theorem ensureAll_fails (hensure : ensureDir fs s name = none) :
    ensureAll fs s (name :: names) = (-1, s) := by
  rw [ensureAll, hensure]

theorem ensureAll_present (hlstat : ∀ name ∈ names, fs.lstat s name = some .directory) :
    ensureAll fs s names = (0, s) := by
  induction names with
  | nil => rfl
  | cons name rest ih =>
    rw [ensureAll_cons (ensureDir_directory (hlstat name List.mem_cons_self))]
    exact ih fun n hn => hlstat n (List.mem_cons_of_mem name hn)

/-- Directories stay, whatever is made behind them. -/
theorem FileSystem.Lawful.keepsAll (hlawful : fs.Lawful) {ret : Int}
    (hall : ensureAll fs s names = (ret, s')) (hother : fs.lstat s other = some .directory) :
    fs.lstat s' other = some .directory := by
  induction names generalizing s with
  | nil =>
    obtain ⟨-, rfl⟩ := Prod.mk.inj hall
    exact hother
  | cons name rest ih =>
    cases hensure : ensureDir fs s name with
    | none =>
      rw [ensureAll_fails hensure] at hall
      obtain ⟨-, rfl⟩ := Prod.mk.inj hall
      exact hother
    | some next =>
      rw [ensureAll_cons hensure] at hall
      exact ih hall (hlawful.keeps hensure hother)

theorem FileSystem.Lawful.ensuredAll (hlawful : fs.Lawful) (hends : ∀ name ∈ names, EndsInName name)
    (hall : ensureAll fs s names = (0, s')) : ∀ name ∈ names, fs.lstat s' name = some .directory := by
  induction names generalizing s with
  | nil => exact nofun
  | cons name rest ih =>
    obtain ⟨hname, hrest⟩ := List.forall_mem_cons.mp hends
    cases hensure : ensureDir fs s name with
    | none =>
      rw [ensureAll_fails hensure] at hall
      cases hall
    | some next =>
      rw [ensureAll_cons hensure] at hall
      refine List.forall_mem_cons.mpr ⟨?_, ih hrest hall⟩
      exact hlawful.keepsAll hall (hlawful.ensured hname hensure)

/-- A second time there is nothing to make. -/
theorem FileSystem.Lawful.again (hlawful : fs.Lawful) (hends : ∀ name ∈ names, EndsInName name)
    (hall : ensureAll fs s names = (0, s')) : ensureAll fs s' names = (0, s') :=
  ensureAll_present (hlawful.ensuredAll hends hall)

/-- A link among directories: nothing is made up to it, and it is refused. -/
theorem FileSystem.Lawful.link_refused (hlawful : fs.Lawful)
    (hends : ∀ name ∈ names, EndsInName name)
    (hexist : ∀ name ∈ names,
      fs.lstat s name = some .directory ∨ fs.lstat s name = some .symlink)
    (hlink : other ∈ names) (hother : fs.lstat s other = some .symlink) :
    ensureAll fs s names = (-1, s) := by
  induction names with
  | nil => cases hlink
  | cons name rest ih =>
    obtain ⟨hname, hrest⟩ := List.forall_mem_cons.mp hends
    obtain ⟨hfirst, hexist'⟩ := List.forall_mem_cons.mp hexist
    rcases hfirst with hdir | hsymlink
    · have hne : other ≠ name := by
        rintro rfl
        rw [hdir] at hother
        cases hother
      rw [ensureAll_cons (ensureDir_directory hdir)]
      exact ih hrest hexist' ((List.mem_cons.mp hlink).resolve_left hne)
    · apply ensureAll_fails
      rw [ensureDir_other (by rw [hsymlink]; decide)]
      exact hlawful.taken s name .symlink hname hsymlink

end Lawful

theorem linkTreeSystem_lawful (maxLinks : Nat) : (linkTreeSystem maxLinks).Lawful := by
  constructor
  case taken =>
    intro t name found hends hlstat
    obtain ⟨-, place, hwalk, htype⟩ := LinkTree.lookUp_eq_some.mp hlstat
    rw [LinkTree.pathComponents_eq hends] at hwalk
    obtain ⟨kind, hkind, -⟩ := Option.map_eq_some_iff.mp htype
    rw [Option.eq_none_iff_forall_ne_some]
    intro t' hmkdir
    obtain ⟨-, place', hwalk', hmake⟩ := LinkTree.mkdir_eq_some.mp hmkdir
    obtain rfl : place = place' := Option.some.inj (hwalk.symm.trans hwalk')
    rw [(LinkTree.make_eq_some hmake).1] at hkind
    cases hkind
  case made =>
    intro t name t' hends hmkdir
    obtain ⟨habsolute, place, hwalk, hmake⟩ := LinkTree.mkdir_eq_some.mp hmkdir
    have hdir : t'.kind place = some .directory := by
      rw [(LinkTree.make_eq_some hmake).2, Function.update_self]
    refine LinkTree.lookUp_eq_some.mpr ⟨habsolute, place, ?_, by rw [hdir]; rfl⟩
    rw [LinkTree.pathComponents_eq hends]
    apply LinkTree.walk_within (LinkTree.within_of_make hmake) _ hwalk
    intro _
    rw [LinkTree.target, hdir]
  case kept =>
    intro t name t' other hmkdir hlstat
    obtain ⟨-, place, -, hmake⟩ := LinkTree.mkdir_eq_some.mp hmkdir
    exact LinkTree.lstat_within (LinkTree.within_of_make hmake) hlstat

/-! ### What exists -/

/-- Every prefix of the path resolves to a directory, through whatever links. -/
structure PathExists (maxLinks : Nat) (t : LinkTree) (path : Text) : Prop where
  absolute : path.head? = some 47
  short : path.length < pathMax
  directories : ∀ front, NamePrefix path front → t.stat maxLinks front = some .directory

def CreatePathReturns (maxLinks : Nat) (t : LinkTree) (stack : Vector UInt8 (pathMax + 1))
    (path : CString) (ret : Int) (t' : LinkTree) : Prop :=
  ∀ fuel, pathMax ≤ fuel →
    createPath (linkTreeSystem maxLinks) fuel stack t path.array = .ok (ret, t')

/-- The call succeeds on what exists and leaves it alone, and succeeds again where it has succeeded. -/
structure TakesExisting (maxLinks : Nat) (t : LinkTree) (stack : Vector UInt8 (pathMax + 1))
    (path : CString) : Prop where
  existing : PathExists maxLinks t path.chars → CreatePathReturns maxLinks t stack path 0 t
  again : ∀ t' stack', CreatePathReturns maxLinks t stack path 0 t' →
    CreatePathReturns maxLinks t' stack' path 0 t'

section Calls

variable {maxLinks : Nat} {t t' : LinkTree} {stack stack' : Vector UInt8 (pathMax + 1)}
  {path : CString} {ret ret' : Int}

theorem CreatePathReturns.unique (hcall : CreatePathReturns maxLinks t stack path ret t')
    {t'' : LinkTree} (hcall' : CreatePathReturns maxLinks t stack path ret' t'') :
    ret = ret' ∧ t' = t'' :=
  Prod.mk.inj (Except.ok.inj ((hcall pathMax (Nat.le_refl _)).symm.trans
    (hcall' pathMax (Nat.le_refl _))))

/-- The call with an absolute path that fits, wherever it is made. -/
theorem exists_cuts (maxLinks : Nat) (hshort : path.chars.length < pathMax)
    (habsolute : path.chars = [] ∨ path.chars.head? = some 47) :
    ∃ names, (∀ front, NamePrefix path.chars front ↔ front ∈ names) ∧
      (∀ name ∈ names, EndsInName name) ∧
      ∀ t stack, CreatePathReturns maxLinks t stack path
        (ensureAll (linkTreeSystem maxLinks) t names).1
        (ensureAll (linkTreeSystem maxLinks) t names).2 := by
  obtain ⟨m, segs, htext, -⟩ := exists_absolute habsolute
  refine ⟨cuts (List.replicate (m + 1) 47) segs, fun front => namePrefix_iff htext,
    fun name hmem => endsInName_of_mem_cuts hmem, fun t stack fuel hfuel => ?_⟩
  exact createPath_cuts (linkTreeSystem maxLinks) t stack hshort htext hfuel

/-- Wherever it has returned 0 it has gone through the whole path. -/
theorem absolute_of_returns_zero (hcall : CreatePathReturns maxLinks t stack path 0 t') :
    path.chars.length < pathMax ∧ (path.chars = [] ∨ path.chars.head? = some 47) := by
  have hzero := hcall pathMax (Nat.le_refl _)
  have hshort : path.chars.length < pathMax := by
    by_contra hlong
    by_cases hwraps : toInt path.chars.length < pathMax
    · rw [createPath_overruns _ t stack (Nat.not_lt.mp hlong) hwraps] at hzero
      cases hzero
    · rw [createPath_long _ t stack (Int.not_lt.mp hwraps)] at hzero
      cases hzero
  refine ⟨hshort, ?_⟩
  by_contra hneither
  obtain ⟨hne, hrelative⟩ := not_or.mp hneither
  rw [createPath_relative _ t stack hshort hne hrelative] at hzero
  cases hzero

theorem returns_again (hcall : CreatePathReturns maxLinks t stack path 0 t') :
    CreatePathReturns maxLinks t' stack' path 0 t' := by
  obtain ⟨hshort, habsolute⟩ := absolute_of_returns_zero hcall
  obtain ⟨names, -, hends, hcalls⟩ := exists_cuts maxLinks hshort habsolute
  obtain ⟨hret, hstate⟩ := hcall.unique (hcalls t stack)
  have hagain := (linkTreeSystem_lawful maxLinks).again hends (Prod.ext hret.symm hstate.symm)
  have hcall' := hcalls t' stack'
  rwa [hagain] at hcall'

theorem PathExists.returns (hexists : PathExists maxLinks t path.chars)
    (hnone : ∀ front, NamePrefix path.chars front → t.lstat maxLinks front ≠ some .symlink) :
    CreatePathReturns maxLinks t stack path 0 t := by
  obtain ⟨names, hnames, -, hcalls⟩ :=
    exists_cuts maxLinks hexists.short (Or.inr hexists.absolute)
  have hall : ensureAll (linkTreeSystem maxLinks) t names = (0, t) := by
    apply ensureAll_present
    intro name hmem
    have hfront := (hnames name).mpr hmem
    exact (LinkTree.lstat_of_stat (hexists.directories name hfront)).resolve_right
      (hnone name hfront)
  have hcall := hcalls t stack
  rwa [hall] at hcall

/-- A prefix that is a link makes the call fail, with nothing changed. -/
theorem PathExists.fails (hexists : PathExists maxLinks t path.chars) {front : Text}
    (hfront : NamePrefix path.chars front) (hlink : t.lstat maxLinks front = some .symlink) :
    CreatePathReturns maxLinks t stack path (-1) t := by
  obtain ⟨names, hnames, hends, hcalls⟩ :=
    exists_cuts maxLinks hexists.short (Or.inr hexists.absolute)
  have hall : ensureAll (linkTreeSystem maxLinks) t names = (-1, t) := by
    apply (linkTreeSystem_lawful maxLinks).link_refused hends _ ((hnames front).mp hfront) hlink
    exact fun name hmem => LinkTree.lstat_of_stat (hexists.directories name ((hnames name).mpr hmem))
  have hcall := hcalls t stack
  rwa [hall] at hcall

end Calls

/-- **What exists.** `create_path` succeeds on what exists if and only if no prefix of the path, cut
behind a name, is itself a link; once it has succeeded it succeeds again. -/
theorem createPath_takesExisting_iff (maxLinks : Nat) (t : LinkTree)
    (stack : Vector UInt8 (pathMax + 1)) (path : CString) :
    TakesExisting maxLinks t stack path ↔ (PathExists maxLinks t path.chars →
      ∀ front, NamePrefix path.chars front → t.lstat maxLinks front ≠ some .symlink) := by
  constructor
  · intro htakes hexists front hfront hlink
    obtain ⟨hret, -⟩ := (htakes.existing hexists).unique (hexists.fails hfront hlink)
    cases hret
  · intro hnone
    exact ⟨fun hexists => hexists.returns (hnone hexists), fun t' stack' hcall => returns_again hcall⟩

/-- A directory and a link to it. -/
def linkedTree : LinkTree where
  kind
    | [] => some .directory
    | [name] =>
        if name = ascii "dir" then some .directory
        else if name = ascii "link" then some (.symlink (ascii "dir"))
        else none
    | _ :: _ :: _ => none
  root := rfl
  parent := by
    intro place name found hfound
    match place with
    | [] => rfl
    | [_] => cases hfound
    | _ :: _ :: _ => cases hfound

theorem namePrefix_link {front : Text} : NamePrefix (ascii "/link") front ↔ front = ascii "/link" := by
  have htext : ascii "/link" ++ [47]
      = List.replicate 1 47 ++ segmentsText [⟨ascii "link", 0, by decide, by decide⟩] := rfl
  rw [namePrefix_iff htext]
  exact List.mem_singleton

/-- The path is the link. -/
theorem createPath_refuses_link :
    PathExists 40 linkedTree (ascii "/link") ∧
      CreatePathReturns 40 linkedTree (Vector.replicate (pathMax + 1) 170)
        ⟨ascii "/link", by decide⟩ (-1) linkedTree ∧
      ¬TakesExisting 40 linkedTree (Vector.replicate (pathMax + 1) 170)
        ⟨ascii "/link", by decide⟩ := by
  have hexists : PathExists 40 linkedTree (ascii "/link") := by
    refine ⟨rfl, by decide, fun front hfront => ?_⟩
    rw [namePrefix_link.mp hfront]
    rfl
  have hlink : linkedTree.lstat 40 (ascii "/link") = some .symlink := rfl
  have hfails : CreatePathReturns 40 linkedTree (Vector.replicate (pathMax + 1) 170)
      ⟨ascii "/link", by decide⟩ (-1) linkedTree :=
    PathExists.fails hexists (namePrefix_link.mpr rfl) hlink
  refine ⟨hexists, hfails, fun htakes => ?_⟩
  obtain ⟨hret, -⟩ := (htakes.existing hexists).unique hfails
  cases hret

end Gittest
