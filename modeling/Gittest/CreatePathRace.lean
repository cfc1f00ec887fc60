import Gittest.CreatePath
import Gittest.CreatePathSteps
import Gittest.Lib.Transition
import Mathlib.Data.List.Nodup

/-!
# Calls of `create_path` that race

Several processes call `create_path` on one tree, each with a path of its own that can be made. Between
the `lstat` that misses a directory and the `mkdir` another process may make it; then the call fails,
although the directory is there. The call that has made the newest directory cannot have failed, so they
do not all fail.
-/

namespace Gittest

open Outcome Transition

variable {ι : Type}

/-- How many directories were made before the last `lstat` of a process, and before its last `mkdir`. -/
structure Window where
  lstat : Nat
  mkdir : Nat
  deriving DecidableEq, Repr

def Window.next (window : Window) (count : Nat) : CreatePathPc → Window
  | .lstat _ _ => { lstat := count, mkdir := count }
  | .mkdir _ _ => { window with mkdir := count }
  | _ => window

/-- What was made between the two. -/
def Window.between (window : Window) (made : List (ι × List Text)) : List (ι × List Text) :=
  (made.take window.mkdir).drop window.lstat

/-- The processes and their tree. Not part of the system are `made`, the directories with who made them,
in the order in which they were made, `windows`, where in `made` each process looked and tried last, and
`steps`, how many steps it has taken. -/
structure CreatePathRace (ι : Type) where
  tree : FileTree
  calls : ι → CreatePathPc
  made : List (ι × List Text)
  windows : ι → Window
  steps : ι → Nat

/-- A `mkdir` that succeeds. -/
def recordMade (made : List (ι × List Text)) (i : ι) (tree : FileTree) :
    CreatePathPc → List (ι × List Text)
  | .mkdir buf _ =>
      match stringOf buf with
      | .ok name => if (tree.mkdir name).isSome then made ++ [(i, pathNames name)] else made
      | .error _ => made
  | _ => made

namespace CreatePathRace

def start (tree : FileTree) (buffers : ι → Vector UInt8 (pathMax + 1)) (paths : ι → CString) :
    CreatePathRace ι where
  tree := tree
  calls := fun i => .of (createPathEnter (buffers i) (paths i).array)
  made := []
  windows := fun _ => { lstat := 0, mkdir := 0 }
  steps := fun _ => 0

def step [DecidableEq ι] (s : CreatePathRace ι) (i : ι) : Option (CreatePathRace ι) :=
  ((s.calls i).step fileTreeSystem s.tree).map fun (tree, pc) =>
    { tree := tree
      calls := Function.update s.calls i pc
      made := recordMade s.made i s.tree (s.calls i)
      windows := Function.update s.windows i ((s.windows i).next s.made.length (s.calls i))
      steps := Function.update s.steps i (s.steps i + 1) }

end CreatePathRace

section Invariant

variable {tree t t' : FileTree} {paths : ι → CString} {path : CString} {made : List (ι × List Text)}
  {window : Window} {i : ι} {n : Nat} {done : Text} {seg : Segment} {segs : List Segment}

/-- Process `i` has come to the names of `segs`: the directories it has made lie behind it. -/
structure AtNames (t : FileTree) (path : CString) (made : List (ι × List Text)) (i : ι) (done : Text)
    (segs : List Segment) : Prop where
  cursor : Cursor t done segs
  names : pathNames done ++ segs.map Segment.name = pathNames path.chars
  behind : ∀ place, (i, place) ∈ made → place <+: pathNames done

/-- What is known of process `i`, which has taken `n` steps. The directory that it is about to make was
not there at the start, and nobody had made it by its `lstat`. -/
def CallOk (tree t : FileTree) (path : CString) (made : List (ι × List Text)) (window : Window) (i : ι)
    (n : Nat) : CreatePathPc → Prop
  | .lstat buf p => ∃ done seg segs junk,
      buf = cutBuffer done seg segs junk ∧ p = (done ++ seg.name).length ∧
      AtNames t path made i done (seg :: segs) ∧ n ≤ 2 * (pathNames done).length
  | .mkdir buf p => ∃ done seg segs junk,
      buf = cutBuffer done seg segs junk ∧ p = (done ++ seg.name).length ∧
      AtNames t path made i done (seg :: segs) ∧ n ≤ 2 * (pathNames done).length + 1 ∧
      tree.kind (pathNames done ++ [seg.name]) ≠ some .directory ∧ window.lstat ≤ made.length ∧
      ∀ j, (j, pathNames done ++ [seg.name]) ∉ made.take window.lstat
  | .returned ret => n ≤ 2 * (pathNames path.chars).length ∧
      ((ret = 0 ∧ ∀ place, place <+: pathNames path.chars → t.kind place = some .directory) ∨
      (ret = -1 ∧ window.mkdir ≤ made.length ∧
        ∃ j place, j ≠ i ∧ (j, place) ∈ window.between made ∧ place <+: pathNames path.chars))
  | .crashed _ => False

/-- A call that no other process has overtaken: what its `lstat` missed is still missing. -/
def Ahead (t : FileTree) (pc : CreatePathPc) : Prop :=
  pc ≠ .returned (-1) ∧ ∀ buf p name, pc = .mkdir buf p → stringOf buf = .ok name →
    t.kind (pathNames name) = none

structure RaceInv (tree : FileTree) (paths : ι → CString) (s : CreatePathRace ι) : Prop where
  made : ∀ i place, (i, place) ∈ s.made → place <+: pathNames (paths i).chars ∧
    tree.kind place = none ∧ s.tree.kind place = some .directory
  kept : ∀ place, (∀ i, (i, place) ∉ s.made) → s.tree.kind place = tree.kind place
  once : (s.made.map Prod.snd).Nodup
  calls : ∀ i, CallOk tree s.tree (paths i) s.made (s.windows i) i (s.steps i) (s.calls i)
  -- Before any directory is made nobody is overtaken, and then not who made the last one.
  ahead : ∀ i, (∀ last ∈ s.made.getLast?, last.1 = i) → Ahead s.tree (s.calls i)

theorem AtNames.callOk (hat : AtNames t path made i done segs) (hn : n ≤ 2 * (pathNames done).length)
    (junk : Text) : CallOk tree t path made window i n (.at done junk segs) := by
  cases segs with
  | cons seg segs => exact ⟨done, seg, segs, junk, rfl, rfl, hat, hn⟩
  | nil =>
    have hnames := hat.names
    rw [List.map_nil, List.append_nil] at hnames
    refine ⟨by rwa [← hnames], Or.inl ⟨rfl, fun place hplace => ?_⟩⟩
    rw [← hnames] at hplace
    exact FileTree.directory_of_le hat.cursor.directory hplace

theorem ahead_at (done junk : Text) (segs : List Segment) :
    Ahead t (CreatePathPc.at done junk segs) := by
  cases segs with
  | nil => exact ⟨by simp [CreatePathPc.at], fun _ _ _ hpc => by cases hpc⟩
  | cons seg segs => exact ⟨by simp [CreatePathPc.at], fun _ _ _ hpc => by cases hpc⟩

/-- Past a directory, found or made. -/
theorem AtNames.next (hat : AtNames t path made i done (seg :: segs)) {made' : List (ι × List Text)}
    (hensure : t.ensure (pathNames done ++ [seg.name]) = some t')
    (hbehind : ∀ place, (i, place) ∈ made' → (i, place) ∈ made ∨ place = pathNames done ++ [seg.name]) :
    AtNames t' path made' i (done ++ seg.text) segs where
  cursor := hat.cursor.next hensure
  names := by
    rw [pathNames_text hat.cursor, List.append_assoc]
    exact hat.names
  behind := by
    intro place hmem
    rw [pathNames_text hat.cursor]
    rcases hbehind place hmem with hold | rfl
    · exact (hat.behind place hold).trans (List.prefix_append _ _)
    · exact List.prefix_rfl

/-- What another process does leaves a process where it is. -/
theorem AtNames.mono (hat : AtNames t path made i done segs) {made' : List (ι × List Text)}
    (hkeep : ∀ place, t.kind place = some .directory → t'.kind place = some .directory)
    (hown : ∀ place, (i, place) ∈ made' → (i, place) ∈ made) :
    AtNames t' path made' i done segs where
  cursor := { hat.cursor with directory := hkeep _ hat.cursor.directory }
  names := hat.names
  behind := fun place hmem => hat.behind place (hown place hmem)

theorem CallOk.mono {pc : CreatePathPc} (hok : CallOk tree t path made window i n pc)
    {made' : List (ι × List Text)} (hmade : made <+: made')
    (hkeep : ∀ place, t.kind place = some .directory → t'.kind place = some .directory)
    (hown : ∀ place, (i, place) ∈ made' → (i, place) ∈ made) :
    CallOk tree t' path made' window i n pc := by
  have hlength := hmade.length_le
  have htake : ∀ {k : Nat}, k ≤ made.length → made'.take k = made.take k := by
    obtain ⟨later, rfl⟩ := hmade
    exact fun hk => List.take_append_of_le_length hk
  cases pc with
  | lstat buf p =>
    obtain ⟨done, seg, segs, junk, hbuf, hp, hat, hn⟩ := hok
    exact ⟨done, seg, segs, junk, hbuf, hp, hat.mono hkeep hown, hn⟩
  | mkdir buf p =>
    obtain ⟨done, seg, segs, junk, hbuf, hp, hat, hn, hmissing, hlooked, hunmade⟩ := hok
    refine ⟨done, seg, segs, junk, hbuf, hp, hat.mono hkeep hown, hn, hmissing, by omega, ?_⟩
    rw [htake hlooked]
    exact hunmade
  | returned ret =>
    obtain ⟨hn, ⟨hret, hdirs⟩ | ⟨hret, htried, j, place, hne, hmem, hwithin⟩⟩ := hok
    · exact ⟨hn, Or.inl ⟨hret, fun place hplace => hkeep place (hdirs place hplace)⟩⟩
    · refine ⟨hn, Or.inr ⟨hret, by omega, j, place, hne, ?_, hwithin⟩⟩
      rw [Window.between, htake htried]
      exact hmem
  | crashed fault => exact hok

theorem FileTree.make_eq_some {place : List Text} (hmake : t.make place = some t') :
    t.kind place = none ∧ t.kind place.dropLast = some .directory ∧
      t'.kind = Function.update t.kind place (some .directory) := by
  rw [make] at hmake
  split at hmake
  · rename_i hfree
    cases hmake
    exact ⟨hfree.1, hfree.2, rfl⟩
  · cases hmake

section Calls

variable (hat : AtNames t path made i done (seg :: segs))

include hat

theorem AtNames.stringOf (junk : Text) :
    stringOf (cutBuffer done seg segs junk) = .ok (done ++ seg.name) :=
  stringOf_cutBuffer hat.cursor.noNul junk

theorem AtNames.next_eq (junk : Text) :
    CreatePathPc.of (createPathNext (cutBuffer done seg segs junk) (done ++ seg.name).length)
      = .at (done ++ seg.text) junk segs := by
  rw [createPathNext_eq hat.cursor.noNul]
  rfl

theorem AtNames.isDir : isDir fileTreeSystem t (done ++ seg.name) < 0 ↔
    t.kind (pathNames done ++ [seg.name]) ≠ some .directory := by
  have hlstat : fileTreeSystem.lstat t (done ++ seg.name)
      = (t.kind (pathNames done ++ [seg.name])).map FileKind.type := by
    change (t.locate (done ++ seg.name)).bind _ = _
    rw [hat.cursor.locate, hat.cursor.pathNames_cut]
    rfl
  rw [Gittest.isDir, hlstat]
  cases hkind : t.kind (pathNames done ++ [seg.name]) with
  | none => simp
  | some found => cases found <;> simp [FileKind.type]

theorem AtNames.mkdir : t.mkdir (done ++ seg.name) = t.make (pathNames done ++ [seg.name]) := by
  change (t.locate (done ++ seg.name)).bind _ = _
  rw [hat.cursor.locate, hat.cursor.pathNames_cut]
  rfl

/-- A directory that cannot be made is there, or a file is. -/
theorem AtNames.kind_of_make (hmake : t.make (pathNames done ++ [seg.name]) = none) :
    t.kind (pathNames done ++ [seg.name]) ≠ none := by
  intro hfree
  have hparent : t.kind (pathNames done ++ [seg.name]).dropLast = some .directory := by
    rw [List.dropLast_concat]
    exact hat.cursor.directory
  obtain ⟨t', hmade, -⟩ := FileTree.make_free hfree hparent
  rw [hmake] at hmade
  cases hmade

theorem AtNames.prefix_names : pathNames done ++ [seg.name] <+: pathNames path.chars := by
  rw [← hat.names, List.map_cons,
    List.append_cons (pathNames done) seg.name (segs.map Segment.name)]
  exact List.prefix_append _ _

end Calls

end Invariant

/-! ### Steps -/

section Steps

variable [DecidableEq ι] {tree : FileTree} {paths : ι → CString} {s s' : CreatePathRace ι} {i : ι}

/-- A step that makes nothing. -/
theorem RaceInv.quiet (hinv : RaceInv tree paths s) {pc : CreatePathPc} {window : Window}
    (hok : CallOk tree s.tree (paths i) s.made window i (s.steps i + 1) pc)
    (hahead : (∀ last ∈ s.made.getLast?, last.1 = i) → Ahead s.tree pc) :
    RaceInv tree paths { s with
      calls := Function.update s.calls i pc
      windows := Function.update s.windows i window
      steps := Function.update s.steps i (s.steps i + 1) } where
  made := hinv.made
  kept := hinv.kept
  once := hinv.once
  calls := by
    intro j
    dsimp only
    by_cases hji : j = i
    · subst hji
      rw [Function.update_self, Function.update_self, Function.update_self]
      exact hok
    · rw [Function.update_of_ne hji, Function.update_of_ne hji, Function.update_of_ne hji]
      exact hinv.calls j
  ahead := by
    intro j hlast
    dsimp only
    by_cases hji : j = i
    · subst hji
      rw [Function.update_self]
      exact hahead hlast
    · rw [Function.update_of_ne hji]
      exact hinv.ahead j hlast

/-- The step that makes a directory. -/
theorem RaceInv.makes (hinv : RaceInv tree paths s) {done junk : Text} {seg : Segment}
    {segs : List Segment} {t' : FileTree} (window : Window)
    (hat : AtNames s.tree (paths i) s.made i done (seg :: segs))
    (hn : s.steps i ≤ 2 * (pathNames done).length + 1)
    (hmake : s.tree.make (pathNames done ++ [seg.name]) = some t') :
    RaceInv tree paths {
      tree := t'
      calls := Function.update s.calls i (.at (done ++ seg.text) junk segs)
      made := s.made ++ [(i, pathNames done ++ [seg.name])]
      windows := Function.update s.windows i window
      steps := Function.update s.steps i (s.steps i + 1) } := by
  let place := pathNames done ++ [seg.name]
  obtain ⟨hfree, hparent, hkind⟩ := FileTree.make_eq_some hmake
  have hself : t'.kind place = some .directory := by rw [hkind, Function.update_self]
  have hkeep : ∀ other, s.tree.kind other = some .directory → t'.kind other = some .directory := by
    intro other hother
    rw [hkind, Function.update_of_ne ?_]
    · exact hother
    · rintro rfl
      rw [hfree] at hother
      cases hother
  have hnew : ∀ j, (j, place) ∉ s.made := by
    intro j hmem
    obtain ⟨-, -, hdir⟩ := hinv.made j place hmem
    rw [hfree] at hdir
    cases hdir
  have hensure : s.tree.ensure place = some t' := by
    rw [FileTree.ensure, hfree, if_neg (by simp)]
    exact hmake
  constructor
  case made =>
    intro j other hmem
    rcases List.mem_append.mp hmem with hold | hlast
    · obtain ⟨hwithin, hnone, hdir⟩ := hinv.made j other hold
      exact ⟨hwithin, hnone, hkeep other hdir⟩
    · cases List.mem_singleton.mp hlast
      exact ⟨hat.prefix_names, by rw [← hinv.kept place hnew]; exact hfree, hself⟩
  case kept =>
    intro other hnone
    have hne : other ≠ place := by
      rintro rfl
      exact hnone i (List.mem_append_right _ (List.mem_singleton.mpr rfl))
    rw [hkind, Function.update_of_ne hne]
    exact hinv.kept other fun j hmem => hnone j (List.mem_append_left _ hmem)
  case once =>
    rw [List.map_append, List.map_singleton]
    refine List.Nodup.append hinv.once (List.nodup_singleton _) ?_
    intro other hold hlast
    rw [List.mem_singleton.mp hlast] at hold
    obtain ⟨⟨j, _⟩, hmem, rfl⟩ := List.mem_map.mp hold
    exact hnew j hmem
  case calls =>
    intro j
    dsimp only
    by_cases hji : j = i
    · subst hji
      rw [Function.update_self, Function.update_self, Function.update_self]
      have hnext : AtNames t' (paths j) (s.made ++ [(j, place)]) j (done ++ seg.text) segs := by
        apply hat.next hensure
        intro other hmem
        rcases List.mem_append.mp hmem with hold | hlast
        · exact Or.inl hold
        · cases List.mem_singleton.mp hlast
          exact Or.inr rfl
      refine hnext.callOk ?_ junk
      rw [pathNames_text hat.cursor, List.length_append, List.length_singleton]
      omega
    · rw [Function.update_of_ne hji, Function.update_of_ne hji, Function.update_of_ne hji]
      refine (hinv.calls j).mono (List.prefix_append _ _) hkeep fun other hmem => ?_
      rcases List.mem_append.mp hmem with hold | hlast
      · exact hold
      · cases List.mem_singleton.mp hlast
        exact absurd rfl hji
  case ahead =>
    intro j hlast
    dsimp only at hlast ⊢
    rw [List.getLast?_concat] at hlast
    obtain rfl : i = j := hlast _ rfl
    rw [Function.update_self]
    exact ahead_at _ _ _

omit [DecidableEq ι] in
theorem RaceInv.made_or_kept (hinv : RaceInv tree paths s) (place : List Text) :
    (∃ j, (j, place) ∈ s.made) ∨ s.tree.kind place = tree.kind place := by
  by_cases hmade : ∃ j, (j, place) ∈ s.made
  · exact Or.inl hmade
  · exact Or.inr (hinv.kept place (not_exists.mp hmade))

omit [DecidableEq ι] in
theorem RaceInv.kind_of_start (hinv : RaceInv tree paths s) {place : List Text} {found : FileKind}
    (hstart : tree.kind place = some found) : s.tree.kind place = some found := by
  rcases hinv.made_or_kept place with ⟨j, hmem⟩ | hsame
  · rw [(hinv.made j place hmem).2.1] at hstart
    cases hstart
  · rw [hsame, hstart]

omit [DecidableEq ι] in
theorem RaceInv.not_regular (hinv : RaceInv tree paths s)
    (hclear : ∀ i place, place <+: pathNames (paths i).chars → tree.kind place ≠ some .regular)
    {place : List Text} (hwithin : place <+: pathNames (paths i).chars) :
    s.tree.kind place ≠ some .regular := by
  rcases hinv.made_or_kept place with ⟨j, hmem⟩ | hsame
  · rw [(hinv.made j place hmem).2.2]
    simp
  · rw [hsame]
    exact hclear i place hwithin

/-- **The step lemma.** -/
theorem RaceInv.step (hinv : RaceInv tree paths s)
    (hclear : ∀ i place, place <+: pathNames (paths i).chars → tree.kind place ≠ some .regular)
    (hstep : s.step i = some s') : RaceInv tree paths s' := by
  have hok := hinv.calls i
  obtain ⟨⟨t, pc⟩, hlocal, rfl⟩ := Option.map_eq_some_iff.mp hstep
  cases hpc : s.calls i with
  | returned ret => rw [hpc] at hlocal; cases hlocal
  | crashed fault => rw [hpc] at hlocal; cases hlocal
  | lstat buf p =>
    rw [hpc] at hok hlocal
    obtain ⟨done, seg, segs, junk, rfl, rfl, hat, hn⟩ := hok
    rw [CreatePathPc.step, hat.stringOf] at hlocal
    dsimp only at hlocal
    by_cases hdir : s.tree.kind (pathNames done ++ [seg.name]) = some .directory
    · rw [if_neg fun hneg => hat.isDir.mp hneg hdir] at hlocal
      cases hlocal
      rw [hat.next_eq]
      have hnext : AtNames s.tree (paths i) s.made i (done ++ seg.text) segs :=
        hat.next (if_pos hdir) fun _ => Or.inl
      refine hinv.quiet (hnext.callOk ?_ junk) fun _ => ahead_at _ _ _
      rw [pathNames_text hat.cursor, List.length_append, List.length_singleton]
      omega
    · rw [if_pos (hat.isDir.mpr hdir)] at hlocal
      cases hlocal
      have hunmade : ∀ j, (j, pathNames done ++ [seg.name]) ∉ s.made :=
        fun j hmem => hdir (hinv.made j _ hmem).2.2
      refine hinv.quiet ⟨done, seg, segs, junk, rfl, rfl, hat, by omega, ?_, Nat.le_refl _, ?_⟩
        fun _ => ⟨by simp, ?_⟩
      · intro hstart
        exact hdir (hinv.kind_of_start hstart)
      · rw [Window.next, List.take_length]
        exact hunmade
      · intro buf p name hmkdir hname
        cases hmkdir
        rw [hat.stringOf] at hname
        cases hname
        rw [hat.cursor.pathNames_cut]
        cases hkind : s.tree.kind (pathNames done ++ [seg.name]) with
        | none => rfl
        | some found =>
          cases found with
          | directory => exact absurd hkind hdir
          | regular => exact absurd hkind (hinv.not_regular hclear hat.prefix_names)
  | mkdir buf p =>
    rw [hpc] at hok hlocal
    obtain ⟨done, seg, segs, junk, rfl, rfl, hat, hn, hmissing, -, hunmade⟩ := hok
    have hmkdir : fileTreeSystem.mkdir s.tree (done ++ seg.name)
        = s.tree.make (pathNames done ++ [seg.name]) := hat.mkdir
    rw [CreatePathPc.step, hat.stringOf] at hlocal
    dsimp only at hlocal
    rw [hmkdir] at hlocal
    simp only [recordMade, hat.stringOf, hat.mkdir]
    cases hmake : s.tree.make (pathNames done ++ [seg.name]) with
    | some t' =>
      rw [hmake] at hlocal
      cases hlocal
      rw [hat.next_eq, hat.cursor.pathNames_cut]
      exact hinv.makes _ hat hn hmake
    | none =>
      rw [hmake] at hlocal
      cases hlocal
      have hthere := hat.kind_of_make hmake
      -- The directory is there and was not at the start, so somebody has made it.
      obtain ⟨j, hmem⟩ : ∃ j, (j, pathNames done ++ [seg.name]) ∈ s.made := by
        rcases hinv.made_or_kept (pathNames done ++ [seg.name]) with hmade | hsame
        · exact hmade
        · exfalso
          rw [hsame] at hthere
          cases hkind : tree.kind (pathNames done ++ [seg.name]) with
          | none => exact hthere hkind
          | some found =>
            cases found with
            | directory => exact hmissing hkind
            | regular => exact hclear i _ hat.prefix_names hkind
      have hji : j ≠ i := by
        rintro rfl
        have hle := (hat.behind _ hmem).length_le
        rw [List.length_append, List.length_singleton] at hle
        omega
      have hlength := hat.prefix_names.length_le
      rw [List.length_append, List.length_singleton] at hlength
      have hbetween : (j, pathNames done ++ [seg.name]) ∈ s.made.drop (s.windows i).lstat := by
        rw [← List.take_append_drop (s.windows i).lstat s.made, List.mem_append] at hmem
        exact hmem.resolve_left (hunmade j)
      refine hinv.quiet ⟨by omega, Or.inr ⟨rfl, Nat.le_refl _, j, _, hji, ?_, hat.prefix_names⟩⟩
        fun hlast => ?_
      · rw [Window.between, Window.next, List.take_length]
        exact hbetween
      have hahead := (hinv.ahead i hlast).2 _ _ _ hpc (hat.stringOf junk)
      rw [hat.cursor.pathNames_cut] at hahead
      exact absurd hahead hthere

end Steps

/-! ### Runs -/

section Runs

variable {tree : FileTree} {paths : ι → CString} {s : CreatePathRace ι}

theorem Makeable.clear {path : CString} (hmakeable : Makeable tree path) {place : List Text}
    (hplace : place <+: pathNames path.chars) : tree.kind place ≠ some .regular := by
  rcases hmakeable with hempty | ⟨-, -, hclear⟩
  · rw [hempty, pathNames_nil, List.prefix_nil] at hplace
    rw [hplace, tree.root]
    simp
  · exact hclear place hplace

end Runs

end Gittest
