import Gittest.FileTree
import Gittest.Lib.Outcome

/-!
# The calls that `create_path` makes

Whatever answers `lstat` and `mkdir`: for an absolute path that fits, `create_path` asks for a directory
behind each of its names, from the first one on.
-/

namespace Gittest

open Outcome

section Names

variable {σ : Type}

/-- The strings that end behind each name of segments, with `done` in front of the first. -/
def cuts : Text → List Segment → List Text
  | _, [] => []
  | done, seg :: segs => (done ++ seg.name) :: cuts (done ++ seg.text) segs

/-- A directory behind each name, there already or made now; it ends at the first that cannot be made. -/
def ensureAll (fs : FileSystem σ) : σ → List Text → Int × σ
  | s, [] => (0, s)
  | s, name :: rest =>
      match ensureDir fs s name with
      | none => (-1, s)
      | some s => ensureAll fs s rest

end Names

/-! ### The prefixes of a path -/

/-- A name ends here, and a slash follows. -/
def NameEnds (text front : Text) : Prop := (∃ back, text = front ++ 47 :: back) ∧ EndsInName front

/-- A prefix of a path that ends with one of its names. -/
def NamePrefix (path front : Text) : Prop := NameEnds (path ++ [47]) front

section Prefixes

variable {head done front text : Text} {seg : Segment}

theorem NameEnds.append (hends : NameEnds done front) (text : Text) :
    NameEnds (done ++ text) front := by
  obtain ⟨⟨back, rfl⟩, hlast⟩ := hends
  exact ⟨⟨back ++ text, List.append_assoc _ _ _⟩, hlast⟩

/-- A name ends on this side of a slash, or on that. -/
theorem NameEnds.of_append (hends : NameEnds (head ++ [47] ++ text) front) :
    NameEnds (head ++ [47]) front ∨
      ∃ behind back, front = head ++ [47] ++ behind ∧ text = behind ++ 47 :: back := by
  obtain ⟨⟨back, htext⟩, c, hlast, hc⟩ := hends
  rcases List.append_eq_append_iff.mp htext with ⟨behind, hfront, htext'⟩ | ⟨between, hhead, hback⟩
  · exact Or.inr ⟨behind, back, hfront, htext'⟩
  · cases between with
    | nil =>
      rw [List.append_nil] at hhead
      rw [← hhead, List.getLast?_concat] at hlast
      exact absurd (Option.some.inj hlast).symm hc
    | cons d between =>
      obtain ⟨rfl, -⟩ := List.cons.inj hback
      exact Or.inl ⟨⟨between, hhead⟩, c, hlast, hc⟩

/-- Of the text of a segment, only the name has a slash behind it and does not end with one. -/
theorem Segment.name_of_split {behind back : Text} (htext : seg.text = behind ++ 47 :: back) {c : UInt8}
    (hlast : (done ++ behind).getLast? = some c) (hc : c ≠ 47) : behind = seg.name := by
  rcases List.append_eq_append_iff.mp htext with ⟨more, hbehind, hslashes⟩ | ⟨less, hname, hback⟩
  · by_cases hmore : more = []
    · rw [hbehind, hmore, List.append_nil]
    rw [hbehind, ← List.append_assoc, List.getLast?_append_of_ne_nil _ hmore] at hlast
    have hmem : c ∈ 47 :: List.replicate seg.extra 47 := by
      rw [hslashes]
      exact List.mem_append_left _ (List.mem_of_getLast? hlast)
    rw [← List.replicate_succ] at hmem
    exact absurd (List.eq_of_mem_replicate hmem) hc
  · cases less with
    | nil => rw [hname, List.append_nil]
    | cons d less =>
      obtain ⟨rfl, -⟩ := List.cons.inj hback
      apply absurd seg.plain
      rw [hname, not_not]
      exact List.mem_append_right _ List.mem_cons_self

theorem Segment.endsInName (done : Text) (seg : Segment) : EndsInName (done ++ seg.name) := by
  rw [EndsInName, List.getLast?_append_of_ne_nil _ seg.notEmpty]
  refine ⟨seg.name.getLast seg.notEmpty, List.getLast?_eq_some_getLast seg.notEmpty, ?_⟩
  intro hslash
  exact seg.plain (hslash ▸ List.getLast_mem seg.notEmpty)

theorem endsInName_of_mem_cuts {segs : List Segment} (hmem : front ∈ cuts done segs) :
    EndsInName front := by
  induction segs generalizing done with
  | nil => cases hmem
  | cons seg segs ih =>
    rw [cuts, List.mem_cons] at hmem
    rcases hmem with rfl | hmem
    · exact seg.endsInName done
    · exact ih hmem

/-- Names that follow a slash end in the cut strings. -/
theorem nameEnds_segments (segs : List Segment) :
    NameEnds (head ++ [47] ++ segmentsText segs) front
      ↔ NameEnds (head ++ [47]) front ∨ front ∈ cuts (head ++ [47]) segs := by
  induction segs generalizing head with
  | nil =>
    change NameEnds (head ++ [47] ++ []) front ↔ _
    rw [List.append_nil, cuts]
    simp
  | cons seg segs ih =>
    have htext : head ++ [47] ++ seg.text
        = head ++ [47] ++ seg.name ++ List.replicate seg.extra 47 ++ [47] := by
      rw [Segment.text, ← List.replicate_succ, List.replicate_succ']
      simp only [List.append_assoc]
    have hrest : NameEnds (head ++ [47] ++ seg.text ++ segmentsText segs) front
        ↔ NameEnds (head ++ [47] ++ seg.text) front
          ∨ front ∈ cuts (head ++ [47] ++ seg.text) segs := by
      rw [htext]
      exact ih
    have hsplit : head ++ [47] ++ segmentsText (seg :: segs)
        = head ++ [47] ++ seg.text ++ segmentsText segs := (List.append_assoc _ _ _).symm
    rw [hsplit, hrest, cuts, List.mem_cons, ← or_assoc]
    apply or_congr_left
    constructor
    · intro hends
      rcases hends.of_append with hbefore | ⟨behind, back, hfront, hbehind⟩
      · exact Or.inl hbefore
      · obtain ⟨-, c, hlast, hc⟩ := hends
        rw [hfront] at hlast
        rw [hfront, Segment.name_of_split hbehind hlast hc]
        exact Or.inr rfl
    · rintro (hbefore | rfl)
      · exact hbefore.append seg.text
      · exact ⟨⟨List.replicate seg.extra 47, (List.append_assoc _ _ _).symm⟩, seg.endsInName _⟩

/-- The cut strings of a path are its prefixes that end with a name. -/
theorem namePrefix_iff {path : Text} {m : Nat} {segs : List Segment}
    (htext : path ++ [47] = List.replicate (m + 1) 47 ++ segmentsText segs) :
    NamePrefix path front ↔ front ∈ cuts (List.replicate (m + 1) 47) segs := by
  rw [NamePrefix, htext, List.replicate_succ', nameEnds_segments]
  constructor
  · rintro (⟨⟨back, hslashes⟩, c, hlast, hc⟩ | hmem)
    · rw [← List.replicate_succ'] at hslashes
      have hmem : c ∈ List.replicate (m + 1) 47 := by
        rw [hslashes]
        exact List.mem_append_left _ (List.mem_of_getLast? hlast)
      exact absurd (List.eq_of_mem_replicate hmem) hc
    · exact hmem
  · exact Or.inr

end Prefixes

/-! ### The buffer -/

section Buffers

variable {name rest : Text}

theorem skipSlashes_eq (n p : Nat) {c : UInt8} (hc : c ≠ 47) (rest : Text) :
    skipSlashes (List.replicate n 47 ++ c :: rest) p = .ok (p + n) := by
  induction n generalizing p with
  | zero =>
    change (if c = 47 then _ else _) = _
    rw [if_neg hc]
    rfl
  | succ n ih =>
    rw [List.replicate_succ, List.cons_append, skipSlashes, if_pos rfl, ih]
    congr 1
    omega

theorem findSlash_eq (hplain : 47 ∉ name) (hnul : 0 ∉ name) (rest : Text) (p : Nat) :
    findSlash (name ++ 47 :: rest) p = .ok (some (p + name.length)) := by
  induction name generalizing p with
  | nil => rfl
  | cons c name ih =>
    obtain ⟨hc, hplain'⟩ := not_or.mp (mt List.mem_cons.mpr hplain)
    obtain ⟨hc', hnul'⟩ := not_or.mp (mt List.mem_cons.mpr hnul)
    rw [List.cons_append, findSlash, if_neg (Ne.symm hc), if_neg (Ne.symm hc'), ih hplain' hnul',
      List.length_cons]
    congr 2
    omega

theorem stringOf_eq (hnul : 0 ∉ name) (rest : Text) : stringOf (name ++ 0 :: rest) = .ok name := by
  induction name with
  | nil => rfl
  | cons c name ih =>
    obtain ⟨hc, hnul'⟩ := not_or.mp (mt List.mem_cons.mpr hnul)
    rw [List.cons_append, stringOf, if_neg (Ne.symm hc), ih hnul']
    rfl

/-- Behind the slashes of a segment comes a name or the end. -/
theorem segmentsText_head (segs : List Segment) (junk : Text) :
    ∃ c rest, segmentsText segs ++ 0 :: junk = c :: rest ∧ c ≠ 47 := by
  cases segs with
  | nil => exact ⟨0, junk, rfl, by decide⟩
  | cons seg segs =>
    obtain ⟨c, rest, htext, hmem⟩ := segmentsText_first seg segs
    refine ⟨c, rest ++ 0 :: junk, ?_, ?_⟩
    · rw [htext]
      rfl
    · rintro rfl
      exact seg.plain hmem

/-- The loop goes through the names that are left. -/
theorem createPathLoop_eq {σ : Type} (fs : FileSystem σ) {s : σ} {done : Text} {segs : List Segment}
    (hnul : 0 ∉ done ++ segmentsText segs) {fuel : Nat} (hfuel : segs.length < fuel) (junk : Text) :
    createPathLoop fs fuel s (done ++ segmentsText segs ++ 0 :: junk) done.length
      = .ok (ensureAll fs s (cuts done segs)) := by
  induction segs generalizing fuel s done with
  | nil =>
    obtain ⟨fuel, rfl⟩ := Nat.exists_eq_succ_of_ne_zero (Nat.ne_of_gt hfuel)
    have hdrop : (done ++ segmentsText [] ++ 0 :: junk).drop done.length = 0 :: junk := by
      rw [List.append_assoc, List.drop_left]
      rfl
    rw [createPathLoop, hdrop]
    rfl
  | cons seg segs ih =>
    obtain ⟨fuel, rfl⟩ := Nat.exists_eq_succ_of_ne_zero (Nat.ne_of_gt (Nat.zero_lt_of_lt hfuel))
    let behind := List.replicate seg.extra 47 ++ (segmentsText segs ++ 0 :: junk)
    have hbuf : done ++ segmentsText (seg :: segs) ++ 0 :: junk
        = done ++ seg.name ++ 47 :: behind := by
      simp only [segmentsText_cons, behind, List.append_assoc, List.cons_append]
    have hcutNul : 0 ∉ done ++ seg.name := by
      intro hmem
      apply hnul
      rw [segmentsText_cons, ← List.append_assoc]
      exact List.mem_append_left _ hmem
    have hname : 0 ∉ seg.name := fun hmem => hcutNul (List.mem_append_right done hmem)
    have hfind : findSlash ((done ++ seg.name ++ 47 :: behind).drop done.length) done.length
        = .ok (some (done ++ seg.name).length) := by
      rw [List.append_assoc, List.drop_left, findSlash_eq seg.plain hname, List.length_append]
    have hcut := writeChars_one (done ++ seg.name) 47 0 behind
    have hrestore := writeChars_one (done ++ seg.name) 0 47 behind
    rw [hbuf, createPathLoop, hfind, ok_bind]
    change (writeChars _ (done ++ seg.name).length [0] >>= _) = _
    rw [hcut, ok_bind, stringOf_eq hcutNul, ok_bind, cuts, ensureAll]
    cases ensureDir fs s (done ++ seg.name) with
    | none => rfl
    | some s' =>
      obtain ⟨c, rest, hrest, hc⟩ := segmentsText_head segs junk
      have hdrop : (done ++ seg.name ++ 47 :: behind).drop ((done ++ seg.name).length + 1)
          = behind := by
        rw [← List.drop_drop, List.drop_left, List.drop_one, List.tail_cons]
      have hskip : skipSlashes behind ((done ++ seg.name).length + 1)
          = .ok (done ++ seg.text).length := by
        change skipSlashes (List.replicate seg.extra 47 ++ (segmentsText segs ++ 0 :: junk)) _ = _
        rw [hrest, skipSlashes_eq _ _ hc]
        congr 1
        simp only [Segment.text, List.length_append, List.length_cons, List.length_replicate]
        omega
      have hnext : done ++ seg.name ++ 47 :: behind
          = done ++ seg.text ++ segmentsText segs ++ 0 :: junk := by
        simp only [behind, Segment.text, List.append_assoc, List.cons_append]
      have hnul' : 0 ∉ done ++ seg.text ++ segmentsText segs := by
        rw [List.append_assoc]
        exact hnul
      have hstep := ih hnul' (Nat.lt_of_succ_lt_succ hfuel) (s := s')
      change (writeChars _ (done ++ seg.name).length [47] >>= _) = _
      rw [hrestore, ok_bind, hdrop, hskip, ok_bind, hnext]
      exact hstep

end Buffers

/-! ### The call -/

theorem segments_length (segs : List Segment) : segs.length ≤ (segmentsText segs).length := by
  induction segs with
  | nil => exact Nat.le_refl 0
  | cons seg segs ih =>
    rw [segmentsText_cons, List.length_append, List.length_cons, List.length_cons, List.length_append]
    omega

section Call

variable {σ : Type} (fs : FileSystem σ) (s : σ) (stack : Vector UInt8 (pathMax + 1)) {path : CString}

/-- The path of a call, with the slash behind it: there is one in front of its first name. -/
theorem exists_absolute (habsolute : path.chars = [] ∨ path.chars.head? = some 47) :
    ∃ m segs, path.chars ++ [47] = List.replicate (m + 1) 47 ++ segmentsText segs
      ∧ pathNames path.chars = segs.map Segment.name := by
  obtain ⟨n, segs, htext⟩ := exists_segments path.chars
  have hnames : pathNames path.chars = segs.map Segment.name :=
    calc pathNames path.chars = pathNames (path.chars ++ [47]) := (pathNames_concat path.chars).symm
      _ = segs.map Segment.name := by rw [htext, pathNames_slashes, pathNames_segments]
  have hhead : (path.chars ++ [47]).head? = some 47 := by
    rcases habsolute with hempty | habsolute
    · rw [hempty]
      rfl
    · rw [List.head?_append, habsolute]
      rfl
  cases n with
  | succ m => exact ⟨m, segs, htext, hnames⟩
  | zero =>
    rw [htext] at hhead
    cases segs with
    | nil => cases hhead
    | cons seg segs =>
      obtain ⟨c, rest, hfirst, hmem⟩ := segmentsText_first seg segs
      rw [hfirst] at hhead
      obtain rfl : c = 47 := Option.some.inj hhead
      exact absurd hmem seg.plain

/-- The path and the slash behind it fit into the buffer. -/
theorem createPath_buffer (hshort : path.chars.length < pathMax) :
    ∃ junk junk', writeChars stack.toList 0 (path.array.take (path.chars.length + 1))
        = .ok (path.chars ++ 0 :: junk)
      ∧ writeChars (path.chars ++ 0 :: junk) path.chars.length [47, 0]
        = .ok (path.chars ++ [47] ++ 0 :: junk') := by
  have hlength := path.array_length
  have hstack : stack.toList.length = pathMax + 1 := stack.length_toList
  have hjunk : 0 < (stack.toList.drop path.array.length).length := by
    rw [List.length_drop]
    omega
  obtain ⟨b, junk', hdrop⟩ := List.exists_cons_of_length_pos hjunk
  refine ⟨b :: junk', junk', ?_, ?_⟩
  · have htake : (stack.toList.take path.array.length).length = path.array.length := by
      rw [List.length_take]
      omega
    have hwrite : writeChars ([] ++ stack.toList.take path.array.length
        ++ stack.toList.drop path.array.length) [].length path.array = _ := writeChars_append htake
    rw [List.nil_append, List.take_append_drop, hdrop, List.nil_append] at hwrite
    rw [List.take_of_length_le (by omega)]
    rw [CString.array, List.append_assoc] at hwrite
    exact hwrite
  · have hwrite : writeChars (path.chars ++ [0, b] ++ junk') path.chars.length [47, 0] = _ :=
      writeChars_append rfl
    rw [List.append_assoc, List.append_assoc] at hwrite
    rw [List.append_assoc]
    exact hwrite

/-- The call up to the test of the first character. -/
theorem createPath_short (hshort : path.chars.length < pathMax) (fuel : Nat) :
    ∃ junk, createPath fs fuel stack s path.array = (do
      let first ← readChar (path.chars ++ [47] ++ 0 :: junk) 0
      if first ≠ 47 then
        return (-1, s)
      else
        let p ← skipSlashes (path.chars ++ [47] ++ 0 :: junk) 0
        let c ← readChar (path.chars ++ [47] ++ 0 :: junk) p
        if c = 0 then return (0, s) else
          createPathLoop fs fuel s (path.chars ++ [47] ++ 0 :: junk) p) := by
  obtain ⟨junk, junk', hcopy, happend⟩ := createPath_buffer stack hshort
  have hint : toInt path.chars.length = path.chars.length := by
    apply toInt_eq
    simp only [pathMax, intMin, intMax] at hshort ⊢
    omega
  refine ⟨junk', ?_⟩
  unfold createPath
  rw [path.strlen_array, ok_bind]
  change (if toInt path.chars.length ≥ pathMax then _ else _) = _
  rw [hint, if_neg (by omega), hcopy, ok_bind, strlen_append path.noNul, ok_bind, happend, ok_bind]

/-- The rest of the call: past the slashes there is nothing, or the first name. -/
theorem createPath_names {m : Nat} {segs : List Segment}
    (hnul : 0 ∉ List.replicate (m + 1) 47 ++ segmentsText segs) {fuel : Nat}
    (hfuel : segs.length < fuel) {c : UInt8} {rest junk : Text}
    (hrest : segmentsText segs ++ 0 :: junk = c :: rest) :
    (if c = 0 then return (0, s) else
        createPathLoop fs fuel s (List.replicate (m + 1) 47 ++ c :: rest) (m + 1))
      = (.ok (ensureAll fs s (cuts (List.replicate (m + 1) 47) segs)) : Except Fault (Int × σ)) := by
  cases segs with
  | nil =>
    obtain ⟨hc, -⟩ := List.cons.inj hrest
    rw [if_pos hc.symm]
    rfl
  | cons seg segs =>
    have hc : c ≠ 0 := by
      rintro rfl
      obtain ⟨c, text, hfirst, -⟩ := segmentsText_first seg segs
      apply hnul
      rw [hfirst] at hrest ⊢
      obtain ⟨rfl, -⟩ := List.cons.inj hrest
      exact List.mem_append_right _ List.mem_cons_self
    have hloop := createPathLoop_eq fs hnul hfuel junk (s := s)
    rw [List.append_assoc, hrest, List.length_replicate] at hloop
    rw [if_neg hc]
    exact hloop

/-- An absolute path that fits is gone through name by name. -/
theorem createPath_cuts (hshort : path.chars.length < pathMax) {m : Nat} {segs : List Segment}
    (htext : path.chars ++ [47] = List.replicate (m + 1) 47 ++ segmentsText segs) {fuel : Nat}
    (hfuel : pathMax ≤ fuel) :
    createPath fs fuel stack s path.array
      = .ok (ensureAll fs s (cuts (List.replicate (m + 1) 47) segs)) := by
  obtain ⟨junk, hcall⟩ := createPath_short fs s stack hshort fuel
  have hsegs : segs.length < fuel := by
    have hle := segments_length segs
    have hlength := congrArg List.length htext
    rw [List.length_append, List.length_append, List.length_replicate, List.length_singleton]
      at hlength
    omega
  obtain ⟨c, rest, hrest, hc⟩ := segmentsText_head segs junk
  have hbuf : path.chars ++ [47] ++ 0 :: junk = List.replicate (m + 1) 47 ++ c :: rest := by
    rw [htext, List.append_assoc, hrest]
  have hnul : 0 ∉ List.replicate (m + 1) 47 ++ segmentsText segs := by
    rw [← htext, List.mem_append, not_or]
    exact ⟨path.noNul, by decide⟩
  have hfirst : readChar (List.replicate (m + 1) 47 ++ c :: rest) 0 = .ok 47 := rfl
  have hread : readChar (List.replicate (m + 1) 47 ++ c :: rest) (m + 1) = .ok c := by
    have happend := readChar_append (List.replicate (m + 1) 47) c rest
    rwa [List.length_replicate] at happend
  rw [hcall, hbuf, hfirst, ok_bind, if_neg (not_not_intro rfl), skipSlashes_eq (m + 1) 0 hc, ok_bind,
    Nat.zero_add, hread, ok_bind]
  exact createPath_names fs s hnul hsegs hrest

theorem createPath_relative (hshort : path.chars.length < pathMax) (hne : path.chars ≠ [])
    (hrelative : path.chars.head? ≠ some 47) (fuel : Nat) :
    createPath fs fuel stack s path.array = .ok (-1, s) := by
  obtain ⟨junk, hcall⟩ := createPath_short fs s stack hshort fuel
  obtain ⟨c, rest, hchars⟩ := List.exists_cons_of_ne_nil hne
  have hc : c ≠ 47 := by
    rintro rfl
    exact hrelative (by rw [hchars]; rfl)
  rw [hcall, hchars]
  change (if c ≠ 47 then _ else _) = _
  rw [if_pos hc]
  rfl

theorem createPath_long (hlong : pathMax ≤ toInt path.chars.length) (fuel : Nat) :
    createPath fs fuel stack s path.array = .ok (-1, s) := by
  unfold createPath
  rw [path.strlen_array, ok_bind]
  exact if_pos hlong

/-- What does not fit and is negative as an `int` is copied all the same. -/
theorem createPath_overruns (hlong : pathMax ≤ path.chars.length)
    (hwraps : toInt path.chars.length < pathMax) (fuel : Nat) :
    createPath fs fuel stack s path.array = .error .outOfBounds := by
  have hbig : intMax < path.chars.length := by
    by_contra hsmall
    have hint : toInt path.chars.length = path.chars.length :=
      toInt_eq (by simp only [intMin, intMax] at hsmall ⊢; omega)
    omega
  have hwrite : writeChars stack.toList 0 (path.array.take (path.chars.length + 1))
      = .error .outOfBounds := by
    apply if_neg
    rw [List.length_take, path.array_length, Vector.length_toList, Nat.min_self]
    simp only [intMax, pathMax] at hbig ⊢
    omega
  unfold createPath
  rw [path.strlen_array, ok_bind]
  change (if toInt path.chars.length ≥ pathMax then _ else _) = _
  rw [if_neg (by omega), hwrite]
  rfl

end Call

end Gittest
