import Gittest.Proof.CreatePathCalls
import Mathlib.Logic.Relation

/-!
# `create_path` among other processes

The same function cut at its system calls, each of which is one step on a tree that others change too.
What lies between two of them touches nothing but the buffer of the call. A call whose steps nobody
interrupts computes what `createPath` does.
-/

namespace Gittest

open Outcome Relation

/-- A call of `create_path` in front of its next system call: the `lstat` of `is_dir`, or `mkdir`. The
buffer is cut at `p`. -/
inductive CreatePathPc where
  | lstat (buf : Text) (p : Nat)
  | mkdir (buf : Text) (p : Nat)
  | returned (ret : Int)
  | crashed (fault : Fault)
  deriving DecidableEq, Repr

/-- A turn of `while (p)` up to its `is_dir`. -/
def createPathTurn (buf : Text) (p : Nat) : Except Fault CreatePathPc := do
  match ← findSlash (buf.drop p) p with
  | none => return .returned 0
  | some p => do
      let buf ← writeChars buf p [0]
      return .lstat buf p

/-- The rest of a turn, behind a directory, and the next one. -/
def createPathNext (buf : Text) (p : Nat) : Except Fault CreatePathPc := do
  let buf ← writeChars buf p [47]
  let p ← skipSlashes (buf.drop (p + 1)) (p + 1)
  createPathTurn buf p

/-- The call up to its first `is_dir`. -/
def createPathEnter (stack : Vector UInt8 (pathMax + 1)) (path : Text) :
    Except Fault CreatePathPc := do
  let n ← strlen path
  let len := toInt n
  if len ≥ pathMax then
    return .returned (-1)
  else
    let buf ← writeChars stack.toList 0 (path.take (n + 1))
    let length ← strlen buf
    let buf ← writeChars buf length [47, 0]
    let first ← readChar buf 0
    if first ≠ 47 then
      return .returned (-1)
    else
      let p ← skipSlashes buf 0
      let c ← readChar buf p
      if c = 0 then return .returned 0 else createPathTurn buf p

def CreatePathPc.of : Except Fault CreatePathPc → CreatePathPc
  | .ok pc => pc
  | .error fault => .crashed fault

section Step

variable {σ : Type} (fs : FileSystem σ)

def CreatePathPc.step (s : σ) : CreatePathPc → Option (σ × CreatePathPc)
  | .lstat buf p =>
      match stringOf buf with
      | .error fault => some (s, .crashed fault)
      | .ok name =>
          if isDir fs s name < 0 then some (s, .mkdir buf p) else some (s, .of (createPathNext buf p))
  | .mkdir buf p =>
      match stringOf buf with
      | .error fault => some (s, .crashed fault)
      | .ok name =>
          match fs.mkdir s name with
          | none => some (s, .returned (-1))
          | some s' => some (s', .of (createPathNext buf p))
  | .returned _ => none
  | .crashed _ => none

/-! ### A call alone -/

def CreatePathPc.Alone (s t : σ × CreatePathPc) : Prop := s.2.step fs s.1 = some t

variable {fs} {s s' : σ} {buf : Text} {p fuel : Nat} {ret : Int}

theorem createPathLoop_alone (hloop : createPathLoop fs fuel s buf p = .ok (ret, s')) :
    ReflTransGen (CreatePathPc.Alone fs) (s, .of (createPathTurn buf p)) (s', .returned ret) := by
  induction fuel generalizing s buf p with
  | zero => cases hloop
  | succ fuel ih =>
    rw [createPathLoop] at hloop
    obtain ⟨slash, hfind, hloop⟩ := bind_eq_ok.mp hloop
    rw [createPathTurn, hfind, ok_bind]
    cases slash with
    | none =>
      cases hloop
      exact .refl
    | some q =>
      obtain ⟨cut, hcut, hloop⟩ := bind_eq_ok.mp hloop
      obtain ⟨name, hname, hloop⟩ := bind_eq_ok.mp hloop
      change ReflTransGen _ (s, CreatePathPc.of (writeChars buf q [0] >>= fun buf =>
        .ok (.lstat buf q))) _
      rw [hcut, ok_bind]
      -- Behind the directory the loop goes on where the call does.
      have hnext : ∀ {made : σ}, (do
            let buf ← writeChars cut q [47]
            let p ← skipSlashes (buf.drop (q + 1)) (q + 1)
            createPathLoop fs fuel made buf p) = .ok (ret, s') →
          ReflTransGen (CreatePathPc.Alone fs) (made, .of (createPathNext cut q))
            (s', .returned ret) := by
        intro made hrest
        obtain ⟨whole, hwhole, hrest⟩ := bind_eq_ok.mp hrest
        obtain ⟨p', hskip, hrest⟩ := bind_eq_ok.mp hrest
        rw [createPathNext, hwhole, ok_bind, hskip, ok_bind]
        exact ih hrest
      rw [ensureDir] at hloop
      by_cases hdir : isDir fs s name < 0
      · have hfirst : CreatePathPc.Alone fs (s, .lstat cut q) (s, .mkdir cut q) := by
          rw [CreatePathPc.Alone, CreatePathPc.step, hname]
          exact if_pos hdir
        rw [if_pos hdir] at hloop
        refine .head hfirst ?_
        cases hmkdir : fs.mkdir s name with
        | none =>
          rw [hmkdir] at hloop
          cases hloop
          refine .single ?_
          rw [CreatePathPc.Alone, CreatePathPc.step, hname]
          dsimp only
          rw [hmkdir]
        | some made =>
          rw [hmkdir] at hloop
          refine .head ?_ (hnext hloop)
          rw [CreatePathPc.Alone, CreatePathPc.step, hname]
          dsimp only
          rw [hmkdir]
      · have hfirst : CreatePathPc.Alone fs (s, .lstat cut q) (s, .of (createPathNext cut q)) := by
          rw [CreatePathPc.Alone, CreatePathPc.step, hname]
          exact if_neg hdir
        rw [if_neg hdir] at hloop
        exact .head hfirst (hnext hloop)

/-- **A call alone.** Where `createPath` returns, the steps come to the same value and the same tree. -/
theorem createPath_alone {stack : Vector UInt8 (pathMax + 1)} {path : Text}
    (hcall : createPath fs fuel stack s path = .ok (ret, s')) :
    ReflTransGen (CreatePathPc.Alone fs) (s, .of (createPathEnter stack path))
      (s', .returned ret) := by
  rw [createPath] at hcall
  obtain ⟨n, hlength, hcall⟩ := bind_eq_ok.mp hcall
  rw [createPathEnter, hlength, ok_bind]
  dsimp only at hcall ⊢
  by_cases hlong : toInt n ≥ pathMax
  · rw [if_pos hlong] at hcall ⊢
    cases hcall
    exact .refl
  rw [if_neg hlong] at hcall ⊢
  obtain ⟨copied, hcopy, hcall⟩ := bind_eq_ok.mp hcall
  obtain ⟨length, hend, hcall⟩ := bind_eq_ok.mp hcall
  obtain ⟨buf, hbuf, hcall⟩ := bind_eq_ok.mp hcall
  obtain ⟨first, hfirst, hcall⟩ := bind_eq_ok.mp hcall
  rw [hcopy, ok_bind, hend, ok_bind, hbuf, ok_bind, hfirst, ok_bind]
  by_cases hrelative : first ≠ 47
  · rw [if_pos hrelative] at hcall ⊢
    cases hcall
    exact .refl
  rw [if_neg hrelative] at hcall ⊢
  obtain ⟨p, hskip, hcall⟩ := bind_eq_ok.mp hcall
  obtain ⟨c, hread, hcall⟩ := bind_eq_ok.mp hcall
  rw [hskip, ok_bind, hread, ok_bind]
  by_cases hc : c = 0
  · rw [if_pos hc] at hcall ⊢
    cases hcall
    exact .refl
  · rw [if_neg hc] at hcall ⊢
    exact createPathLoop_alone hcall

end Step

/-! ### The names that are left -/

/-- The buffer with `done` behind the call, cut at the end of the next name. -/
def cutBuffer (done : Text) (seg : Segment) (segs : List Segment) (junk : Text) : Text :=
  done ++ seg.name ++ 0 :: (List.replicate seg.extra 47 ++ (segmentsText segs ++ 0 :: junk))

/-- A call that has come to the names of `segs`. -/
def CreatePathPc.at (done : Text) (junk : Text) : List Segment → CreatePathPc
  | [] => .returned 0
  | seg :: segs => .lstat (cutBuffer done seg segs junk) (done ++ seg.name).length

section Buffers

variable {done : Text} {seg : Segment} {segs : List Segment}

theorem noNul_cut (hnul : 0 ∉ done ++ segmentsText (seg :: segs)) : 0 ∉ done ++ seg.name := by
  intro hmem
  apply hnul
  rw [segmentsText_cons, ← List.append_assoc]
  exact List.mem_append_left _ hmem

theorem stringOf_cutBuffer (hnul : 0 ∉ done ++ segmentsText (seg :: segs)) (junk : Text) :
    stringOf (cutBuffer done seg segs junk) = .ok (done ++ seg.name) :=
  stringOf_eq (noNul_cut hnul) _

theorem createPathTurn_eq (hnul : 0 ∉ done ++ segmentsText segs) (junk : Text) :
    createPathTurn (done ++ segmentsText segs ++ 0 :: junk) done.length
      = .ok (.at done junk segs) := by
  cases segs with
  | nil =>
    have hdrop : (done ++ segmentsText [] ++ 0 :: junk).drop done.length = 0 :: junk := by
      rw [List.append_assoc, List.drop_left]
      rfl
    rw [createPathTurn, hdrop]
    rfl
  | cons seg segs =>
    have hbuf : done ++ segmentsText (seg :: segs) ++ 0 :: junk
        = done ++ seg.name ++ 47 :: (List.replicate seg.extra 47 ++ (segmentsText segs ++ 0 :: junk)) := by
      simp only [segmentsText_cons, List.append_assoc, List.cons_append]
    have hname : 0 ∉ seg.name := fun hmem => noNul_cut hnul (List.mem_append_right done hmem)
    have hfind := findSlash_eq seg.plain hname
      (List.replicate seg.extra 47 ++ (segmentsText segs ++ 0 :: junk)) done.length
    rw [createPathTurn, hbuf, List.append_assoc, List.drop_left, hfind, ok_bind]
    change (writeChars _ (done.length + seg.name.length) [0] >>= _) = _
    rw [← List.append_assoc, ← List.length_append, writeChars_one, ok_bind]
    rfl

theorem createPathNext_eq (hnul : 0 ∉ done ++ segmentsText (seg :: segs)) (junk : Text) :
    createPathNext (cutBuffer done seg segs junk) (done ++ seg.name).length
      = .ok (.at (done ++ seg.text) junk segs) := by
  let behind := List.replicate seg.extra 47 ++ (segmentsText segs ++ 0 :: junk)
  obtain ⟨c, rest, hrest, hc⟩ := segmentsText_head segs junk
  have hrestore : writeChars (done ++ seg.name ++ 0 :: behind) (done ++ seg.name).length [47]
      = .ok (done ++ seg.name ++ 47 :: behind) := writeChars_one _ _ _ _
  have hdrop : (done ++ seg.name ++ 47 :: behind).drop ((done ++ seg.name).length + 1) = behind := by
    rw [← List.drop_drop, List.drop_left, List.drop_one, List.tail_cons]
  have hskip : skipSlashes behind ((done ++ seg.name).length + 1)
      = .ok (done ++ seg.text).length := by
    change skipSlashes (List.replicate seg.extra 47 ++ (segmentsText segs ++ 0 :: junk)) _ = _
    rw [hrest, skipSlashes_eq _ _ hc]
    congr 1
    simp only [Segment.text, List.length_append, List.length_cons, List.length_replicate]
    omega
  have hwhole : done ++ seg.name ++ 47 :: behind
      = done ++ seg.text ++ segmentsText segs ++ 0 :: junk := by
    simp only [behind, Segment.text, List.append_assoc, List.cons_append]
  have hnul' : 0 ∉ done ++ seg.text ++ segmentsText segs := by
    rw [List.append_assoc]
    exact hnul
  rw [createPathNext]
  change (writeChars (done ++ seg.name ++ 0 :: behind) _ [47] >>= _) = _
  rw [hrestore, ok_bind, hdrop, hskip, ok_bind, hwhole]
  exact createPathTurn_eq hnul' junk

end Buffers

end Gittest
