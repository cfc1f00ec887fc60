import Gittest.Text

/-!
# Making directories

`is_dir` and `create_path` of `linux_utils.c`, over whatever answers `lstat` and `mkdir`. The modes
of the directories are left out: nothing reads them.
-/

namespace Gittest

/-- `PATH_MAX`, to which the NUL counts. -/
def pathMax : Nat := 4096

/-- The file types of `st_mode` that matter. -/
inductive FileType where
  | directory
  | regular
  | symlink
  deriving DecidableEq, Repr

/-- The system calls; `none` is a failure, and leaves everything as it is. -/
structure FileSystem (σ : Type) where
  lstat : σ → Text → Option FileType
  mkdir : σ → Text → Option σ

section Calls

variable {σ : Type} (fs : FileSystem σ)

def isDir (s : σ) (name : Text) : Int :=
  match fs.lstat s name with
  | none => -1
  | some .directory => 0
  | some _ => -1

/-- What a function that is called with `buf` reads as its argument. -/
def stringOf : Text → Except Fault Text
  | [] => .error .outOfBounds
  | c :: rest =>
      if c = 0 then
        return []
      else do
        let rest ← stringOf rest
        return c :: rest

/-- `for (; *p == '/'; p++)`, on the characters from `p` on. -/
def skipSlashes : Text → Nat → Except Fault Nat
  | [], _ => .error .outOfBounds
  | c :: rest, p => if c = 47 then skipSlashes rest (p + 1) else return p

/-- `strchr(p, '/')`, on the characters from `p` on. -/
def findSlash : Text → Nat → Except Fault (Option Nat)
  | [], _ => .error .outOfBounds
  | c :: rest, p => if c = 47 then return some p else if c = 0 then return none else
      findSlash rest (p + 1)

/-- The directory that the cut string names, there already or made now. -/
def ensureDir (s : σ) (name : Text) : Option σ :=
  if isDir fs s name < 0 then fs.mkdir s name else some s

/-- `while (p)`, for at most `fuel` turns. -/
def createPathLoop : Nat → σ → Text → Nat → Except Fault (Int × σ)
  | 0, _, _, _ => .error .diverges
  | fuel + 1, s, buf, p => do
      match ← findSlash (buf.drop p) p with
      | none => return (0, s)
      | some p => do
          let buf ← writeChars buf p [0]
          let name ← stringOf buf
          match ensureDir fs s name with
          | none => return (-1, s)
          | some s => do
              let buf ← writeChars buf p [47]
              let p ← skipSlashes (buf.drop (p + 1)) (p + 1)
              createPathLoop fuel s buf p

/-- `create_path`, with `stack` what `buf` holds before anything is written to it. -/
def createPath (fuel : Nat) (stack : Vector UInt8 (pathMax + 1)) (s : σ) (path : Text) :
    Except Fault (Int × σ) := do
  let n ← strlen path
  let len := toInt n
  if len ≥ pathMax then
    return (-1, s)
  else
    let buf ← writeChars stack.toList 0 (path.take (n + 1))
    let length ← strlen buf
    let buf ← writeChars buf length [47, 0]
    let first ← readChar buf 0
    if first ≠ 47 then
      return (-1, s)
    else
      let p ← skipSlashes buf 0
      let c ← readChar buf p
      if c = 0 then return (0, s) else createPathLoop fs fuel s buf p

end Calls

end Gittest
