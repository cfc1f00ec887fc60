import Gittest.Text
import Gittest.XRing

/-!
# The logger

`x_log_write` of `x_log.c`: a line of text, formatted into a buffer on the stack and put into the
logger's ring. Reading the clock, and what the format and the arguments of a call come to, are
inputs.
-/

namespace Gittest

def logBuffLen : Nat := 1024

/-- The part of `x_log_t` that a write uses. -/
structure XLog where
  logRing : XRing
  level : Int
  deriving DecidableEq, Repr

/-! ### Text -/

/-- `%0wd` for a width `w`, to which a minus sign counts. -/
def zeroPadded (width : Nat) (n : Int) : Text :=
  let sign := if n < 0 then ascii "-" else []
  let digits := (Nat.toDigits 10 n.natAbs).map Char.toUInt8
  sign ++ List.replicate (width - sign.length - digits.length) 48 ++ digits

/-- What a conversion stores where `size` bytes are free: at most `size - 1` characters, and a
terminator after them. -/
def printed (size : Nat) (text : Text) : Buffer :=
  if size = 0 then [] else (text.take (size - 1) ++ [0]).map some

/-- `snprintf(buf + start, size, …)` and `vsnprintf`, as C99 has them. The value is the length of the
whole text, also where not all of it was stored; one that is no `int` cannot be returned. -/
def snprintf (buf : Buffer) (start : Int) (size : Nat) (text : Text) :
    Except Fault (Int × Buffer) :=
  if ¬(0 ≤ start ∧ start ≤ buf.length) then
    .error .outOfBounds
  else if intMax < text.length then
    .error .signedOverflow
  else do
    let bytes := printed size text
    let rest ← memcpy (buf.drop start.toNat) bytes bytes.length
    return (text.length, buf.take start.toNat ++ rest)

/-! ### The line -/

def logLevelStr : List String :=
  ["Fatal", "Error", "Warning", "Info", "Debug", "Test"]

/-- `log_level_str[level]`. -/
def logLevelName (level : Int) : Except Fault Text :=
  if level < 0 then
    .error .outOfBounds
  else
    match logLevelStr[level.toNat]? with
    | some name => .ok (ascii name)
    | none => .error .outOfBounds

/-- `struct tm`, as far as it is printed. -/
structure Tm where
  tmSec : Int
  tmMin : Int
  tmHour : Int
  tmMday : Int
  tmMon : Int
  tmYear : Int
  deriving DecidableEq, Repr

def timestamp (now : Tm) : Except Fault Text := do
  let year ← addInt 1900 now.tmYear
  let month ← addInt now.tmMon 1
  return zeroPadded 4 year ++ ascii "-" ++ zeroPadded 2 month ++ ascii "-"
    ++ zeroPadded 2 now.tmMday ++ ascii " " ++ zeroPadded 2 now.tmHour ++ ascii ":"
    ++ zeroPadded 2 now.tmMin ++ ascii ":" ++ zeroPadded 2 now.tmSec

/-- What stands in front of the message. -/
def logPrefix (stamp name : Text) : Text :=
  stamp ++ ascii ": " ++ name ++ ascii " "

/-- The middle of `x_log_write`: `sbuf` and `ret` as the last loop finds them. -/
def xLogFormat (now : Tm) (level : Int) (message : Text) : Except Fault (Buffer × Int) := do
  let sbuf : Buffer := List.replicate logBuffLen (some 0)
  let stamp ← timestamp now
  let name ← logLevelName level
  let (ret, sbuf) ← snprintf sbuf 0 logBuffLen (logPrefix stamp name)
  let (more, sbuf) ← snprintf sbuf ret (sizeT (logBuffLen - ret)) message
  let ret ← addInt ret more
  return (sbuf, ret)

/-- The last loop of `x_log_write`. While the call sleeps between two tries the other threads go on,
so each try finds a ring of its own. -/
def xLogEnqueue (patience : Nat) (sbuf : Buffer) (ret : Int) : List XRing → Except Fault XRing
  | [] => .error .diverges
  | r :: later => do
      let (result, r) ← xRingMpEnqueue patience r sbuf ret
      if result ≠ 0 then xLogEnqueue patience sbuf ret later else return r

/-- `x_log_write`. The first try finds the logger's ring as it is, the ones after it the rings of
`later`. -/
def xLogWrite (patience : Nat) (xlog : XLog) (later : List XRing) (now : Tm) (level : Int)
    (message : Text) : Except Fault (Int × XLog) :=
  if unsignedInt level > unsignedInt xlog.level then
    return (-1, xlog)
  else do
    let (sbuf, ret) ← xLogFormat now level message
    let r ← xLogEnqueue patience sbuf ret (xlog.logRing :: later)
    return (0, { xlog with logRing := r })

end Gittest
