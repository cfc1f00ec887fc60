import Gittest.Text

/-!
# String helpers

The functions of `utils.c` on strings: hexadecimal digits, decimal numbers, the test of an IP address,
letter case.
None of them writes to a string that it also reads, `str2lower` and `str2upper` apart, so `strlen` of
an argument is the same at each turn of a loop.
-/

namespace Gittest

/-! ### Hexadecimal digits -/

/-- A character as a digit; the arithmetic is that of the `unsigned char` it ends up in. -/
def nibble (c : UInt8) : UInt8 := if 48 ≤ c ∧ c ≤ 57 then c - 48 else toLower c - 97 + 10

/-- The loop of `str2bytes` with `left` bytes to go; `pstr` is `str + 2 * i`. -/
def str2bytesLoop (str : Text) : Nat → Nat → Text → Except Fault Text
  | 0, _, data => return data
  | left + 1, i, data => do
      let high ← readChar str (2 * i)
      let low ← readChar str (2 * i + 1)
      let data ← writeChars data i [nibble high <<< 4 + nibble low]
      str2bytesLoop str left (i + 1) data

/-- `str2bytes`. The count of the bytes is an `unsigned int`, returned as an `int`. -/
def str2bytes (str data : Text) (dataLen : UInt32) : Except Fault (Int × Text) := do
  let len ← strlen str
  if len % 2 ≠ 0 then
    return (0, data)
  else if dataLen.toNat < len / 2 then
    return (0, data)
  else
    let data ← str2bytesLoop str (len / 2) 0 data
    return (toInt (len / 2 : Nat), data)

/-- A digit of `%X`. -/
def upperDigit (n : UInt8) : UInt8 := if n < 10 then n + 48 else n + 55

/-- `sprintf(pstr, "%02X", byte)` stores two digits and a NUL. -/
def sprintf02X (str : Text) (pstr : Nat) (byte : UInt8) : Except Fault Text :=
  writeChars str pstr [upperDigit (byte >>> 4), upperDigit (byte &&& 15), 0]

/-- The loop of `bytes2strH`, likewise. -/
def bytes2strHLoop (data : Text) : Nat → Nat → Text → Except Fault Text
  | 0, _, str => return str
  | left + 1, i, str => do
      let byte ← readChar data i
      let str ← sprintf02X str (2 * i) byte
      bytes2strHLoop data left (i + 1) str

/-- `bytes2strH`. A negative `data_len` stops the loop at once. -/
def bytes2strH (data : Text) (dataLen : Int) (str : Text) : Except Fault (Int × Text) := do
  let str ← bytes2strHLoop data dataLen.toNat 0 str
  return (dataLen.toNat, str)

def isxdigitstrLoop (str : Text) : Nat → Nat → Except Fault Int
  | 0, _ => return 1
  | left + 1, i => do
      let c ← readChar str i
      if isXDigit c then isxdigitstrLoop str left (i + 1) else return 0

/-- `isxdigitstr`. The length is kept in an `int`. -/
def isxdigitstr (str : Text) : Except Fault Int := do
  let len ← strlen str
  let strLen := toInt len
  if strLen.tmod 2 ≠ 0 then return 0 else isxdigitstrLoop str strLen.toNat 0

/-! ### Decimal numbers -/

/-- The loop of `isdigitstr`, for at most `fuel` turns. -/
def isdigitstrLoop (str : Text) : Nat → UInt32 → Except Fault Int
  | fuel, i => do
      let len ← strlen str
      if i.toNat < len then
        let c ← readChar str i.toNat
        if isDigit c then
          match fuel with
          | 0 => .error .diverges
          | fuel + 1 => isdigitstrLoop str fuel (i + 1)
        else
          return 0
      else
        return 1

def isdigitstr (fuel : Nat) (str : Text) : Except Fault Int := do
  let c ← readChar str 0
  if ¬isDigit c ∧ c ≠ 45 ∧ c ≠ 43 then return 0 else isdigitstrLoop str fuel 1

/-! ### Addresses -/

/-- `ip_tmp[d_num][ip_i] = c`. -/
def writeGroup (ipTmp : List Text) (dNum ipI : Nat) (c : UInt8) : Except Fault (List Text) :=
  match ipTmp[dNum]? with
  | some group =>
      if ipI < group.length then .ok (ipTmp.set dNum (group.set ipI c)) else .error .outOfBounds
  | none => .error .outOfBounds

/-- The first loop of `is_str_ip`, on what is left of `IP` from `i` on; `none` where the function
returns `-1`. -/
def isStrIpScan : Text → Int → Nat → Nat → List Text → Except Fault (Option (List Text))
  | [], _, _, _, _ => .error .outOfBounds
  | c :: rest, i, ipI, dNum, ipTmp =>
      if c = 0 then
        return some ipTmp
      else if c = 46 then do
        let ipTmp ← writeGroup ipTmp dNum ipI 0
        if dNum + 1 ≥ 4 then
          return none
        else do
          let i ← addInt i 1
          isStrIpScan rest i 0 (dNum + 1) ipTmp
      else if 48 ≤ c ∧ c ≤ 57 then do
        let ipTmp ← writeGroup ipTmp dNum ipI c
        if ipI + 1 ≥ 4 then
          return none
        else do
          let i ← addInt i 1
          isStrIpScan rest i (ipI + 1) dNum ipTmp
      else
        return none

/-- The second loop of `is_str_ip`, on the groups from `i` on. Nothing becomes of `ip_value`. -/
def isStrIpCheck : Nat → List Text → UInt32 → Except Fault Int
  | _, [], _ => return 0
  | i, group :: rest, ipValue => do
      let first ← readChar group 0
      if 48 ≤ first ∧ first ≤ 57 then
        let value ← atoi group
        let tmp := toShort value
        if tmp > 255 ∨ tmp < 0 then
          return -1
        else
          let ipValue := ipValue ||| UInt32.ofNat (tmp % 256).toNat
          isStrIpCheck (i + 1) rest (if i < 3 then ipValue <<< 8 else ipValue)
      else
        return -1

def isStrIp (ip : Text) : Except Fault Int := do
  match ← isStrIpScan ip 0 0 0 (List.replicate 4 (List.replicate 5 0)) with
  | none => return -1
  | some ipTmp => isStrIpCheck 0 ipTmp 0

/-! ### Letter case -/

/-- The loop of `str2lower` and `str2upper`, on the characters from `p` on. -/
def mapChars (f : UInt8 → UInt8) : Text → Except Fault Text
  | [] => .error .outOfBounds
  | c :: rest =>
      if c = 0 then
        return c :: rest
      else do
        let rest ← mapChars f rest
        return f c :: rest

def str2lower (str : Text) : Except Fault Text := mapChars toLower str

def str2upper (str : Text) : Except Fault Text := mapChars toUpper str

theorem mapChars_eq (f : UInt8 → UInt8) {chars : Text} (hnul : 0 ∉ chars) :
    mapChars f (chars ++ [0]) = .ok (chars.map f ++ [0]) := by
  induction chars with
  | nil => rfl
  | cons c rest ih =>
    obtain ⟨hc, hnul'⟩ := not_or.mp (mt List.mem_cons.mpr hnul)
    rw [List.cons_append, mapChars, if_neg (Ne.symm hc), ih hnul']
    rfl

/-- Whether a plain `char` is signed is up to the compiler. -/
inductive PlainChar where
  | signed
  | unsigned
  deriving DecidableEq, Repr

def PlainChar.value : PlainChar → UInt8 → Int
  | .signed, c => c.toInt8.toInt
  | .unsigned, c => c.toNat

/-- The loop of `strcmp_nocase`, for at most `fuel` turns. Both characters are read at each test: the
second one in the test or in the body. -/
def strcmpNocaseLoop (char : PlainChar) (s1 s2 : Text) : Nat → UInt32 → Except Fault Int
  | fuel, i => do
      let c1 ← readChar s1 i.toNat
      let c2 ← readChar s2 i.toNat
      if c1 ≠ 0 ∨ c2 ≠ 0 then
        match fuel with
        | 0 => .error .diverges
        | fuel + 1 =>
            let n := char.value c1 - char.value c2
            if n = 0 ∨ n = 32 ∨ n = -32 then strcmpNocaseLoop char s1 s2 fuel (i + 1) else return n
      else
        return 0

def strcmpNocase (char : PlainChar) (fuel : Nat) (s1 s2 : Text) : Except Fault Int :=
  strcmpNocaseLoop char s1 s2 fuel 0

end Gittest
