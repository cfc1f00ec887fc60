import Gittest.Basic
import Mathlib.Algebra.Group.Int.Defs
import Mathlib.Algebra.Group.Nat.Defs

/-!
# Characters, strings and conversions

Text as the code has it: arrays of characters in which a NUL ends the string. Nothing is known
beyond the array, so that an access there is a fault. The functions of `ctype.h` are those of the C
locale; they are applied to the byte, on which the sign of a plain `char` has no bearing.
-/

namespace Gittest

abbrev Text := List UInt8

def ascii (s : String) : Text :=
  s.toList.map Char.toUInt8

/-! ### Conversions -/

/-- A conversion to `size_t`. -/
def sizeT (n : Int) : Nat := (n % 2 ^ 64).toNat

/-- A conversion to `unsigned int`. -/
def unsignedInt (n : Int) : Nat := (n % 2 ^ 32).toNat

/-- A conversion to `int` of a value that need not be one. -/
def toInt (n : Int) : Int := n.bmod 4294967296

/-- A conversion to `short`. -/
def toShort (n : Int) : Int := n.bmod 65536

theorem toInt_eq {n : Int} (hn : intMin ≤ n ∧ n ≤ intMax) : toInt n = n := by
  simp only [intMin, intMax] at hn
  rw [toInt, Int.bmod_def]
  split <;> omega

theorem toShort_eq {n : Int} (hn : -32768 ≤ n ∧ n < 32768) : toShort n = n := by
  rw [toShort, Int.bmod_def]
  split <;> omega

def addInt (a b : Int) : Except Fault Int :=
  if intMin ≤ a + b ∧ a + b ≤ intMax then .ok (a + b) else .error .signedOverflow

/-! ### Strings -/

/-- A string without the NUL that ends it. -/
structure CString where
  chars : Text
  noNul : 0 ∉ chars
  deriving DecidableEq

/-- The smallest array that holds the string. -/
def CString.array (s : CString) : Text := s.chars ++ [0]

/-- The same character `n` times. -/
def CString.replicate (n : Nat) (c : UInt8) (hc : c ≠ 0) : CString where
  chars := List.replicate n c
  noNul := fun hmem => hc (List.mem_replicate.mp hmem).2.symm

def readChar (s : Text) (i : Nat) : Except Fault UInt8 :=
  match s[i]? with
  | some c => .ok c
  | none => .error .outOfBounds

def writeChars (s : Text) (i : Nat) (chars : Text) : Except Fault Text :=
  if i + chars.length ≤ s.length then
    .ok (s.take i ++ chars ++ s.drop (i + chars.length))
  else
    .error .outOfBounds

def strlen : Text → Except Fault Nat
  | [] => .error .outOfBounds
  | c :: rest =>
      if c = 0 then
        return 0
      else do
        let n ← strlen rest
        return n + 1

/-! ### Kinds of characters -/

def isDigit (c : UInt8) : Bool := 48 ≤ c && c ≤ 57

def isXDigit (c : UInt8) : Bool := isDigit c || 65 ≤ c && c ≤ 70 || 97 ≤ c && c ≤ 102

def isSpace (c : UInt8) : Bool := c = 32 || 9 ≤ c && c ≤ 13

def toLower (c : UInt8) : UInt8 := if 65 ≤ c ∧ c ≤ 90 then c + 32 else c

def toUpper (c : UInt8) : UInt8 := if 97 ≤ c ∧ c ≤ 122 then c - 32 else c

/-- The number in front of the first character that is no digit. -/
def atoiDigits : Text → Int → Except Fault Int
  | [], _ => .error .outOfBounds
  | c :: rest, value => if isDigit c then atoiDigits rest (10 * value + (c.toNat - 48)) else
      return value

/-- The rest of `atoi`, behind the white space. -/
def atoiSigned : Text → Except Fault Int
  | [] => .error .outOfBounds
  | c :: rest =>
      if c = 45 then do
        let value ← atoiDigits rest 0
        return -value
      else if c = 43 then
        atoiDigits rest 0
      else
        atoiDigits (c :: rest) 0

/-- `atoi`. A number that is no `int` is left undefined. -/
def atoi (s : Text) : Except Fault Int := do
  let value ← atoiSigned (s.dropWhile isSpace)
  addInt value 0

section Strings

variable {chars : Text}

theorem forall_byte {p : UInt8 → Prop} (hp : ∀ n : Fin 256, p (UInt8.ofNat n)) (b : UInt8) : p b := by
  have hb := hp ⟨b.toNat, b.toNat_lt⟩
  rwa [UInt8.ofNat_toNat] at hb

theorem isDigit_iff {c : UInt8} : isDigit c ↔ 48 ≤ c ∧ c ≤ 57 := by
  rw [isDigit, Bool.and_eq_true, decide_eq_true_iff, decide_eq_true_iff]

theorem not_isSpace_of_isDigit {c : UInt8} (hc : isDigit c) : isSpace c = false := by
  have hlow : 48 ≤ c.toNat := (isDigit_iff.mp hc).1
  have hne : c ≠ 32 := by
    rintro rfl
    exact absurd hlow (by decide)
  have hgt : ¬c ≤ 13 := by
    intro hle
    have hle' : c.toNat ≤ 13 := hle
    omega
  rw [isSpace, decide_eq_false hne, decide_eq_false hgt, Bool.and_false, Bool.or_false]

theorem readChar_eq {text : Text} {i : Nat} {c : UInt8} (hget : text[i]? = some c) :
    readChar text i = .ok c := by
  rw [readChar, hget]

theorem readChar_append (front : Text) (c : UInt8) (back : Text) :
    readChar (front ++ c :: back) front.length = .ok c := by
  apply readChar_eq
  rw [List.getElem?_append_right (Nat.le_refl _), Nat.sub_self, List.getElem?_cons_zero]

theorem readChar_beyond {text : Text} {i : Nat} (hi : text.length ≤ i) :
    readChar text i = .error .outOfBounds := by
  rw [readChar, List.getElem?_eq_none hi]

/-- Writing where the array ends at `front` and goes on behind `chars`. -/
theorem writeChars_append {front old back : Text} (hold : old.length = chars.length) :
    writeChars (front ++ old ++ back) front.length chars = .ok (front ++ chars ++ back) := by
  have hdone : (front ++ old).length = front.length + chars.length := by
    rw [List.length_append, hold]
  rw [writeChars, if_pos (by rw [List.length_append]; omega), List.drop_left' hdone,
    List.append_assoc front old, List.take_left]

theorem writeChars_one (front : Text) (old c : UInt8) (back : Text) :
    writeChars (front ++ old :: back) front.length [c] = .ok (front ++ c :: back) := by
  have hwrite : writeChars (front ++ [old] ++ back) front.length [c] = .ok (front ++ [c] ++ back) :=
    writeChars_append rfl
  rw [List.append_assoc, List.append_assoc] at hwrite
  exact hwrite

theorem strlen_append (hnul : 0 ∉ chars) (rest : Text) :
    strlen (chars ++ 0 :: rest) = .ok chars.length := by
  induction chars with
  | nil => rfl
  | cons c chars ih =>
    obtain ⟨hc, hnul⟩ := not_or.mp (mt List.mem_cons.mpr hnul)
    rw [List.cons_append, strlen, if_neg (Ne.symm hc), ih hnul]
    rfl

theorem CString.array_length (s : CString) : s.array.length = s.chars.length + 1 := by
  rw [CString.array, List.length_append, List.length_singleton]

theorem CString.strlen_array (s : CString) : strlen s.array = .ok s.chars.length :=
  strlen_append s.noNul []

end Strings

end Gittest
