import Gittest.Lib.Outcome
import Gittest.Utils

/-!
# Bytes as hexadecimal digits

`bytes2strH` and `str2bytes` are inverse to each other, apart from the case of the letters, where
something is encoded at all: the NUL of the encoded string is that of its last digits. `isxdigitstr`
vouches for a string as far as the `int` goes that it keeps the length in.
-/

namespace Gittest

open Outcome

/-! ### One byte -/

def hexDigits (byte : UInt8) : Text := [upperDigit (byte >>> 4), upperDigit (byte &&& 15)]

def hexByte (high low : UInt8) : UInt8 := nibble high <<< 4 + nibble low

/-- A digit of `%X`. -/
def IsUpperXDigit (c : UInt8) : Prop := isXDigit c ∧ toUpper c = c

instance (c : UInt8) : Decidable (IsUpperXDigit c) :=
  inferInstanceAs (Decidable (isXDigit c ∧ toUpper c = c))

theorem hexByte_hexDigits (byte : UInt8) :
    hexByte (upperDigit (byte >>> 4)) (upperDigit (byte &&& 15)) = byte := by
  apply forall_byte (p := fun byte => hexByte (upperDigit (byte >>> 4)) (upperDigit (byte &&& 15)) = byte)
  decide +kernel

theorem hexDigits_upper (byte : UInt8) : ∀ c ∈ hexDigits byte, IsUpperXDigit c := by
  have hboth : IsUpperXDigit (upperDigit (byte >>> 4)) ∧ IsUpperXDigit (upperDigit (byte &&& 15)) := by
    revert byte
    apply forall_byte
    decide +kernel
  intro c hc
  rcases List.mem_pair.mp hc with rfl | rfl
  · exact hboth.1
  · exact hboth.2

theorem nibble_lt {c : UInt8} (hc : isXDigit c) : nibble c < 16 := by
  revert hc
  apply forall_byte (p := fun c => isXDigit c → nibble c < 16)
  decide +kernel

theorem upperDigit_nibble {c : UInt8} (hc : isXDigit c) : upperDigit (nibble c) = toUpper c := by
  revert hc
  apply forall_byte (p := fun c => isXDigit c → upperDigit (nibble c) = toUpper c)
  decide +kernel

theorem isXDigit_of_toUpper {c : UInt8} (hc : isXDigit (toUpper c)) : isXDigit c := by
  revert hc
  apply forall_byte (p := fun c => isXDigit (toUpper c) → isXDigit c)
  decide +kernel

/-- Two nibbles do not run into each other. -/
theorem nibbles_apart : ∀ high low : Fin 16, (UInt8.ofNat high <<< 4 + UInt8.ofNat low) >>> 4
    = UInt8.ofNat high ∧ (UInt8.ofNat high <<< 4 + UInt8.ofNat low) &&& 15 = UInt8.ofNat low := by
  decide +kernel

theorem hexDigits_hexByte {high low : UInt8} (hhigh : isXDigit high) (hlow : isXDigit low) :
    hexDigits (hexByte high low) = [toUpper high, toUpper low] := by
  have hapart := nibbles_apart ⟨(nibble high).toNat, nibble_lt hhigh⟩
    ⟨(nibble low).toNat, nibble_lt hlow⟩
  simp only [UInt8.ofNat_toNat] at hapart
  unfold hexDigits hexByte
  rw [hapart.1, hapart.2, upperDigit_nibble hhigh, upperDigit_nibble hlow]

/-! ### Strings of them -/

def encodeHex (data : Text) : Text := data.flatMap hexDigits

def decodeHex : Text → Text
  | high :: low :: rest => hexByte high low :: decodeHex rest
  | _ => []

theorem encodeHex_cons (byte : UInt8) (data : Text) :
    encodeHex (byte :: data) = hexDigits byte ++ encodeHex data := rfl

theorem encodeHex_length (data : Text) : (encodeHex data).length = 2 * data.length := by
  induction data with
  | nil => rfl
  | cons byte data ih =>
    rw [encodeHex_cons, List.length_append, ih, List.length_cons, hexDigits, List.length_cons,
      List.length_singleton]
    omega

theorem encodeHex_upper (data : Text) : ∀ c ∈ encodeHex data, IsUpperXDigit c := by
  intro c hc
  obtain ⟨byte, _, hmem⟩ := List.mem_flatMap.mp hc
  exact hexDigits_upper byte c hmem

theorem not_mem_of_xdigits {text : Text} (htext : ∀ c ∈ text, isXDigit c) : 0 ∉ text := by
  intro hmem
  exact absurd (htext 0 hmem) (by decide)

theorem encodeHex_noNul (data : Text) : 0 ∉ encodeHex data :=
  not_mem_of_xdigits fun c hc => (encodeHex_upper data c hc).1

theorem decodeHex_encodeHex (data : Text) : decodeHex (encodeHex data) = data := by
  induction data with
  | nil => rfl
  | cons byte data ih =>
    change hexByte _ _ :: decodeHex (encodeHex data) = _
    rw [ih, hexByte_hexDigits]

theorem decodeHex_length {text : Text} (heven : text.length % 2 = 0) :
    2 * (decodeHex text).length = text.length := by
  induction text using decodeHex.induct with
  | case1 high low rest ih =>
    rw [List.length_cons, List.length_cons] at heven
    have hrest := ih (by omega)
    rw [decodeHex, List.length_cons, List.length_cons, List.length_cons]
    omega
  | case2 text hshort =>
    match text with
    | [] => rfl
    | [_] => cases heven
    | high :: low :: rest => exact absurd rfl (hshort high low rest)

theorem encodeHex_decodeHex {text : Text} (heven : text.length % 2 = 0)
    (hdigits : ∀ c ∈ text, isXDigit c) : encodeHex (decodeHex text) = text.map toUpper := by
  induction text using decodeHex.induct with
  | case1 high low rest ih =>
    rw [List.length_cons, List.length_cons] at heven
    have hrest := ih (by omega) fun c hc =>
      hdigits c (List.mem_cons_of_mem high (List.mem_cons_of_mem low hc))
    have hbyte := hexDigits_hexByte (hdigits high List.mem_cons_self)
      (hdigits low (List.mem_cons_of_mem high List.mem_cons_self))
    rw [decodeHex, encodeHex_cons, hbyte, hrest]
    rfl
  | case2 text hshort =>
    match text with
    | [] => rfl
    | [_] => cases heven
    | high :: low :: rest => exact absurd rfl (hshort high low rest)

/-! ### The loops -/

section Loops

variable {data str : Text}

/-- Two digits and a NUL, over what stood there. -/
theorem sprintf02X_append (front back : Text) {old : Text} (hold : old.length = 3) (byte : UInt8) :
    sprintf02X (front ++ old ++ back) front.length byte
      = .ok (front ++ hexDigits byte ++ 0 :: back) := by
  unfold sprintf02X
  rw [writeChars_append (by rw [hold]; rfl), List.append_assoc, List.append_assoc]
  rfl

/-- From a NUL on, with `pre` behind it, the loop leaves the digits of the rest and a NUL. -/
theorem bytes2strHLoop_eq (pre todo rest front more : Text)
    (hfront : front.length = 2 * pre.length) (hmore : 2 * todo.length ≤ more.length) :
    bytes2strHLoop (pre ++ todo ++ rest) todo.length pre.length (front ++ 0 :: more)
      = .ok (front ++ encodeHex todo ++ 0 :: more.drop (2 * todo.length)) := by
  induction todo generalizing pre front more with
  | nil =>
    rw [List.length_nil, bytes2strHLoop, encodeHex, List.flatMap_nil, List.append_nil, Nat.mul_zero,
      List.drop_zero]
    rfl
  | cons byte todo ih =>
    rw [List.length_cons] at hmore
    obtain ⟨a, more, rfl⟩ := List.exists_cons_of_length_pos (l := more) (by omega)
    obtain ⟨b, more, rfl⟩ := List.exists_cons_of_length_pos (l := more)
      (by rw [List.length_cons] at hmore; omega)
    have hread := readChar_append pre byte (todo ++ rest)
    have hthree : [0, a, b].length = 3 := rfl
    have hwrite := sprintf02X_append front more hthree byte
    have hstep := ih (pre ++ [byte]) (front ++ hexDigits byte) more
      (by rw [List.length_append, List.length_append, hfront]; rfl)
      (by rw [List.length_cons, List.length_cons] at hmore; omega)
    have hdrop : (a :: b :: more).drop (2 * (todo.length + 1)) = more.drop (2 * todo.length) := rfl
    rw [List.append_assoc pre, List.singleton_append, List.length_append, List.length_singleton,
      List.append_assoc pre] at hstep
    rw [List.append_assoc pre, List.cons_append, List.length_cons, bytes2strHLoop, hread, ok_bind,
      ← hfront, hdrop]
    rw [List.append_assoc] at hwrite
    change sprintf02X (front ++ 0 :: a :: b :: more) front.length byte = _ at hwrite
    rw [hwrite, ok_bind]
    rw [List.cons_append] at hstep
    rw [hstep, encodeHex_cons, List.append_assoc front]

/-- Encoding leaves the digits and a NUL wherever there is one already, and wherever there are
digits. -/
theorem bytes2strH_eq (data rest str : Text) (hroom : 2 * data.length + 1 ≤ str.length)
    (hnul : data ≠ [] ∨ str.head? = some 0) :
    bytes2strH (data ++ rest) data.length str
      = .ok (data.length, encodeHex data ++ 0 :: str.drop (2 * data.length + 1)) := by
  obtain ⟨c, more, rfl⟩ := List.exists_cons_of_length_pos (l := str) (by omega)
  rw [List.length_cons] at hroom
  have hloop := bytes2strHLoop_eq [] data rest [] more rfl (by omega)
  have hfirst : bytes2strHLoop (data ++ rest) data.length 0 (c :: more)
      = bytes2strHLoop (data ++ rest) data.length 0 (0 :: more) := by
    match data, hnul with
    | [], hnul => rw [Option.some.inj (hnul.resolve_left (not_not_intro rfl))]
    | byte :: data, _ => rfl
  unfold bytes2strH
  rw [Int.toNat_natCast, hfirst]
  change bytes2strHLoop (data ++ rest) data.length 0 (0 :: more) = _ at hloop
  rw [hloop, ok_bind, List.drop_succ_cons]
  rfl

/-- Each two characters of `todo` become a byte of their own; the bytes around them stay. -/
theorem str2bytesLoop_eq (left : Nat) (pre todo front old rest back : Text)
    (hpre : pre.length = 2 * front.length) (htodo : todo.length = 2 * left)
    (hold : old.length = left) :
    str2bytesLoop (pre ++ todo ++ rest) left front.length (front ++ old ++ back)
      = .ok (front ++ decodeHex todo ++ back) := by
  induction left generalizing pre todo front old with
  | zero =>
    obtain rfl := List.length_eq_zero_iff.mp htodo
    obtain rfl := List.length_eq_zero_iff.mp hold
    rfl
  | succ left ih =>
    obtain ⟨high, todo, rfl⟩ := List.exists_cons_of_length_pos (l := todo) (by omega)
    rw [List.length_cons] at htodo
    obtain ⟨low, todo, rfl⟩ := List.exists_cons_of_length_pos (l := todo) (by omega)
    obtain ⟨o, old, rfl⟩ := List.exists_cons_of_length_pos (l := old) (by omega)
    rw [List.length_cons] at htodo hold
    have hhigh := readChar_append pre high (low :: (todo ++ rest))
    have hlow := readChar_append (pre ++ [high]) low (todo ++ rest)
    have hwrite : writeChars (front ++ [o] ++ (old ++ back)) front.length [hexByte high low]
        = .ok (front ++ [hexByte high low] ++ (old ++ back)) := writeChars_append rfl
    have hstep := ih (pre ++ [high, low]) todo (front ++ [hexByte high low]) old
      (by
        rw [List.length_append, List.length_append, hpre]
        simp only [List.length_cons, List.length_nil]
        omega)
      (by omega) (by omega)
    simp only [List.append_assoc, List.cons_append, List.nil_append, List.length_append,
      List.length_singleton, hpre] at hhigh hlow hwrite hstep ⊢
    rw [str2bytesLoop, hhigh, ok_bind, hlow, ok_bind]
    change (writeChars (front ++ o :: (old ++ back)) front.length [hexByte high low] >>= _) = _
    rw [hwrite, ok_bind, hstep]
    rfl

theorem str2bytes_eq {chars : Text} (hnul : 0 ∉ chars) (heven : chars.length % 2 = 0) (rest : Text)
    {dataLen : UInt32} (hlen : chars.length / 2 ≤ dataLen.toNat)
    (hroom : chars.length / 2 ≤ data.length) :
    str2bytes (chars ++ 0 :: rest) data dataLen
      = .ok (toInt (chars.length / 2 : Nat), decodeHex chars ++ data.drop (chars.length / 2)) := by
  have hloop := str2bytesLoop_eq (chars.length / 2) [] chars [] (data.take (chars.length / 2)) (0 :: rest)
    (data.drop (chars.length / 2)) rfl (by omega)
    (by rw [List.length_take]; omega)
  rw [List.nil_append, List.nil_append, List.take_append_drop] at hloop
  unfold str2bytes
  rw [strlen_append hnul, ok_bind, if_neg (by omega), if_neg (by omega)]
  change (str2bytesLoop (chars ++ 0 :: rest) (chars.length / 2) 0 data >>= _) = _
  change str2bytesLoop (chars ++ 0 :: rest) (chars.length / 2) 0 data = _ at hloop
  rw [hloop]
  rfl

/-- A string of odd length, or one that is too long, is not decoded. -/
theorem str2bytes_rejects {chars : Text} (hnul : 0 ∉ chars) (rest : Text) {dataLen : UInt32}
    (hbad : chars.length % 2 = 1 ∨ 2 * dataLen.toNat + 1 < chars.length) :
    str2bytes (chars ++ 0 :: rest) data dataLen = .ok (0, data) := by
  unfold str2bytes
  rw [strlen_append hnul, ok_bind]
  by_cases hodd : chars.length % 2 = 1
  · rw [if_pos (by omega)]
    rfl
  · rw [if_neg (by omega), if_pos (by omega)]
    rfl

theorem isxdigitstrLoop_eq (pre todo rest : Text) :
    isxdigitstrLoop (pre ++ todo ++ rest) todo.length pre.length
      = .ok (if todo.all isXDigit then 1 else 0) := by
  induction todo generalizing pre with
  | nil => rfl
  | cons c todo ih =>
    have hread := readChar_append pre c (todo ++ rest)
    have hstep := ih (pre ++ [c])
    simp only [List.append_assoc, List.cons_append, List.nil_append, List.length_append,
      List.length_singleton] at hstep
    rw [List.append_assoc, List.cons_append, List.length_cons, isxdigitstrLoop, hread, ok_bind]
    rw [List.all_cons]
    cases isXDigit c with
    | true => exact hstep
    | false => rfl

theorem toInt_natCast_le (n : Nat) : (toInt n).toNat ≤ n := by
  rw [toInt, Int.bmod_def]
  split <;> omega

theorem toInt_even_iff (n : Nat) : (toInt n).tmod 2 = 0 ↔ n % 2 = 0 := by
  rw [← Int.dvd_iff_tmod_eq_zero, toInt, Int.bmod_def]
  split <;> omega

/-- `isxdigitstr` looks at as many characters as the `int` says, and at whether their number is
even. -/
theorem isxdigitstr_eq {chars : Text} (hnul : 0 ∉ chars) (rest : Text) :
    isxdigitstr (chars ++ 0 :: rest)
      = .ok (if chars.length % 2 = 0 ∧ (chars.take (toInt chars.length).toNat).all isXDigit then 1
        else 0) := by
  let looked := chars.take (toInt chars.length).toNat
  have hlooked : looked.length = (toInt chars.length).toNat := by
    rw [List.length_take, Nat.min_eq_left (toInt_natCast_le _)]
  have hsplit : [] ++ looked ++ (chars.drop (toInt chars.length).toNat ++ 0 :: rest)
      = chars ++ 0 :: rest := by
    rw [List.nil_append, ← List.append_assoc, List.take_append_drop]
  have hloop := isxdigitstrLoop_eq [] looked (chars.drop (toInt chars.length).toNat ++ 0 :: rest)
  rw [hsplit, hlooked] at hloop
  unfold isxdigitstr
  rw [strlen_append hnul, ok_bind]
  change (if (toInt chars.length).tmod 2 ≠ 0 then _ else _) = _
  by_cases heven : chars.length % 2 = 0
  · rw [if_neg (not_not_intro ((toInt_even_iff _).mpr heven))]
    simp only [heven, true_and]
    exact hloop
  · rw [if_pos (mt (toInt_even_iff _).mp heven), if_neg fun h => heven h.1]
    rfl

theorem isxdigitstr_of_xdigits {chars : Text} (hdigits : ∀ c ∈ chars, isXDigit c)
    (heven : chars.length % 2 = 0) (rest : Text) : isxdigitstr (chars ++ 0 :: rest) = .ok 1 := by
  rw [isxdigitstr_eq (not_mem_of_xdigits hdigits), if_pos]
  refine ⟨heven, List.all_eq_true.mpr fun c hc => ?_⟩
  exact hdigits c (List.mem_of_mem_take hc)

end Loops

/-! ### Encoding, then decoding -/

/-- The buffer holds the digits of the bytes, which pass for such and are decoded to the bytes. -/
def HexDecodes (data str : Text) : Prop :=
  ∃ text rest, bytes2strH data data.length str = .ok (data.length, text ++ 0 :: rest)
    ∧ text.length = 2 * data.length ∧ (∀ c ∈ text, IsUpperXDigit c)
    ∧ isxdigitstr (text ++ 0 :: rest) = .ok 1
    ∧ ∀ (m : UInt32) (out : Text), data.length ≤ m.toNat → data.length ≤ out.length →
      str2bytes (text ++ 0 :: rest) out m = .ok (data.length, data ++ out.drop data.length)

/-- Bytes are decoded as what they were encoded from, unless there are none: then nothing ends the
string that the buffer is to hold. -/
theorem hexDecodes_iff (data str : Text) (hlen : data.length ≤ intMax)
    (hroom : 2 * data.length + 1 ≤ str.length) :
    HexDecodes data str ↔ data ≠ [] ∨ str.head? = some 0 := by
  constructor
  · rintro ⟨text, rest, hencode, hlength, -⟩
    by_contra hneither
    obtain ⟨hempty, hstale⟩ := not_or.mp hneither
    rw [not_not.mp hempty] at hencode hlength
    obtain rfl := List.length_eq_zero_iff.mp hlength
    have hstr : str = 0 :: rest := congrArg Prod.snd (Except.ok.inj hencode)
    exact hstale (by rw [hstr]; rfl)
  · intro hnul
    have hupper := encodeHex_upper data
    have hlength := encodeHex_length data
    have hhalf : (encodeHex data).length / 2 = data.length := by omega
    have hencode := bytes2strH_eq data [] str hroom hnul
    rw [List.append_nil] at hencode
    refine ⟨encodeHex data, str.drop (2 * data.length + 1), hencode, hlength, hupper,
      isxdigitstr_of_xdigits (fun c hc => (hupper c hc).1) (by omega) _, ?_⟩
    intro m out hm hout
    rw [str2bytes_eq (encodeHex_noNul data) (by omega) _ (by omega) (by omega), hhalf,
      decodeHex_encodeHex, toInt_eq ⟨by simp only [intMin]; omega, hlen⟩]

theorem hexDecodes_iff_byte : HexDecodes [171] (ascii "stale") :=
  (hexDecodes_iff [171] (ascii "stale") (by decide) (by decide)).mpr (Or.inl (by decide))

/-- Encoding no bytes leaves the old string in the buffer. -/
theorem hexDecodes_empty_stale : ¬HexDecodes [] (ascii "AB" ++ [0]) := by
  rintro ⟨text, rest, hencode, hlength, -⟩
  obtain rfl := List.length_eq_zero_iff.mp hlength
  have hstr := congrArg Prod.snd (Except.ok.inj hencode)
  cases hstr

/-! ### Decoding, then encoding -/

/-- The string is decoded to half as many bytes, and nothing beyond them changes; encoding them gives
the string back, in upper case. -/
def HexEncodes (s : CString) (data : Text) (dataLen : UInt32) : Prop :=
  ∃ data', str2bytes s.array data dataLen = .ok ((s.chars.length / 2 : Nat), data')
    ∧ data'.length = data.length
    ∧ data'.drop (s.chars.length / 2) = data.drop (s.chars.length / 2)
    ∧ ∀ str : Text, s.chars.length + 1 ≤ str.length →
      ∃ text rest, bytes2strH data' (s.chars.length / 2 : Nat) str
          = .ok ((s.chars.length / 2 : Nat), text ++ 0 :: rest)
        ∧ str2upper s.array = .ok (text ++ [0])

theorem str2upper_eq {chars : Text} (hnul : 0 ∉ chars) :
    str2upper (chars ++ [0]) = .ok (chars.map toUpper ++ [0]) := mapChars_eq toUpper hnul

section Encodes

variable {s : CString} {data : Text} {dataLen : UInt32}

theorem toInt_half_eq_iff {half : Nat} (hhalf : half < 2 ^ 32) :
    toInt half = half ↔ half ≤ intMax := by
  simp only [intMax]
  rw [toInt, Int.bmod_def]
  split <;> omega

/-- What `isxdigitstr` accepts is decoded and encoded again without loss if it is made of digits and
the count of the bytes is an `int`. -/
theorem hexEncodes_iff (hne : s.chars ≠ []) (hdigits : isxdigitstr s.array = .ok 1)
    (hlen : s.chars.length / 2 ≤ dataLen.toNat) (hroom : s.chars.length / 2 ≤ data.length) :
    HexEncodes s data dataLen ↔ (∀ c ∈ s.chars, isXDigit c) ∧ s.chars.length < 2 ^ 32 := by
  rw [CString.array, isxdigitstr_eq s.noNul] at hdigits
  have heven : s.chars.length % 2 = 0 := by
    by_contra hodd
    rw [if_neg fun h => hodd h.1] at hdigits
    cases hdigits
  have hpos := List.length_pos_iff.mpr hne
  have hhalf := decodeHex_length heven
  have hbytes : (decodeHex s.chars).length = s.chars.length / 2 := by omega
  have hsome : decodeHex s.chars ≠ [] := List.ne_nil_of_length_pos (by omega)
  have hdecode := str2bytes_eq s.noNul heven [] hlen hroom
  have hlt := dataLen.toNat_lt
  have hencode : ∀ str : Text, s.chars.length + 1 ≤ str.length →
      bytes2strH (decodeHex s.chars ++ data.drop (s.chars.length / 2)) (s.chars.length / 2 : Nat) str
        = .ok ((s.chars.length / 2 : Nat), encodeHex (decodeHex s.chars)
          ++ 0 :: str.drop (s.chars.length + 1)) := by
    intro str hstr
    have heq := bytes2strH_eq (decodeHex s.chars) (data.drop (s.chars.length / 2)) str
      (by omega) (Or.inl hsome)
    rwa [hhalf, hbytes] at heq
  constructor
  · rintro ⟨data', hdata', -, -, hback⟩
    rw [CString.array, hdecode] at hdata'
    obtain ⟨hret, hdata'⟩ := Prod.mk.inj (Except.ok.inj hdata')
    have hint := (toInt_half_eq_iff (by omega)).mp hret
    simp only [intMax] at hint
    refine ⟨?_, by omega⟩
    obtain ⟨text, rest, hout, hupper⟩ :=
      hback (List.replicate (s.chars.length + 1) 0) (Nat.le_of_eq List.length_replicate.symm)
    rw [← hdata', hencode _ (Nat.le_of_eq List.length_replicate.symm)] at hout
    rw [CString.array, str2upper_eq s.noNul] at hupper
    have htext : s.chars.map toUpper = text := List.append_cancel_right (Except.ok.inj hupper)
    have hchars := congrArg Prod.snd (Except.ok.inj hout)
    have hsame := (List.append_inj hchars (by
      rw [encodeHex_length, hhalf, ← htext, List.length_map])).1
    intro c hc
    apply isXDigit_of_toUpper
    apply (encodeHex_upper (decodeHex s.chars) (toUpper c) _).1
    rw [hsame, ← htext]
    exact List.mem_map_of_mem hc
  · rintro ⟨hxdigits, hshort⟩
    have hint : toInt (s.chars.length / 2 : Nat) = (s.chars.length / 2 : Nat) :=
      toInt_eq (by simp only [intMin, intMax]; omega)
    rw [hint] at hdecode
    refine ⟨_, hdecode, ?_, ?_, ?_⟩
    · rw [List.length_append, hbytes, List.length_drop]
      omega
    · rw [List.drop_left' hbytes]
    · intro str hstr
      refine ⟨s.chars.map toUpper, str.drop (s.chars.length + 1), ?_, str2upper_eq s.noNul⟩
      rw [hencode str hstr, encodeHex_decodeHex heven hxdigits]

end Encodes

/-- What `isxdigitstr` accepts is decoded without loss if it is made of digits, fewer than
`2 ^ 32` of them; a string of the wrong length is not decoded at all. -/
theorem str2bytes_decodes (s : CString) (data : Text) (dataLen : UInt32) :
    (s.chars ≠ [] → isxdigitstr s.array = .ok 1 → s.chars.length / 2 ≤ dataLen.toNat →
      s.chars.length / 2 ≤ data.length →
      (HexEncodes s data dataLen ↔ (∀ c ∈ s.chars, isXDigit c) ∧ s.chars.length < 2 ^ 32))
    ∧ (s.chars.length % 2 = 1 ∨ 2 * dataLen.toNat + 1 < s.chars.length →
      str2bytes s.array data dataLen = .ok (0, data)) := by
  constructor
  · intro hne hdigits hlen hroom
    exact hexEncodes_iff hne hdigits hlen hroom
  · intro hbad
    exact str2bytes_rejects s.noNul [] hbad

theorem str2bytes_decodes_mixedCase :
    HexEncodes ⟨ascii "aBc0", by decide⟩ [0, 0] 2
      ∧ str2bytes (ascii "aBc" ++ [0]) [0, 0] 2 = .ok (0, [0, 0]) := by
  constructor
  · apply ((str2bytes_decodes ⟨ascii "aBc0", by decide⟩ [0, 0] 2).1 (by decide) rfl (by decide)
      (by decide)).mpr
    exact ⟨List.all_eq_true.mp rfl, show 4 < 2 ^ 32 by omega⟩
  · exact (str2bytes_decodes ⟨ascii "aBc", by decide⟩ [0, 0] 2).2 (Or.inl rfl)

section Giant

/-- Two gigabytes of the letter g. -/
def giantG : CString := CString.replicate 2147483648 103 (by decide)

theorem giantG_length : giantG.chars.length = 2147483648 := List.length_replicate

/-- The length is negative as an `int`, and no character is looked at. -/
theorem isxdigitstr_giantG : isxdigitstr giantG.array = .ok 1 := by
  rw [CString.array, isxdigitstr_eq giantG.noNul, giantG_length, if_pos]
  have hnone : (toInt (2147483648 : Nat)).toNat = 0 := rfl
  rw [hnone, List.take_zero]
  exact ⟨rfl, rfl⟩

theorem not_hexEncodes_giantG :
    ¬∀ (s : CString) (data : Text) (dataLen : UInt32), s.chars ≠ [] → (∀ c ∈ s.chars, c < 128) →
      isxdigitstr s.array = .ok 1 → s.chars.length / 2 ≤ dataLen.toNat →
      s.chars.length / 2 ≤ data.length → HexEncodes s data dataLen := by
  intro hall
  have hne : giantG.chars ≠ [] := List.ne_nil_of_length_pos (by rw [giantG_length]; decide)
  have hascii : ∀ c ∈ giantG.chars, c < 128 := by
    intro c hc
    rw [(List.mem_replicate.mp hc).2]
    decide
  have hhalf : giantG.chars.length / 2 = 1073741824 := by rw [giantG_length]
  have hlen : giantG.chars.length / 2 ≤ (1073741824 : UInt32).toNat := Nat.le_of_eq hhalf
  have hroom : giantG.chars.length / 2 ≤ (List.replicate 1073741824 (0 : UInt8)).length :=
    Nat.le_of_eq (hhalf.trans List.length_replicate.symm)
  have hencodes := hall giantG _ _ hne hascii isxdigitstr_giantG hlen hroom
  have hiff := hexEncodes_iff hne isxdigitstr_giantG hlen hroom
  have hg := (hiff.mp hencodes).1 103 (List.mem_replicate.mpr ⟨by decide, rfl⟩)
  cases hg

end Giant

end Gittest
