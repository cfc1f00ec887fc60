import Gittest.Lib.Outcome
import Gittest.Utils
import Mathlib.Data.List.GetD
import Mathlib.Order.Defs.LinearOrder
import Mathlib.Order.Lattice.Nat

/-!
# Comparison without regard to case

`strcmp_nocase` takes every difference of 32 for one of case, so that it goes on behind the end of a
string where the other one has a space, and calls strings equal that `str2lower` tells apart. What
it returns, and after how many turns, is decided at the first position that it does not pass.
-/

namespace Gittest

open Outcome

/-- The character at a position, the NUL included. -/
def CString.char (s : CString) (k : Nat) : UInt8 := s.array.getD k 0

/-- The difference of two characters for which `strcmp_nocase` goes on. -/
def PlainChar.Close (char : PlainChar) (c1 c2 : UInt8) : Prop :=
  char.value c1 - char.value c2 = 0 ∨ char.value c1 - char.value c2 = 32
    ∨ char.value c1 - char.value c2 = -32

instance (char : PlainChar) (c1 c2 : UInt8) : Decidable (char.Close c1 c2) :=
  inferInstanceAs (Decidable (char.value c1 - char.value c2 = 0 ∨ char.value c1 - char.value c2 = 32
    ∨ char.value c1 - char.value c2 = -32))

section Characters

variable {s : CString} {k : Nat}

theorem CString.readChar_char (hk : k ≤ s.chars.length) : readChar s.array k = .ok (s.char k) := by
  apply readChar_eq
  rw [CString.char, List.getD_eq_getElem?_getD]
  have hlt : k < s.array.length := by rw [s.array_length]; omega
  rw [List.getElem?_eq_getElem hlt]
  rfl

theorem CString.readChar_error (hk : s.chars.length < k) :
    readChar s.array k = .error .outOfBounds :=
  readChar_beyond (by rw [s.array_length]; omega)

theorem CString.char_eq_zero_iff (hk : k ≤ s.chars.length) :
    s.char k = 0 ↔ k = s.chars.length := by
  rw [CString.char, List.getD_eq_getElem?_getD, CString.array]
  constructor
  · intro hzero
    by_contra hne
    have hlt : k < s.chars.length := by omega
    rw [List.getElem?_append_left hlt, List.getElem?_eq_getElem hlt] at hzero
    exact s.noNul (hzero ▸ List.getElem_mem hlt)
  · rintro rfl
    rw [List.getElem?_concat_length]
    rfl

end Characters

/-! ### The position that decides -/

/-- The loop goes on behind this position, which is in both strings or at the end of one. -/
structure GoesOn (char : PlainChar) (s1 s2 : CString) (k : Nat) : Prop where
  left : k ≤ s1.chars.length
  right : k ≤ s2.chars.length
  close : char.Close (s1.char k) (s2.char k)
  notEnd : ¬(k = s1.chars.length ∧ k = s2.chars.length)

/-- At this position the loop returns, after so many turns. -/
inductive Decides (char : PlainChar) (s1 s2 : CString) (k : Nat) : Int → Nat → Prop
  | ends (left : k = s1.chars.length) (right : k = s2.chars.length) : Decides char s1 s2 k 0 k
  | apart (left : k ≤ s1.chars.length) (right : k ≤ s2.chars.length)
      (far : ¬char.Close (s1.char k) (s2.char k)) :
      Decides char s1 s2 k (char.value (s1.char k) - char.value (s2.char k)) (k + 1)

section Walk

variable {char : PlainChar} {s1 s2 : CString} {k : Nat} {ret : Int} {turns : Nat}

theorem GoesOn.not_decides (hon : GoesOn char s1 s2 k) : ¬Decides char s1 s2 k ret turns := by
  intro hdecides
  cases hdecides with
  | ends hleft hright => exact hon.notEnd ⟨hleft, hright⟩
  | apart _ _ hfar => exact hfar hon.close

theorem Decides.le (hdecides : Decides char s1 s2 k ret turns) :
    k ≤ s1.chars.length ∧ k ≤ s2.chars.length := by
  cases hdecides with
  | ends hleft hright => exact ⟨Nat.le_of_eq hleft, Nat.le_of_eq hright⟩
  | apart hleft hright _ => exact ⟨hleft, hright⟩

section Turn

variable {i : Nat} (hi : i < 2 ^ 32) (fuel : Nat)

include hi

theorem strcmpNocaseLoop_beyond (hbeyond : s1.chars.length < i ∨ s2.chars.length < i) :
    strcmpNocaseLoop char s1.array s2.array fuel (UInt32.ofNat i) = .error .outOfBounds := by
  unfold strcmpNocaseLoop
  rw [UInt32.toNat_ofNat_of_lt' hi]
  by_cases hleft : i ≤ s1.chars.length
  · rw [CString.readChar_char hleft, ok_bind, CString.readChar_error (by omega)]
    rfl
  · rw [CString.readChar_error (by omega)]
    rfl

theorem strcmpNocaseLoop_ends (hleft : i = s1.chars.length) (hright : i = s2.chars.length) :
    strcmpNocaseLoop char s1.array s2.array fuel (UInt32.ofNat i) = .ok 0 := by
  unfold strcmpNocaseLoop
  rw [UInt32.toNat_ofNat_of_lt' hi, CString.readChar_char (Nat.le_of_eq hleft), ok_bind,
    CString.readChar_char (Nat.le_of_eq hright), ok_bind, if_neg]
  · rfl
  · rw [(CString.char_eq_zero_iff (Nat.le_of_eq hleft)).mpr hleft,
      (CString.char_eq_zero_iff (Nat.le_of_eq hright)).mpr hright]
    decide

/-- A turn within both strings. -/
theorem strcmpNocaseLoop_inside (hleft : i ≤ s1.chars.length) (hright : i ≤ s2.chars.length)
    (hend : ¬(i = s1.chars.length ∧ i = s2.chars.length)) :
    strcmpNocaseLoop char s1.array s2.array fuel (UInt32.ofNat i)
      = match fuel with
        | 0 => .error .diverges
        | fuel + 1 =>
            if char.Close (s1.char i) (s2.char i) then
              strcmpNocaseLoop char s1.array s2.array fuel (UInt32.ofNat (i + 1))
            else
              .ok (char.value (s1.char i) - char.value (s2.char i)) := by
  have hchars : s1.char i ≠ 0 ∨ s2.char i ≠ 0 := by
    rw [ne_eq, ne_eq, CString.char_eq_zero_iff hleft, CString.char_eq_zero_iff hright]
    omega
  have hsucc : UInt32.ofNat i + 1 = UInt32.ofNat (i + 1) := (UInt32.ofNat_add i 1).symm
  conv_lhs => unfold strcmpNocaseLoop
  rw [UInt32.toNat_ofNat_of_lt' hi, CString.readChar_char hleft, ok_bind, CString.readChar_char hright, ok_bind,
    if_pos hchars, hsucc]
  rfl

end Turn

/-- The first position that is not passed is the one that decides. -/
theorem Decides.eq_first {i : Nat} (hdecides : Decides char s1 s2 k ret turns)
    (hall : ∀ j < k, GoesOn char s1 s2 j) (hpassed : ∀ j < i, GoesOn char s1 s2 j)
    (hstop : ¬GoesOn char s1 s2 i) : k = i := by
  rcases lt_trichotomy k i with hlt | heq | hgt
  · exact absurd hdecides (hpassed k hlt).not_decides
  · exact heq
  · exact absurd (hall i hgt) hstop

theorem Decides.le_turns (hdecides : Decides char s1 s2 k ret turns) : k ≤ turns := by
  cases hdecides with
  | ends _ _ => exact Nat.le_refl k
  | apart _ _ _ => exact Nat.le_succ k

theorem PlainChar.close_self (c : UInt8) : char.Close c c := Or.inl (Int.sub_self _)

/-- Where the loop does not go on it returns what is decided there, if anything is. -/
theorem strcmpNocaseLoop_stops (fuel : Nat) {i : Nat} (hi : i < 2 ^ 32)
    (hstop : ¬GoesOn char s1 s2 i) :
    strcmpNocaseLoop char s1.array s2.array fuel (UInt32.ofNat i) = .ok ret
      ↔ ∃ turns, Decides char s1 s2 i ret turns ∧ turns ≤ i + fuel := by
  by_cases hbeyond : s1.chars.length < i ∨ s2.chars.length < i
  · rw [strcmpNocaseLoop_beyond hi fuel hbeyond]
    constructor
    · intro herror
      cases herror
    · rintro ⟨turns, hdecides, -⟩
      have hle := hdecides.le
      omega
  have hleft : i ≤ s1.chars.length := by omega
  have hright : i ≤ s2.chars.length := by omega
  by_cases hend : i = s1.chars.length ∧ i = s2.chars.length
  · rw [strcmpNocaseLoop_ends hi fuel hend.1 hend.2]
    constructor
    · intro hret
      obtain rfl := Except.ok.inj hret
      exact ⟨i, .ends hend.1 hend.2, Nat.le_add_right i fuel⟩
    · rintro ⟨turns, hdecides, -⟩
      cases hdecides with
      | ends _ _ => rfl
      | apart _ _ hfar =>
        rw [(CString.char_eq_zero_iff hleft).mpr hend.1,
          (CString.char_eq_zero_iff hright).mpr hend.2] at hfar
        exact absurd (PlainChar.close_self 0) hfar
  have hfar : ¬char.Close (s1.char i) (s2.char i) := fun hclose =>
    hstop ⟨hleft, hright, hclose, hend⟩
  rw [strcmpNocaseLoop_inside hi fuel hleft hright hend]
  cases fuel with
  | zero =>
    constructor
    · intro herror
      cases herror
    · rintro ⟨turns, hdecides, hturns⟩
      cases hdecides with
      | ends hleft hright => exact absurd ⟨hleft, hright⟩ hend
      | apart _ _ _ => exact absurd hturns (Nat.not_succ_le_self i)
  | succ fuel =>
    change (if char.Close (s1.char i) (s2.char i) then _ else _) = _ ↔ _
    rw [if_neg hfar]
    constructor
    · intro hret
      obtain rfl := Except.ok.inj hret
      exact ⟨i + 1, .apart hleft hright hfar, by omega⟩
    · rintro ⟨turns, hdecides, -⟩
      cases hdecides with
      | ends hleft hright => exact absurd ⟨hleft, hright⟩ hend
      | apart _ _ _ => rfl

theorem strcmpNocaseLoop_stops_first (fuel : Nat) {i : Nat} (hi : i < 2 ^ 32)
    (hpassed : ∀ j < i, GoesOn char s1 s2 j) (hstop : ¬GoesOn char s1 s2 i) :
    strcmpNocaseLoop char s1.array s2.array fuel (UInt32.ofNat i) = .ok ret
      ↔ ∃ k turns, k < 2 ^ 32 ∧ (∀ j < k, GoesOn char s1 s2 j) ∧ Decides char s1 s2 k ret turns
        ∧ turns ≤ i + fuel := by
  rw [strcmpNocaseLoop_stops fuel hi hstop]
  constructor
  · rintro ⟨turns, hdecides, hturns⟩
    exact ⟨i, turns, hi, hpassed, hdecides, hturns⟩
  · rintro ⟨k, turns, -, hall, hdecides, hturns⟩
    obtain rfl := hdecides.eq_first hall hpassed hstop
    exact ⟨turns, hdecides, hturns⟩

theorem forall_lt_succ {i : Nat} (hpassed : ∀ j < i, GoesOn char s1 s2 j)
    (hon : GoesOn char s1 s2 i) : ∀ j < i + 1, GoesOn char s1 s2 j := by
  intro j hj
  rcases Nat.lt_succ_iff_lt_or_eq.mp hj with hlt | rfl
  · exact hpassed j hlt
  · exact hon

/-- The loop from position `i` on, when it has come there, returns what is decided at the first
position that it does not pass. Behind the last position that the index counts it begins anew. -/
theorem strcmpNocaseLoop_eq_ok_iff (char : PlainChar) (s1 s2 : CString) (ret : Int) (fuel : Nat)
    {i : Nat} (hi : i < 2 ^ 32)
    (hpassed : ∀ j < i, GoesOn char s1 s2 j) :
    strcmpNocaseLoop char s1.array s2.array fuel (UInt32.ofNat i) = .ok ret
      ↔ ∃ k turns, k < 2 ^ 32 ∧ (∀ j < k, GoesOn char s1 s2 j) ∧ Decides char s1 s2 k ret turns
        ∧ turns ≤ i + fuel := by
  induction fuel generalizing i with
  | zero =>
    by_cases hon : GoesOn char s1 s2 i
    · rw [strcmpNocaseLoop_inside hi 0 hon.left hon.right hon.notEnd]
      constructor
      · intro herror
        cases herror
      · rintro ⟨k, turns, -, -, hdecides, hturns⟩
        have hle := hdecides.le_turns
        exact absurd hdecides (forall_lt_succ hpassed hon k (by omega)).not_decides
    · exact strcmpNocaseLoop_stops_first 0 hi hpassed hon
  | succ fuel ih =>
    by_cases hon : GoesOn char s1 s2 i
    · have hpassed' := forall_lt_succ hpassed hon
      rw [strcmpNocaseLoop_inside hi (fuel + 1) hon.left hon.right hon.notEnd]
      change (if char.Close (s1.char i) (s2.char i) then _ else _) = _ ↔ _
      rw [if_pos hon.close]
      by_cases hwrap : i + 1 = 2 ^ 32
      · -- the index is 0 again, and nothing below it decides
        rw [hwrap]
        have hagain := ih (i := 0) (by omega) fun j hj => absurd hj (Nat.not_lt_zero j)
        constructor
        · intro hret
          obtain ⟨k, turns, hk, -, hdecides, -⟩ := hagain.mp hret
          exact absurd hdecides (hpassed' k (by omega)).not_decides
        · rintro ⟨k, turns, hk, -, hdecides, -⟩
          exact absurd hdecides (hpassed' k (by omega)).not_decides
      · rw [ih (by omega) hpassed', Nat.add_right_comm]
        rfl
    · exact strcmpNocaseLoop_stops_first (fuel + 1) hi hpassed hon

/-- The value that `strcmp_nocase` returns, and the turns it takes. -/
theorem strcmpNocase_eq_ok_iff (fuel : Nat) :
    strcmpNocase char fuel s1.array s2.array = .ok ret
      ↔ ∃ k turns, k < 2 ^ 32 ∧ (∀ j < k, GoesOn char s1 s2 j) ∧ Decides char s1 s2 k ret turns
        ∧ turns ≤ fuel := by
  have hloop := strcmpNocaseLoop_eq_ok_iff char s1 s2 ret fuel (i := 0) (by omega)
    fun j hj => absurd hj (Nat.not_lt_zero j)
  rw [Nat.zero_add] at hloop
  exact hloop

/-- The two strings differ here, and by something else than 32. -/
structure TellsApart (char : PlainChar) (s1 s2 : CString) (k : Nat) : Prop where
  left : k ≤ s1.chars.length
  right : k ≤ s2.chars.length
  far : ¬char.Close (s1.char k) (s2.char k)

theorem TellsApart.notEnd (hapart : TellsApart char s1 s2 k) :
    ¬(k = s1.chars.length ∧ k = s2.chars.length) := by
  rintro ⟨hleft, hright⟩
  apply hapart.far
  rw [(CString.char_eq_zero_iff hapart.left).mpr hleft,
    (CString.char_eq_zero_iff hapart.right).mpr hright]
  exact PlainChar.close_self 0

theorem TellsApart.value_ne (hapart : TellsApart char s1 s2 k) :
    char.value (s1.char k) - char.value (s2.char k) ≠ 0 := fun hzero => hapart.far (Or.inl hzero)

/-- Up to a position where both strings end or are told apart, there is a first one. -/
theorem exists_first (char : PlainChar) {bound : Nat}
    (hbound : bound = s1.chars.length ∧ bound = s2.chars.length ∨ TellsApart char s1 s2 bound) :
    ∃ k ≤ bound, (∀ j < k, GoesOn char s1 s2 j)
      ∧ (k = s1.chars.length ∧ k = s2.chars.length ∨ TellsApart char s1 s2 k) := by
  classical
  have hbounds : ¬GoesOn char s1 s2 bound := by
    intro hon
    rcases hbound with hend | hapart
    · exact hon.notEnd hend
    · exact hapart.far hon.close
  have hstop : ∃ k, ¬GoesOn char s1 s2 k := ⟨bound, hbounds⟩
  have hle : Nat.find hstop ≤ bound := Nat.find_min' hstop hbounds
  have hinside : bound ≤ s1.chars.length ∧ bound ≤ s2.chars.length := by
    rcases hbound with hend | hapart
    · exact ⟨Nat.le_of_eq hend.1, Nat.le_of_eq hend.2⟩
    · exact ⟨hapart.left, hapart.right⟩
  refine ⟨Nat.find hstop, hle, fun j hj => not_not.mp (Nat.find_min hstop hj), ?_⟩
  by_cases hend : Nat.find hstop = s1.chars.length ∧ Nat.find hstop = s2.chars.length
  · exact Or.inl hend
  · refine Or.inr ⟨by omega, by omega, fun hclose => ?_⟩
    exact Nat.find_spec hstop ⟨by omega, by omega, hclose, hend⟩

/-! ### Staying inside the strings -/

/-- Both strings are read to their ends at most, and the loop takes no more turns than the longer one
has characters. -/
def StaysInside (char : PlainChar) (s1 s2 : CString) : Prop :=
  ∃ ret, strcmpNocase char (max s1.chars.length s2.chars.length) s1.array s2.array = .ok ret

/-- The loop stays inside if there is a position for it to stop at, before either string is over. -/
theorem strcmpNocase_staysInside_iff (char : PlainChar) (s1 s2 : CString) :
    StaysInside char s1 s2
      ↔ ∃ k < 2 ^ 32, k = s1.chars.length ∧ k = s2.chars.length ∨ TellsApart char s1 s2 k := by
  constructor
  · rintro ⟨ret, hret⟩
    obtain ⟨k, turns, hk, -, hdecides, -⟩ := (strcmpNocase_eq_ok_iff _).mp hret
    refine ⟨k, hk, ?_⟩
    cases hdecides with
    | ends hleft hright => exact Or.inl ⟨hleft, hright⟩
    | apart hleft hright hfar => exact Or.inr ⟨hleft, hright, hfar⟩
  · rintro ⟨bound, hlt, hbound⟩
    obtain ⟨k, hle, hall, hend | hapart⟩ := exists_first char hbound
    · refine ⟨0, (strcmpNocase_eq_ok_iff _).mpr ⟨k, k, by omega, hall, .ends hend.1 hend.2, ?_⟩⟩
      omega
    · have hne := hapart.notEnd
      have hleft := hapart.left
      have hright := hapart.right
      refine ⟨_, (strcmpNocase_eq_ok_iff _).mpr
        ⟨k, k + 1, by omega, hall, .apart hleft hright hapart.far, ?_⟩⟩
      omega

/-- A space against the empty string: the NUL is no reason to stop. -/
theorem strcmpNocase_reads_beyond :
    strcmpNocase .signed 1 (ascii " " ++ [0]) [0] = .error .outOfBounds
      ∧ ¬StaysInside .signed ⟨ascii " ", by decide⟩ ⟨[], by decide⟩ := by
  refine ⟨rfl, ?_⟩
  rintro ⟨ret, hret⟩
  cases hret

/-! ### Letter case -/

/-- The call returns, and the value is 0 for strings that `str2lower` makes equal and no others. -/
def AgreesWithLower (char : PlainChar) (s1 s2 : CString) : Prop :=
  ∃ fuel ret, strcmpNocase char fuel s1.array s2.array = .ok ret
    ∧ (ret = 0 ↔ str2lower s1.array = str2lower s2.array)

theorem str2lower_eq {chars : Text} (hnul : 0 ∉ chars) :
    str2lower (chars ++ [0]) = .ok (chars.map toLower ++ [0]) := mapChars_eq toLower hnul

theorem str2lower_eq_iff :
    str2lower s1.array = str2lower s2.array ↔ s1.chars.map toLower = s2.chars.map toLower := by
  rw [CString.array, CString.array, str2lower_eq s1.noNul, str2lower_eq s2.noNul]
  constructor
  · intro hlower
    exact List.append_cancel_right (Except.ok.inj hlower)
  · intro hlower
    rw [hlower]

theorem value_toLower (char : PlainChar) (c : UInt8) :
    char.value (toLower c) = char.value c ∨ char.value (toLower c) = char.value c + 32 := by
  cases char with
  | signed =>
    apply forall_byte (p := fun c => PlainChar.signed.value (toLower c) = PlainChar.signed.value c
      ∨ PlainChar.signed.value (toLower c) = PlainChar.signed.value c + 32)
    decide +kernel
  | unsigned =>
    apply forall_byte (p := fun c => PlainChar.unsigned.value (toLower c) = PlainChar.unsigned.value c
      ∨ PlainChar.unsigned.value (toLower c) = PlainChar.unsigned.value c + 32)
    decide +kernel

/-- The two cases of a letter are 32 apart. -/
theorem close_of_toLower {c1 c2 : UInt8} (hlower : toLower c1 = toLower c2) : char.Close c1 c2 := by
  have hvalue1 := value_toLower char c1
  have hvalue2 := value_toLower char c2
  rw [← hlower] at hvalue2
  unfold PlainChar.Close
  omega

theorem char_toLower (hlower : s1.chars.map toLower = s2.chars.map toLower) (k : Nat) :
    toLower (s1.char k) = toLower (s2.char k) := by
  have hmap : ∀ s : CString, toLower (s.char k) = (s.chars.map toLower ++ [0]).getD k 0 := by
    intro s
    have hget : (s.array.map toLower).getD k (toLower 0) = toLower (s.array.getD k 0) :=
      List.getD_map _ _ toLower
    rw [CString.array, List.map_append] at hget
    exact hget.symm
  rw [hmap s1, hmap s2, hlower]

/-- The value agrees with `str2lower` if something other than a difference of 32 tells the strings
apart, or if they are indeed the same but for the case of their letters. -/
theorem strcmpNocase_agrees_iff (char : PlainChar) (s1 s2 : CString) :
    AgreesWithLower char s1 s2
      ↔ (∃ k < 2 ^ 32, TellsApart char s1 s2 k)
        ∨ s1.chars.map toLower = s2.chars.map toLower ∧ s1.chars.length < 2 ^ 32 := by
  unfold AgreesWithLower
  rw [str2lower_eq_iff]
  constructor
  · rintro ⟨fuel, ret, hret, hagrees⟩
    obtain ⟨k, turns, hk, -, hdecides, -⟩ := (strcmpNocase_eq_ok_iff _).mp hret
    cases hdecides with
    | ends hleft hright => exact Or.inr ⟨hagrees.mp rfl, by omega⟩
    | apart hleft hright hfar => exact Or.inl ⟨k, hk, hleft, hright, hfar⟩
  · rintro (⟨bound, hlt, hbound⟩ | ⟨hlower, hlt⟩)
    · obtain ⟨k, hle, hall, hend | hapart⟩ := exists_first char (Or.inr hbound)
      · have hleft := hbound.left
        have hright := hbound.right
        exact absurd ⟨by omega, by omega⟩ hbound.notEnd
      · refine ⟨k + 1, _, (strcmpNocase_eq_ok_iff _).mpr
          ⟨k, k + 1, by omega, hall, .apart hapart.left hapart.right hapart.far, le_rfl⟩, ?_⟩
        constructor
        · intro hzero
          exact absurd hzero hapart.value_ne
        · intro hlower
          exact absurd (close_of_toLower (char_toLower hlower k)) hapart.far
    · have hlength : s1.chars.length = s2.chars.length := by
        have hmaps := congrArg List.length hlower
        rwa [List.length_map, List.length_map] at hmaps
      obtain ⟨k, hle, hall, hend | hapart⟩ := exists_first char (Or.inl ⟨rfl, hlength⟩)
      · refine ⟨k, 0, (strcmpNocase_eq_ok_iff _).mpr
          ⟨k, k, by omega, hall, .ends hend.1 hend.2, le_rfl⟩, ?_⟩
        exact ⟨fun _ => hlower, fun _ => rfl⟩
      · exact absurd (close_of_toLower (char_toLower hlower k)) hapart.far

/-- The sign @ and the grave accent differ by 32 and are no letters. -/
theorem strcmpNocase_at_grave :
    strcmpNocase .signed 1 (ascii "@" ++ [0]) [96, 0] = .ok 0
      ∧ ¬AgreesWithLower .signed ⟨ascii "@", by decide⟩ ⟨[96], by decide⟩ := by
  refine ⟨rfl, ?_⟩
  rintro ⟨fuel, ret, hret, hagrees⟩
  obtain ⟨k, turns, -, -, hdecides, -⟩ := (strcmpNocase_eq_ok_iff _).mp hret
  cases hdecides with
  | ends _ _ => cases hagrees.mp rfl
  | apart hleft _ hfar =>
    have hle : k ≤ 1 := hleft
    rcases Nat.le_one_iff_eq_zero_or_eq_one.mp hle with rfl | rfl
    · exact hfar (by decide)
    · exact hfar (by decide)

end Walk

end Gittest
