import Gittest.Lib.Outcome
import Gittest.Utils
import Mathlib.Data.List.Basic

/-!
# Decimal numbers

`isdigitstr` takes a sign that nothing follows for a number. It counts with an `unsigned int`, so that
after 2^32 digits it begins again at the first character.
-/

namespace Gittest

open Outcome

def IsSign (c : UInt8) : Prop := c = 43 ∨ c = 45

instance (c : UInt8) : Decidable (IsSign c) := inferInstanceAs (Decidable (c = 43 ∨ c = 45))

/-- A sign or none, and at least one digit. -/
def DecimalNumber (text : Text) : Prop :=
  ∃ sign digits, text = sign ++ digits ∧ (sign = [] ∨ ∃ c, IsSign c ∧ sign = [c]) ∧ digits ≠ [] ∧
    ∀ c ∈ digits, isDigit c

theorem not_isDigit_of_isSign {c : UInt8} (hc : IsSign c) : ¬isDigit c := by
  rcases hc with rfl | rfl
  · decide
  · decide

theorem decimalNumber_nil : ¬DecimalNumber [] := by
  rintro ⟨sign, digits, htext, -, hne, -⟩
  exact hne (List.append_eq_nil_iff.mp htext.symm).2

theorem decimalNumber_cons {c : UInt8} {rest : Text} :
    DecimalNumber (c :: rest)
      ↔ (isDigit c ∨ IsSign c ∧ rest ≠ []) ∧ ∀ d ∈ rest, isDigit d := by
  constructor
  · rintro ⟨sign, digits, htext, rfl | ⟨c', hsign, rfl⟩, hne, hdigits⟩
    · rw [List.nil_append] at htext
      subst htext
      obtain ⟨hc, hrest⟩ := List.forall_mem_cons.mp hdigits
      exact ⟨Or.inl hc, hrest⟩
    · obtain ⟨rfl, rfl⟩ := List.cons.inj htext
      exact ⟨Or.inr ⟨hsign, hne⟩, hdigits⟩
  · rintro ⟨hdigit | ⟨hsign, hne⟩, hrest⟩
    · exact ⟨[], c :: rest, rfl, Or.inl rfl, List.cons_ne_nil c rest,
        List.forall_mem_cons.mpr ⟨hdigit, hrest⟩⟩
    · exact ⟨[c], rest, rfl, Or.inr ⟨c, hsign, rfl⟩, hne, hrest⟩

theorem decimalNumber_sign {c : UInt8} (hc : IsSign c) : ¬DecimalNumber [c] := by
  rw [decimalNumber_cons]
  rintro ⟨hdigit | ⟨-, hne⟩, -⟩
  · exact not_isDigit_of_isSign hc hdigit
  · exact hne rfl

/-! ### The loop -/

section Loop

variable {s : CString} {i : UInt32} {c : UInt8}

theorem isdigitstrLoop_beyond (fuel : Nat) (hi : s.chars.length ≤ i.toNat) :
    isdigitstrLoop s.array fuel i = .ok 1 := by
  unfold isdigitstrLoop
  rw [s.strlen_array, ok_bind, if_neg (Nat.not_lt.mpr hi)]
  rfl

theorem CString.readChar_array {k : Nat} (hget : s.chars[k]? = some c) :
    readChar s.array k = .ok c := by
  apply readChar_eq
  rw [CString.array, List.getElem?_append_left (List.getElem?_eq_some_iff.mp hget).1, hget]

theorem isdigitstrLoop_foreign (fuel : Nat) (hget : s.chars[i.toNat]? = some c)
    (hc : ¬isDigit c) : isdigitstrLoop s.array fuel i = .ok 0 := by
  have hlt := (List.getElem?_eq_some_iff.mp hget).1
  unfold isdigitstrLoop
  rw [s.strlen_array, ok_bind, if_pos hlt, CString.readChar_array hget, ok_bind, if_neg hc]
  rfl

theorem isdigitstrLoop_zero (hget : s.chars[i.toNat]? = some c) (hc : isDigit c) :
    isdigitstrLoop s.array 0 i = .error .diverges := by
  have hlt := (List.getElem?_eq_some_iff.mp hget).1
  unfold isdigitstrLoop
  rw [s.strlen_array, ok_bind, if_pos hlt, CString.readChar_array hget, ok_bind, if_pos hc]

theorem isdigitstrLoop_succ (fuel : Nat) (hget : s.chars[i.toNat]? = some c) (hc : isDigit c) :
    isdigitstrLoop s.array (fuel + 1) i = isdigitstrLoop s.array fuel (i + 1) := by
  have hlt := (List.getElem?_eq_some_iff.mp hget).1
  conv_lhs => unfold isdigitstrLoop
  rw [s.strlen_array, ok_bind, if_pos hlt, CString.readChar_array hget, ok_bind, if_pos hc]

/-- The loop passes over digits. Behind the last position that the index counts it is at 0. -/
theorem isdigitstrLoop_digits {front digits back : Text} (fuel : Nat)
    (hchars : s.chars = front ++ digits ++ back) (hdigits : ∀ d ∈ digits, isDigit d)
    (hfits : front.length + digits.length ≤ 2 ^ 32) :
    isdigitstrLoop s.array (digits.length + fuel) (UInt32.ofNat front.length)
      = isdigitstrLoop s.array fuel (UInt32.ofNat (front.length + digits.length)) := by
  induction digits generalizing front with
  | nil => rw [List.length_nil, Nat.zero_add, Nat.add_zero]
  | cons d digits ih =>
    rw [List.length_cons] at hfits
    obtain ⟨hd, hdigits'⟩ := List.forall_mem_cons.mp hdigits
    have hindex : (UInt32.ofNat front.length).toNat = front.length :=
      UInt32.toNat_ofNat_of_lt' (show _ < 2 ^ 32 by omega)
    have hget : s.chars[(UInt32.ofNat front.length).toNat]? = some d := by
      rw [hindex, hchars, List.append_assoc, List.getElem?_append_right (Nat.le_refl _), Nat.sub_self]
      rfl
    have hchars' : s.chars = front ++ [d] ++ digits ++ back := by
      rw [hchars, List.append_assoc front [d]]
      rfl
    have hlength : (front ++ [d]).length = front.length + 1 := List.length_append
    have hrest := ih hchars' hdigits' (by rw [hlength]; omega)
    have hsucc : UInt32.ofNat front.length + 1 = UInt32.ofNat (front ++ [d]).length := by
      rw [hlength]
      exact (UInt32.ofNat_add front.length 1).symm
    have hfuel : (d :: digits).length + fuel = digits.length + fuel + 1 := by
      rw [List.length_cons]
      omega
    have hend : front.length + (d :: digits).length = (front ++ [d]).length + digits.length := by
      rw [hlength, List.length_cons]
      omega
    rw [hfuel, isdigitstrLoop_succ _ hget hd, hsucc, hrest, hend]

/-- The index is always within a string that is as long as that. -/
theorem exists_char (hlong : 2 ^ 32 ≤ s.chars.length) (i : UInt32) :
    ∃ c, s.chars[i.toNat]? = some c ∧ c ∈ s.chars.take (2 ^ 32) := by
  have hi := i.toNat_lt
  have hlt : i.toNat < s.chars.length := by omega
  refine ⟨s.chars[i.toNat], List.getElem?_eq_getElem hlt, ?_⟩
  exact List.mem_take_iff_getElem.mpr ⟨i.toNat, by omega, rfl⟩

/-- Nothing but digits for as long as the index counts: the loop does not end. -/
theorem isdigitstrLoop_diverges (hlong : 2 ^ 32 ≤ s.chars.length)
    (hdigits : ∀ d ∈ s.chars.take (2 ^ 32), isDigit d) (fuel : Nat) (i : UInt32) :
    isdigitstrLoop s.array fuel i = .error .diverges := by
  induction fuel generalizing i with
  | zero =>
    obtain ⟨d, hget, hmem⟩ := exists_char hlong i
    exact isdigitstrLoop_zero hget (hdigits d hmem)
  | succ fuel ih =>
    obtain ⟨d, hget, hmem⟩ := exists_char hlong i
    rw [isdigitstrLoop_succ fuel hget (hdigits d hmem)]
    exact ih (i + 1)

theorem isdigitstrLoop_ne_one (hlong : 2 ^ 32 ≤ s.chars.length) (fuel : Nat) (i : UInt32) :
    isdigitstrLoop s.array fuel i ≠ .ok 1 := by
  induction fuel generalizing i with
  | zero =>
    obtain ⟨d, hget, -⟩ := exists_char hlong i
    by_cases hd : isDigit d
    · simp [isdigitstrLoop_zero hget hd]
    · simp [isdigitstrLoop_foreign 0 hget hd]
  | succ fuel ih =>
    obtain ⟨d, hget, -⟩ := exists_char hlong i
    by_cases hd : isDigit d
    · rw [isdigitstrLoop_succ fuel hget hd]
      exact ih (i + 1)
    · simp [isdigitstrLoop_foreign (fuel + 1) hget hd]

end Loop

/-! ### The function -/

/-- The call returns, 1 for the decimal numbers and 0 for anything else. -/
def AcceptsNumbers (s : CString) : Prop :=
  ∃ fuel ret, isdigitstr fuel s.array = .ok ret ∧ (DecimalNumber s.chars → ret = 1) ∧
    (¬DecimalNumber s.chars → ret = 0)

/-- There is something to tell by: the string is short and no lone sign, or begins with neither a digit nor
a sign, or has another character where the index comes to before it is 0 again; or it begins with a sign
and has another character behind that. -/
def Decided : Text → Prop
  | [] => True
  | c :: rest => rest.length + 1 < 2 ^ 32 ∧ ¬(IsSign c ∧ rest = []) ∨ ¬(isDigit c ∨ IsSign c) ∨
      (∃ d ∈ rest.take (2 ^ 32 - 1), ¬isDigit d) ∨ IsSign c ∧ ∃ d ∈ rest, ¬isDigit d

section Call

variable {s : CString} {c : UInt8} {rest : Text}

theorem isdigitstr_cons (hchars : s.chars = c :: rest) (fuel : Nat) :
    isdigitstr fuel s.array
      = if isDigit c ∨ IsSign c then isdigitstrLoop s.array fuel 1 else .ok 0 := by
  have hread : readChar s.array 0 = .ok c := CString.readChar_array (by rw [hchars]; rfl)
  unfold isdigitstr
  rw [hread, ok_bind]
  by_cases hstart : isDigit c ∨ IsSign c
  · rw [if_pos hstart, if_neg]
    rintro ⟨hdigit, hminus, hplus⟩
    exact hstart.elim hdigit (not_or.mpr ⟨hplus, hminus⟩)
  · obtain ⟨hdigit, hsign⟩ := not_or.mp hstart
    obtain ⟨hplus, hminus⟩ := not_or.mp hsign
    rw [if_neg hstart, if_pos ⟨hdigit, hminus, hplus⟩]
    rfl

/-- Behind the first character the loop passes over digits. -/
theorem isdigitstr_digits (hchars : s.chars = c :: rest) (hstart : isDigit c ∨ IsSign c)
    {digits back : Text} (hrest : rest = digits ++ back) (hdigits : ∀ d ∈ digits, isDigit d)
    (hfits : digits.length + 1 ≤ 2 ^ 32) (fuel : Nat) :
    isdigitstr (digits.length + fuel) s.array
      = isdigitstrLoop s.array fuel (UInt32.ofNat (digits.length + 1)) := by
  have hsplit : s.chars = [c] ++ digits ++ back := by
    rw [hchars, hrest]
    rfl
  have hpassed := isdigitstrLoop_digits fuel hsplit hdigits
    (by rw [List.length_singleton, Nat.add_comm]; exact hfits)
  rw [List.length_singleton, Nat.add_comm 1] at hpassed
  rw [isdigitstr_cons hchars, if_pos hstart]
  exact hpassed

/-- Another character among those that the index comes to. -/
theorem isdigitstr_foreign (hchars : s.chars = c :: rest) (hstart : isDigit c ∨ IsSign c)
    {d : UInt8} (hmem : d ∈ rest.take (2 ^ 32 - 1)) (hd : ¬isDigit d) :
    ∃ fuel, isdigitstr fuel s.array = .ok 0 := by
  have hsome : ((rest.take (2 ^ 32 - 1)).find? fun e => !isDigit e).isSome := by
    rw [List.find?_isSome]
    exact ⟨d, hmem, by simp [hd]⟩
  obtain ⟨e, hfind⟩ := Option.isSome_iff_exists.mp hsome
  obtain ⟨hbad, digits, back, hsplit, hgood⟩ := List.find?_eq_some_iff_append.mp hfind
  have hlt : digits.length < 2 ^ 32 - 1 := by
    have hle := List.length_take_le (2 ^ 32 - 1) rest
    rw [hsplit, List.length_append, List.length_cons] at hle
    omega
  have hrest : rest = digits ++ (e :: back ++ rest.drop (2 ^ 32 - 1)) := by
    rw [← List.append_assoc, ← hsplit, List.take_append_drop]
  have hdigits : ∀ a ∈ digits, isDigit a := fun a ha => by simpa using hgood a ha
  have hindex : (UInt32.ofNat (digits.length + 1)).toNat = digits.length + 1 :=
    UInt32.toNat_ofNat_of_lt' (show _ < 2 ^ 32 by omega)
  have hget : s.chars[(UInt32.ofNat (digits.length + 1)).toNat]? = some e := by
    rw [hindex, hchars, List.getElem?_cons_succ, hrest,
      List.getElem?_append_right (Nat.le_refl _), Nat.sub_self]
    rfl
  refine ⟨digits.length + 0, ?_⟩
  rw [isdigitstr_digits hchars hstart hrest hdigits (by omega)]
  exact isdigitstrLoop_foreign 0 hget (by simpa using hbad)

/-- Digits to the end. -/
theorem isdigitstr_short (hchars : s.chars = c :: rest) (hstart : isDigit c ∨ IsSign c)
    (hrest : ∀ d ∈ rest, isDigit d) (hlt : rest.length + 1 < 2 ^ 32) :
    ∃ fuel, isdigitstr fuel s.array = .ok 1 := by
  refine ⟨rest.length + 0, ?_⟩
  rw [isdigitstr_digits hchars hstart (List.append_nil rest).symm hrest (by omega)]
  apply isdigitstrLoop_beyond
  rw [hchars, UInt32.toNat_ofNat_of_lt' (show _ < 2 ^ 32 from hlt)]
  exact Nat.le_refl _

/-- Digits until the index is 0 again. -/
theorem isdigitstr_wraps (hchars : s.chars = c :: rest) (hsign : IsSign c)
    (hrest : ∀ d ∈ rest.take (2 ^ 32 - 1), isDigit d) (hlong : 2 ^ 32 ≤ rest.length + 1) :
    ∃ fuel, isdigitstr fuel s.array = .ok 0 := by
  have hlength : (rest.take (2 ^ 32 - 1)).length = 2 ^ 32 - 1 := by
    rw [List.length_take]
    omega
  refine ⟨(rest.take (2 ^ 32 - 1)).length + 0, ?_⟩
  rw [isdigitstr_digits hchars (Or.inr hsign) (List.take_append_drop _ rest).symm hrest (by omega),
    hlength]
  apply isdigitstrLoop_foreign (c := c) 0
  · rw [hchars]
    rfl
  · exact not_isDigit_of_isSign hsign

theorem accepts_of_zero (hreturn : ∃ fuel, isdigitstr fuel s.array = .ok 0)
    (hnot : ¬DecimalNumber s.chars) : AcceptsNumbers s := by
  obtain ⟨fuel, hreturn⟩ := hreturn
  exact ⟨fuel, 0, hreturn, fun hnumber => absurd hnumber hnot, fun _ => rfl⟩

theorem accepts_of_one (hreturn : ∃ fuel, isdigitstr fuel s.array = .ok 1)
    (hnumber : DecimalNumber s.chars) : AcceptsNumbers s := by
  obtain ⟨fuel, hreturn⟩ := hreturn
  exact ⟨fuel, 1, hreturn, fun _ => rfl, fun hnot => absurd hnumber hnot⟩

/-- A lone sign passes. -/
theorem isdigitstr_sign (hchars : s.chars = [c]) (hsign : IsSign c) (fuel : Nat) :
    isdigitstr fuel s.array = .ok 1 := by
  rw [isdigitstr_cons hchars, if_pos (Or.inr hsign)]
  apply isdigitstrLoop_beyond
  rw [hchars]
  exact Nat.le_refl 1

theorem not_accepts_sign (hchars : s.chars = [c]) (hsign : IsSign c) : ¬AcceptsNumbers s := by
  rintro ⟨fuel, ret, hreturn, -, hzero⟩
  rw [isdigitstr_sign hchars hsign, hzero (by rw [hchars]; exact decimalNumber_sign hsign)] at hreturn
  cases hreturn

/-- Digits for as long as the index counts, behind a digit or a sign. -/
theorem accepts_long_iff (hchars : s.chars = c :: rest) (hstart : isDigit c ∨ IsSign c)
    (hdigits : ∀ d ∈ rest.take (2 ^ 32 - 1), isDigit d) (hlong : 2 ^ 32 ≤ rest.length + 1) :
    AcceptsNumbers s ↔ IsSign c ∧ ∃ d ∈ rest, ¬isDigit d := by
  have hlong' : 2 ^ 32 ≤ s.chars.length := by
    rw [hchars]
    exact hlong
  constructor
  · rintro ⟨fuel, ret, hreturn, hone, -⟩
    rw [isdigitstr_cons hchars, if_pos hstart] at hreturn
    rcases hstart with hdigit | hsign
    · have hall : ∀ d ∈ s.chars.take (2 ^ 32), isDigit d := by
        rw [hchars]
        exact List.forall_mem_cons.mpr ⟨hdigit, hdigits⟩
      rw [isdigitstrLoop_diverges hlong' hall] at hreturn
      cases hreturn
    · refine ⟨hsign, ?_⟩
      by_contra hnone
      push Not at hnone
      have hne : rest ≠ [] := by
        rintro rfl
        exact absurd hlong (by decide)
      have hnumber : DecimalNumber s.chars := by
        rw [hchars, decimalNumber_cons]
        exact ⟨Or.inr ⟨hsign, hne⟩, hnone⟩
      rw [hone hnumber] at hreturn
      exact isdigitstrLoop_ne_one hlong' fuel 1 hreturn
  · rintro ⟨hsign, d, hmem, hd⟩
    apply accepts_of_zero (isdigitstr_wraps hchars hsign hdigits hlong)
    rw [hchars, decimalNumber_cons]
    exact fun hnumber => hd (hnumber.2 d hmem)

end Call

/-- What `isdigitstr` says is true of a string if and only if it has something to tell by. -/
theorem isdigitstr_accepts_iff (s : CString) : AcceptsNumbers s ↔ Decided s.chars := by
  cases hchars : s.chars with
  | nil =>
    have hreturn : isdigitstr 0 s.array = .ok 0 := by
      rw [CString.array, hchars]
      rfl
    refine iff_of_true ⟨0, 0, hreturn, fun hnumber => ?_, fun _ => rfl⟩ trivial
    rw [hchars] at hnumber
    exact absurd hnumber decimalNumber_nil
  | cons c rest =>
    by_cases hstart : isDigit c ∨ IsSign c
    case neg =>
      refine iff_of_true (accepts_of_zero ⟨0, ?_⟩ ?_) (Or.inr (Or.inl hstart))
      · rw [isdigitstr_cons hchars, if_neg hstart]
      · rw [hchars, decimalNumber_cons]
        exact fun hnumber => hstart (hnumber.1.imp_right And.left)
    by_cases hforeign : ∃ d ∈ rest.take (2 ^ 32 - 1), ¬isDigit d
    case pos =>
      refine iff_of_true ?_ (Or.inr (Or.inr (Or.inl hforeign)))
      obtain ⟨d, hmem, hd⟩ := hforeign
      apply accepts_of_zero (isdigitstr_foreign hchars hstart hmem hd)
      rw [hchars, decimalNumber_cons]
      exact fun hnumber => hd (hnumber.2 d (List.mem_of_mem_take hmem))
    have hdigits : ∀ d ∈ rest.take (2 ^ 32 - 1), isDigit d := by
      push Not at hforeign
      exact hforeign
    by_cases hlt : rest.length + 1 < 2 ^ 32
    case neg =>
      rw [accepts_long_iff hchars hstart hdigits (Nat.not_lt.mp hlt)]
      simp only [Decided, hlt, hstart, hforeign, false_and, not_true_eq_false, false_or]
    have hall : ∀ d ∈ rest, isDigit d := by
      rwa [List.take_of_length_le (by omega)] at hdigits
    have hnone : ¬∃ d ∈ rest, ¬isDigit d := by
      rintro ⟨d, hmem, hd⟩
      exact hd (hall d hmem)
    by_cases hlone : IsSign c ∧ rest = []
    · refine iff_of_false ?_ ?_
      · obtain ⟨hsign, rfl⟩ := hlone
        exact not_accepts_sign hchars hsign
      · rintro (⟨-, hnot⟩ | hnot | hfar | ⟨-, hfar⟩)
        · exact hnot hlone
        · exact hnot hstart
        · exact hforeign hfar
        · exact hnone hfar
    · refine iff_of_true (accepts_of_one (isdigitstr_short hchars hstart hall hlt) ?_)
        (Or.inl ⟨hlt, hlone⟩)
      rw [hchars, decimalNumber_cons]
      refine ⟨hstart.imp_right fun hsign => ⟨hsign, fun hempty => hlone ⟨hsign, hempty⟩⟩, hall⟩

/-- The string "+" is no number. -/
theorem isdigitstr_takes_sign :
    isdigitstr 0 (ascii "+" ++ [0]) = .ok 1 ∧ ¬DecimalNumber (ascii "+") ∧
      ¬AcceptsNumbers ⟨ascii "+", by decide⟩ :=
  ⟨rfl, decimalNumber_sign (Or.inl rfl), not_accepts_sign rfl (Or.inl rfl)⟩

end Gittest
