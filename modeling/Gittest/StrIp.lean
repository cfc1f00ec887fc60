import Gittest.Lib.Outcome
import Gittest.Utils

/-!
# Dotted quads

`is_str_ip` collects the groups between the dots in a table of four rows and then looks at each row.
The table is that of the groups that splitting at the dots gives, for as long as there are no more
than four of them and none is too long.
-/

namespace Gittest

open Outcome

/-- The number that a string of digits is. -/
def decimal (digits : Text) : Nat := digits.foldl (fun value c => 10 * value + (c.toNat - 48)) 0

structure Octet (group : Text) : Prop where
  digits : ∀ c ∈ group, isDigit c
  length : 1 ≤ group.length ∧ group.length ≤ 3
  value : decimal group ≤ 255

/-- Four numbers up to 255, of one to three digits each, and a dot between every two. -/
def DottedQuad (s : Text) : Prop :=
  ∃ groups : List Text, groups.length = 4 ∧ (∀ group ∈ groups, Octet group)
    ∧ s = List.intercalate [46] groups

instance (group : Text) : Decidable (Octet group) :=
  decidable_of_iff
    (group.all isDigit ∧ (1 ≤ group.length ∧ group.length ≤ 3) ∧ decimal group ≤ 255)
    ⟨fun h => ⟨List.all_eq_true.mp h.1, h.2.1, h.2.2⟩,
      fun h => ⟨List.all_eq_true.mpr h.digits, h.length, h.value⟩⟩

/-- What the first loop lets pass, the empty group included. -/
def Group (group : Text) : Prop := (∀ c ∈ group, isDigit c) ∧ group.length ≤ 3

instance (group : Text) : Decidable (Group group) :=
  decidable_of_iff (group.all isDigit ∧ group.length ≤ 3)
    ⟨fun h => ⟨List.all_eq_true.mp h.1, h.2⟩, fun h => ⟨List.all_eq_true.mpr h.1, h.2⟩⟩

theorem group_nil : Group [] := by
  constructor
  · intro c hc
    cases hc
  · exact Nat.zero_le 3

/-! ### The table -/

/-- A row of `ip_tmp`, which is zero behind the digits. -/
def row (group : Text) : Text := group ++ List.replicate (5 - group.length) 0

def table (groups : List Text) : List Text :=
  groups.map row ++ List.replicate (4 - groups.length) (row [])

section Table

variable {done : List Text} {cur : Text}

/-- A row and the one with a character more. -/
theorem row_eq (hcur : cur.length ≤ 3) : ∃ n, row cur = cur ++ 0 :: List.replicate n 0
    ∧ ∀ c, row (cur ++ [c]) = cur ++ c :: List.replicate n 0 := by
  have hrest : 5 - cur.length = 4 - cur.length + 1 := by omega
  refine ⟨4 - cur.length, ?_, fun c => ?_⟩
  · rw [row, hrest, List.replicate_succ]
  · rw [row, List.length_append, List.length_singleton, Nat.sub_add_eq, hrest, List.append_assoc]
    rfl

theorem row_set (hcur : cur.length ≤ 3) (c : UInt8) :
    (row cur).set cur.length c = row (cur ++ [c]) := by
  obtain ⟨n, hrow, hsnoc⟩ := row_eq hcur
  rw [hrow, hsnoc, List.set_append_right _ _ (Nat.le_refl _), Nat.sub_self, List.set_cons_zero]

theorem row_length (hcur : cur.length ≤ 3) : (row cur).length = 5 := by
  unfold row
  rw [List.length_append, List.length_replicate]
  omega

theorem row_append_nul (hcur : cur.length ≤ 3) : row (cur ++ [0]) = row cur := by
  obtain ⟨n, hrow, hsnoc⟩ := row_eq hcur
  rw [hrow, hsnoc]

theorem table_append (done : List Text) (cur : Text) :
    table (done ++ [cur])
      = done.map row ++ row cur :: List.replicate (3 - done.length) (row []) := by
  unfold table
  have hrows : 4 - (done ++ [cur]).length = 3 - done.length := by
    rw [List.length_append, List.length_singleton]
    omega
  rw [hrows, List.map_append, List.append_assoc]
  rfl

/-- A group that is not begun is in the table already. -/
theorem table_append_nil (hroom : done.length < 4) : table (done ++ [[]]) = table done := by
  have hrows : 4 - done.length = 3 - done.length + 1 := by omega
  rw [table_append, table, hrows, List.replicate_succ]

theorem writeGroup_table (hcur : cur.length ≤ 3) (c : UInt8) :
    writeGroup (table (done ++ [cur])) done.length cur.length c
      = .ok (table (done ++ [cur ++ [c]])) := by
  have hget : (table (done ++ [cur]))[done.length]? = some (row cur) := by
    rw [table_append, List.getElem?_append_right (Nat.le_of_eq (List.length_map _)), List.length_map,
      Nat.sub_self, List.getElem?_cons_zero]
  unfold writeGroup
  rw [hget]
  change (if cur.length < (row cur).length then _ else _) = _
  rw [if_pos (by rw [row_length hcur]; omega), row_set hcur, table_append, table_append]
  congr 1
  rw [List.set_append_right _ _ (Nat.le_of_eq (List.length_map _)), List.length_map, Nat.sub_self,
    List.set_cons_zero]

end Table

/-! ### The first loop -/

section Scan

variable {done : List Text} {cur rest : Text}

/-- The first of the groups of a text that begins with `cur` begins with `cur`. -/
theorem exists_splitOn (hcur : 46 ∉ cur) (rest : Text) :
    ∃ more tail, (cur ++ rest).splitOn 46 = (cur ++ more) :: tail := by
  induction rest generalizing cur with
  | nil =>
    refine ⟨[], [], ?_⟩
    rw [List.append_nil, List.splitOn_eq_singleton hcur]
  | cons c rest ih =>
    by_cases hdot : c = 46
    · refine ⟨[], rest.splitOn 46, ?_⟩
      rw [hdot, List.splitOn_append_cons_self_of_not_mem hcur, List.append_nil]
    · have hcur' : 46 ∉ cur ++ [c] := by
        rw [List.mem_append, List.mem_singleton, not_or]
        exact ⟨hcur, Ne.symm hdot⟩
      obtain ⟨more, tail, hsplit⟩ := ih hcur'
      refine ⟨c :: more, tail, ?_⟩
      rw [List.append_assoc, List.append_assoc] at hsplit
      exact hsplit

theorem Group.dot_not_mem (hcur : Group cur) : 46 ∉ cur := by
  intro hmem
  exact absurd (hcur.1 46 hmem) (by decide)

/-- The groups that the first loop lets through. -/
def Passes (groups : List Text) : Prop := groups.length ≤ 4 ∧ ∀ group ∈ groups, Group group

instance (groups : List Text) : Decidable (Passes groups) :=
  inferInstanceAs (Decidable (groups.length ≤ 4 ∧ ∀ group ∈ groups, Group group))

/-- A group that has gone wrong spoils the text, whatever comes behind it. -/
theorem not_passes_splitOn (done : List Text) (hdot : 46 ∉ cur)
    (hbad : ∀ more, ¬Group (cur ++ more)) (rest : Text) :
    ¬Passes (done ++ (cur ++ rest).splitOn 46) := by
  obtain ⟨more, tail, hsplit⟩ := exists_splitOn hdot rest
  rintro ⟨-, hgroups⟩
  rw [hsplit] at hgroups
  exact hbad more (hgroups _ (List.mem_append_right done List.mem_cons_self))

theorem forall_group_append (hdone : ∀ group ∈ done, Group group) (hcur : Group cur) :
    ∀ group ∈ done ++ [cur], Group group := by
  intro group hgroup
  rcases List.mem_append.mp hgroup with hmem | hmem
  · exact hdone group hmem
  · rw [List.mem_singleton.mp hmem]
    exact hcur

theorem Group.append (hcur : Group cur) {c : UInt8} (hc : isDigit c) (hroom : cur.length < 3) :
    Group (cur ++ [c]) := by
  constructor
  · intro d hd
    rcases List.mem_append.mp hd with hmem | hmem
    · exact hcur.1 d hmem
    · rw [List.mem_singleton.mp hmem]
      exact hc
  · rw [List.length_append, List.length_singleton]
    omega

/-- From `cur` on, with the groups of `done` behind it, the loop leaves the table of all groups. -/
theorem isStrIpScan_eq (done : List Text) (cur : Text) (i : Int) (hnul : 0 ∉ rest)
    (hdone : ∀ group ∈ done, Group group) (hcur : Group cur) (hroom : done.length < 4)
    (hi : 0 ≤ i ∧ i ≤ 4 * done.length + cur.length) :
    isStrIpScan (rest ++ [0]) i cur.length done.length (table (done ++ [cur]))
      = .ok (if Passes (done ++ (cur ++ rest).splitOn 46) then
          some (table (done ++ (cur ++ rest).splitOn 46)) else none) := by
  induction rest generalizing done cur i with
  | nil =>
    have hpasses : Passes (done ++ [cur]) := by
      refine ⟨?_, forall_group_append hdone hcur⟩
      rw [List.length_append, List.length_singleton]
      omega
    rw [List.append_nil, List.splitOn_eq_singleton hcur.dot_not_mem, if_pos hpasses]
    rfl
  | cons c rest ih =>
    obtain ⟨hc, hnul'⟩ := not_or.mp (mt List.mem_cons.mpr hnul)
    have hlen := hcur.2
    have hnext : addInt i 1 = .ok (i + 1) := if_pos (by simp only [intMin, intMax]; omega)
    rw [List.cons_append, isStrIpScan, if_neg (Ne.symm hc)]
    by_cases hdot : c = 46
    · subst hdot
      have hgroups : (cur ++ 46 :: rest).splitOn 46 = cur :: rest.splitOn 46 :=
        List.splitOn_append_cons_self_of_not_mem hcur.dot_not_mem rest
      have hrow : table (done ++ [cur ++ [0]]) = table (done ++ [cur]) := by
        rw [table_append, table_append, row_append_nul hlen]
      rw [if_pos rfl, writeGroup_table hlen, hgroups]
      change (if done.length + 1 ≥ 4 then _ else _) = _
      by_cases hfull : done.length + 1 ≥ 4
      · have hmany : ¬Passes (done ++ cur :: rest.splitOn 46) := by
          rintro ⟨hcount, -⟩
          obtain ⟨first, others, hrest⟩ := List.exists_cons_of_ne_nil (List.splitOn_ne_nil 46 rest)
          rw [hrest, List.length_append, List.length_cons, List.length_cons] at hcount
          omega
        rw [if_pos hfull, if_neg hmany]
        rfl
      · have hlength : (done ++ [cur]).length = done.length + 1 := List.length_append
        have hstep := ih (done ++ [cur]) [] (i + 1) hnul'
          (forall_group_append hdone hcur) group_nil (by omega)
          (by rw [hlength, List.length_nil]; omega)
        rw [table_append_nil (by omega), hlength, List.append_assoc, List.nil_append] at hstep
        rw [if_neg hfull, hnext, hrow]
        exact hstep
    have hdot' : 46 ∉ cur ++ [c] := by
      rw [List.mem_append, List.mem_singleton, not_or]
      exact ⟨hcur.dot_not_mem, Ne.symm hdot⟩
    have hsnoc : cur ++ c :: rest = cur ++ [c] ++ rest := by
      rw [List.append_assoc]
      rfl
    have hlength : (cur ++ [c]).length = cur.length + 1 := List.length_append
    rw [if_neg hdot, hsnoc]
    by_cases hdigit : 48 ≤ c ∧ c ≤ 57
    · rw [if_pos hdigit, writeGroup_table hlen]
      change (if cur.length + 1 ≥ 4 then _ else _) = _
      by_cases hfull : cur.length + 1 ≥ 4
      · have hlong : ∀ more, ¬Group (cur ++ [c] ++ more) := by
          rintro more ⟨-, hthree⟩
          rw [List.length_append] at hthree
          omega
        rw [if_pos hfull, if_neg (not_passes_splitOn done hdot' hlong rest)]
        rfl
      · have hcur' := hcur.append (isDigit_iff.mpr hdigit) (by omega)
        have hstep := ih done (cur ++ [c]) (i + 1) hnul' hdone hcur' hroom
          (by omega)
        rw [hlength] at hstep
        rw [if_neg hfull, hnext]
        exact hstep
    · have hforeign : ∀ more, ¬Group (cur ++ [c] ++ more) := by
        rintro more ⟨hdigits, -⟩
        exact hdigit (isDigit_iff.mp (hdigits c (by simp)))
      rw [if_neg hdigit, if_neg (not_passes_splitOn done hdot' hforeign rest)]
      rfl

end Scan

/-! ### The second loop -/

section Check

variable {group : Text}

theorem decimal_lt_aux (hdigits : ∀ c ∈ group, isDigit c) (value : Nat) :
    group.foldl (fun value c => 10 * value + (c.toNat - 48)) value
      < (value + 1) * 10 ^ group.length := by
  induction group generalizing value with
  | nil => simp
  | cons c rest ih =>
    have hc : c.toNat - 48 ≤ 9 := by
      have hle : c.toNat ≤ 57 := (isDigit_iff.mp (hdigits c List.mem_cons_self)).2
      omega
    calc rest.foldl _ (10 * value + (c.toNat - 48))
        < (10 * value + (c.toNat - 48) + 1) * 10 ^ rest.length :=
          ih (fun d hd => hdigits d (List.mem_cons_of_mem c hd)) _
      _ ≤ (value + 1) * 10 * 10 ^ rest.length := Nat.mul_le_mul_right _ (by omega)
      _ = (value + 1) * 10 ^ (c :: rest).length := by
          rw [List.length_cons, Nat.pow_succ, Nat.mul_assoc, Nat.mul_comm 10]

theorem Group.decimal_lt (hgroup : Group group) : decimal group < 1000 :=
  calc decimal group < (0 + 1) * 10 ^ group.length := decimal_lt_aux hgroup.1 0
    _ ≤ (0 + 1) * 10 ^ 3 := Nat.mul_le_mul_left _ (Nat.pow_le_pow_right (by decide) hgroup.2)

theorem atoiDigits_append (hdigits : ∀ c ∈ group, isDigit c) (rest : Text) (value : Nat) :
    atoiDigits (group ++ 0 :: rest) value
      = .ok (group.foldl (fun value c => 10 * value + (c.toNat - 48)) value : Nat) := by
  induction group generalizing value with
  | nil => rfl
  | cons c tail ih =>
    have hc := hdigits c List.mem_cons_self
    have hle : 48 ≤ c.toNat := (isDigit_iff.mp hc).1
    have hcast : (10 * (value : Int) + ((c.toNat : Int) - 48))
        = ((10 * value + (c.toNat - 48) : Nat) : Int) := by omega
    rw [List.cons_append, atoiDigits, if_pos hc, hcast]
    exact ih (fun d hd => hdigits d (List.mem_cons_of_mem c hd)) _

theorem atoi_row (hgroup : Group group) (hne : group ≠ []) :
    atoi (row group) = .ok (decimal group) := by
  obtain ⟨c, rest, rfl⟩ := List.exists_cons_of_ne_nil hne
  have hc := isDigit_iff.mp (hgroup.1 c List.mem_cons_self)
  obtain ⟨k, hrow, -⟩ := row_eq hgroup.2
  have hspace := not_isSpace_of_isDigit (isDigit_iff.mpr hc)
  have hminus : c ≠ 45 := by
    rintro rfl
    exact absurd hc.1 (by decide)
  have hplus : c ≠ 43 := by
    rintro rfl
    exact absurd hc.1 (by decide)
  have hvalue := atoiDigits_append hgroup.1 (List.replicate k 0) 0
  have hlt := hgroup.decimal_lt
  have hint : addInt (decimal (c :: rest)) 0 = .ok (decimal (c :: rest)) := by
    rw [addInt, if_pos (by simp only [intMin, intMax]; omega), add_zero]
  unfold atoi
  rw [hrow, List.cons_append, List.dropWhile_cons_of_neg (by rw [hspace]; decide), atoiSigned,
    if_neg hminus, if_neg hplus]
  change (atoiDigits (c :: rest ++ 0 :: List.replicate k 0) (0 : Nat) >>= fun value => addInt value 0)
    = _
  rw [hvalue]
  exact hint

/-- A row passes if its group is a number that fits, and the rows behind it pass. -/
theorem isStrIpCheck_eq {groups : List Text} (hgroups : ∀ group ∈ groups, Group group) (i : Nat)
    (ipValue : UInt32) :
    isStrIpCheck i (groups.map row) ipValue
      = .ok (if ∀ group ∈ groups, Octet group then 0 else -1) := by
  induction groups generalizing i ipValue with
  | nil => rfl
  | cons group rest ih =>
    have hgroup := hgroups group List.mem_cons_self
    have hrest := ih fun g hg => hgroups g (List.mem_cons_of_mem group hg)
    have hall : (∀ g ∈ group :: rest, Octet g) ↔ Octet group ∧ ∀ g ∈ rest, Octet g :=
      List.forall_mem_cons
    rw [List.map_cons, isStrIpCheck]
    by_cases hempty : group = []
    · have hbad : ¬∀ g ∈ group :: rest, Octet g := by
        rw [hall, hempty]
        rintro ⟨⟨-, ⟨hone, -⟩, -⟩, -⟩
        cases hone
      have hnul : readChar (row group) 0 = .ok 0 := by
        rw [hempty]
        rfl
      rw [if_neg hbad, hnul, ok_bind, if_neg (by decide)]
      rfl
    obtain ⟨c, tail, hcons⟩ := List.exists_cons_of_ne_nil hempty
    have hfirst : readChar (row group) 0 = .ok c := by
      rw [hcons]
      rfl
    have hdigit := isDigit_iff.mp (hgroup.1 c (hcons ▸ List.mem_cons_self))
    have hlt := hgroup.decimal_lt
    have hshort : toShort (decimal group) = decimal group := toShort_eq (by omega)
    rw [hfirst, ok_bind, if_pos hdigit, atoi_row hgroup hempty, ok_bind]
    simp only [hshort]
    by_cases hbig : (decimal group : Int) > 255
    · have hbad : ¬∀ g ∈ group :: rest, Octet g := by
        rw [hall]
        rintro ⟨⟨-, -, hvalue⟩, -⟩
        omega
      rw [if_pos (Or.inl hbig), if_neg hbad]
      rfl
    · have hoctet : Octet group := by
        constructor
        case digits => exact hgroup.1
        case length =>
          refine ⟨?_, hgroup.2⟩
          rw [hcons, List.length_cons]
          omega
        case value => omega
      rw [if_neg (by omega)]
      simp only [hall, hoctet, true_and]
      exact hrest _ _

end Check

/-! ### The function -/

theorem Octet.group {group : Text} (hoctet : Octet group) : Group group :=
  ⟨hoctet.digits, hoctet.length.2⟩

theorem dottedQuad_iff {s : Text} :
    DottedQuad s ↔ (s.splitOn 46).length = 4 ∧ ∀ group ∈ s.splitOn 46, Octet group := by
  constructor
  · rintro ⟨groups, hfour, hoctets, rfl⟩
    have hdots : ∀ group ∈ groups, 46 ∉ group :=
      fun group hgroup => (hoctets group hgroup).group.dot_not_mem
    have hne : groups ≠ [] := by
      rintro rfl
      cases hfour
    rw [List.splitOn_intercalate 46 hdots hne]
    exact ⟨hfour, hoctets⟩
  · rintro ⟨hfour, hoctets⟩
    exact ⟨s.splitOn 46, hfour, hoctets, (List.intercalate_splitOn 46).symm⟩

instance (s : Text) : Decidable (DottedQuad s) := decidable_of_iff _ dottedQuad_iff.symm

/-- The rows that no group filled are no octets, so that four groups are needed. -/
theorem table_octets {groups : List Text} (hfour : groups.length ≤ 4) :
    (∀ group ∈ groups ++ List.replicate (4 - groups.length) [], Octet group)
      ↔ groups.length = 4 ∧ ∀ group ∈ groups, Octet group := by
  constructor
  · intro hoctets
    refine ⟨?_, fun group hgroup => hoctets group (List.mem_append_left _ hgroup)⟩
    by_contra hne
    have hempty : [] ∈ List.replicate (4 - groups.length) ([] : Text) :=
      List.mem_replicate.mpr ⟨by omega, rfl⟩
    have hone := (hoctets [] (List.mem_append_right _ hempty)).length.1
    cases hone
  · rintro ⟨hlength, hoctets⟩
    rw [hlength, Nat.sub_self, List.replicate_zero, List.append_nil]
    exact hoctets

/-- Dotted quads are accepted and nothing else is, and no write misses the table. -/
theorem isStrIp_eq (s : CString) :
    isStrIp s.array = .ok (if DottedQuad s.chars then 0 else -1) := by
  let groups := s.chars.splitOn 46
  have hscan := isStrIpScan_eq [] [] 0 s.noNul
    (fun _ hmem => nomatch hmem) group_nil (by decide) ⟨by decide, by decide⟩
  change isStrIpScan s.array 0 0 0 (table [[]])
    = .ok (if Passes groups then some (table groups) else none) at hscan
  unfold isStrIp
  change (isStrIpScan s.array 0 0 0 (table [[]]) >>= _) = _
  rw [hscan]
  by_cases hpasses : Passes groups
  · have hrows : table groups = (groups ++ List.replicate (4 - groups.length) []).map row := by
      rw [List.map_append, List.map_replicate]
      rfl
    have hgroups : ∀ group ∈ groups ++ List.replicate (4 - groups.length) [], Group group := by
      intro group hgroup
      rcases List.mem_append.mp hgroup with hmem | hmem
      · exact hpasses.2 group hmem
      · rw [(List.mem_replicate.mp hmem).2]
        exact group_nil
    rw [if_pos hpasses]
    change isStrIpCheck 0 (table groups) 0 = _
    rw [hrows, isStrIpCheck_eq hgroups]
    simp only [table_octets hpasses.1, dottedQuad_iff, groups]
  · have hno : ¬DottedQuad s.chars := by
      rw [dottedQuad_iff]
      rintro ⟨hfour, hoctets⟩
      exact hpasses ⟨Nat.le_of_eq hfour, fun group hgroup => (hoctets group hgroup).group⟩
    rw [if_neg hpasses, if_neg hno]
    rfl

end Gittest
