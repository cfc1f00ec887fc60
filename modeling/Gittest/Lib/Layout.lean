import Mathlib.Algebra.GroupWithZero.Nat
import Mathlib.Data.List.Basic

/-!
# Fields laid out one behind the other

A string of bytes is the concatenation of its fields. `get` reads some bytes of it and `put` writes
over some; at the place of a field they read this field, and write over it and no other.
-/

namespace Layout

variable {α : Type*}

def get (bytes : List α) (offset size : Nat) : List α := (bytes.drop offset).take size

def put (bytes : List α) (offset : Nat) (new : List α) : List α :=
  bytes.take offset ++ (new ++ bytes.drop (offset + new.length))

/-- Field number `k` and where it begins. -/
structure At (fields : List (List α)) (k offset : Nat) (field : List α) : Prop where
  field_eq : fields[k]? = some field
  offset_eq : (fields.take k).flatten.length = offset

variable {fields : List (List α)} {k offset : Nat} {field new : List α}

namespace At

theorem lt (hat : At fields k offset field) : k < fields.length :=
  (List.getElem?_eq_some_iff.mp hat.field_eq).1

theorem flatten_eq (hat : At fields k offset field) :
    fields.flatten = (fields.take k).flatten ++ (field ++ (fields.drop (k + 1)).flatten) := by
  have hlt := hat.lt
  have hfield : fields[k] = field := (List.getElem?_eq_some_iff.mp hat.field_eq).2
  calc fields.flatten = (fields.take k ++ fields.drop k).flatten := by rw [List.take_append_drop]
    _ = (fields.take k).flatten ++ (fields.drop k).flatten := List.flatten_append
    _ = (fields.take k).flatten ++ (field ++ (fields.drop (k + 1)).flatten) := by
        rw [List.drop_eq_getElem_cons hlt, List.flatten_cons, hfield]

theorem fits (hat : At fields k offset field) : offset + field.length ≤ fields.flatten.length := by
  have hlength := congrArg List.length hat.flatten_eq
  rw [List.length_append, List.length_append, hat.offset_eq] at hlength
  omega

theorem drop_eq (hat : At fields k offset field) :
    fields.flatten.drop offset = field ++ (fields.drop (k + 1)).flatten := by
  rw [hat.flatten_eq, List.drop_left' hat.offset_eq]

/-- A field is read. -/
theorem get_eq (hat : At fields k offset field) :
    get fields.flatten offset field.length = field := by
  rw [get, hat.drop_eq, List.take_left]

/-- A field is written over. -/
theorem put_eq (hat : At fields k offset field) (hnew : new.length = field.length) :
    put fields.flatten offset new = (fields.set k new).flatten := by
  have hset : fields.set k new = fields.take k ++ new :: fields.drop (k + 1) :=
    List.set_eq_take_append_cons_drop.trans (if_pos hat.lt)
  have hbehind : fields.flatten.drop (offset + new.length) = (fields.drop (k + 1)).flatten := by
    rw [← List.drop_drop, hat.drop_eq, hnew, List.drop_left]
  rw [put, hbehind, hset, List.flatten_append, List.flatten_cons]
  congr 1
  rw [hat.flatten_eq, List.take_left' hat.offset_eq]

end At

/-! ### Fields of given sizes -/

def Sized (fields : List (List α)) (sizes : List Nat) : Prop := fields.map List.length = sizes

namespace Sized

variable {sizes : List Nat} {size : Nat}

theorem at_field (hsized : Sized fields sizes) (hk : sizes[k]? = some size) :
    ∃ field, At fields k (sizes.take k).sum field ∧ field.length = size := by
  subst hsized
  rw [List.getElem?_map] at hk
  obtain ⟨field, hfield, hsize⟩ := Option.map_eq_some_iff.mp hk
  refine ⟨field, ⟨hfield, ?_⟩, hsize⟩
  rw [List.length_flatten, List.map_take]

/-- Writing over a field with as many bytes keeps the sizes. -/
theorem set (hsized : Sized fields sizes) (hk : sizes[k]? = some new.length) :
    Sized (fields.set k new) sizes := by
  subst hsized
  obtain ⟨hlt, hsize⟩ := List.getElem?_eq_some_iff.mp hk
  rw [Sized, List.map_set, ← hsize, List.set_getElem_self hlt]

end Sized

end Layout
