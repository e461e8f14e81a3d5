import Mathlib.Data.List.Basic

/-!
# Fields of a packed record

A packed record is a list of bytes, and a field of it the bytes from a position on. Writing a field leaves the
length of the record (`length_splice`) and the fields that do not meet it (`field_splice_of_disjoint`); reading it
gives what was written (`field_splice_self`).
-/

namespace Library.Splice

variable {α : Type*}

/-- The `len` items from a position on. -/
def field (l : List α) (pos len : ℕ) : List α := (l.drop pos).take len

/-- The list with other items from a position on. -/
def splice (l : List α) (pos : ℕ) (items : List α) : List α := l.take pos ++ items ++ l.drop (pos + items.length)

variable {l items : List α} {pos len k : ℕ}

@[simp] theorem length_splice (h : pos + items.length ≤ l.length) : (splice l pos items).length = l.length := by
  simp only [splice, List.length_append, List.length_take, List.length_drop]
  omega

theorem field_splice_self (h : pos + items.length ≤ l.length) :
    field (splice l pos items) pos items.length = items := by
  have hpos : (l.take pos).length = pos := List.length_take_of_le (by omega)
  rw [field, splice, List.append_assoc, List.drop_append, List.drop_eq_nil_of_le (by omega), hpos, Nat.sub_self,
    List.drop_zero, List.nil_append, List.take_left]

/-- What follows the items written is unchanged. -/
theorem drop_splice (h : pos + items.length ≤ l.length) (hk : pos + items.length ≤ k) :
    (splice l pos items).drop k = l.drop k := by
  have hlen : (l.take pos ++ items).length = pos + items.length := by
    rw [List.length_append, List.length_take_of_le (by omega)]
  rw [splice, List.drop_append, hlen, List.drop_eq_nil_of_le (by omega), List.nil_append, List.drop_drop]
  congr 1
  omega

/-- So is what comes before them. -/
theorem take_splice (h : pos + items.length ≤ l.length) (hk : k ≤ pos) : (splice l pos items).take k = l.take k := by
  have hlen : (l.take pos).length = pos := List.length_take_of_le (by omega)
  rw [splice, List.append_assoc, List.take_append_of_le_length (by omega), List.take_take, Nat.min_eq_left hk]

/-- **A field that does not meet the items written is unchanged.** -/
theorem field_splice_of_disjoint {k : ℕ} (h : pos + items.length ≤ l.length)
    (hk : k + len ≤ pos ∨ pos + items.length ≤ k) : field (splice l pos items) k len = field l k len := by
  obtain hk | hk := hk
  · rw [field, field, List.take_drop, List.take_drop, take_splice h (by omega)]
  · rw [field, field, drop_splice h hk]

end Library.Splice
