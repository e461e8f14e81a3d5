import PayDayCoin.Library.SortedMaps
import Mathlib.Data.Finset.Insert
import Mathlib.Data.Finset.Erase

/-!
# Inverse indexes

A table of keys has parents for each of its entries, and an index goes from a parent to the set of the keys that have
it. An entry is filed under each of its parents (`file`) and taken out of each of them again (`unfile`), where a set
that becomes empty is given up; the same parent may come several times. What the index has after all of the parents of
an entry (**`mem_keysOf_foldl_file`**, **`mem_keysOf_foldl_unfile`**), and that no set is empty (`NoneEmpty`).
-/

namespace Library.InverseIndex

open Library.SortedMaps

variable {κ π : Type*} [LinearOrder π] [DecidableEq κ] {index : List (π × Finset κ)} {k t : κ} {p : π}

/-- The keys that the index has for a parent. -/
def keysOf (index : List (π × Finset κ)) (p : π) : Finset κ := (get? index p).getD ∅

/-- A key is filed under a parent. -/
def file (k : κ) (index : List (π × Finset κ)) (p : π) : List (π × Finset κ) :=
  set index p (insert k (keysOf index p))

/-- A key is taken out from under a parent. -/
def unfile (k : κ) (index : List (π × Finset κ)) (p : π) : List (π × Finset κ) :=
  match get? index p with
  | none => index
  | some keys => if keys.erase k = ∅ then erase index p else set index p (keys.erase k)

/-- No parent is kept without keys. -/
def NoneEmpty (index : List (π × Finset κ)) : Prop := ∀ p keys, get? index p = some keys → keys.Nonempty

/-! ### One parent -/

theorem keysOf_file (index : List (π × Finset κ)) (k : κ) (p q : π) :
    keysOf (file k index p) q = if p = q then insert k (keysOf index q) else keysOf index q := by
  rw [keysOf, file, get?_set]
  split
  · next h => rw [h, Option.getD_some]
  · rfl

theorem keysOf_unfile (index : List (π × Finset κ)) (k : κ) (p q : π) :
    keysOf (unfile k index p) q = if p = q then (keysOf index q).erase k else keysOf index q := by
  rw [unfile]
  split
  · next hp =>
    split
    · next h =>
      subst h
      simp [keysOf, hp]
    · rfl
  · next keys hp =>
    split
    · next hempty =>
      rw [keysOf, get?_erase]
      split
      · next h =>
        subst h
        simp [keysOf, hp, hempty]
      · rfl
    · rw [keysOf, get?_set]
      split
      · next h =>
        subst h
        simp [keysOf, hp]
      · rfl

theorem NoneEmpty.file (h : NoneEmpty index) (k : κ) (p : π) : NoneEmpty (file k index p) := by
  intro q keys hq
  rw [InverseIndex.file, get?_set] at hq
  split at hq
  · obtain rfl := Option.some.inj hq
    exact Finset.insert_nonempty _ _
  · exact h q keys hq

theorem NoneEmpty.unfile (h : NoneEmpty index) (k : κ) (p : π) : NoneEmpty (unfile k index p) := by
  intro q keys hq
  rw [InverseIndex.unfile] at hq
  split at hq
  · exact h q keys hq
  · split at hq
    · rw [get?_erase] at hq
      split at hq
      · cases hq
      · exact h q keys hq
    · next hne =>
      rw [get?_set] at hq
      split at hq
      · obtain rfl := Option.some.inj hq
        exact Finset.nonempty_iff_ne_empty.2 hne
      · exact h q keys hq

/-! ### All parents of an entry -/

theorem mem_keysOf_foldl_file (ps : List π) (index : List (π × Finset κ)) :
    t ∈ keysOf (ps.foldl (file k) index) p ↔ t ∈ keysOf index p ∨ t = k ∧ p ∈ ps := by
  induction ps generalizing index with
  | nil => simp
  | cons q ps ih =>
    rw [List.foldl_cons, ih, keysOf_file]
    by_cases hq : q = p
    · subst hq
      simp only [if_pos, Finset.mem_insert, List.mem_cons, true_or, and_true]
      tauto
    · simp only [if_neg hq, List.mem_cons, Ne.symm hq, false_or]

theorem mem_keysOf_foldl_unfile (ps : List π) (index : List (π × Finset κ)) :
    t ∈ keysOf (ps.foldl (unfile k) index) p ↔ t ∈ keysOf index p ∧ ¬(t = k ∧ p ∈ ps) := by
  induction ps generalizing index with
  | nil => simp
  | cons q ps ih =>
    rw [List.foldl_cons, ih, keysOf_unfile]
    by_cases hq : q = p
    · subst hq
      simp only [if_pos, Finset.mem_erase, List.mem_cons, true_or, and_true]
      tauto
    · simp only [if_neg hq, List.mem_cons, Ne.symm hq, false_or]

theorem NoneEmpty.foldl_file (ps : List π) (h : NoneEmpty index) : NoneEmpty (ps.foldl (InverseIndex.file k) index) := by
  induction ps generalizing index with
  | nil => exact h
  | cons q ps ih => exact ih (h.file k q)

theorem NoneEmpty.foldl_unfile (ps : List π) (h : NoneEmpty index) :
    NoneEmpty (ps.foldl (InverseIndex.unfile k) index) := by
  induction ps generalizing index with
  | nil => exact h
  | cons q ps ih => exact ih (h.unfile k q)

omit [DecidableEq κ] in
/-- A parent is looked up with a key in its set exactly when the key is among the keys of the parent. -/
theorem exists_get?_iff_mem_keysOf : (∃ keys, get? index p = some keys ∧ t ∈ keys) ↔ t ∈ keysOf index p := by
  rw [keysOf]
  cases get? index p <;> simp

end Library.InverseIndex
