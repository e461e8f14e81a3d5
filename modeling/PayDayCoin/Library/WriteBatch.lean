import PayDayCoin.Library.Overlay
import Mathlib.Data.List.Induction

/-!
# Batches of writes

A batch is a log of operations on a store of keys and values, in the order they were
issued; nothing of it reaches the store before the batch is committed, and a commit
carries the operations out one after the other. Of all that a batch does to a key only
the last operation counts (**`commit_apply`**), so a reader who wants the answers of
the store after the commit needs to know, of each key, which of three things holds: the
last operation put a value, it deleted the key, or there is none (`last`).

A batch whose deletions are forgotten is a different overlay of the store
(`puts`). **`overlay_puts_iff`** says of which keys it still tells whether they are there.
-/

namespace Library.WriteBatch

variable {κ ν : Type*}

/-- An operation of a batch. -/
inductive Op (κ ν : Type*) where
  /-- Write a value under a key. -/
  | put (k : κ) (v : ν)
  /-- Delete a key. -/
  | delete (k : κ)
  deriving DecidableEq

/-- The key an operation is about. -/
def Op.key : Op κ ν → κ
  | .put k _ => k
  | .delete k => k

/-- What an operation leaves under its key. -/
def Op.value : Op κ ν → Option ν
  | .put _ v => some v
  | .delete _ => none

variable [DecidableEq κ]

/-- An operation carried out on a store. -/
def Op.apply (o : Op κ ν) (store : κ → Option ν) : κ → Option ν := Function.update store o.key o.value

/-- A batch carried out on a store. -/
def commit (batch : List (Op κ ν)) (store : κ → Option ν) : κ → Option ν :=
  batch.foldl (fun s o => o.apply s) store

/-- The last operation of a batch on a key. -/
def last (batch : List (Op κ ν)) (k : κ) : Option (Op κ ν) := (batch.filter fun o => o.key = k).getLast?

@[simp] theorem last_nil (k : κ) : last ([] : List (Op κ ν)) k = none := rfl

theorem last_append (batch : List (Op κ ν)) (o : Op κ ν) (k : κ) :
    last (batch ++ [o]) k = if o.key = k then some o else last batch k := by
  by_cases hkey : o.key = k <;> simp [last, hkey]

theorem key_of_last {batch : List (Op κ ν)} {o : Op κ ν} {k : κ} (h : last batch k = some o) : o.key = k := by
  have hmem := List.mem_of_getLast? h
  simpa using (List.mem_filter.1 hmem).2

@[simp] theorem commit_nil (store : κ → Option ν) : commit [] store = store := rfl

theorem commit_append (batch : List (Op κ ν)) (o : Op κ ν) (store : κ → Option ν) :
    commit (batch ++ [o]) store = o.apply (commit batch store) := by
  simp [commit]

/-- A commit leaves under a key what the last operation on it says, and what was there
when there is none. -/
theorem commit_apply (batch : List (Op κ ν)) (store : κ → Option ν) (k : κ) :
    commit batch store k = (last batch k).elim (store k) Op.value := by
  induction batch using List.reverseRecOn with
  | nil => simp
  | append_singleton batch o ih =>
    rw [commit_append, last_append, Op.apply]
    by_cases hkey : o.key = k
    · subst hkey
      simp
    · rw [Function.update_of_ne (Ne.symm hkey), ih, if_neg hkey]

/-! ### What the batch has put -/

/-- The values a batch leaves put, its deletions forgotten. -/
def puts (batch : List (Op κ ν)) : κ → Option ν := fun k => (last batch k).bind Op.value

/-- The values put, over the store below, tell whether a commit leaves a value under the
key, except for a key that the batch deleted last and the store has. -/
theorem overlay_puts_iff (batch : List (Op κ ν)) (store : κ → Option ν) (k : κ) :
    (Overlay.overlay (puts batch) store k).isSome = (commit batch store k).isSome ↔
      ¬(last batch k = some (.delete k) ∧ (store k).isSome) := by
  rw [commit_apply]
  cases hlast : last batch k with
  | none => simp [Overlay.overlay, puts, hlast]
  | some o =>
    have hkey := key_of_last hlast
    cases o with
    | put k' v => simp [Overlay.overlay, puts, hlast, Op.value]
    | delete k' =>
      obtain rfl : k' = k := hkey
      cases hstore : store k' <;> simp [Overlay.overlay, puts, hlast, Op.value, hstore]

end Library.WriteBatch
