import Mathlib.Logic.Function.Basic
import Mathlib.Data.Option.Basic
import Mathlib.Data.List.Nodup

/-!
# Partial maps and pending changes

A store is a partial map `κ → Option ν`; `Function.update` writes a key
(`some`) or erases it (`none`). Pending changes are a partial map of their own, which
shadows the store below it: `overlay pending base`. **`overlay_update`**: a write to
the pending changes is a write to what a reader sees. **`foldl_erase`** and
**`foldl_insert`** say what a loop that erases or writes keys leaves.
-/

namespace Library.Overlay

variable {κ ν : Type*} [DecidableEq κ]

/-- What a reader sees of a store below pending changes. -/
def overlay (pending base : κ → Option ν) : κ → Option ν := fun k => (pending k).or (base k)

/-- No pending changes. -/
def nothing : κ → Option ν := fun _ => none

omit [DecidableEq κ] in
@[simp] theorem overlay_nothing (base : κ → Option ν) : overlay nothing base = base := by
  funext k; simp [overlay, nothing]

omit [DecidableEq κ] in
theorem overlay_of_some {pending base : κ → Option ν} {k : κ} {v : ν} (h : pending k = some v) :
    overlay pending base k = some v := by simp [overlay, h]

omit [DecidableEq κ] in
theorem overlay_of_none {pending base : κ → Option ν} {k : κ} (h : pending k = none) :
    overlay pending base k = base k := by simp [overlay, h]

/-- A pending write is a write to what a reader sees. -/
@[simp] theorem overlay_update (pending base : κ → Option ν) (k : κ) (v : ν) :
    overlay (Function.update pending k (some v)) base = Function.update (overlay pending base) k (some v) := by
  funext k'
  by_cases h : k' = k
  · subst h; simp [overlay]
  · simp [overlay, Function.update_of_ne h]

/-! ### Loops over keys -/

section Loops

variable {α : Type*} {key : α → κ} {l : List α} {m : κ → Option ν} {k : κ} {v : ν}

/-- What is left when the keys of a list are erased. -/
theorem foldl_erase : (l.foldl (fun m a => Function.update m (key a) none) m : κ → Option ν) k = some v ↔
    m k = some v ∧ ∀ a ∈ l, key a ≠ k := by
  induction l generalizing m with
  | nil => simp
  | cons a l ih =>
    rw [List.foldl_cons, ih, List.forall_mem_cons]
    by_cases heq : key a = k
    · subst heq
      simp
    · simp [heq, Function.update_of_ne (Ne.symm heq)]

/-- What is there when each key of a list has been written, with a value for its place. -/
theorem foldl_insert {w : ℕ → ν} (hnd : (l.map key).Nodup) {n : ℕ} :
    ((l.zipIdx n).foldl (fun m p => Function.update m (key p.1) (some (w p.2))) m : κ → Option ν) k = some v ↔
      (∃ i a, l[i]? = some a ∧ key a = k ∧ w (n + i) = v) ∨ (m k = some v ∧ ∀ a ∈ l, key a ≠ k) := by
  induction l generalizing m n with
  | nil => simp
  | cons a l ih =>
    obtain ⟨ha, hnd⟩ := List.nodup_cons.1 hnd
    rw [List.zipIdx_cons, List.foldl_cons, ih hnd, List.forall_mem_cons]
    have hsucc : ∀ i, n + 1 + i = n + (i + 1) := fun i => by omega
    by_cases heq : key a = k
    · subst heq
      have hl : ∀ b ∈ l, key b ≠ key a := fun b hb he => ha (he ▸ List.mem_map_of_mem hb)
      simp only [Function.update_self, Option.some.injEq, ne_eq, not_true_eq_false, false_and, and_false, or_false]
      constructor
      · rintro (⟨i, b, hb, hk, -⟩ | ⟨hv, -⟩)
        · exact absurd hk (hl b (List.mem_of_getElem? hb))
        · exact ⟨0, a, rfl, rfl, hv⟩
      · rintro ⟨i, b, hb, hk, hv⟩
        cases i with
        | zero => exact .inr ⟨hv, hl⟩
        | succ i => exact absurd hk (hl b (List.mem_of_getElem? hb))
    · rw [Function.update_of_ne (Ne.symm heq)]
      simp only [heq, ne_eq, not_false_eq_true, true_and]
      refine or_congr_left ⟨?_, ?_⟩
      · rintro ⟨i, b, hb, hk, hv⟩
        exact ⟨i + 1, b, hb, hk, hsucc i ▸ hv⟩
      · rintro ⟨i, b, hb, hk, hv⟩
        cases i with
        | zero => exact absurd (Option.some.inj hb ▸ hk) heq
        | succ i => exact ⟨i, b, hb, hk, hsucc i ▸ hv⟩

end Loops

end Library.Overlay
