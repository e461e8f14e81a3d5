import Mathlib.Logic.Function.Basic
import Mathlib.Data.List.Nodup
import Mathlib.Data.List.Infix

/-!
# Forward pointers along a path

A path is a list of keys, youngest first. `nextOf` gives each key of the path but the
youngest a pointer to the one above it, and no other key any; `follow` visits keys along
pointers. **`follow_nextOf`**: from the oldest key, the pointers of a path visit exactly
the path. **`nextOf_unlink`** and `nextOf_link` take the youngest key off and put one on.
-/

namespace Library.Paths

variable {κ : Type*} [DecidableEq κ]

/-- The pointers along a path. -/
def nextOf : List κ → κ → Option κ
  | a :: b :: l => Function.update (nextOf (b :: l)) b (some a)
  | _ => fun _ => none

/-- The keys visited from `k` along at most `n` pointers. -/
def follow (next : κ → Option κ) : ℕ → κ → List κ
  | 0, k => [k]
  | n + 1, k =>
    match next k with
    | none => [k]
    | some k' => k :: follow next n k'

/-- Putting a key on top of a path. -/
theorem nextOf_link (a b : κ) (l : List κ) :
    nextOf (a :: b :: l) = Function.update (nextOf (b :: l)) b (some a) := rfl

/-- A key has a pointer only if it is on the path, below the youngest. -/
theorem nextOf_eq_none {k : κ} : ∀ {l : List κ}, k ∉ l.tail → nextOf l k = none := by
  intro l
  induction l with
  | nil => intro _; rfl
  | cons a l ih =>
    intro h
    cases l with
    | nil => rfl
    | cons b l =>
      rw [List.tail_cons, List.mem_cons, not_or] at h
      rw [nextOf_link, Function.update_of_ne h.1]
      exact ih h.2

/-- A pointer leads to a key of the path. -/
theorem mem_of_nextOf {k a : κ} : ∀ {l : List κ}, nextOf l k = some a → a ∈ l := by
  intro l
  induction l with
  | nil => intro h; cases h
  | cons b l ih =>
    intro h
    cases l with
    | nil => cases h
    | cons c l =>
      rw [nextOf_link] at h
      by_cases hkc : k = c
      · rw [hkc, Function.update_self, Option.some.injEq] at h
        exact h ▸ List.mem_cons_self
      · rw [Function.update_of_ne hkc] at h
        exact List.mem_cons_of_mem _ (ih h)

/-- **Taking the youngest key off a path.** -/
theorem nextOf_unlink {a b : κ} {l : List κ} (h : (b :: l).Nodup) :
    Function.update (nextOf (a :: b :: l)) b none = nextOf (b :: l) := by
  rw [nextOf_link, Function.update_idem, Function.update_eq_self_iff]
  exact (nextOf_eq_none (List.nodup_cons.1 h).1).symm

/-- A key of a path points to the one above it. -/
theorem nextOf_of_append {a b : κ} {l m : List κ} (h : (l ++ a :: b :: m).Nodup) :
    nextOf (l ++ a :: b :: m) b = some a := by
  induction l with
  | nil => rw [List.nil_append, nextOf_link, Function.update_self]
  | cons c l ih =>
    rw [List.cons_append, List.nodup_cons] at h
    have hb := ih h.2
    cases l with
    | nil =>
      have hne : b ≠ a := fun he => (List.nodup_cons.1 h.2).1 (he ▸ List.mem_cons_self)
      rw [List.cons_append, List.nil_append, nextOf_link, Function.update_of_ne hne]
      exact hb
    | cons d l =>
      have hne : b ≠ d := fun he => (List.nodup_cons.1 h.2).1 (by simp [he])
      rw [List.cons_append, List.cons_append, nextOf_link, Function.update_of_ne hne]
      exact hb

theorem follow_of_nextOf {k : κ} {m : List κ} {n : ℕ} :
    ∀ {l : List κ}, (l ++ k :: m).Nodup → l.length ≤ n → follow (nextOf (l ++ k :: m)) n k = k :: l.reverse := by
  induction n generalizing k m with
  | zero =>
    intro l _ hlen
    rw [List.length_eq_zero_iff.1 (Nat.le_zero.1 hlen)]
    rfl
  | succ n ih =>
    intro l hnd hlen
    rcases List.eq_nil_or_concat l with rfl | ⟨l, a, rfl⟩
    · have hk : nextOf (k :: m) k = none := nextOf_eq_none (List.nodup_cons.1 hnd).1
      rw [List.nil_append, follow, hk]
      rfl
    · have heq : (l ++ [a]) ++ k :: m = l ++ a :: k :: m := by simp
      rw [List.concat_eq_append] at hnd hlen ⊢
      rw [heq] at hnd ⊢
      rw [follow, nextOf_of_append hnd, List.reverse_append]
      simp only [List.reverse_singleton, List.singleton_append, List.cons.injEq, true_and]
      exact ih hnd (by simpa using hlen)

/-- **The pointers of a path visit the path**, from its oldest key. -/
theorem follow_nextOf {l : List κ} {k : κ} {n : ℕ} (h : (l ++ [k]).Nodup) (hn : l.length ≤ n) :
    follow (nextOf (l ++ [k])) n k = (l ++ [k]).reverse := by
  rw [follow_of_nextOf h hn, List.reverse_append]
  rfl

end Library.Paths
