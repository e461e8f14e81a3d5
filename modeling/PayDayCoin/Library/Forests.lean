import Mathlib.Logic.Relation
import Mathlib.Order.Basic

/-!
# Forests

A forest as it is kept by pointers: each node has its parent, if it has one, and its height, which goes up by one from
parent to child. A node is an `Ancestor` of itself and of what its children are ancestors of. The ancestors of a node
are ordered by their heights (**`Ancestor.of_height_le`**), so two nodes that have an ancestor in common have a lowest
one.
-/

namespace Library.Forests

/-- Nodes with parents and heights. -/
structure Forest (α : Type*) where
  parent : α → Option α
  height : α → ℕ
  height_root : ∀ {a}, parent a = none → height a = 0
  height_child : ∀ {a b}, parent a = some b → height a = height b + 1

variable {α : Type*} {T : Forest α} {a b c : α}

/-- `b` is reached from `a` through parents. -/
def Ancestor (T : Forest α) (b a : α) : Prop := Relation.ReflTransGen (fun a b => T.parent a = some b) a b

theorem Ancestor.refl (a : α) : Ancestor T a a := Relation.ReflTransGen.refl

theorem Ancestor.trans (h : Ancestor T c b) (h' : Ancestor T b a) : Ancestor T c a := Relation.ReflTransGen.trans h' h

theorem ancestor_iff : Ancestor T b a ↔ a = b ∨ ∃ p, T.parent a = some p ∧ Ancestor T b p :=
  Relation.ReflTransGen.cases_head_iff

theorem ancestor_of_parent {p : α} (h : T.parent a = some p) : Ancestor T p a := Relation.ReflTransGen.single h

theorem Ancestor.height_le (h : Ancestor T b a) : T.height b ≤ T.height a := by
  induction h with
  | refl => exact Nat.le_refl _
  | tail _ hp ih =>
    have := T.height_child hp
    omega

/-- An ancestor of the same height is the node itself. -/
theorem Ancestor.eq_of_height_le (h : Ancestor T b a) (hle : T.height a ≤ T.height b) : a = b := by
  rcases ancestor_iff.1 h with rfl | ⟨p, hp, hb⟩
  · rfl
  · have := T.height_child hp
    have := hb.height_le
    omega

theorem Ancestor.antisymm (h : Ancestor T b a) (h' : Ancestor T a b) : a = b := h.eq_of_height_le h'.height_le

/-- Of two ancestors of one node the lower is an ancestor of the higher. -/
theorem Ancestor.of_height_le (h : Ancestor T b a) (h' : Ancestor T c a) (hle : T.height c ≤ T.height b) :
    Ancestor T c b := by
  induction h using Relation.ReflTransGen.head_induction_on with
  | refl => exact h'
  | head hp hb ih =>
    rcases ancestor_iff.1 h' with rfl | ⟨q, hq, hc⟩
    · have := T.height_child hp
      have := Ancestor.height_le hb
      omega
    · obtain rfl := Option.some.inj (hq.symm.trans hp)
      exact ih hc

end Library.Forests
