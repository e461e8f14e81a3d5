import Mathlib.Data.List.Induction
import Mathlib.Logic.Function.Basic
import Mathlib.Order.Defs.PartialOrder

/-!
# Values handed down a forest

Keys have parents of a lower rank, and the value of a key is a function of that of its parent. One
pass over the keys in order of rank computes all the values (**`pass_eq`**), whatever the values were before.
-/

namespace Library.Ranked

variable {κ α ρ : Type*} [DecidableEq κ] [Preorder ρ]

/-- One pass over a list of keys: each gets its value from its parent's. -/
def pass (parent : κ → Option κ) (f : κ → Option α → α) (l : List κ) (val : κ → α) : κ → α :=
  l.foldl (fun val k => Function.update val k (f k ((parent k).map val))) val

variable {parent : κ → Option κ} {f : κ → Option α → α} {val spec : κ → α} {rank : κ → ρ} {l : List κ}

theorem pass_append (l : List κ) (k : κ) (val : κ → α) : pass parent f (l ++ [k]) val =
    Function.update (pass parent f l val) k (f k ((parent k).map (pass parent f l val))) := by
  simp [pass]

/-- **One pass in order of rank computes the values.** -/
theorem pass_eq (hspec : ∀ k ∈ l, spec k = f k ((parent k).map spec))
    (hparent : ∀ k ∈ l, ∀ p, parent k = some p → p ∈ l ∧ rank p < rank k)
    (hsorted : l.Pairwise fun a b => rank a ≤ rank b) : ∀ k ∈ l, pass parent f l val k = spec k := by
  -- of each part of the list that has been passed
  have hpart : ∀ d r, d ++ r = l → ∀ k ∈ d, pass parent f d val k = spec k := by
    intro d
    induction d using List.reverseRecOn with
    | nil => exact fun r _ k hk => absurd hk List.not_mem_nil
    | append_singleton d a ih =>
      intro r hl
      rw [List.append_assoc] at hl
      have hd := ih _ hl
      have hmem : a ∈ l := hl ▸ List.mem_append_right _ List.mem_cons_self
      have hval : (parent a).map (pass parent f d val) = (parent a).map spec := by
        cases hp : parent a with
        | none => rfl
        | some p =>
          obtain ⟨hpl, hlt⟩ := hparent a hmem p hp
          have hpd : p ∈ d := by
            rw [← hl] at hpl hsorted
            rcases List.mem_append.1 hpl with hpd | hpr
            · exact hpd
            · have hle : rank a ≤ rank p := by
                rcases List.mem_cons.1 hpr with rfl | hpr
                · exact le_refl _
                · exact (List.pairwise_cons.1 (List.pairwise_append.1 hsorted).2.1).1 p hpr
              exact absurd hlt hle.not_gt
          rw [Option.map_some, Option.map_some, hd p hpd]
      intro k hk
      rw [pass_append, hval, ← hspec a hmem]
      by_cases hka : k = a
      · rw [hka, Function.update_self]
      · rw [Function.update_of_ne hka]
        exact hd k ((List.mem_append.1 hk).resolve_right fun h => hka (List.mem_singleton.1 h))
  exact hpart l [] (List.append_nil l)

end Library.Ranked
