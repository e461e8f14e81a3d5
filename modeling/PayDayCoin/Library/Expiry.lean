import Mathlib.Data.List.AList

/-!
# Entries that expire

A map holds a key up to a time that its value says (`Held`), and a list of grants, never shortened by the time, grants
keys up to times (`Granted`). What an entry more, an entry less and the removal of what has expired do to the one, and
a grant more and the grants of a key less to the other: a map that is swept (**`held_sweep`**) says the same as the
grants from then on.
-/

namespace Library.Expiry

variable {κ α γ : Type*} [DecidableEq κ] (stop : α → ℤ) (key : γ → κ)

/-- The map holds the key at a time. -/
def Held (m : AList fun _ : κ => α) (k : κ) (t : ℤ) : Prop := ∃ a ∈ m.lookup k, t < stop a

/-- One of the grants is of the key, and goes beyond a time. -/
def Granted (l : List (γ × ℤ)) (k : κ) (t : ℤ) : Prop := ∃ g ∈ l, key g.1 = k ∧ t < g.2

/-- What has not expired. -/
def sweep (now : ℤ) (m : AList fun _ : κ => α) : AList fun _ : κ => α :=
  ⟨m.entries.filter fun e => !decide (stop e.2 < now), m.nodupKeys.sublist List.filter_sublist⟩

variable {stop key} {m : AList fun _ : κ => α} {l : List (γ × ℤ)} {k k' : κ} {a : α} {g : γ} {t now u : ℤ}

theorem held_insert : Held stop (m.insert k a) k' t ↔ if k' = k then t < stop a else Held stop m k' t := by
  split
  · next h =>
    subst h
    simp only [Held, AList.lookup_insert, Option.mem_some_iff, exists_eq_left']
  · next h =>
    rw [Held, AList.lookup_insert_ne h]
    rfl

theorem held_erase : Held stop (m.erase k) k' t ↔ k' ≠ k ∧ Held stop m k' t := by
  by_cases h : k' = k
  · subst h
    simp [Held, AList.lookup_erase]
  · rw [Held, AList.lookup_erase_ne h]
    exact (and_iff_right h).symm

theorem mem_lookup_sweep : a ∈ (sweep stop now m).lookup k ↔ a ∈ m.lookup k ∧ now ≤ stop a := by
  rw [AList.mem_lookup_iff, AList.mem_lookup_iff, sweep, List.mem_filter]
  simp

/-- What is swept out is held no more. -/
theorem held_sweep (h : now ≤ t) : Held stop (sweep stop now m) k t ↔ Held stop m k t := by
  refine exists_congr fun a => ?_
  rw [mem_lookup_sweep, and_assoc]
  exact and_congr_right fun _ => and_iff_right_of_imp fun ht => by omega

omit [DecidableEq κ] in
theorem granted_cons : Granted key ((g, u) :: l) k t ↔ (key g = k ∧ t < u) ∨ Granted key l k t := by
  simp only [Granted, List.mem_cons, or_and_right, exists_or, exists_eq_left]

theorem granted_filter : Granted key (l.filter fun g => key g.1 ≠ k) k' t ↔ k' ≠ k ∧ Granted key l k' t := by
  simp only [Granted, List.mem_filter, decide_eq_true_eq]
  constructor
  · rintro ⟨g, ⟨hg, hne⟩, rfl, ht⟩
    exact ⟨hne, g, hg, rfl, ht⟩
  · rintro ⟨hne, g, hg, rfl, ht⟩
    exact ⟨g, ⟨hg, hne⟩, rfl, ht⟩

end Library.Expiry
