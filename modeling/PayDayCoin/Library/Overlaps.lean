import Mathlib.Logic.Relation
import Mathlib.Data.Set.Lattice
import Mathlib.Data.Set.Pairwise.Basic

/-!
# Merging overlapping sets

Sets come one after the other, and are kept as disjoint blocks: a new set is put together with the blocks that it meets
(`merge`). **`Components.merge`**: the blocks are the components of the sets so far, disjoint, with the members of the
sets, and two members are in one block exactly if a chain of sets links them (`Linked`), so the order of the sets does
not matter.
-/

namespace Library.Overlaps

open Relation

variable {α : Type*} {G P : Set (Set α)} {g s t : Set α} {a b : α}

/-- A chain of sets leads from one member to the other. -/
def Linked (G : Set (Set α)) : α → α → Prop := ReflTransGen fun a b => ∃ g ∈ G, a ∈ g ∧ b ∈ g

theorem Linked.of_mem (hg : g ∈ G) (ha : a ∈ g) (hb : b ∈ g) : Linked G a b := ReflTransGen.single ⟨g, hg, ha, hb⟩

theorem Linked.symm (h : Linked G a b) : Linked G b a := by
  induction h with
  | refl => exact ReflTransGen.refl
  | tail _ hstep ih =>
    obtain ⟨g, hg, ha, hb⟩ := hstep
    exact (Linked.of_mem hg hb ha).trans ih

theorem Linked.insert (h : Linked G a b) : Linked (insert g G) a b :=
  ReflTransGen.mono (fun _ _ ⟨t, ht, ha, hb⟩ => ⟨t, Set.mem_insert_of_mem g ht, ha, hb⟩) a b h

/-- The blocks that a set meets. -/
def hits (P : Set (Set α)) (g : Set α) : Set (Set α) := {s ∈ P | (s ∩ g).Nonempty}

/-- A set is put together with the blocks that it meets. -/
def merge (P : Set (Set α)) (g : Set α) : Set (Set α) := insert (g ∪ ⋃₀ hits P g) {s ∈ P | ¬(s ∩ g).Nonempty}

/-- The blocks are the components of the sets. -/
structure Components (G P : Set (Set α)) : Prop where
  nonempty : ∀ s ∈ P, s.Nonempty
  /-- Blocks that share a member are the same. -/
  eq_of_mem : ∀ s ∈ P, ∀ t ∈ P, ∀ a ∈ s, a ∈ t → s = t
  cover : ∀ a, (∃ s ∈ P, a ∈ s) ↔ ∃ g ∈ G, a ∈ g
  linked : ∀ s ∈ P, ∀ a ∈ s, ∀ b, b ∈ s ↔ Linked G a b

theorem components_empty : Components (∅ : Set (Set α)) ∅ where
  nonempty _ hs := absurd hs (Set.notMem_empty _)
  eq_of_mem _ hs := absurd hs (Set.notMem_empty _)
  cover _ := Iff.rfl
  linked _ hs := absurd hs (Set.notMem_empty _)

namespace Components

/-- Two members of one set are in the same blocks after a merge. -/
theorem mem_merge_of_mem (h : Components G P) (hs : s ∈ Overlaps.merge P g) (ha : a ∈ s) (ht : t ∈ insert g G)
    (hat : a ∈ t) (hbt : b ∈ t) : b ∈ s := by
  rcases hs with rfl | ⟨hs, hmiss⟩
  · rcases ht with rfl | ht
    · exact .inl hbt
    · obtain ⟨u, hu, hau⟩ := (h.cover a).2 ⟨t, ht, hat⟩
      have hhit : u ∈ hits P g := by
        rcases ha with ha | ⟨v, ⟨hv, hvg⟩, hav⟩
        · exact ⟨hu, a, hau, ha⟩
        · rw [h.eq_of_mem u hu v hv a hau hav]
          exact ⟨hv, hvg⟩
      exact .inr ⟨u, hhit, (h.linked u hu a hau b).2 (.of_mem ht hat hbt)⟩
  · rcases ht with rfl | ht
    · exact absurd ⟨a, ha, hat⟩ hmiss
    · exact (h.linked s hs a ha b).2 (.of_mem ht hat hbt)

/-- A member of the new block is linked to one of the new set. -/
theorem linked_of_mem_merged (h : Components G P) (ha : a ∈ g ∪ ⋃₀ hits P g) : ∃ x ∈ g, Linked (insert g G) a x := by
  rcases ha with ha | ⟨t, ⟨ht, x, hxt, hxg⟩, hat⟩
  · exact ⟨a, ha, ReflTransGen.refl⟩
  · exact ⟨x, hxg, ((h.linked t ht a hat x).1 hxt).insert⟩

/-- **The blocks with a set merged in are the components of the sets and this one.** -/
theorem merge (h : Components G P) (hg : g.Nonempty) : Components (insert g G) (Overlaps.merge P g) where
  nonempty s hs := by
    rcases hs with rfl | ⟨hs, -⟩
    · exact hg.mono Set.subset_union_left
    · exact h.nonempty s hs
  eq_of_mem s hs t ht a has hat := by
    have hmiss : ∀ u ∈ P, ¬(u ∩ g).Nonempty → a ∈ u → a ∉ g ∪ ⋃₀ hits P g := by
      rintro u hu hno hau (hag | ⟨v, ⟨hv, hvg⟩, hav⟩)
      · exact hno ⟨a, hau, hag⟩
      · rw [h.eq_of_mem u hu v hv a hau hav] at hno
        exact hno hvg
    rcases hs with rfl | ⟨hs, hsg⟩
    · rcases ht with rfl | ⟨ht, htg⟩
      · rfl
      · exact absurd has (hmiss t ht htg hat)
    · rcases ht with rfl | ⟨ht, htg⟩
      · exact absurd hat (hmiss s hs hsg has)
      · exact h.eq_of_mem s hs t ht a has hat
  cover a := by
    constructor
    · rintro ⟨s, rfl | ⟨hs, -⟩, ha⟩
      · rcases ha with ha | ⟨t, ⟨ht, -⟩, hat⟩
        · exact ⟨g, Set.mem_insert g G, ha⟩
        · obtain ⟨u, hu, hau⟩ := (h.cover a).1 ⟨t, ht, hat⟩
          exact ⟨u, Set.mem_insert_of_mem g hu, hau⟩
      · obtain ⟨u, hu, hau⟩ := (h.cover a).1 ⟨s, hs, ha⟩
        exact ⟨u, Set.mem_insert_of_mem g hu, hau⟩
    · rintro ⟨u, rfl | hu, hau⟩
      · exact ⟨_, Set.mem_insert _ _, .inl hau⟩
      · obtain ⟨s, hs, has⟩ := (h.cover a).2 ⟨u, hu, hau⟩
        by_cases hmeet : (s ∩ g).Nonempty
        · exact ⟨_, Set.mem_insert _ _, .inr ⟨s, ⟨hs, hmeet⟩, has⟩⟩
        · exact ⟨s, Set.mem_insert_of_mem _ ⟨hs, hmeet⟩, has⟩
  linked s hs a ha b := by
    constructor
    · intro hb
      rcases hs with rfl | ⟨hs, -⟩
      · obtain ⟨x, hx, hax⟩ := linked_of_mem_merged h ha
        obtain ⟨y, hy, hby⟩ := linked_of_mem_merged h hb
        exact (hax.trans (Linked.of_mem (Set.mem_insert g G) hx hy)).trans hby.symm
      · exact ((h.linked s hs a ha b).1 hb).insert
    · intro hlinked
      induction hlinked with
      | refl => exact ha
      | tail _ hstep ih =>
        obtain ⟨t, ht, hbt, hct⟩ := hstep
        exact mem_merge_of_mem h hs ih ht hbt hct

/-- Two members are in one block exactly if they are linked. -/
theorem exists_mem_iff (h : Components G P) :
    (∃ s ∈ P, a ∈ s ∧ b ∈ s) ↔ (∃ g ∈ G, a ∈ g) ∧ Linked G a b := by
  constructor
  · rintro ⟨s, hs, ha, hb⟩
    exact ⟨(h.cover a).1 ⟨s, hs, ha⟩, (h.linked s hs a ha b).1 hb⟩
  · rintro ⟨hmem, hlinked⟩
    obtain ⟨s, hs, ha⟩ := (h.cover a).2 hmem
    exact ⟨s, hs, ha, (h.linked s hs a ha b).2 hlinked⟩

end Components

end Library.Overlaps
