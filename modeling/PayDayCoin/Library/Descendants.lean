import Mathlib.Logic.Relation
import Mathlib.Data.Set.Card
import Mathlib.Order.CompletePartialOrder

/-!
# Pruning a graph

A set of nodes, some of them children of others. `Desc child s a b` says that `b` is `a`
or comes after it by way of members of `s`, and `prune child s K` takes out of `s` the members
of `K` with all their descendants. **`prune_prune`**: to prune twice is to prune once, so
the order does not matter. **`prune_singleton`**, the rule of a recursive removal: to
prune one node is to prune its children and then to take it out. Without cycles the node
is still there then (`Acyclic.mem_prune`), and each child has fewer descendants
(**`Acyclic.desc_ssubset`**).
-/

namespace Library.Descendants

open Relation

variable {α : Type*} (child : α → α → Prop)

/-- `b` is `a`, or a descendant of it by way of members of `s`. -/
def Desc (s : Set α) : α → α → Prop := ReflTransGen fun a b => child a b ∧ b ∈ s

/-- No member of `s` is a descendant of itself. -/
def Acyclic (s : Set α) : Prop := ∀ a ∈ s, ¬TransGen (fun a b => child a b ∧ b ∈ s) a a

/-- `s` without the members of `K` and their descendants. -/
def prune (s K : Set α) : Set α := {b ∈ s | ∀ a ∈ K, a ∈ s → ¬Desc child s a b}

variable {child} {s s' K K' : Set α} {a b c : α}

theorem Desc.mono (h : s' ⊆ s) (hd : Desc child s' a b) : Desc child s a b :=
  ReflTransGen.mono (fun _ _ hc => ⟨hc.1, h hc.2⟩) a b hd

/-- What comes after a member of `s` is one. -/
theorem Desc.mem (hd : Desc child s a b) (ha : a ∈ s) : b ∈ s := by
  rcases ReflTransGen.cases_tail hd with rfl | ⟨_, -, -, hb⟩
  · exact ha
  · exact hb

theorem Acyclic.mono (h : s' ⊆ s) (hs : Acyclic child s) : Acyclic child s' := fun a ha ht =>
  hs a (h ha) (TransGen.mono (fun _ _ hc => ⟨hc.1, h hc.2⟩) _ _ ht)

/-- There is no cycle where each child has a higher rank. -/
theorem acyclic_of_rank (rank : α → ℕ) (h : ∀ a b, a ∈ s → b ∈ s → child a b → rank a < rank b) :
    Acyclic child s := by
  intro a ha ht
  suffices hlt : ∀ b, TransGen (fun a b => child a b ∧ b ∈ s) a b → rank a < rank b ∧ b ∈ s from
    Nat.lt_irrefl _ (hlt a ht).1
  intro b ht
  induction ht with
  | single hc => exact ⟨h _ _ ha hc.2 hc.1, hc.2⟩
  | tail _ hc ih => exact ⟨ih.1.trans (h _ _ ih.2 hc.2 hc.1), hc.2⟩

/-! ### Pruning -/

theorem prune_subset : prune child s K ⊆ s := fun _ hb => hb.1

/-- Nothing to prune. -/
theorem prune_of_forall (h : ∀ a ∈ K, a ∉ s) : prune child s K = s :=
  Set.Subset.antisymm prune_subset fun _ hb => ⟨hb, fun a ha has => absurd has (h a ha)⟩

/-- Only the members of `s` count. -/
theorem prune_congr (h : ∀ a ∈ s, a ∈ K ↔ a ∈ K') : prune child s K = prune child s K' := by
  ext b
  exact and_congr_right fun _ => ⟨fun hall a ha has => hall a ((h a has).2 ha) has,
    fun hall a ha has => hall a ((h a has).1 ha) has⟩

/-- A path to a node that is left goes by way of nodes that are left. -/
theorem desc_prune (hb : b ∈ prune child s K) : Desc child (prune child s K) a b ↔ Desc child s a b := by
  refine ⟨Desc.mono prune_subset, fun hd => ?_⟩
  induction hd with
  | refl => exact .refl
  | @tail c b hac hc ih =>
    refine .tail ?_ ⟨hc.1, hb⟩
    rcases ReflTransGen.cases_tail hac with rfl | ⟨_, -, -, hcs⟩
    · exact .refl
    · exact ih ⟨hcs, fun d hd hds hdc => hb.2 d hd hds (hdc.tail hc)⟩

/-- **To prune twice is to prune once.** -/
theorem prune_prune : prune child (prune child s K) K' = prune child s (K ∪ K') := by
  ext b
  constructor
  · rintro ⟨hb, hall⟩
    refine ⟨hb.1, fun a ha has hd => ?_⟩
    rcases ha with ha | ha
    · exact hb.2 a ha has hd
    · -- if `a` is gone, it comes after a member of `K`, and so does `b`
      refine hall a ha ⟨has, fun d hd' hds hda => ?_⟩ ((desc_prune hb).2 hd)
      exact hb.2 d hd' hds (hda.trans hd)
  · rintro ⟨hbs, hall⟩
    have hb : b ∈ prune child s K := ⟨hbs, fun a ha => hall a (.inl ha)⟩
    exact ⟨hb, fun a ha has hd => hall a (.inr ha) has.1 ((desc_prune hb).1 hd)⟩

/-- **The rule of a recursive removal**: a node is pruned by pruning its children and then
taking it out. -/
theorem prune_singleton (ha : a ∈ s) :
    prune child s {a} = prune child s {c | child a c} \ {a} := by
  ext b
  constructor
  · rintro ⟨hb, hall⟩
    have hab := hall a rfl ha
    refine ⟨⟨hb, fun c hc hcs hd => hab (.head ⟨hc, hcs⟩ hd)⟩, ?_⟩
    rintro rfl
    exact hab .refl
  · rintro ⟨⟨hb, hall⟩, hne⟩
    refine ⟨hb, ?_⟩
    rintro d rfl _ hd
    rcases ReflTransGen.cases_head hd with rfl | ⟨c, ⟨hc, hcs⟩, hd⟩
    · exact hne rfl
    · exact hall c hc hcs hd

/-- A node stays when its children are pruned. -/
theorem Acyclic.mem_prune (hs : Acyclic child s) (ha : a ∈ s) (hK : ∀ c ∈ K, child a c) : a ∈ prune child s K :=
  ⟨ha, fun c hc hcs hd => hs a ha (TransGen.head' ⟨hK c hc, hcs⟩ hd)⟩

/-- **A child has fewer descendants.** -/
theorem Acyclic.desc_ssubset (hs : Acyclic child s) (ha : a ∈ s) (hc : child a c) (hcs : c ∈ s) (h : s' ⊆ s) :
    {b | Desc child s' c b} ⊂ {b | Desc child s a b} := by
  refine ⟨fun b hd => .head ⟨hc, hcs⟩ (Desc.mono h hd), fun hsub => ?_⟩
  exact hs a ha (TransGen.head' ⟨hc, hcs⟩ (Desc.mono h (hsub .refl)))

end Library.Descendants
