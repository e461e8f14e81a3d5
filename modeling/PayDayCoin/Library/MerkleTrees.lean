import Mathlib.Data.List.Nodup
import Mathlib.Data.Nat.Bitwise
import Mathlib.Data.Set.Function

/-!
# Merkle trees

A tree over a list of leaves, level by level: two neighbours are paired, and the last node of an odd level is paired
with itself. The sibling of a node in each level up to the root is the node's `branch`, and folding a leaf with its
branch, on the side that the bits of the leaf's index say, gives the root (**`fold_branch`**). A tree written as one list
has its levels one after the other (`levels`), the root last (**`getLast?_levels`**).

A list and the list with its end repeated have one root. Lists without repetition have different roots, as far as the
pairs that are hashed for them have different hashes that are no leaves (**`eq_of_root_eq`**).
-/

namespace Library.MerkleTrees

variable {α : Type*} (pair : α → α → α)

/-- The level above a level. -/
def level : List α → List α
  | [] => []
  | [a] => [pair a a]
  | a :: b :: l => pair a b :: level l

theorem length_level (l : List α) : (level pair l).length = (l.length + 1) / 2 := by
  fun_induction level pair l with
  | case1 => simp
  | case2 a => simp
  | case3 a b l ih =>
    simp only [List.length_cons, ih]
    omega

/-- The node over the two nodes at `2 * k`, or over the one that is left. -/
theorem getElem?_level (l : List α) (k : ℕ) :
    (level pair l)[k]? = l[2 * k]?.bind fun a => l[min (2 * k + 1) (l.length - 1)]?.map (pair a) := by
  fun_induction level pair l generalizing k with
  | case1 => rfl
  | case2 a => cases k <;> simp [Nat.mul_succ]
  | case3 a b l ih =>
    cases k with
    | zero => simp
    | succ k =>
      rw [List.getElem?_cons_succ, ih, Nat.mul_succ, List.getElem?_cons_succ, List.getElem?_cons_succ]
      cases l with
      | nil => simp
      | cons c l =>
        congr 2
        funext x
        rw [show min (2 * k + 2 + 1) ((a :: b :: c :: l).length - 1) = min (2 * k + 1) ((c :: l).length - 1) + 1 + 1 by
          simp only [List.length_cons]; omega, List.getElem?_cons_succ, List.getElem?_cons_succ]

/-- The root; of no leaves there is none. -/
def root (l : List α) : Option α :=
  if 1 < l.length then root (level pair l) else l.head?
termination_by l.length
decreasing_by
  rw [length_level]
  omega

/-- All levels, one after the other. -/
def levels (l : List α) : List α :=
  if 1 < l.length then l ++ levels (level pair l) else l
termination_by l.length
decreasing_by
  rw [length_level]
  omega

/-- The siblings of the node at `i`, from its level up to below the root. -/
def branch (l : List α) (i : ℕ) : List α :=
  if 1 < l.length then l[min (i ^^^ 1) (l.length - 1)]?.toList ++ branch (level pair l) (i / 2) else []
termination_by l.length
decreasing_by
  rw [length_level]
  omega

/-- A node folded with a branch; the bits of `i` say on which side it is. -/
def fold : α → List α → ℕ → α
  | a, [], _ => a
  | a, o :: branch, i => fold (if i % 2 = 1 then pair o a else pair a o) branch (i / 2)

variable {pair}

theorem getLast?_levels (l : List α) : (levels pair l).getLast? = root pair l := by
  fun_induction levels pair l with
  | case1 l h ih =>
    rw [root, if_pos h, ← ih, List.getLast?_append]
    have hne : levels pair (level pair l) ≠ [] := by
      intro hnil
      have hlen := congrArg List.length hnil
      rw [levels] at hlen
      split at hlen
      · simp only [List.length_append, length_level, List.length_nil] at hlen
        omega
      · simp only [length_level, List.length_nil] at hlen
        omega
    obtain ⟨a, ha⟩ := Option.isSome_iff_exists.1 (List.getLast?_isSome.2 hne)
    rw [ha, Option.some_or]
  | case2 l h =>
    rw [root, if_neg h]
    match l with
    | [] => rfl
    | [a] => rfl
    | a :: b :: l => exact absurd (by simp) h

/-- A sibling is next to its node, or is the node itself at the end of an odd level. -/
theorem xor_one (i : ℕ) : i ^^^ 1 = if i % 2 = 1 then i - 1 else i + 1 := by
  split
  · next h =>
    obtain ⟨k, rfl⟩ : ∃ k, i = 2 * k + 1 := ⟨i / 2, by omega⟩
    have := Nat.xor_one_of_odd (n := 2 * k + 1) ⟨k, rfl⟩
    omega
  · next h =>
    obtain ⟨k, rfl⟩ : ∃ k, i = 2 * k := ⟨i / 2, by omega⟩
    exact Nat.xor_one_of_even ⟨k, by omega⟩

variable (pair) in
/-- A node and its sibling give the node above them. -/
theorem getElem?_level_half {l : List α} {i : ℕ} {a : α} (ha : l[i]? = some a) (hlen : 1 < l.length) :
    ∃ o, l[min (i ^^^ 1) (l.length - 1)]? = some o ∧
      (level pair l)[i / 2]? = some (if i % 2 = 1 then pair o a else pair a o) := by
  have hi : i < l.length := (List.getElem?_eq_some_iff.1 ha).1
  obtain ⟨o, ho⟩ : ∃ o, l[min (i ^^^ 1) (l.length - 1)]? = some o :=
    ⟨_, List.getElem?_eq_getElem (by omega)⟩
  refine ⟨o, ho, ?_⟩
  rw [getElem?_level]
  by_cases hodd : i % 2 = 1
  · have hleft : 2 * (i / 2) = min (i ^^^ 1) (l.length - 1) := by
      rw [xor_one, if_pos hodd]
      omega
    have hright : min (2 * (i / 2) + 1) (l.length - 1) = i := by omega
    rw [if_pos hodd, hright, hleft, ho, ha]
    rfl
  · have hleft : 2 * (i / 2) = i := by omega
    rw [xor_one, if_neg hodd] at ho
    rw [if_neg hodd, hleft, ho, ha]
    rfl

theorem fold_branch {l : List α} {i : ℕ} {a : α} (ha : l[i]? = some a) :
    root pair l = some (fold pair a (branch pair l i) i) := by
  fun_induction branch pair l i generalizing a with
  | case1 l i h ih =>
    obtain ⟨o, ho, habove⟩ := getElem?_level_half pair ha h
    rw [root, if_pos h, ih habove, ho, Option.toList_some, List.singleton_append, fold]
  | case2 l i h =>
    have hi : i < l.length := (List.getElem?_eq_some_iff.1 ha).1
    obtain rfl : i = 0 := by omega
    rw [root, if_neg h, List.head?_eq_getElem?, ha, fold]

/-! ### Roots of lists without repetition -/

/-- The neighbours that are paired in a level. -/
def neighbours : List α → List (α × α)
  | [] => []
  | [a] => [(a, a)]
  | a :: b :: l => (a, b) :: neighbours l

/-- All pairs that are hashed below the root. -/
def pairs (pair : α → α → α) (l : List α) : List (α × α) :=
  if 1 < l.length then neighbours l ++ pairs pair (level pair l) else []
termination_by l.length
decreasing_by
  rw [length_level]
  omega

theorem level_eq_map (l : List α) : level pair l = (neighbours l).map fun p => pair p.1 p.2 := by
  fun_induction neighbours l with
  | case1 => rfl
  | case2 a => rfl
  | case3 a b l ih => rw [level, ih, List.map_cons]

theorem map_fst_neighbours (l : List α) : ((neighbours l).map Prod.fst).Sublist l := by
  fun_induction neighbours l with
  | case1 => exact List.Sublist.refl _
  | case2 a => exact List.Sublist.refl _
  | case3 a b l ih => exact (ih.cons b).cons_cons a

theorem nodup_neighbours {l : List α} (h : l.Nodup) : (neighbours l).Nodup :=
  List.Nodup.of_map _ (h.sublist (map_fst_neighbours l))

/-- A node that is paired with itself is told from a pair of equal nodes when no node is repeated. -/
theorem neighbours_inj {l l' : List α} (hl : l.Nodup) (hl' : l'.Nodup) (h : neighbours l = neighbours l') : l = l' := by
  fun_induction neighbours l generalizing l' with
  | case1 =>
    rcases l' with _ | ⟨a', _ | ⟨b', l'⟩⟩
    · rfl
    · cases h
    · cases h
  | case2 a =>
    rcases l' with _ | ⟨a', _ | ⟨b', l'⟩⟩
    · cases h
    · cases h
      rfl
    · obtain ⟨hpair, -⟩ := List.cons.inj h
      obtain ⟨rfl, rfl⟩ := Prod.mk.inj hpair
      exact absurd List.mem_cons_self (List.nodup_cons.1 hl').1
  | case3 a b l ih =>
    rcases l' with _ | ⟨a', _ | ⟨b', l'⟩⟩
    · cases h
    · obtain ⟨hpair, -⟩ := List.cons.inj h
      obtain ⟨rfl, rfl⟩ := Prod.mk.inj hpair
      exact absurd List.mem_cons_self (List.nodup_cons.1 hl).1
    · obtain ⟨hpair, hrest⟩ := List.cons.inj h
      obtain ⟨rfl, rfl⟩ := Prod.mk.inj hpair
      rw [ih hl.of_cons.of_cons hl'.of_cons.of_cons hrest]

theorem map_inj_on {β : Type*} {f : α → β} {l l' : List α} (hinj : ∀ a ∈ l, ∀ b ∈ l', f a = f b → a = b)
    (h : l.map f = l'.map f) : l = l' := by
  induction l generalizing l' with
  | nil => exact (List.map_eq_nil_iff.1 h.symm).symm
  | cons a l ih =>
    cases l' with
    | nil => cases h
    | cons b l' =>
      obtain ⟨hab, hrest⟩ := List.cons.inj h
      rw [hinj a List.mem_cons_self b List.mem_cons_self hab,
        ih (fun x hx y hy => hinj x (List.mem_cons_of_mem a hx) y (List.mem_cons_of_mem b hy)) hrest]

section Unique

variable {S : Set (α × α)}

/-- How many times pairs of `S` have been hashed to make a node, on its left side. -/
def Rank (pair : α → α → α) (S : Set (α × α)) : ℕ → α → Prop
  | 0, a => ∀ p ∈ S, pair p.1 p.2 ≠ a
  | k + 1, a => ∃ p ∈ S, pair p.1 p.2 = a ∧ Rank pair S k p.1

theorem Rank.unique (hinj : S.InjOn fun p => pair p.1 p.2) {j k : ℕ} {a : α} (hj : Rank pair S j a)
    (hk : Rank pair S k a) : j = k := by
  induction j generalizing k a with
  | zero =>
    cases k with
    | zero => rfl
    | succ k =>
      obtain ⟨p, hp, heq, -⟩ := hk
      exact absurd heq (hj p hp)
  | succ j ih =>
    obtain ⟨p, hp, heq, hrank⟩ := hj
    cases k with
    | zero => exact absurd heq (hk p hp)
    | succ k =>
      obtain ⟨q, hq, heq', hrank'⟩ := hk
      obtain rfl := hinj hp hq (heq.trans heq'.symm)
      rw [ih hrank hrank']

theorem rank_level {l : List α} {k : ℕ} (hS : ∀ p ∈ neighbours l, p ∈ S) (h : ∀ a ∈ l, Rank pair S k a) :
    ∀ a ∈ level pair l, Rank pair S (k + 1) a := by
  intro a ha
  rw [level_eq_map] at ha
  obtain ⟨p, hp, rfl⟩ := List.mem_map.1 ha
  exact ⟨p, hS p hp, rfl, h p.1 ((map_fst_neighbours l).subset (List.mem_map_of_mem hp))⟩

theorem level_ne_nil {l : List α} (hne : l ≠ []) : level pair l ≠ [] := by
  rcases l with _ | ⟨a, _ | ⟨b, l⟩⟩
  · exact absurd rfl hne
  · exact List.cons_ne_nil _ _
  · exact List.cons_ne_nil _ _

/-- The root is above the nodes, unless it is the only one. -/
theorem exists_rank_root {l : List α} {k : ℕ} (hne : l ≠ []) (hS : ∀ p ∈ pairs pair l, p ∈ S)
    (h : ∀ a ∈ l, Rank pair S k a) : ∃ j a, root pair l = some a ∧ Rank pair S j a ∧ k ≤ j ∧ (1 < l.length → k < j) := by
  fun_induction pairs pair l generalizing k with
  | case1 l hlen ih =>
    have hlevel := rank_level (fun p hp => hS p (List.mem_append_left _ hp)) h
    obtain ⟨j, a, hroot, hrank, hle, -⟩ := ih (level_ne_nil hne) (fun p hp => hS p (List.mem_append_right _ hp)) hlevel
    exact ⟨j, a, by rw [root, if_pos hlen, hroot], hrank, by omega, fun _ => by omega⟩
  | case2 l hlen =>
    obtain ⟨a, l, rfl⟩ := List.exists_cons_of_ne_nil hne
    refine ⟨k, a, by rw [root, if_neg hlen, List.head?_cons], h a List.mem_cons_self, le_rfl, fun hlt => ?_⟩
    exact absurd hlt hlen

theorem eq_of_root_eq_of_rank (hinj : S.InjOn fun p => pair p.1 p.2) {l l' : List α} {k : ℕ} (hne : l ≠ [])
    (hne' : l' ≠ []) (hl : l.Nodup) (hl' : l'.Nodup) (hS : ∀ p ∈ pairs pair l, p ∈ S) (hS' : ∀ p ∈ pairs pair l', p ∈ S)
    (h : ∀ a ∈ l, Rank pair S k a) (h' : ∀ a ∈ l', Rank pair S k a) (hroot : root pair l = root pair l') : l = l' := by
  fun_induction pairs pair l generalizing l' k with
  | case1 l hlen ih =>
    obtain ⟨j, a, hra, hrank, -, hlt⟩ := exists_rank_root (l := l) hne (by rwa [pairs, if_pos hlen]) h
    obtain ⟨j', a', hra', hrank', hle', hlt'⟩ := exists_rank_root hne' hS' h'
    obtain rfl : a = a' := Option.some.inj (hra.symm.trans (hroot.trans hra'))
    obtain rfl := hrank.unique hinj hrank'
    by_cases hlen' : 1 < l'.length
    · rw [pairs, if_pos hlen'] at hS'
      have hn : ∀ p ∈ neighbours l, p ∈ S := fun p hp => hS p (List.mem_append_left _ hp)
      have hn' : ∀ p ∈ neighbours l', p ∈ S := fun p hp => hS' p (List.mem_append_left _ hp)
      have hnodup : ∀ {l : List α}, l.Nodup → (∀ p ∈ neighbours l, p ∈ S) → (level pair l).Nodup := by
        intro l hl hn
        rw [level_eq_map]
        exact (nodup_neighbours hl).map_on fun p hp q hq heq => hinj (hn p hp) (hn q hq) heq
      have hlevel : level pair l = level pair l' := by
        refine ih (level_ne_nil hne) (level_ne_nil hne') (hnodup hl hn) (hnodup hl' hn')
          (fun p hp => hS p (List.mem_append_right _ hp)) (fun p hp => hS' p (List.mem_append_right _ hp))
          (rank_level hn h) (rank_level hn' h') ?_
        rwa [root.eq_def _ l, if_pos hlen, root.eq_def _ l', if_pos hlen'] at hroot
      refine neighbours_inj hl hl' ?_
      rw [level_eq_map, level_eq_map] at hlevel
      exact map_inj_on (fun p hp q hq heq => hinj (hn p hp) (hn' q hq) heq) hlevel
    · obtain ⟨b, rfl⟩ : ∃ b, l' = [b] := List.length_eq_one_iff.1 (by
        have := List.length_pos_iff.2 hne'
        omega)
      rw [root, if_neg hlen', List.head?_cons, Option.some.injEq] at hra'
      subst hra'
      have := hrank.unique hinj (h' b List.mem_cons_self)
      have := hlt hlen
      omega
  | case2 l hlen =>
    obtain ⟨a, rfl⟩ : ∃ a, l = [a] := List.length_eq_one_iff.1 (by
      have := List.length_pos_iff.2 hne
      omega)
    rw [root, if_neg hlen, List.head?_cons] at hroot
    obtain ⟨j, b, hrb, hrank, -, hlt⟩ := exists_rank_root hne' hS' h'
    obtain rfl : a = b := Option.some.inj (hroot.trans hrb)
    have := hrank.unique hinj (h a List.mem_cons_self)
    by_cases hlen' : 1 < l'.length
    · have := hlt hlen'
      omega
    · obtain ⟨b, rfl⟩ : ∃ b, l' = [b] := List.length_eq_one_iff.1 (by
        have := List.length_pos_iff.2 hne'
        omega)
      rw [root, if_neg hlen', List.head?_cons, Option.some.injEq] at hrb
      rw [hrb]

/-- Lists without repetition that have one root are equal, when the pairs hashed for them have different hashes and no
leaf is one of these. -/
theorem eq_of_root_eq {l l' : List α} (hne : l ≠ []) (hne' : l' ≠ []) (hl : l.Nodup) (hl' : l'.Nodup)
    (hinj : ∀ p ∈ pairs pair l ++ pairs pair l', ∀ q ∈ pairs pair l ++ pairs pair l',
      pair p.1 p.2 = pair q.1 q.2 → p = q)
    (hleaf : ∀ a ∈ l ++ l', ∀ p ∈ pairs pair l ++ pairs pair l', pair p.1 p.2 ≠ a)
    (hroot : root pair l = root pair l') : l = l' := by
  refine eq_of_root_eq_of_rank (S := {p | p ∈ pairs pair l ++ pairs pair l'}) (k := 0)
    (fun p hp q hq heq => hinj p hp q hq heq) hne hne' hl hl' (fun p hp => List.mem_append_left _ hp)
    (fun p hp => List.mem_append_right _ hp) (fun a ha => ?_) (fun a ha => ?_) hroot
  · exact hleaf a (List.mem_append_left _ ha)
  · exact hleaf a (List.mem_append_right _ ha)

end Unique

end Library.MerkleTrees
