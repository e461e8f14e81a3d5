import Mathlib.Data.List.Forall2

/-!
# Matching in order

Each of some items is to be matched with one of some offers, in the order of both. `greedy` gives an offer to the first item
that is left when it suits, and passes it over when it does not. It finds a matching whenever there is one
(**`greedy_iff`**), since an offer that suits the first item serves it as well as any later one.
-/

namespace Library.Matching

variable {α β : Type*} {p : α → β → Bool}

/-- The items against the offers, each offer going to the first item left. -/
def greedy (p : α → β → Bool) : List α → List β → Bool
  | [], _ => true
  | _ :: _, [] => false
  | a :: as, b :: bs => if p a b then greedy p as bs else greedy p (a :: as) bs

/-- The items match offers that stand in the same order. -/
def Matches (p : α → β → Bool) (as : List α) (bs : List β) : Prop :=
  ∃ cs, cs.Sublist bs ∧ List.Forall₂ (fun a b => p a b = true) as cs

theorem matches_nil (bs : List β) : Matches p [] bs := ⟨[], List.nil_sublist bs, .nil⟩

theorem Matches.length_le {as : List α} {bs : List β} (h : Matches p as bs) : as.length ≤ bs.length := by
  obtain ⟨cs, hsub, hall⟩ := h
  rw [hall.length_eq]
  exact hsub.length_le

theorem not_matches_of_length {as : List α} {bs : List β} (h : bs.length < as.length) : ¬ Matches p as bs :=
  fun hm => absurd hm.length_le (Nat.not_le.2 h)

/-- An offer that suits the first item may go to it. -/
theorem matches_cons_of_suits {a : α} {as : List α} {b : β} {bs : List β} (h : p a b = true) :
    Matches p (a :: as) (b :: bs) ↔ Matches p as bs := by
  constructor
  · rintro ⟨cs, hsub, hall⟩
    cases hall with
    | cons _ hall => exact ⟨_, hsub.tail, hall⟩
  · rintro ⟨cs, hsub, hall⟩
    exact ⟨b :: cs, hsub.cons_cons b, .cons h hall⟩

/-- An offer that does not suit the first item goes to none. -/
theorem matches_cons_of_not_suits {a : α} {as : List α} {b : β} {bs : List β} (h : ¬ p a b = true) :
    Matches p (a :: as) (b :: bs) ↔ Matches p (a :: as) bs := by
  constructor
  · rintro ⟨cs, hsub, hall⟩
    cases hsub with
    | cons _ hsub => exact ⟨cs, hsub, hall⟩
    | cons_cons _ hsub =>
      cases hall with
      | cons hab _ => exact absurd hab h
  · rintro ⟨cs, hsub, hall⟩
    exact ⟨cs, hsub.cons b, hall⟩

/-- Giving each offer to the first item that it suits finds a matching if there is one. -/
theorem greedy_iff (as : List α) (bs : List β) : greedy p as bs = true ↔ Matches p as bs := by
  induction bs generalizing as with
  | nil =>
    cases as with
    | nil => exact iff_of_true rfl (matches_nil [])
    | cons a as => exact iff_of_false Bool.false_ne_true (not_matches_of_length (Nat.succ_pos _))
  | cons b bs ih =>
    cases as with
    | nil => exact iff_of_true rfl (matches_nil _)
    | cons a as =>
      rw [greedy]
      by_cases h : p a b = true
      · rw [if_pos h, ih, matches_cons_of_suits h]
      · rw [if_neg h, ih, matches_cons_of_not_suits h]

/-- With more items than offers there is no match. -/
theorem greedy_of_length {as : List α} {bs : List β} (h : bs.length < as.length) : greedy p as bs = false :=
  Bool.eq_false_iff.2 fun hg => not_matches_of_length h ((greedy_iff as bs).1 hg)

/-! ### What is matched -/

theorem forall₂_mem_left {R : α → β → Prop} {as : List α} {bs : List β} (h : List.Forall₂ R as bs) {a : α} (ha : a ∈ as) :
    ∃ b ∈ bs, R a b := by
  induction h with
  | nil => cases ha
  | cons hab _ ih =>
    rcases List.mem_cons.1 ha with rfl | ha
    · exact ⟨_, List.mem_cons_self, hab⟩
    · obtain ⟨b, hb, hab⟩ := ih ha
      exact ⟨b, List.mem_cons_of_mem _ hb, hab⟩

theorem forall₂_mem_right {R : α → β → Prop} {as : List α} {bs : List β} (h : List.Forall₂ R as bs) {b : β} (hb : b ∈ bs) :
    ∃ a ∈ as, R a b := forall₂_mem_left h.flip hb

/-! ### The first of some offers -/

/-- Of the offers that are chosen, the first are the same when the choice is cut to them before others are chosen too. -/
theorem take_filter_or {c d q : β → Bool} {n : ℕ} {bs : List β} (hsub : ∀ b ∈ bs, d b = true → c b = true)
    (hall : ∀ b ∈ (bs.filter c).take n, d b = true) :
    (bs.filter fun b => d b || q b).take n = (bs.filter fun b => c b || q b).take n := by
  induction bs generalizing n with
  | nil => rfl
  | cons b bs ih =>
    have hsub' : ∀ b' ∈ bs, d b' = true → c b' = true := fun b' hb' => hsub b' (List.mem_cons_of_mem _ hb')
    rcases n with _ | n
    · rw [List.take_zero, List.take_zero]
    rcases hc : c b with _ | _
    · have hd : d b = false := Bool.eq_false_iff.2 fun hd => by
        rw [hsub b List.mem_cons_self hd] at hc
        cases hc
      rw [List.filter_cons_of_neg (by rw [hc]; decide)] at hall
      rcases hq : q b with _ | _
      · rw [List.filter_cons_of_neg (by simp [hd, hq]), List.filter_cons_of_neg (by simp [hc, hq])]
        exact ih hsub' hall
      · rw [List.filter_cons_of_pos (by simp [hq]), List.filter_cons_of_pos (by simp [hq]), List.take_succ_cons,
          List.take_succ_cons, ih hsub' fun b' hb' => hall b' (List.take_subset_take_left _ (Nat.le_succ n) hb')]
    · rw [List.filter_cons_of_pos hc, List.take_succ_cons] at hall
      have hd : d b = true := hall b List.mem_cons_self
      rw [List.filter_cons_of_pos (by simp [hd]), List.filter_cons_of_pos (by simp [hc]), List.take_succ_cons,
        List.take_succ_cons, ih hsub' fun b' hb' => hall b' (List.mem_cons_of_mem _ hb')]

/-- Choosers who each take the first of their choices take enough together when they choose enough together. -/
theorem le_length_filter_any_take [BEq β] [LawfulBEq β] {choices : List (β → Bool)} {n : ℕ} {bs : List β} :
    n ≤ (bs.filter fun b => choices.any fun c => decide (b ∈ (bs.filter c).take n)).length ↔
      n ≤ (bs.filter fun b => choices.any fun c => c b).length := by
  have hmono : ∀ p q : β → Bool, (∀ b ∈ bs, p b = true → q b = true) → (bs.filter p).length ≤ (bs.filter q).length := by
    intro p q hpq
    rw [← List.countP_eq_length_filter, ← List.countP_eq_length_filter]
    exact List.countP_mono_left hpq
  refine ⟨fun h => Nat.le_trans h (hmono _ _ fun b _ hb => ?_), fun h => ?_⟩
  · obtain ⟨c, hc, hmem⟩ := List.any_eq_true.1 hb
    exact List.any_eq_true.2 ⟨c, hc, (List.mem_filter.1 (List.mem_of_mem_take (of_decide_eq_true hmem))).2⟩
  by_cases hsome : ∃ c ∈ choices, n ≤ (bs.filter c).length
  · -- one of them alone chooses enough
    obtain ⟨c, hc, hn⟩ := hsome
    have hself : ((bs.filter c).take n).filter (fun b => choices.any fun c => decide (b ∈ (bs.filter c).take n)) =
        (bs.filter c).take n :=
      List.filter_eq_self.2 fun b hb => List.any_eq_true.2 ⟨c, hc, decide_eq_true hb⟩
    have hsub := ((List.take_sublist n (bs.filter c)).trans List.filter_sublist).filter
      fun b => choices.any fun c => decide (b ∈ (bs.filter c).take n)
    rw [hself] at hsub
    have hle := hsub.length_le
    rwa [List.length_take, Nat.min_eq_left hn] at hle
  · -- nobody has to leave any out
    refine Nat.le_trans h (hmono _ _ fun b hb hany => ?_)
    obtain ⟨c, hc, hcb⟩ := List.any_eq_true.1 hany
    have hfew : (bs.filter c).length ≤ n := Nat.le_of_lt (Nat.lt_of_not_le fun hn => hsome ⟨c, hc, hn⟩)
    refine List.any_eq_true.2 ⟨c, hc, decide_eq_true ?_⟩
    rw [List.take_of_length_le hfew]
    exact List.mem_filter.2 ⟨hb, hcb⟩

end Library.Matching
