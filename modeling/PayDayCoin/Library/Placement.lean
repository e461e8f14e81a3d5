import Mathlib.Data.Int.Order.Basic
import Mathlib.Data.List.Pairwise
import Mathlib.Order.MinMax

/-!
# Placing what has no place

Items come one by one, some with a place and some without. One without a place is put behind everything that came before
it, and one with a place is moved up by as many items as have been put at its place or below. The places are compared
with places that have been given out, so an item may be moved too little. **`place_spec`** says when no two items meet: a
place that comes after an item without one is below everything before that item, or above it by as many places as there
were items without a place before (`Spaced`). The order of the items with a place is always kept.
-/

namespace Library.Placement

/-- How many of the places given out are not above a place. -/
def moved (given : List ℤ) (p : ℤ) : ℕ := given.countP (· ≤ p)

/-- The places of the items, and the place behind all of them. -/
def place (given : List ℤ) (next : ℤ) : List (Option ℤ) → List ℤ × ℤ
  | [] => ([], next)
  | none :: items =>
    (next :: (place (given ++ [next]) (next + 1) items).1, (place (given ++ [next]) (next + 1) items).2)
  | some p :: items =>
    ((p + moved given p) :: (place given (max next (p + moved given p + 1)) items).1,
      (place given (max next (p + moved given p + 1)) items).2)

/-- The place behind all places of some items. -/
def top : List (Option ℤ) → ℤ
  | [] => 0
  | none :: items => top items
  | some p :: items => max (p + 1) (top items)

/-- A place that comes after an item without one is below all places before that item, or above them by as many places
as there are items without one before. The items come after others, whose places are below `m`, and `k` of which have
none. -/
def SpacedFrom (m : ℤ) (k : ℕ) (items : List (Option ℤ)) : Prop :=
  ∀ l₁ l₂, items = l₁ ++ none :: l₂ → ∀ p, some p ∈ l₂ →
    p < max m (top l₁) ∨ max m (top l₁) + (k + l₁.countP Option.isNone : ℕ) ≤ p

/-- `SpacedFrom`, of all items. -/
def Spaced (items : List (Option ℤ)) : Prop := SpacedFrom 0 0 items

variable {given given' : List ℤ} {next m p q : ℤ} {k : ℕ} {items : List (Option ℤ)}

theorem moved_append : moved (given ++ given') p = moved given p + moved given' p := List.countP_append

variable (given) in
theorem moved_eq_zero (h : ∀ g ∈ given, p < g) : moved given p = 0 :=
  List.countP_eq_zero.2 fun g hg => by simpa using h g hg

variable (given) in
theorem moved_mono (h : p ≤ q) : moved given p ≤ moved given q :=
  List.countP_mono_left fun g _ hg => by
    simp only [decide_eq_true_eq] at hg ⊢
    exact hg.trans h

/-! ### Later items -/

/-- What is true of an item that is placed after some places were given out. -/
def Later (given : List ℤ) (next : ℤ) (item : Option ℤ) (q : ℤ) : Prop :=
  match item with
  | none => next ≤ q
  | some p => ∃ given', (∀ g ∈ given', next ≤ g) ∧ q = p + moved (given ++ given') p

theorem Later.of_given {item : Option ℤ} (h : Later (given ++ [next]) (next + 1) item q) : Later given next item q := by
  cases item with
  | none => exact (Int.le_add_one le_rfl).trans h
  | some p =>
    obtain ⟨given', hgiven, rfl⟩ := h
    refine ⟨next :: given', fun g hg => ?_, by rw [List.append_assoc]; rfl⟩
    rcases List.mem_cons.1 hg with rfl | hg
    · exact le_rfl
    · exact (Int.le_add_one le_rfl).trans (hgiven g hg)

theorem Later.of_le {next' : ℤ} {item : Option ℤ} (hle : next ≤ next') (h : Later given next' item q) :
    Later given next item q := by
  cases item with
  | none => exact hle.trans h
  | some p =>
    obtain ⟨given', hgiven, rfl⟩ := h
    exact ⟨given', fun g hg => hle.trans (hgiven g hg), rfl⟩

theorem later_of_mem (items : List (Option ℤ)) : ∀ (given : List ℤ) (next : ℤ),
    ∀ x ∈ items.zip (place given next items).1, Later given next x.1 x.2 := by
  induction items with
  | nil => intro given next x hx; cases hx
  | cons item items ih =>
    intro given next x hx
    cases item with
    | none =>
      rcases List.mem_cons.1 hx with rfl | hx
      · exact le_rfl
      · exact (ih _ _ x hx).of_given
    | some p =>
      rcases List.mem_cons.1 hx with rfl | hx
      · exact ⟨[], by simp, by rw [List.append_nil]⟩
      · exact (ih _ _ x hx).of_le (le_max_left _ _)

/-! ### What has come before -/

theorem SpacedFrom.of_none (h : SpacedFrom m k (none :: items)) (hm : 0 ≤ m) :
    (∀ p, some p ∈ items → p < m ∨ m + k ≤ p) ∧ SpacedFrom m (k + 1) items := by
  refine ⟨fun p hp => ?_, fun l₁ l₂ heq p hp => ?_⟩
  · have hall := h [] items rfl p hp
    rwa [top, max_eq_left hm, List.countP_nil, Nat.add_zero] at hall
  · have hall := h (none :: l₁) l₂ (by rw [heq]; rfl) p hp
    rwa [top, List.countP_cons_of_pos rfl, ← Nat.add_assoc, Nat.add_right_comm] at hall

theorem SpacedFrom.of_some (h : SpacedFrom m k (some p :: items)) : SpacedFrom (max m (p + 1)) k items := by
  intro l₁ l₂ heq p' hp'
  have hall := h (some p :: l₁) l₂ (by rw [heq]; rfl) p' hp'
  simpa [top, max_assoc] using hall

/-- What the items before have come to: a place below theirs is moved to one that is given already, and the next one is
above them by no more places than have been given out. -/
structure Behind (given : List ℤ) (next m : ℤ) : Prop where
  low : ∀ p < m, p + moved given p < next
  high : next ≤ m + given.length

theorem Behind.of_none (h : Behind given next m) : Behind (given ++ [next]) (next + 1) m where
  low p hp := by
    have hlow := h.low p hp
    rw [moved_append, moved_eq_zero [next] fun g hg => by rw [List.mem_singleton.1 hg]; omega]
    omega
  high := by
    have hhigh := h.high
    rw [List.length_append, List.length_singleton]
    omega

theorem Behind.of_some (h : Behind given next m) (p : ℤ) :
    Behind given (max next (p + moved given p + 1)) (max m (p + 1)) where
  low p' hp' := by
    rcases lt_max_iff.1 hp' with hp' | hp'
    · exact (h.low p' hp').trans_le (le_max_left _ _)
    · have hmono := moved_mono given (Int.lt_add_one_iff.1 hp')
      exact lt_max_of_lt_right (by omega)
  high := by
    have hhigh := h.high
    have hmoved : moved given p ≤ given.length := List.countP_le_length
    exact max_le (by omega) (by omega)

/-! ### Two items -/

/-- Two items do not meet, and are in the order of their places if they have some. -/
def Apart (x y : Option ℤ × ℤ) : Prop :=
  x.2 ≠ y.2 ∧ ∀ p p', x.1 = some p → y.1 = some p' → (p < p' → x.2 < y.2) ∧ (p' < p → y.2 < x.2)

theorem Apart.symm {x y : Option ℤ × ℤ} (h : Apart x y) : Apart y x :=
  ⟨h.1.symm, fun p p' hp hp' => (h.2 p' p hp' hp).symm⟩

theorem Later.apart_none (h : Behind given next m) {item : Option ℤ} (hlater : Later (given ++ [next]) (next + 1) item q)
    (hspaced : ∀ p, item = some p → p < m ∨ m + given.length ≤ p) : Apart (none, next) (item, q) := by
  refine ⟨?_, fun p p' hp => by cases hp⟩
  cases item with
  | none =>
    have hle : next + 1 ≤ q := hlater
    simp only [ne_eq]
    omega
  | some p =>
    obtain ⟨given', hgiven, rfl⟩ := hlater
    have hhigh := h.high
    simp only [ne_eq]
    rw [List.append_assoc, List.singleton_append, moved_append]
    by_cases hle : next ≤ p
    · have hpos : 0 < moved (next :: given') p := List.countP_pos_iff.2 ⟨next, List.mem_cons_self, by simpa using hle⟩
      omega
    · have hlow := h.low p ((hspaced p rfl).resolve_right (by omega))
      rw [moved_eq_zero (next :: given') fun g hg => ?_]
      · omega
      · rcases List.mem_cons.1 hg with rfl | hg
        · omega
        · have := hgiven g hg
          omega

theorem Later.apart_some {item : Option ℤ} (hlater : Later given (max next (p + moved given p + 1)) item q)
    (hne : item ≠ some p) : Apart (some p, p + moved given p) (item, q) := by
  cases item with
  | none =>
    have hle : p + moved given p + 1 ≤ q := (le_max_right _ _).trans hlater
    exact ⟨by simp only [ne_eq]; omega, fun p₁ p₂ _ h => by cases h⟩
  | some p' =>
    obtain ⟨given', hgiven, rfl⟩ := hlater
    have hlt : p < p' → p + moved given p < p' + moved (given ++ given') p' := fun h => by
      have hmono := moved_mono given h.le
      rw [moved_append]
      omega
    have hgt : p' < p → p' + moved (given ++ given') p' < p + moved given p := fun h => by
      have hmono := moved_mono given h.le
      rw [moved_append, moved_eq_zero given' fun g hg => ?_]
      · omega
      · have hg := (le_max_right _ _).trans (hgiven g hg)
        omega
    refine ⟨?_, fun p₁ p₂ h₁ h₂ => ?_⟩
    · rcases lt_trichotomy p p' with h | rfl | h
      · exact (hlt h).ne
      · exact absurd rfl hne
      · exact (hgt h).ne'
    · obtain rfl := Option.some.inj h₁
      obtain rfl := Option.some.inj h₂
      exact ⟨hlt, hgt⟩

/-! ### All items -/

theorem pairwise_place (items : List (Option ℤ)) : ∀ {given : List ℤ} {next m : ℤ}, Behind given next m → 0 ≤ m →
    SpacedFrom m given.length items → items.Pairwise (fun a b => ∀ p, a = some p → b ≠ some p) →
      (items.zip (place given next items).1).Pairwise Apart := by
  induction items with
  | nil => intro given next m _ _ _ _; exact List.Pairwise.nil
  | cons item items ih =>
    intro given next m h hm hspaced hdistinct
    obtain ⟨hfirst, hothers⟩ := List.pairwise_cons.1 hdistinct
    cases item with
    | none =>
      obtain ⟨hafter, hrest⟩ := hspaced.of_none hm
      refine List.pairwise_cons.2 ⟨fun x hx => ?_, ih h.of_none hm (by rwa [List.length_append]) hothers⟩
      exact (later_of_mem items _ _ x hx).apart_none h fun p hp => hafter p (hp ▸ (List.of_mem_zip hx).1)
    | some p =>
      refine List.pairwise_cons.2 ⟨fun x hx => ?_, ih (h.of_some p) (hm.trans (le_max_left _ _))
        hspaced.of_some hothers⟩
      exact (later_of_mem items _ _ x hx).apart_some (hfirst _ (List.of_mem_zip hx).1 p rfl)

theorem length_place (items : List (Option ℤ)) : ∀ (given : List ℤ) (next : ℤ),
    (place given next items).1.length = items.length := by
  induction items with
  | nil => intro given next; rfl
  | cons item items ih =>
    intro given next
    cases item with
    | none => exact congrArg (· + 1) (ih _ _)
    | some p => exact congrArg (· + 1) (ih _ _)

theorem place_bounds (items : List (Option ℤ)) (hpos : ∀ p, some p ∈ items → 0 ≤ p) : ∀ (given : List ℤ) (next : ℤ),
    0 ≤ next → next ≤ (place given next items).2 ∧
      ∀ q ∈ (place given next items).1, 0 ≤ q ∧ q < (place given next items).2 := by
  induction items with
  | nil => intro given next _; exact ⟨le_rfl, fun q hq => by cases hq⟩
  | cons item items ih =>
    intro given next hnext
    have ih := ih fun p hp => hpos p (List.mem_cons_of_mem _ hp)
    cases item with
    | none =>
      obtain ⟨hle, hall⟩ := ih (given ++ [next]) (next + 1) (by omega)
      refine ⟨(Int.le_add_one le_rfl).trans hle, fun q hq => ?_⟩
      rcases List.mem_cons.1 hq with rfl | hq
      · exact ⟨hnext, hle⟩
      · exact hall q hq
    | some p =>
      have hp := hpos p List.mem_cons_self
      obtain ⟨hle, hall⟩ := ih given (max next (p + moved given p + 1)) (hnext.trans (le_max_left _ _))
      refine ⟨(le_max_left _ _).trans hle, fun q hq => ?_⟩
      rcases List.mem_cons.1 hq with rfl | hq
      · exact ⟨by omega, (le_max_right _ _).trans hle⟩
      · exact hall q hq

/-- No two items meet, those with a place keep their order, and all are below the place behind. -/
theorem place_spec (hspaced : Spaced items) (hdistinct : items.Pairwise fun a b => ∀ p, a = some p → b ≠ some p)
    (hpos : ∀ p, some p ∈ items → 0 ≤ p) :
    (items.zip (place [] 0 items).1).Pairwise Apart ∧
      ∀ q ∈ (place [] 0 items).1, 0 ≤ q ∧ q < (place [] 0 items).2 := by
  have hbehind : Behind [] 0 0 := ⟨fun p hp => by rwa [moved_eq_zero [] (by simp), Int.natCast_zero, Int.add_zero], le_rfl⟩
  exact ⟨pairwise_place items hbehind le_rfl hspaced hdistinct, (place_bounds items hpos [] 0 le_rfl).2⟩

end Library.Placement
