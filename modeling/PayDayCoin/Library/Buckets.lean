import Mathlib.Data.Fintype.Card
import Mathlib.Data.List.Count
import Mathlib.Algebra.Group.Pi.Basic
import Mathlib.Algebra.GroupWithZero.Nat

/-!
# Buckets

A family of buckets, each a set or a list of elements. `holders` are the buckets that hold an element, and `tally` is
how often it is in each of them. The lemmas say how these change when an element is put into a bucket, is taken out, or
takes the place of another one.
-/

namespace Library.Buckets

variable {ι α : Type*} [DecidableEq ι] [DecidableEq α] {i j : ι} {a b c : α} {n : ℕ}

/-! ### Buckets that are sets -/

section Sets

variable {buckets : ι → Finset α}

/-- An element is put into a bucket. -/
def put (buckets : ι → Finset α) (i : ι) (a : α) : ι → Finset α := Function.update buckets i (insert a (buckets i))

/-- An element is taken out of a bucket. -/
def takeOut (buckets : ι → Finset α) (i : ι) (a : α) : ι → Finset α := Function.update buckets i ((buckets i).erase a)

/-- An element is taken out of every bucket. -/
def takeOutAll (buckets : ι → Finset α) (a : α) : ι → Finset α := fun i => (buckets i).erase a

theorem mem_put : b ∈ put buckets i a j ↔ b ∈ buckets j ∨ (j = i ∧ b = a) := by
  rcases eq_or_ne j i with rfl | hne
  · simp [put, or_comm]
  · simp [put, hne]

theorem mem_takeOut : b ∈ takeOut buckets i a j ↔ b ∈ buckets j ∧ ¬(j = i ∧ b = a) := by
  rcases eq_or_ne j i with rfl | hne
  · simp [takeOut, and_comm]
  · simp [takeOut, hne]

omit [DecidableEq ι] in
theorem mem_takeOutAll : b ∈ takeOutAll buckets a j ↔ b ∈ buckets j ∧ b ≠ a := by
  simp [takeOutAll, and_comm]

theorem card_put_le (h : ∀ j, (buckets j).card ≤ n) (hi : (buckets i).card < n) (j : ι) :
    (put buckets i a j).card ≤ n := by
  rcases eq_or_ne j i with rfl | hne
  · rw [put, Function.update_self]
    exact (Finset.card_insert_le _ _).trans hi
  · rw [put, Function.update_of_ne hne]
    exact h j

theorem card_takeOut_le (h : ∀ j, (buckets j).card ≤ n) (j : ι) : (takeOut buckets i a j).card ≤ n :=
  (Finset.card_le_card fun _ hb => (mem_takeOut.1 hb).1).trans (h j)

theorem card_takeOut_lt (h : ∀ j, (buckets j).card ≤ n) (ha : a ∈ buckets i) : (takeOut buckets i a i).card < n := by
  rw [takeOut, Function.update_self]
  exact (Finset.card_erase_lt_of_mem ha).trans_le (h i)

omit [DecidableEq ι] in
theorem card_takeOutAll_le (h : ∀ j, (buckets j).card ≤ n) (j : ι) : (takeOutAll buckets a j).card ≤ n :=
  (Finset.card_erase_le).trans (h j)

omit [DecidableEq ι] in
theorem card_takeOutAll_lt (h : ∀ j, (buckets j).card ≤ n) (ha : a ∈ buckets i) : (takeOutAll buckets a i).card < n :=
  (Finset.card_erase_lt_of_mem ha).trans_le (h i)

variable [Fintype ι]

/-- The buckets that hold an element. -/
def holders (buckets : ι → Finset α) (a : α) : Finset ι := Finset.univ.filter fun i => a ∈ buckets i

omit [DecidableEq ι] in
@[simp] theorem mem_holders : i ∈ holders buckets a ↔ a ∈ buckets i := by simp [holders]

omit [DecidableEq ι] in
theorem holders_eq_empty : holders buckets a = ∅ ↔ ∀ i, a ∉ buckets i := by
  simp [Finset.eq_empty_iff_forall_notMem]

theorem holders_put_self : holders (put buckets i a) a = insert i (holders buckets a) := by
  ext j
  simp [mem_put, or_comm]

theorem holders_put_of_ne (h : b ≠ a) : holders (put buckets i a) b = holders buckets b := by
  ext j
  simp [mem_put, h]

theorem holders_takeOut_self : holders (takeOut buckets i a) a = (holders buckets a).erase i := by
  ext j
  simp [mem_takeOut, and_comm]

theorem holders_takeOut_of_ne (h : b ≠ a) : holders (takeOut buckets i a) b = holders buckets b := by
  ext j
  simp [mem_takeOut, h]

omit [DecidableEq ι] in
theorem holders_takeOutAll_self : holders (takeOutAll buckets a) a = ∅ := by
  ext j
  simp [mem_takeOutAll]

omit [DecidableEq ι] in
theorem holders_takeOutAll_of_ne (h : b ≠ a) : holders (takeOutAll buckets a) b = holders buckets b := by
  ext j
  simp [mem_takeOutAll, h]

end Sets

/-! ### Buckets that are lists -/

section Lists

variable {buckets : ι → List α} {l : List α} {pos : ℕ}

/-- How often an element is in each bucket. -/
def tally (buckets : ι → List α) (a : α) : ι → ℕ := fun i => (buckets i).count a

/-- An element is put at the end of a bucket. -/
def push (buckets : ι → List α) (i : ι) (a : α) : ι → List α := Function.update buckets i (buckets i ++ [a])

/-- An element takes a place in a bucket. -/
def putAt (buckets : ι → List α) (i : ι) (pos : ℕ) (a : α) : ι → List α :=
  Function.update buckets i ((buckets i).set pos a)

theorem tally_update (buckets : ι → List α) (i : ι) (l : List α) (a : α) :
    tally (Function.update buckets i l) a = Function.update (tally buckets a) i (l.count a) := by
  funext j
  rcases eq_or_ne j i with rfl | hne
  · simp [tally]
  · simp [tally, hne]

theorem tally_of_perm (h : l.Perm (buckets i)) (a : α) : tally (Function.update buckets i l) a = tally buckets a := by
  rw [tally_update, h.count_eq]
  exact Function.update_eq_self i _

theorem tally_push_self (h : tally buckets a = 0) : tally (push buckets i a) a = Pi.single i 1 := by
  have hi : (buckets i).count a = 0 := congrFun h i
  rw [push, tally_update, h, List.count_append, hi, List.count_singleton_self]
  rfl

theorem tally_push_of_ne (h : b ≠ a) : tally (push buckets i a) b = tally buckets b := by
  rw [push, tally_update, List.count_append, List.count_singleton, beq_false_of_ne h.symm]
  exact Function.update_eq_self i _

theorem tally_putAt_new (h : tally buckets a = 0) (hpos : (buckets i)[pos]? = some b) :
    tally (putAt buckets i pos a) a = Pi.single i 1 := by
  obtain ⟨hlt, hb⟩ := List.getElem?_eq_some_iff.1 hpos
  have hi : (buckets i).count a = 0 := congrFun h i
  have hne : b ≠ a := fun heq => List.count_eq_zero.1 hi (heq ▸ hb ▸ List.getElem_mem hlt)
  rw [putAt, tally_update, h, List.count_set hlt, hb, hi]
  simp [hne, Pi.single]

theorem tally_putAt_old (h : tally buckets b = Pi.single i 1) (hpos : (buckets i)[pos]? = some b) (hne : a ≠ b) :
    tally (putAt buckets i pos a) b = 0 := by
  obtain ⟨hlt, hb⟩ := List.getElem?_eq_some_iff.1 hpos
  have hi : (buckets i).count b = 1 := by
    have := congrFun h i
    rwa [Pi.single_eq_same] at this
  rw [putAt, tally_update, h, List.count_set hlt, hb, hi]
  simp [hne, Pi.single]

theorem tally_putAt_of_ne (hpos : (buckets i)[pos]? = some b) (hca : c ≠ a) (hcb : c ≠ b) :
    tally (putAt buckets i pos a) c = tally buckets c := by
  obtain ⟨hlt, hb⟩ := List.getElem?_eq_some_iff.1 hpos
  rw [putAt, tally_update, List.count_set hlt, hb]
  simp only [beq_iff_eq, hca.symm, hcb.symm, if_false, Nat.sub_zero, Nat.add_zero]
  exact Function.update_eq_self i _

theorem mem_of_tally_eq_single (h : tally buckets a = Pi.single i 1) : a ∈ buckets j ↔ j = i := by
  have hj : tally buckets a j = (Pi.single i 1 : ι → ℕ) j := congrFun h j
  rw [tally] at hj
  rw [← List.count_pos_iff, hj]
  rcases eq_or_ne j i with rfl | hne
  · simp
  · simp [hne]

omit [DecidableEq ι] in
theorem not_mem_of_tally_eq_zero (h : tally buckets a = 0) : a ∉ buckets j := List.count_eq_zero.1 (congrFun h j)

omit [DecidableEq α] in
theorem length_push_le (h : ∀ j, (buckets j).length ≤ n) (hi : (buckets i).length < n) (j : ι) :
    (push buckets i a j).length ≤ n := by
  rcases eq_or_ne j i with rfl | hne
  · rw [push, Function.update_self, List.length_append, List.length_singleton]
    exact hi
  · rw [push, Function.update_of_ne hne]
    exact h j

omit [DecidableEq α] in
theorem length_putAt (j : ι) : (putAt buckets i pos a j).length = (buckets j).length := by
  rcases eq_or_ne j i with rfl | hne
  · rw [putAt, Function.update_self, List.length_set]
  · rw [putAt, Function.update_of_ne hne]

end Lists

/-! ### Two elements of a list trade places -/

section Swap

variable {l : List α} {p q : ℕ}

omit [DecidableEq α] in
theorem swap_perm (hp : l[p]? = some a) (hq : l[q]? = some b) : ((l.set p b).set q a).Perm l := by
  obtain ⟨hlt, rfl⟩ := List.getElem?_eq_some_iff.1 hp
  obtain ⟨hlt', rfl⟩ := List.getElem?_eq_some_iff.1 hq
  exact List.set_set_perm hlt hlt'

end Swap

end Library.Buckets
