import Mathlib.Order.Lattice
import Mathlib.Data.List.Basic

/-!
# Sorted maps

A map as the list of its entries in the order of their keys: `get?` looks a key up, and `set` adds an entry in its place
or replaces the one that is there, `erase` takes one out. What is found after a change (**`get?_set`**,
**`get?_erase`**), and which entry is first (**`head?_set_of_lt`**, **`head?_set_of_not_lt`**).
-/

namespace Library.SortedMaps

variable {κ α : Type*} [LinearOrder κ]

/-- The value of a key. -/
def get? : List (κ × α) → κ → Option α
  | [], _ => none
  | (k', a) :: l, k => if k' = k then some a else get? l k

/-- An entry takes its place. -/
def set : List (κ × α) → κ → α → List (κ × α)
  | [], k, a => [(k, a)]
  | (k', a') :: l, k, a =>
    if k < k' then (k, a) :: (k', a') :: l
    else if k' = k then (k, a) :: l
    else (k', a') :: set l k a

theorem get?_cons (i k : κ) (b : α) (l : List (κ × α)) :
    get? ((i, b) :: l) k = if i = k then some b else get? l k := rfl

theorem set_cons (i k : κ) (b a : α) (l : List (κ × α)) :
    set ((i, b) :: l) k a =
      if k < i then (k, a) :: (i, b) :: l else if i = k then (k, a) :: l else (i, b) :: set l k a := rfl

theorem get?_set (l : List (κ × α)) (k k' : κ) (a : α) :
    get? (set l k a) k' = if k = k' then some a else get? l k' := by
  induction l with
  | nil => rfl
  | cons e l ih =>
    obtain ⟨i, b⟩ := e
    rw [set_cons]
    split
    · rw [get?_cons]
    · split
      · next hi =>
        rw [get?_cons, get?_cons, hi]
        split <;> rfl
      · next hi =>
        rw [get?_cons, get?_cons, ih]
        split
        · next hk => rw [if_neg (hk ▸ Ne.symm hi)]
        · rfl

theorem get?_of_head? {l : List (κ × α)} {k : κ} {a : α} (h : l.head? = some (k, a)) : get? l k = some a := by
  cases l with
  | nil => cases h
  | cons e l =>
    obtain rfl := Option.some.inj h
    rw [get?_cons, if_pos rfl]

/-- An entry after the first leaves the first alone. -/
theorem head?_set_of_lt {l : List (κ × α)} {k k' : κ} {a a' : α} (h : l.head? = some (k', a')) (hlt : k' < k) :
    (set l k a).head? = some (k', a') := by
  cases l with
  | nil => cases h
  | cons e l =>
    obtain rfl := Option.some.inj h
    rw [set_cons, if_neg (not_lt_of_gt hlt), if_neg (ne_of_lt hlt)]
    rfl

/-- Any other entry becomes the first. -/
theorem head?_set_of_not_lt {l : List (κ × α)} {k : κ} {a : α} (h : ∀ k' a', l.head? = some (k', a') → ¬k' < k) :
    (set l k a).head? = some (k, a) := by
  cases l with
  | nil => rfl
  | cons e l =>
    obtain ⟨i, b⟩ := e
    rw [set_cons]
    split
    · rfl
    · next hk =>
      rw [if_pos (le_antisymm (not_lt.1 hk) (not_lt.1 (h i b rfl)))]
      rfl

/-! ### The order -/

/-- The keys go up. -/
def Sorted (l : List (κ × α)) : Prop := l.Pairwise fun a b => a.1 < b.1

theorem mem_set {l : List (κ × α)} {k : κ} {a : α} {e : κ × α} (h : e ∈ set l k a) : e = (k, a) ∨ e ∈ l := by
  induction l with
  | nil => exact .inl (List.mem_singleton.1 h)
  | cons e' l ih =>
    obtain ⟨i, b⟩ := e'
    rw [set_cons] at h
    split at h
    · exact List.mem_cons.1 h
    · split at h
      · exact (List.mem_cons.1 h).imp_right (List.mem_cons_of_mem _)
      · rcases List.mem_cons.1 h with rfl | h
        · exact .inr List.mem_cons_self
        · exact (ih h).imp_right (List.mem_cons_of_mem _)

theorem Sorted.set {l : List (κ × α)} (h : Sorted l) (k : κ) (a : α) : Sorted (set l k a) := by
  induction l with
  | nil => exact List.pairwise_singleton _ _
  | cons e l ih =>
    obtain ⟨i, b⟩ := e
    obtain ⟨hfirst, hrest⟩ := List.pairwise_cons.1 h
    rw [set_cons]
    split
    · next hk =>
      refine List.pairwise_cons.2 ⟨fun e he => ?_, h⟩
      rcases List.mem_cons.1 he with rfl | he
      · exact hk
      · exact lt_trans hk (hfirst e he)
    · next hk =>
      split
      · next hi => exact List.pairwise_cons.2 ⟨fun e he => hi ▸ hfirst e he, hrest⟩
      · next hi =>
        refine List.pairwise_cons.2 ⟨fun e he => ?_, ih hrest⟩
        rcases mem_set he with rfl | he
        · exact lt_of_le_of_ne (not_lt.1 hk) hi
        · exact hfirst e he

theorem get?_of_mem {l : List (κ × α)} (h : Sorted l) {e : κ × α} (he : e ∈ l) : get? l e.1 = some e.2 := by
  induction l with
  | nil => cases he
  | cons e' l ih =>
    obtain ⟨hfirst, hrest⟩ := List.pairwise_cons.1 h
    rw [get?_cons]
    rcases List.mem_cons.1 he with rfl | he
    · rw [if_pos rfl]
    · rw [if_neg (ne_of_lt (hfirst e he)), ih hrest he]

theorem mem_of_get? {l : List (κ × α)} {k : κ} {a : α} (h : get? l k = some a) : (k, a) ∈ l := by
  induction l with
  | nil => cases h
  | cons e l ih =>
    obtain ⟨i, b⟩ := e
    rw [get?_cons] at h
    split at h
    · next hi =>
      obtain rfl := Option.some.inj h
      rw [hi]
      exact List.mem_cons_self
    · exact List.mem_cons_of_mem _ (ih h)

theorem Sorted.nodup {l : List (κ × α)} (h : Sorted l) : l.Nodup := by
  refine List.Pairwise.imp (fun {a b} hlt => ?_) h
  rintro rfl
  exact lt_irrefl a.1 hlt

/-- Two sorted lists with the same values are the same. -/
theorem Sorted.ext {l l' : List (κ × α)} (h : Sorted l) (h' : Sorted l') (hget : ∀ k, get? l k = get? l' k) : l = l' := by
  have hperm : l.Perm l' := (List.perm_ext_iff_of_nodup h.nodup h'.nodup).2 fun e =>
    ⟨fun he => mem_of_get? (hget e.1 ▸ get?_of_mem h he), fun he => mem_of_get? (hget e.1 ▸ get?_of_mem h' he)⟩
  exact hperm.eq_of_pairwise (fun a b _ _ hab hba => absurd (lt_trans hab hba) (lt_irrefl a.1)) h h'

/-! ### Taking an entry out -/

/-- A key and its value go. -/
def erase (l : List (κ × α)) (k : κ) : List (κ × α) := l.filter fun e => e.1 ≠ k

theorem get?_erase (l : List (κ × α)) (k k' : κ) : get? (erase l k) k' = if k = k' then none else get? l k' := by
  induction l with
  | nil => exact (ite_self _).symm
  | cons e l ih =>
    obtain ⟨i, b⟩ := e
    by_cases hi : i = k
    · subst hi
      rw [erase, List.filter_cons_of_neg (by simp), ← erase, ih, get?_cons]
      split <;> rfl
    · rw [erase, List.filter_cons_of_pos (by simpa using hi), ← erase, get?_cons, get?_cons, ih]
      split
      · next hk => rw [if_neg (hk ▸ Ne.symm hi)]
      · rfl

theorem Sorted.erase {l : List (κ × α)} (h : Sorted l) (k : κ) : Sorted (erase l k) := List.Pairwise.filter _ h

theorem length_erase_lt {l : List (κ × α)} {e : κ × α} (h : e ∈ l) : (erase l e.1).length < l.length :=
  List.length_filter_lt_length_iff_exists.2 ⟨e, h, by simp⟩

theorem length_erase_of_sorted {l : List (κ × α)} (hs : Sorted l) {e : κ × α} (h : e ∈ l) :
    (erase l e.1).length + 1 = l.length := by
  induction l with
  | nil => cases h
  | cons e' l ih =>
    obtain ⟨hfirst, hrest⟩ := List.pairwise_cons.1 hs
    rcases List.mem_cons.1 h with rfl | h
    · have hkeep : SortedMaps.erase l e.1 = l := List.filter_eq_self.2 fun e' he' => by
        simpa using ne_of_gt (hfirst e' he')
      rw [SortedMaps.erase, List.filter_cons_of_neg (by simp), ← SortedMaps.erase, hkeep, List.length_cons]
    · rw [SortedMaps.erase, List.filter_cons_of_pos (by simpa using ne_of_lt (hfirst e h)), ← SortedMaps.erase,
        List.length_cons, List.length_cons, ih hrest h]

theorem exists_get?_of_mem {l : List (κ × α)} {e : κ × α} (h : e ∈ l) : ∃ a, get? l e.1 = some a := by
  induction l with
  | nil => cases h
  | cons e' l ih =>
    rw [get?_cons]
    split
    · exact ⟨_, rfl⟩
    · next hne =>
      rcases List.mem_cons.1 h with rfl | h
      · exact absurd rfl hne
      · exact ih h

/-! ### Entries as a collection -/

theorem mem_iff_get? {l : List (κ × α)} (h : Sorted l) {e : κ × α} : e ∈ l ↔ get? l e.1 = some e.2 :=
  ⟨get?_of_mem h, mem_of_get?⟩

/-- An entry that is set stands beside those of the other keys. -/
theorem perm_set {l : List (κ × α)} (h : Sorted l) (k : κ) (a : α) : (set l k a).Perm ((k, a) :: erase l k) := by
  have hnot : (k, a) ∉ erase l k := by simp [erase]
  refine (List.perm_ext_iff_of_nodup (h.set k a).nodup (List.nodup_cons.2 ⟨hnot, (h.erase k).nodup⟩)).2 fun e => ?_
  rw [mem_iff_get? (h.set k a), get?_set, List.mem_cons, mem_iff_get? (h.erase k), get?_erase]
  obtain ⟨i, b⟩ := e
  by_cases hi : k = i
  · subst hi
    simp [eq_comm]
  · simp [hi, Ne.symm hi]

theorem perm_erase {l : List (κ × α)} (h : Sorted l) {k : κ} {a : α} (hget : get? l k = some a) :
    l.Perm ((k, a) :: erase l k) := by
  have hself : set l k a = l := (h.set k a).ext h fun i => by
    rw [get?_set]
    split
    · next hi => rw [← hi, hget]
    · rfl
  have hperm := perm_set h k a
  rwa [hself] at hperm

theorem erase_of_get?_eq_none {l : List (κ × α)} (h : Sorted l) {k : κ} (hget : get? l k = none) : erase l k = l := by
  refine List.filter_eq_self.2 fun e he => ?_
  have hne : e.1 ≠ k := by
    rintro rfl
    rw [get?_of_mem h he] at hget
    cases hget
  simpa using hne

/-! ### Equal keys -/

/-- An entry comes behind those of the same key. -/
def insertEqual : List (κ × α) → κ → α → List (κ × α)
  | [], k, a => [(k, a)]
  | e :: l, k, a => if e.1 ≤ k then e :: insertEqual l k a else (k, a) :: e :: l

theorem perm_insertEqual (l : List (κ × α)) (k : κ) (a : α) : (insertEqual l k a).Perm ((k, a) :: l) := by
  induction l with
  | nil => exact .refl _
  | cons e l ih =>
    rw [insertEqual]
    split
    · exact (ih.cons e).trans (.swap _ _ l)
    · exact .refl _

theorem pairwise_insertEqual {l : List (κ × α)} (h : l.Pairwise fun a b => a.1 ≤ b.1) (k : κ) (a : α) :
    (insertEqual l k a).Pairwise fun a b => a.1 ≤ b.1 := by
  induction l with
  | nil => exact List.pairwise_singleton _ _
  | cons e l ih =>
    obtain ⟨hfirst, hrest⟩ := List.pairwise_cons.1 h
    rw [insertEqual]
    split
    · next hk =>
      refine List.pairwise_cons.2 ⟨fun e' he' => ?_, ih hrest⟩
      rcases List.mem_cons.1 ((perm_insertEqual l k a).mem_iff.1 he') with rfl | he'
      · exact hk
      · exact hfirst e' he'
    · next hk =>
      refine List.pairwise_cons.2 ⟨fun e' he' => ?_, h⟩
      have hle := (not_le.1 hk).le
      rcases List.mem_cons.1 he' with rfl | he'
      · exact hle
      · exact hle.trans (hfirst e' he')

/-- The first entry whose key is not below `k`. -/
def lowerBound (l : List (κ × α)) (k : κ) : Option (κ × α) := l.find? fun e => k ≤ e.1

theorem mem_of_lowerBound {l : List (κ × α)} {k : κ} {e : κ × α} (h : lowerBound l k = some e) : e ∈ l :=
  List.mem_of_find?_eq_some h

end Library.SortedMaps
