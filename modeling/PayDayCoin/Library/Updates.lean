import Mathlib.Data.List.Basic

/-!
# Updates of a list

One element of a list is changed: what the change does not show (**`map_modify_of_eq`**), and
what the elements are afterwards, when the one that a test finds is changed
(**`mem_modify_findIdx`**); the changed one is among them (**`modified_mem`**).
-/

namespace Library.Updates

variable {α β : Type*}

/-- What a change of one element does not show. -/
theorem map_modify_of_eq {f : α → β} (g : α → α) (hf : ∀ a, f (g a) = f a) (i : ℕ) (l : List α) :
    (l.modify i g).map f = l.map f := by
  refine List.ext_getElem? fun j => ?_
  rw [List.getElem?_map, List.getElem?_map, List.getElem?_modify]
  split
  · cases l[j]? with
    | none => rfl
    | some a => exact congrArg some (hf a)
  · cases l[j]? <;> rfl

/-- The elements after the one that a test finds is changed. -/
theorem mem_modify_findIdx {p : α → Bool} {g : α → α} {l : List α} {a : α}
    (h : a ∈ l.modify (l.findIdx p) g) : a ∈ l ∨ ∃ b, l.find? p = some b ∧ a = g b := by
  induction l with
  | nil => cases h
  | cons b l ih =>
    rw [List.findIdx_cons] at h
    cases hb : p b with
    | true =>
      rw [hb, cond_true, List.modify_zero_cons, List.mem_cons] at h
      rcases h with rfl | h
      · exact .inr ⟨b, List.find?_cons_of_pos hb, rfl⟩
      · exact .inl (List.mem_cons_of_mem _ h)
    | false =>
      rw [hb, cond_false, List.modify_succ_cons, List.mem_cons] at h
      rcases h with rfl | h
      · exact .inl List.mem_cons_self
      · refine (ih h).imp (List.mem_cons_of_mem _) fun ⟨c, hc, ha⟩ => ⟨c, ?_, ha⟩
        rw [List.find?_cons_of_neg (by rw [hb]; exact Bool.false_ne_true), hc]

theorem modified_mem {p : α → Bool} (g : α → α) {l : List α} {b : α} (h : l.find? p = some b) :
    g b ∈ l.modify (l.findIdx p) g := by
  induction l with
  | nil => cases h
  | cons a l ih =>
    rw [List.findIdx_cons]
    cases ha : p a with
    | true =>
      rw [List.find?_cons_of_pos ha] at h
      obtain rfl := Option.some.inj h
      rw [cond_true, List.modify_zero_cons]
      exact List.mem_cons_self
    | false =>
      rw [List.find?_cons_of_neg (by rw [ha]; exact Bool.false_ne_true)] at h
      rw [cond_false, List.modify_succ_cons]
      exact List.mem_cons_of_mem _ (ih h)

end Library.Updates
