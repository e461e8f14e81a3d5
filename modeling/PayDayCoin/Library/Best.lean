import Mathlib.Data.List.MinMax
import Mathlib.Logic.Function.Basic

/-!
# The best of a stream

Entries come one after the other, and a register keeps the one that ranks highest; of two
that rank alike it keeps the first. What it ends with is `List.argmax` of the entries
(**`foldl_record`**, for registers by key), so two nodes that get the same entries in
different orders end with the same as far as the best ones agree, and no further
(**`register_agree_iff`**).
-/

namespace Library.Best

variable {α β κ ρ : Type*} [LinearOrder ρ] (rank : α → ρ)

/-- The entry takes the place of the best so far if it ranks higher. -/
def better (best : Option α) (a : α) : Option α :=
  match best with
  | none => some a
  | some b => if rank b < rank a then some a else some b

/-- No entry ranks higher. -/
def IsBest (entries : List α) (a : α) : Prop := a ∈ entries ∧ ∀ b ∈ entries, rank b ≤ rank a

variable {rank}

theorem better_eq_some {best : Option α} {a b : α} (h : better rank best a = some b) : b = a ∨ best = some b := by
  cases best with
  | none => exact .inl (Option.some.inj h).symm
  | some c =>
    simp only [better] at h
    split at h
    · exact .inl (Option.some.inj h).symm
    · exact .inr h

theorem foldl_better (l : List α) : l.foldl (better rank) none = l.argmax rank := by
  refine congrArg (fun f => List.foldl f none l) (funext fun best => funext fun a => ?_)
  cases best <;> rfl

theorem isBest_of_mem_argmax {l : List α} {a : α} (h : l.argmax rank = some a) : IsBest rank l a :=
  ⟨List.argmax_mem h, fun _ hb => List.le_of_mem_argmax hb h⟩

/-- The first entry stays if no later one ranks higher. -/
theorem argmax_cons_of_le {l : List α} {a : α} (h : ∀ b ∈ l, rank b ≤ rank a) : (a :: l).argmax rank = some a := by
  rw [List.argmax_cons]
  cases hmax : l.argmax rank with
  | none => rfl
  | some b => exact if_neg (not_lt.2 (h b (List.argmax_mem hmax)))

/-- **Two orders agree** when the best entries do. -/
theorem map_argmax_eq {g : α → β} {l l' : List α} (hsame : ∀ a, a ∈ l ↔ a ∈ l')
    (hagree : ∀ a b, IsBest rank l a → IsBest rank l b → g a = g b) :
    (l.argmax rank).map g = (l'.argmax rank).map g := by
  cases hmax : l.argmax rank with
  | none =>
    have hnil : l = [] := List.argmax_eq_none.1 hmax
    have hnil' : l' = [] := List.eq_nil_iff_forall_not_mem.2 fun a hmem => by
      rw [← hsame, hnil] at hmem
      cases hmem
    rw [hnil', List.argmax_nil]
  | some a =>
    have ha := isBest_of_mem_argmax hmax
    cases hmax' : l'.argmax rank with
    | none =>
      have hmem := (hsame a).1 ha.1
      rw [List.argmax_eq_none.1 hmax'] at hmem
      cases hmem
    | some b =>
      have hb := isBest_of_mem_argmax hmax'
      have hbest : IsBest rank l b := ⟨(hsame b).2 hb.1, fun c hc => hb.2 c ((hsame c).1 hc)⟩
      exact congrArg some (hagree a b ha hbest)

/-! ### Registers by key -/

variable [DecidableEq κ] (rank) (key : α → κ)

/-- An entry is offered to the register of its key. -/
def record (m : κ → Option α) (a : α) : κ → Option α := Function.update m (key a) (better rank (m (key a)) a)

variable {rank key}

/-- A register keeps entries of its key. -/
theorem record_key {m : κ → Option α} (hm : ∀ k a, m k = some a → key a = k) {a b : α} {k : κ}
    (h : record rank key m a k = some b) : key b = k := by
  rw [record] at h
  by_cases hk : k = key a
  · subst hk
    rw [Function.update_self] at h
    rcases better_eq_some h with rfl | hold
    · rfl
    · exact hm _ _ hold
  · rw [Function.update_of_ne hk] at h
    exact hm k b h

/-- **What the registers end with**: for each key the first of the best entries. -/
theorem foldl_record (l : List α) (k : κ) :
    l.foldl (record rank key) (fun _ => none) k = (l.filter fun a => key a = k).argmax rank := by
  rw [← foldl_better]
  generalize hm : (fun _ : κ => (none : Option α)) = m
  have hk : m k = none := by rw [← hm]
  rw [← hk]
  clear hm hk
  induction l generalizing m with
  | nil => rfl
  | cons a l ih =>
    rw [List.foldl_cons, ih, record]
    by_cases hkey : key a = k
    · subst hkey
      rw [Function.update_self, List.filter_cons_of_pos (by simp), List.foldl_cons]
    · rw [Function.update_of_ne (Ne.symm hkey), List.filter_cons_of_neg (by simpa using hkey)]

/-- **All orders agree on a register** exactly if the best entries of its key do. -/
theorem register_agree_iff {g : α → β} {entries : List α} {k : κ} :
    (∀ l l' : List α, (∀ a, a ∈ l ↔ a ∈ entries) → (∀ a, a ∈ l' ↔ a ∈ entries) →
      (l.foldl (record rank key) (fun _ => none) k).map g = (l'.foldl (record rank key) (fun _ => none) k).map g) ↔
      ∀ a b, IsBest rank (entries.filter fun a => key a = k) a → IsBest rank (entries.filter fun a => key a = k) b →
        g a = g b := by
  simp only [foldl_record]
  have hfilter : ∀ {l : List α}, (∀ a, a ∈ l ↔ a ∈ entries) →
      ∀ a, (a ∈ l.filter fun a => key a = k) ↔ a ∈ entries.filter fun a => key a = k := fun hl a => by
    rw [List.mem_filter, List.mem_filter, hl]
  constructor
  · -- a best entry that comes first is the one that stays
    intro hall a b ha hb
    have hfirst : ∀ {c}, (IsBest rank (entries.filter fun a => key a = k) c) →
        (∀ d, d ∈ c :: entries ↔ d ∈ entries) ∧ ((c :: entries).filter fun a => key a = k).argmax rank = some c := by
      intro c hc
      obtain ⟨hmem, hkey⟩ := List.mem_filter.1 hc.1
      refine ⟨fun d => List.mem_cons.trans (or_iff_right_of_imp fun hd => hd ▸ hmem), ?_⟩
      rw [List.filter_cons_of_pos (p := fun a => decide (key a = k)) hkey]
      exact argmax_cons_of_le hc.2
    have heq := hall (a :: entries) (b :: entries) (hfirst ha).1 (hfirst hb).1
    rw [(hfirst ha).2, (hfirst hb).2] at heq
    exact Option.some.inj heq
  · intro hagree l l' hl hl'
    refine map_argmax_eq (fun a => (hfilter hl a).trans (hfilter hl' a).symm) fun a b ha hb => hagree a b ?_ ?_
    · exact ⟨(hfilter hl a).1 ha.1, fun c hc => ha.2 c ((hfilter hl c).2 hc)⟩
    · exact ⟨(hfilter hl b).1 hb.1, fun c hc => hb.2 c ((hfilter hl c).2 hc)⟩

end Library.Best
