import Mathlib.Data.List.Nodup
import Mathlib.Data.List.Basic

/-!
# Draining a pool of items that wait for keys

Items wait in a pool, each for a key. A queue holds the keys that have come; a turn takes the first key
off the queue, visits the items that wait for it, one after the other, and drops them from the pool. A visit
changes a state and may make a new key come, which goes to the end of the queue.

**`drain_queue`**: with as much fuel as there are keys and items the queue runs empty. **`drain_spec`** says what has
happened then: the items visited are those that waited for one of the keys, each was visited once, and after its key
had come; the others are still in the pool.
-/

namespace Library.Worklist

variable {κ ι σ : Type*}

/-- The state of a drain. -/
structure Drain (κ ι σ : Type*) where
  /-- The keys that have come and whose turn is still to come. -/
  queue : List κ
  /-- The items that wait, with their keys. -/
  pool : List (κ × ι)
  state : σ
  /-- The visits made: the state before each, and the item. -/
  visits : List (σ × ι) := []

variable (visit : ι → σ → σ × Option κ)

/-- A visit. -/
def visitOne (d : Drain κ ι σ) (i : ι) : Drain κ ι σ :=
  { d with
    state := (visit i d.state).1
    queue := d.queue ++ (visit i d.state).2.toList
    visits := d.visits ++ [(d.state, i)] }

/-- The keys that visits have made come. -/
def pushes (visits : List (σ × ι)) : List κ := visits.flatMap fun v => (visit v.2 v.1).2.toList

/-- The visits lead from one state to another. -/
def IsTrace : σ → List (σ × ι) → σ → Prop
  | s, [], t => s = t
  | s, v :: visits, t => v.1 = s ∧ IsTrace (visit v.2 s).1 visits t

@[simp] theorem pushes_append (l m : List (σ × ι)) : pushes visit (l ++ m) = pushes visit l ++ pushes visit m :=
  List.flatMap_append ..

variable {visit}

theorem IsTrace.append {l m : List (σ × ι)} {s t u : σ} (hl : IsTrace visit s l t) (hm : IsTrace visit t m u) :
    IsTrace visit s (l ++ m) u := by
  induction l generalizing s with
  | nil =>
    obtain rfl : s = t := hl
    exact hm
  | cons v l ih => exact ⟨hl.1, ih hl.2⟩

/-- **The rule of a trace**: what holds at the start and is kept by each visit holds at the end. -/
theorem IsTrace.keeps {P : σ → Prop} {l : List (σ × ι)} {s t : σ} (h : IsTrace visit s l t)
    (hvisit : ∀ v ∈ l, P v.1 → P (visit v.2 v.1).1) (hs : P s) : P t ∧ ∀ v ∈ l, P v.1 := by
  induction l generalizing s with
  | nil =>
    obtain rfl : s = t := h
    exact ⟨hs, fun v hv => absurd hv List.not_mem_nil⟩
  | cons v l ih =>
    obtain ⟨rfl, h⟩ := h
    obtain ⟨hend, hall⟩ := ih h (fun w hw => hvisit w (List.mem_cons_of_mem _ hw)) (hvisit v List.mem_cons_self hs)
    refine ⟨hend, fun w hw => ?_⟩
    rcases List.mem_cons.1 hw with rfl | hw
    · exact hs
    · exact hall w hw

/-- **The rule of a trace, with its past**: a relation between the visits made and the state. -/
theorem IsTrace.keeps_past {P : List (σ × ι) → σ → Prop} {m l : List (σ × ι)} {s t : σ} (h : IsTrace visit s l t)
    (hvisit : ∀ past v rest, l = past ++ v :: rest → P (m ++ past) v.1 → P (m ++ past ++ [v]) (visit v.2 v.1).1)
    (hs : P m s) : P (m ++ l) t ∧ ∀ past v rest, l = past ++ v :: rest → P (m ++ past) v.1 := by
  induction l generalizing s m with
  | nil =>
    obtain rfl : s = t := h
    exact ⟨by simpa using hs, fun past v rest he => by simp at he⟩
  | cons v l ih =>
    obtain ⟨rfl, h⟩ := h
    have hv := hvisit [] v l rfl (by simpa using hs)
    obtain ⟨hend, hall⟩ := ih (m := m ++ [v]) h (fun past w rest he hP => by
      have := hvisit (v :: past) w rest (by rw [he]; rfl)
      simpa using this (by simpa using hP)) (by simpa using hv)
    refine ⟨by simpa using hend, fun past w rest he => ?_⟩
    cases past with
    | nil =>
      obtain ⟨rfl, -⟩ := List.cons.inj he
      simpa using hs
    | cons u past =>
      obtain ⟨rfl, hl⟩ := List.cons.inj he
      simpa using hall past w rest hl

variable (visit) in
/-- The visits of a list of items. -/
theorem foldl_visitOne (items : List ι) (d : Drain κ ι σ) : ∃ visits, visits.map Prod.snd = items ∧
    IsTrace visit d.state visits (items.foldl (visitOne visit) d).state ∧
    (items.foldl (visitOne visit) d).queue = d.queue ++ pushes visit visits ∧
    (items.foldl (visitOne visit) d).pool = d.pool ∧
    (items.foldl (visitOne visit) d).visits = d.visits ++ visits := by
  induction items generalizing d with
  | nil => exact ⟨[], rfl, rfl, by simp [pushes], rfl, by simp⟩
  | cons i items ih =>
    obtain ⟨visits, hitems, htrace, hqueue, hpool, hvisits⟩ := ih (visitOne visit d i)
    refine ⟨(d.state, i) :: visits, by rw [List.map_cons, hitems], ⟨rfl, htrace⟩, ?_, hpool, ?_⟩
    · rw [List.foldl_cons, hqueue]
      simp [visitOne, pushes]
    · rw [List.foldl_cons, hvisits]
      simp [visitOne]

section Turns

variable [DecidableEq κ]

variable (visit) in
/-- The turn of a key. -/
def turn (d : Drain κ ι σ) (k : κ) (rest : List κ) : Drain κ ι σ :=
  let d := ((d.pool.filter fun e => e.1 = k).map Prod.snd).foldl (visitOne visit) { d with queue := rest }
  { d with pool := d.pool.filter fun e => e.1 ≠ k }

variable (visit) in
/-- Turns until the queue is empty. -/
def drain : ℕ → Drain κ ι σ → Drain κ ι σ
  | 0, d => d
  | fuel + 1, d =>
    match d.queue with
    | [] => d
    | k :: rest => drain fuel (turn visit d k rest)

variable {pool₀ : List (κ × ι)} {queue₀ : List κ} {s₀ : σ}

/-- What has happened once the keys `K` have had their turns. -/
structure Drained (visit : ι → σ → σ × Option κ) (queue₀ : List κ) (pool₀ : List (κ × ι)) (s₀ : σ) (K : List κ)
    (d : Drain κ ι σ) : Prop where
  trace : IsTrace visit s₀ d.visits d.state
  queue : K ++ d.queue = queue₀ ++ pushes visit d.visits
  pool : d.pool = pool₀.filter fun e => e.1 ∉ K
  visited : ∀ i, i ∈ d.visits.map Prod.snd ↔ ∃ k ∈ K, (k, i) ∈ pool₀
  once : (pool₀.map Prod.snd).Nodup → (d.visits.map Prod.snd).Nodup
  after : ∀ past v rest, d.visits = past ++ v :: rest → ∃ k, (k, v.2) ∈ pool₀ ∧ k ∈ queue₀ ++ pushes visit past

/-- A turn. -/
theorem Drained.turn {K : List κ} {d : Drain κ ι σ} (h : Drained visit queue₀ pool₀ s₀ K d) {k : κ} {rest : List κ}
    (hqueue : d.queue = k :: rest) : Drained visit queue₀ pool₀ s₀ (K ++ [k]) (turn visit d k rest) := by
  obtain ⟨visits, hitems, htrace, hpush, hpool, hvisits⟩ :=
    foldl_visitOne visit ((d.pool.filter fun e => e.1 = k).map Prod.snd) { d with queue := rest }
  have hwaits : ∀ i, i ∈ visits.map Prod.snd ↔ k ∉ K ∧ (k, i) ∈ pool₀ := by
    intro i
    rw [hitems, h.pool]
    simp only [List.mem_map, List.mem_filter, decide_eq_true_eq, Prod.exists, exists_eq_right]
    exact and_comm
  have hcame : k ∈ queue₀ ++ pushes visit d.visits := by
    rw [← h.queue, hqueue]
    simp
  refine ⟨?_, ?_, ?_, fun i => ?_, fun hnd => ?_, fun past v rest' he => ?_⟩
  · simp only [Worklist.turn, hvisits]
    exact h.trace.append htrace
  · simp only [Worklist.turn, hvisits, hpush, pushes_append]
    rw [← List.append_assoc queue₀, ← h.queue, hqueue]
    simp
  · simp only [Worklist.turn]
    rw [hpool, h.pool, List.filter_filter]
    refine List.filter_congr fun e _ => ?_
    by_cases hk : e.1 = k <;> simp [hk]
  · simp only [Worklist.turn, hvisits, List.map_append, List.mem_append, h.visited, hwaits, List.mem_singleton]
    constructor
    · rintro (⟨k', hk', hmem⟩ | ⟨-, hmem⟩)
      · exact ⟨k', .inl hk', hmem⟩
      · exact ⟨k, .inr rfl, hmem⟩
    · rintro ⟨k', hk' | rfl, hmem⟩
      · exact .inl ⟨k', hk', hmem⟩
      · by_cases hK : k' ∈ K
        · exact .inl ⟨k', hK, hmem⟩
        · exact .inr ⟨hK, hmem⟩
  · simp only [Worklist.turn, hvisits, List.map_append]
    refine List.Nodup.append (h.once hnd) ?_ fun i hi hi' => ?_
    · rw [hitems, h.pool]
      exact hnd.sublist ((List.filter_sublist.trans List.filter_sublist).map _)
    · -- an item waits for one key
      obtain ⟨k', hk', hmem'⟩ := (h.visited i).1 hi
      obtain ⟨hK, hmem⟩ := (hwaits i).1 hi'
      exact hK ((Prod.mk.inj (List.inj_on_of_nodup_map hnd hmem hmem' rfl)).1 ▸ hk')
  · simp only [Worklist.turn, hvisits] at he
    rcases List.append_eq_append_iff.1 he with ⟨l, hl, hrest⟩ | ⟨l, hl, hrest⟩
    · have hv : v.2 ∈ visits.map Prod.snd := by
        rw [hrest]
        exact List.mem_map_of_mem (by simp)
      refine ⟨k, ((hwaits v.2).1 hv).2, ?_⟩
      rw [hl, pushes_append, ← List.append_assoc]
      exact List.mem_append_left _ hcame
    · cases l with
      | nil =>
        have hv : v.2 ∈ visits.map Prod.snd := List.mem_map_of_mem (by rw [List.nil_append] at hrest; simp [← hrest])
        refine ⟨k, ((hwaits v.2).1 hv).2, ?_⟩
        rw [List.append_nil] at hl
        exact hl ▸ hcame
      | cons w l =>
        obtain ⟨rfl, -⟩ := List.cons.inj hrest
        exact h.after past v l hl

variable (visit) in
theorem turn_length (d : Drain κ ι σ) {k : κ} {rest : List κ} (hqueue : d.queue = k :: rest) :
    (turn visit d k rest).queue.length + (turn visit d k rest).pool.length < d.queue.length + d.pool.length := by
  obtain ⟨visits, hitems, -, hpush, hpool, -⟩ :=
    foldl_visitOne visit ((d.pool.filter fun e => e.1 = k).map Prod.snd) { d with queue := rest }
  have hlen : visits.length = (d.pool.filter fun e => e.1 = k).length := by
    rw [← List.length_map Prod.snd, hitems, List.length_map]
  have hle : (pushes visit visits).length ≤ visits.length := by
    clear hitems hpush hlen
    induction visits with
    | nil => simp [pushes]
    | cons v visits ih =>
      have hone : (visit v.2 v.1).2.toList.length ≤ 1 := by cases (visit v.2 v.1).2 <;> simp
      simp only [pushes, List.flatMap_cons, List.length_append, List.length_cons] at ih ⊢
      omega
  have hsplit := List.length_eq_length_filter_add (l := d.pool) fun e => decide (e.1 = k)
  simp only [turn, hpush, hpool, List.length_append, hqueue, List.length_cons]
  simp only [decide_not] at hsplit ⊢
  omega

variable (visit) in
/-- **With enough fuel the queue runs empty.** -/
theorem drain_queue {fuel : ℕ} {d : Drain κ ι σ} (h : d.queue.length + d.pool.length ≤ fuel) :
    (drain visit fuel d).queue = [] := by
  induction fuel generalizing d with
  | zero => exact List.length_eq_zero_iff.1 (by simp only [drain]; omega)
  | succ fuel ih =>
    rw [drain]
    split
    · next hq => exact hq
    · next k rest hq =>
      have hlt := turn_length visit d hq
      exact ih (by omega)

theorem Drained.drain {K : List κ} {d : Drain κ ι σ} (h : Drained visit queue₀ pool₀ s₀ K d) (fuel : ℕ) :
    ∃ K', Drained visit queue₀ pool₀ s₀ K' (drain visit fuel d) := by
  induction fuel generalizing K d with
  | zero => exact ⟨K, h⟩
  | succ fuel ih =>
    rw [Worklist.drain]
    split
    · exact ⟨K, h⟩
    · next k rest hq => exact ih (h.turn hq)

/-- **What a drain has done** when the queue is empty: the keys that came have all had their turns. -/
theorem drain_spec (visit : ι → σ → σ × Option κ) (queue₀ : List κ) (pool₀ : List (κ × ι)) (s₀ : σ) (fuel : ℕ)
    (hfuel : queue₀.length + pool₀.length ≤ fuel) :
    Drained visit queue₀ pool₀ s₀ (queue₀ ++ pushes visit (drain visit fuel ⟨queue₀, pool₀, s₀, []⟩).visits)
      (drain visit fuel ⟨queue₀, pool₀, s₀, []⟩) := by
  have hstart : Drained visit queue₀ pool₀ s₀ [] ⟨queue₀, pool₀, s₀, []⟩ :=
    ⟨rfl, by simp [pushes], by simp, by simp, fun _ => List.nodup_nil, fun past v rest he => by simp at he⟩
  obtain ⟨K, hK⟩ := hstart.drain fuel
  have hempty := drain_queue visit (d := ⟨queue₀, pool₀, s₀, []⟩) hfuel
  have heq := hK.queue
  rw [hempty, List.append_nil] at heq
  exact heq ▸ hK

end Turns

end Library.Worklist
