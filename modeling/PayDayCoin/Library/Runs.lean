import Mathlib.Data.List.Basic

/-!
# Runs

A system that takes one event after the other: `run` is the state after a list of events,
and `Along` says that each event meets a condition in the state that it comes to. The
rules carry facts from one step to a whole run: an invariant (**`invariant_of_along`**), the
exact condition of a property (**`forall_take_iff_along`**), the point at which a fact was
brought about (**`exists_of_along`**, **`exists_origin`**), and when two runs over the same events
agree (**`agree_of_lockstep`**, **`agree_iff_alongUntil`**).
-/

namespace Library.Runs

variable {σ ε : Type*} (step : σ → ε → σ)

/-- The state after a list of events. -/
def run (s : σ) (events : List ε) : σ := events.foldl step s

/-- Each event of a run meets a condition in the state that it comes to. -/
def Along (P : σ → ε → Prop) : σ → List ε → Prop
  | _, [] => True
  | s, e :: events => P s e ∧ Along P (step s e) events

/-- Each event meets a condition, up to one that leads to a state where `stop` holds. -/
def AlongUntil (P : ε → Prop) (stop : σ → Prop) : σ → List ε → Prop
  | _, [] => True
  | s, e :: events => P e ∧ (stop (step s e) ∨ AlongUntil P stop (step s e) events)

/-- What is observed at each event of a run. -/
def observations {β : Type*} (obs : σ → ε → β) : σ → List ε → List β
  | _, [] => []
  | s, e :: events => obs s e :: observations obs (step s e) events

variable {step}

instance instDecidableAlong {P : σ → ε → Prop} [∀ s e, Decidable (P s e)] :
    ∀ (s : σ) (events : List ε), Decidable (Along step P s events)
  | _, [] => isTrue trivial
  | s, e :: events =>
    have : Decidable (Along step P (step s e) events) := instDecidableAlong (step s e) events
    inferInstanceAs (Decidable (_ ∧ _))

instance instDecidableAlongUntil {P : ε → Prop} {stop : σ → Prop} [DecidablePred P] [DecidablePred stop] :
    ∀ (s : σ) (events : List ε), Decidable (AlongUntil step P stop s events)
  | _, [] => isTrue trivial
  | s, e :: events =>
    have : Decidable (AlongUntil step P stop (step s e) events) := instDecidableAlongUntil (step s e) events
    inferInstanceAs (Decidable (_ ∧ (_ ∨ _)))

/-- **The invariant rule**: what holds at the start and is kept by each event holds at the
end of a run. -/
theorem run_induct {I : σ → Prop} {events : List ε} (hstep : ∀ e ∈ events, ∀ s, I s → I (step s e)) {s : σ}
    (h : I s) : I (run step s events) :=
  List.foldlRecOn events step h fun s hs e he => hstep e he s hs

/-- **The invariant rule**, under a condition: what holds at the start and is kept by each event of the run
holds at its end. -/
theorem invariant_of_along {P : σ → ε → Prop} {I : σ → Prop} {events : List ε} :
    ∀ {s : σ}, (∀ e ∈ events, ∀ s, P s e → I s → I (step s e)) → Along step P s events → I s →
      I (run step s events) := by
  induction events with
  | nil => intro s _ _ hI; exact hI
  | cons e events ih =>
    intro s hstep h hI
    exact ih (fun e he => hstep e (List.mem_cons_of_mem _ he)) h.2 (hstep e List.mem_cons_self s h.1 hI)

/-- Two conditions that agree on each event as long as one of them keeps the invariant hold
along the same runs. -/
theorem along_iff_along {P Q : σ → ε → Prop} {I : σ → Prop} (hiff : ∀ s e, I s → (P s e ↔ Q s e))
    (hnext : ∀ s e, I s → P s e → I (step s e)) {events : List ε} :
    ∀ {s : σ}, I s → (Along step P s events ↔ Along step Q s events) := by
  induction events with
  | nil => exact fun _ => Iff.rfl
  | cons e events ih =>
    intro s hI
    rw [Along, Along, ← hiff s e hI]
    exact and_congr_right fun hP => ih (hnext s e hI hP)

/-- A condition along a run is one on each of its events. -/
theorem along_iff_forall {P : σ → ε → Prop} {events : List ε} :
    ∀ {s : σ}, Along step P s events ↔ ∀ n e, events[n]? = some e → P (run step s (events.take n)) e := by
  induction events with
  | nil => exact fun {s} => iff_of_true trivial fun n e he => by cases he
  | cons e events ih =>
    intro s
    rw [Along, ih]
    refine ⟨fun ⟨hP, hall⟩ n e' he => ?_, fun hall => ⟨hall 0 e rfl, fun n e' he => hall (n + 1) e' he⟩⟩
    cases n with
    | zero =>
      obtain rfl := Option.some.inj he
      exact hP
    | succ n => exact hall n e' he

theorem Along.take {P : σ → ε → Prop} {events : List ε} {s : σ} (h : Along step P s events) (n : ℕ) :
    Along step P s (events.take n) := by
  rw [along_iff_forall] at h ⊢
  intro m e he
  obtain ⟨hm, he⟩ := Option.ite_none_right_eq_some.1 (List.getElem?_take ▸ he)
  rw [List.take_take, Nat.min_eq_left (Nat.le_of_lt hm)]
  exact h m e he

theorem run_take_succ {events : List ε} {s : σ} {n : ℕ} {e : ε} (h : events[n]? = some e) :
    run step s (events.take (n + 1)) = step (run step s (events.take n)) e := by
  rw [run, List.take_add_one, h, List.foldl_append]
  rfl

/-- **The rule of progress**: a preorder that each event goes up in, under a condition, goes
up between any two points of a run. -/
theorem progress_of_along {P : σ → ε → Prop} {R : σ → σ → Prop} (hrefl : ∀ s, R s s)
    (htrans : ∀ {s t u}, R s t → R t u → R s u) (hstep : ∀ s e, P s e → R s (step s e)) {events : List ε} {s : σ}
    (h : Along step P s events) {n m : ℕ} (hle : n ≤ m) :
    R (run step s (events.take n)) (run step s (events.take m)) := by
  induction hle with
  | refl => exact hrefl _
  | @step m _ ih =>
    cases he : events[m]? with
    | none =>
      have hend := List.getElem?_eq_none_iff.1 he
      rw [List.take_of_length_le hend] at ih
      rw [List.take_of_length_le (Nat.le_succ_of_le hend)]
      exact ih
    | some e =>
      rw [run_take_succ he]
      exact htrans ih (hstep _ e (along_iff_forall.1 h m e he))

/-- **The exact condition of a property**: when the invariant gives `Q` and is kept as long
as `P` holds, and an event without `P` leads out of `Q`, then `Q` holds at every point of
a run exactly if `P` holds along it. -/
theorem forall_take_iff_along {P : σ → ε → Prop} {I Q : σ → Prop} (hQ : ∀ s, I s → Q s)
    (hstep : ∀ s e, P s e → I s → I (step s e)) (hbreak : ∀ s e, ¬P s e → I s → ¬Q (step s e)) {events : List ε} :
    ∀ {s : σ}, I s → ((∀ n, Q (run step s (events.take n))) ↔ Along step P s events) := by
  induction events with
  | nil =>
    intro s hI
    simp only [List.take_nil, Along, iff_true]
    exact fun _ => hQ s hI
  | cons e events ih =>
    intro s hI
    rw [Along]
    by_cases hP : P s e
    · rw [← ih (hstep s e hP hI)]
      refine ⟨fun hall => ⟨hP, fun n => hall (n + 1)⟩, fun ⟨_, hall⟩ n => ?_⟩
      cases n with
      | zero => exact hQ s hI
      | succ n => exact hall n
    · exact ⟨fun hall => absurd (hall 1) (hbreak s e hP hI), fun h => absurd h.1 hP⟩

/-- **The rule of origin**: what holds at a point of a run and not at its start came about
in one of the steps in between. -/
theorem exists_origin {Q : σ → Prop} {events : List ε} {s : σ} {n : ℕ} (hs : ¬Q s)
    (hn : Q (run step s (events.take n))) : ∃ m e, m < n ∧ events[m]? = some e ∧ ¬Q (run step s (events.take m)) ∧
      Q (run step s (events.take (m + 1))) := by
  induction n with
  | zero => exact absurd hn hs
  | succ n ih =>
    by_cases hQ : Q (run step s (events.take n))
    · obtain ⟨m, e, hm, hrest⟩ := ih hQ
      exact ⟨m, e, Nat.lt_succ_of_lt hm, hrest⟩
    · cases he : events[n]? with
      | none =>
        have hend := List.getElem?_eq_none_iff.1 he
        rw [List.take_of_length_le (Nat.le_succ_of_le hend)] at hn
        rw [List.take_of_length_le hend] at hQ
        exact absurd hn hQ
      | some e => exact ⟨n, e, Nat.lt_succ_self n, he, hQ, hn⟩

/-! ### Two runs -/

/-- Two runs over the same events show the same observations, and their states agree in a
part. -/
def Agree {β γ : Type*} (step : σ → ε → σ) (obs : σ → ε → β) (part : σ → γ) (s t : σ) (events : List ε) : Prop :=
  observations step obs s events = observations step obs t events ∧
    ∀ n, part (run step s (events.take n)) = part (run step t (events.take n))

section TwoRuns

variable {β γ : Type*} {obs : σ → ε → β} {part : σ → γ} {s t : σ} {e : ε} {events : List ε}

theorem agree_nil (h : part s = part t) : Agree step obs part s t [] :=
  ⟨rfl, fun n => by simpa [run] using h⟩

/-- Two runs agree if they agree at the first event and after it. -/
theorem agree_cons (h : part s = part t) :
    Agree step obs part s t (e :: events) ↔
      obs s e = obs t e ∧ Agree step obs part (step s e) (step t e) events := by
  simp only [Agree, observations, List.cons.injEq]
  refine ⟨fun ⟨⟨h₁, h₂⟩, h₃⟩ => ⟨h₁, h₂, fun n => h₃ (n + 1)⟩, fun ⟨h₁, h₂, h₃⟩ => ⟨⟨h₁, h₂⟩, fun n => ?_⟩⟩
  cases n with
  | zero => exact h
  | succ n => exact h₃ n

/-- **The rule of lockstep**: two runs from states in a relation that each event keeps, with
the same observation, agree. -/
theorem agree_of_lockstep {R : σ → σ → Prop} (hpart : ∀ s t, R s t → part s = part t)
    (hstep : ∀ s t e, R s t → obs s e = obs t e ∧ R (step s e) (step t e)) :
    ∀ {s t : σ}, R s t → Agree step obs part s t events := by
  induction events with
  | nil => intro s t h; exact agree_nil (hpart s t h)
  | cons e events ih =>
    intro s t h
    obtain ⟨hobs, hnext⟩ := hstep s t e h
    exact (agree_cons (hpart s t h)).2 ⟨hobs, ih hnext⟩

/-- **When two runs agree**: they start apart, and an event without `P` shows the
difference. As long as `P` holds they either stay apart or, where `stop` holds, come
together for good. Then they agree exactly if `P` holds up to a point where `stop` does. -/
theorem agree_iff_alongUntil {P : ε → Prop} {stop : σ → Prop} {R Q : σ → σ → Prop}
    (hpart : ∀ s t, R s t ∨ Q s t → part s = part t)
    (hshow : ∀ s t e, Q s t → ¬P e → obs s e ≠ obs t e)
    (hapart : ∀ s t e, Q s t → P e → obs s e = obs t e ∧
      (stop (step s e) → R (step s e) (step t e)) ∧ (¬stop (step s e) → Q (step s e) (step t e)))
    (htogether : ∀ s t e, R s t → obs s e = obs t e ∧ R (step s e) (step t e)) :
    ∀ {s t : σ}, Q s t → (Agree step obs part s t events ↔ AlongUntil step P stop s events) := by
  induction events with
  | nil =>
    intro s t h
    exact iff_of_true (agree_nil (hpart s t (.inr h))) trivial
  | cons e events ih =>
    intro s t h
    rw [agree_cons (hpart s t (.inr h)), AlongUntil]
    by_cases hP : P e
    · obtain ⟨hobs, hR, hQ⟩ := hapart s t e h hP
      refine (and_iff_right hobs).trans (Iff.trans ?_ (and_iff_right hP).symm)
      by_cases hstop : stop (step s e)
      · exact iff_of_true (agree_of_lockstep (fun s t h => hpart s t (.inl h)) htogether (hR hstop)) (.inl hstop)
      · exact (ih (hQ hstop)).trans (or_iff_right hstop).symm
    · exact iff_of_false (fun hagree => hshow s t e h hP hagree.1) fun hend => hP hend.1

end TwoRuns

end Library.Runs
