import Mathlib.Data.List.Basic

/-!
# Chains of checks

A validation routine is a chain of checks, each of which may stop it with an
error, threaded through loops over lists. It is written in `Except`: `rejectIf`
is one check, `bind` is the order of the checks, and `List.foldlM` is a loop.
`bind_eq_ok` and `rejectIf_eq_ok` take a successful run apart, check by check;
**`foldlM_induct`** is the invariant rule of a loop: what holds at the start, and
is kept by each turn that succeeds, holds when the loop has succeeded. The
version `foldlM_induct_split` also tells each turn which elements came before.
-/

namespace Library.Checks

universe u

variable {ε : Type*} {α β σ : Type u}

/-- One check: stop with `e` when `c` holds. -/
def rejectIf (c : Bool) (e : ε) : Except ε Unit := if c then .error e else .ok ()

@[simp] theorem rejectIf_eq_ok {c : Bool} {e : ε} {u : Unit} : rejectIf c e = .ok u ↔ c = false := by
  cases c <;> simp [rejectIf]

@[simp] theorem bind_eq_ok {x : Except ε α} {f : α → Except ε β} {b : β} :
    (x >>= f) = .ok b ↔ ∃ a, x = .ok a ∧ f a = .ok b := by
  cases x with
  | error e => simp [bind, Except.bind]
  | ok a => simp [bind, Except.bind]

@[simp] theorem pure_eq_ok {a b : α} : (pure a : Except ε α) = .ok b ↔ a = b := by
  simp [pure, Except.pure]

theorem exists_eq_ok_of_isOk {x : Except ε α} (h : x.isOk = true) : ∃ a, x = .ok a := by
  cases x with
  | error e => cases h
  | ok a => exact ⟨a, rfl⟩

/-- A lookup that must succeed: the value, or the error `e`. -/
def orReject (x : Option α) (e : ε) : Except ε α :=
  match x with
  | some a => .ok a
  | none => .error e

@[simp] theorem orReject_eq_ok {x : Option α} {e : ε} {a : α} : orReject x e = .ok a ↔ x = some a := by
  cases x <;> simp [orReject]

@[simp] theorem mapError_eq_ok {ε' : Type*} {f : ε → ε'} {x : Except ε α} {a : α} :
    x.mapError f = .ok a ↔ x = .ok a := by
  cases x <;> simp [Except.mapError]

theorem foldlM_cons_eq_ok {f : σ → α → Except ε σ} {a : α} {l : List α} {s t : σ} :
    (a :: l).foldlM f s = .ok t ↔ ∃ s', f s a = .ok s' ∧ l.foldlM f s' = .ok t := by
  rw [List.foldlM_cons, bind_eq_ok]

theorem foldlM_nil_eq_ok {f : σ → α → Except ε σ} {s t : σ} : ([] : List α).foldlM f s = .ok t ↔ s = t := by
  rw [List.foldlM_nil, pure_eq_ok]

theorem foldlM_append_eq_ok {f : σ → α → Except ε σ} {l m : List α} {s t : σ} :
    (l ++ m).foldlM f s = .ok t ↔ ∃ s', l.foldlM f s = .ok s' ∧ m.foldlM f s' = .ok t := by
  rw [List.foldlM_append, bind_eq_ok]

/-- **The invariant rule of a loop**, with the elements already handled: `P l₁ s` says
what holds in state `s` when the turns over `l₁` have succeeded. -/
theorem foldlM_induct_split {f : σ → α → Except ε σ} {P : List α → σ → Prop} {l : List α}
    (step : ∀ l₁ a l₂ s s', l = l₁ ++ a :: l₂ → P l₁ s → f s a = .ok s' → P (l₁ ++ [a]) s')
    {s t : σ} (h₀ : P [] s) (h : l.foldlM f s = .ok t) : P l t := by
  suffices key : ∀ m l₁ s, l = l₁ ++ m → P l₁ s → m.foldlM f s = .ok t → P l t from
    key l [] s rfl h₀ h
  intro m
  induction m with
  | nil =>
    intro l₁ s hl hP hm
    rw [foldlM_nil_eq_ok] at hm
    subst hm
    rwa [hl, List.append_nil]
  | cons a m ih =>
    intro l₁ s hl hP hm
    obtain ⟨s', hs, hm⟩ := foldlM_cons_eq_ok.1 hm
    exact ih (l₁ ++ [a]) s' (by simp [hl]) (step l₁ a m s s' hl hP hs) hm

/-- **The invariant rule of a loop**: what holds at the start and is kept by each
successful turn holds at the end. -/
theorem foldlM_induct {f : σ → α → Except ε σ} {P : σ → Prop} {l : List α}
    (step : ∀ a ∈ l, ∀ s s', P s → f s a = .ok s' → P s')
    {s t : σ} (h₀ : P s) (h : l.foldlM f s = .ok t) : P t :=
  foldlM_induct_split (P := fun _ => P)
    (fun l₁ a l₂ s s' hl hP hs => step a (by simp [hl]) s s' hP hs) h₀ h

/-- A loop of checks that keeps no state succeeds when each of its checks does. -/
theorem forM_eq_ok {f : α → Except ε PUnit.{u + 1}} {l : List α} {u : PUnit} :
    forM l f = .ok u ↔ ∀ a ∈ l, f a = .ok ⟨⟩ := by
  induction l with
  | nil => simp
  | cons a l ih =>
    simp only [List.forM_cons, bind_eq_ok, ih, List.forall_mem_cons]
    exact ⟨fun ⟨⟨⟩, h₁, h₂⟩ => ⟨h₁, h₂⟩, fun ⟨h₁, h₂⟩ => ⟨⟨⟩, h₁, h₂⟩⟩

/-! ### Steps until one fails -/

/-- A step on a state that a failure leaves as it was. -/
def attempt (x : Except ε σ) (s : σ) : σ × Option ε :=
  match x with
  | .ok s' => (s', none)
  | .error e => (s, some e)

/-- Takes the steps of a list in order and stops after the first that fails: the state
reached, and the error it stopped with. -/
def runUntil (f : α → σ → σ × Option ε) : List α → σ → σ × Option ε
  | [], s => (s, none)
  | a :: l, s =>
    match f a s with
    | (s', none) => runUntil f l s'
    | (s', some e) => (s', some e)

theorem attempt_eq_none {x : Except ε σ} {s s' : σ} : attempt x s = (s', none) ↔ x = .ok s' := by
  cases x <;> simp [attempt]

/-- A run that comes to its end: its first step succeeds, and so does the rest. -/
theorem runUntil_cons_eq_none {f : α → σ → σ × Option ε} {a : α} {l : List α} {s t : σ} :
    runUntil f (a :: l) s = (t, none) ↔ ∃ s', f a s = (s', none) ∧ runUntil f l s' = (t, none) := by
  rw [runUntil]
  rcases hf : f a s with ⟨s', _ | e⟩ <;> simp

/-- A run over two lists that comes to its end goes through the first, then the second. -/
theorem runUntil_append_eq_none {f : α → σ → σ × Option ε} {l m : List α} {s t : σ} :
    runUntil f (l ++ m) s = (t, none) ↔ ∃ s', runUntil f l s = (s', none) ∧ runUntil f m s' = (t, none) := by
  induction l generalizing s with
  | nil => simp [runUntil]
  | cons a l ih =>
    simp only [List.cons_append, runUntil_cons_eq_none, ih]
    exact ⟨fun ⟨s₁, h₁, s₂, h₂, h₃⟩ => ⟨s₂, ⟨s₁, h₁, h₂⟩, h₃⟩, fun ⟨s₂, ⟨s₁, h₁, h₂⟩, h₃⟩ => ⟨s₁, h₁, s₂, h₂, h₃⟩⟩

/-- A run over two lists that stops early stops in the first, or in the second. -/
theorem runUntil_append_eq_some {f : α → σ → σ × Option ε} {l m : List α} {s t : σ} {e : ε} :
    runUntil f (l ++ m) s = (t, some e) ↔
      runUntil f l s = (t, some e) ∨ ∃ s', runUntil f l s = (s', none) ∧ runUntil f m s' = (t, some e) := by
  induction l generalizing s with
  | nil => simp [runUntil]
  | cons a l ih =>
    rw [List.cons_append, runUntil, runUntil]
    rcases f a s with ⟨s', _ | e'⟩
    · exact ih
    · simp

/-- The elements whose steps succeed before one fails. -/
def succeeded (f : α → σ → σ × Option ε) : List α → σ → List α
  | [], _ => []
  | a :: l, s =>
    match f a s with
    | (s', none) => a :: succeeded f l s'
    | (_, some _) => []

/-- A run in which no step succeeds stops at its first, and has changed nothing. -/
theorem runUntil_of_succeeded_nil {x : α → σ → Except ε σ} {l : List α} {s : σ}
    (h : succeeded (fun a s => attempt (x a s) s) l s = []) : (runUntil (fun a s => attempt (x a s) s) l s).1 = s := by
  cases l with
  | nil => rfl
  | cons a l =>
    cases hx : x a s with
    | error e => simp [runUntil, attempt, hx]
    | ok s' => simp [succeeded, attempt, hx] at h

/-- **The invariant rule of such a run**: what holds at the start and is kept by each
step holds where the run stops, whether or not it came to its end. -/
theorem runUntil_induct {f : α → σ → σ × Option ε} {P : σ → Prop} :
    ∀ {l : List α} {s : σ}, (∀ a ∈ l, ∀ s, P s → P (f a s).1) → P s → P (runUntil f l s).1 := by
  intro l
  induction l with
  | nil => intro s _ hP; exact hP
  | cons a l ih =>
    intro s step hP
    have ha := step a List.mem_cons_self s hP
    rw [runUntil]
    rcases hf : f a s with ⟨s', _ | e⟩
    · rw [hf] at ha
      exact ih (fun b hb => step b (List.mem_cons_of_mem _ hb)) ha
    · rwa [hf] at ha

end Library.Checks
