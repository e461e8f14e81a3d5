import Mathlib.Data.List.Basic

/-!
# Conditionals in flat code

A flat program is a list of tokens. A test opens a conditional, `other` goes on to its next arm and `close` ends it; every
second arm is carried out, beginning with the first where the test says so. A machine for flat code keeps the values of the
conditionals that it is inside of and carries a token out when all of them are true (`run`). Nested code is a tree
(`Code`), whose meaning needs no such list (`Code.exec`).

* `run_flatten`: a machine does on the tokens of nested code what the code means.
* `exists_code`: what a machine gets through with every conditional closed are the tokens of nested code.
* `run_iff`: both together.
* `Code.exec_false`: what each token keeps that is not carried out, code that is not carried out keeps.
-/

namespace Library.Conditionals

universe u v

variable {ι : Type u} {κ : Type v} {σ : Type*}

/-- A token of flat code. -/
inductive Token (ι : Type u) (κ : Type v)
  | plain (i : ι)
  | test (c : κ)
  | other
  | close

mutual

/-- Nested code. -/
inductive Code (ι : Type u) (κ : Type v)
  | done
  | plain (i : ι) (next : Code ι κ)
  | cond (c : κ) (arms : Arms ι κ) (next : Code ι κ)

/-- The arms of a conditional. -/
inductive Arms (ι : Type u) (κ : Type v)
  | last (arm : Code ι κ)
  | cons (arm : Code ι κ) (arms : Arms ι κ)

end

/-- What a machine does on each token, where it is carried out and where it is not. -/
structure Machine (ι κ σ : Type*) where
  plain : Bool → ι → σ → Option σ
  test : Bool → κ → σ → Option (Bool × σ)
  other : σ → Option σ
  close : σ → Option σ

mutual

/-- The tokens of nested code. -/
def Code.flatten : Code ι κ → List (Token ι κ)
  | .done => []
  | .plain i next => .plain i :: next.flatten
  | .cond c arms next => .test c :: (arms.flatten ++ next.flatten)

/-- The tokens of the arms of a conditional, with the one that closes it. -/
def Arms.flatten : Arms ι κ → List (Token ι κ)
  | .last arm => arm.flatten ++ [.close]
  | .cons arm arms => arm.flatten ++ .other :: arms.flatten

end

mutual

/-- What nested code means, where it is carried out and where it is not. -/
def Code.exec (M : Machine ι κ σ) (b : Bool) : Code ι κ → σ → Option σ
  | .done, s => some s
  | .plain i next, s => (M.plain b i s).bind (next.exec M b)
  | .cond c arms next, s => (M.test b c s).bind fun (v, s) => (arms.exec M b v s).bind (next.exec M b)

/-- What the arms of a conditional mean, of which `v` says whether the first is carried out. -/
def Arms.exec (M : Machine ι κ σ) (b v : Bool) : Arms ι κ → σ → Option σ
  | .last arm, s => (arm.exec M (v && b) s).bind M.close
  | .cons arm arms, s => ((arm.exec M (v && b) s).bind M.other).bind (arms.exec M b !v)

end

/-- What a machine for flat code does on a token, with the values of the conditionals around it. -/
def step (M : Machine ι κ σ) (a : List Bool × σ) : Token ι κ → Option (List Bool × σ)
  | .plain i => (M.plain (a.1.all id) i a.2).map fun s => (a.1, s)
  | .test c => (M.test (a.1.all id) c a.2).map fun (v, s) => (v :: a.1, s)
  | .other =>
    match a.1 with
    | [] => none
    | v :: vs => (M.other a.2).map fun s => ((!v) :: vs, s)
  | .close =>
    match a.1 with
    | [] => none
    | _ :: vs => (M.close a.2).map fun s => (vs, s)

/-- A run over flat code. -/
def run (M : Machine ι κ σ) : List (Token ι κ) → List Bool × σ → Option (List Bool × σ)
  | [], a => some a
  | t :: ts, a => (step M a t).bind (run M ts)

/-! ### The meaning of nested code -/

variable {M : Machine ι κ σ}

mutual

/-- A machine does on the tokens of nested code what the code means. -/
theorem Code.run_flatten (code : Code ι κ) (ts : List (Token ι κ)) (vs : List Bool) (s : σ) :
    run M (code.flatten ++ ts) (vs, s) = (code.exec M (vs.all id) s).bind fun s => run M ts (vs, s) := by
  match code with
  | .done =>
    rw [Code.flatten, Code.exec]
    rfl
  | .plain i next =>
    rw [Code.flatten, Code.exec, List.cons_append, run, step]
    rcases M.plain (vs.all id) i s with _ | s
    · rfl
    · exact Code.run_flatten next ts vs s
  | .cond c arms next =>
    rw [Code.flatten, Code.exec, List.cons_append, run, step, List.append_assoc]
    rcases M.test (vs.all id) c s with _ | ⟨v, s⟩
    · rfl
    · simp only [Option.map_some, Option.bind_some]
      rw [Arms.run_flatten arms, Option.bind_assoc]
      exact congrArg _ (funext fun s => Code.run_flatten next ts vs s)

theorem Arms.run_flatten (arms : Arms ι κ) (ts : List (Token ι κ)) (v : Bool) (vs : List Bool) (s : σ) :
    run M (arms.flatten ++ ts) (v :: vs, s) = (arms.exec M (vs.all id) v s).bind fun s => run M ts (vs, s) := by
  match arms with
  | .last arm =>
    rw [Arms.flatten, Arms.exec, List.append_assoc, Code.run_flatten arm, Option.bind_assoc]
    refine congrArg _ (funext fun s => ?_)
    rw [List.singleton_append, run, step]
    rcases M.close s with _ | s <;> rfl
  | .cons arm arms =>
    rw [Arms.flatten, Arms.exec, List.append_assoc, Code.run_flatten arm, Option.bind_assoc, Option.bind_assoc]
    refine congrArg _ (funext fun s => ?_)
    rw [List.cons_append, run, step]
    rcases M.other s with _ | s
    · rfl
    · exact Arms.run_flatten arms ts (!v) vs s

end

/-! ### Code that a machine gets through -/

/-- The tokens close a number of conditionals that are open, and are nested code otherwise. -/
def Closes : ℕ → List (Token ι κ) → Prop
  | 0, ts => ∃ code : Code ι κ, code.flatten = ts
  | n + 1, ts => ∃ (arms : Arms ι κ) (rest : List (Token ι κ)), arms.flatten ++ rest = ts ∧ Closes n rest

theorem Arms.flatten_plain (i : ι) (arms : Arms ι κ) : ∃ arms' : Arms ι κ, arms'.flatten = .plain i :: arms.flatten := by
  cases arms with
  | last arm => exact ⟨.last (.plain i arm), by simp only [Arms.flatten, Code.flatten, List.cons_append]⟩
  | cons arm arms => exact ⟨.cons (.plain i arm) arms, by simp only [Arms.flatten, Code.flatten, List.cons_append]⟩

theorem Arms.flatten_cond (c : κ) (inner arms : Arms ι κ) :
    ∃ arms' : Arms ι κ, arms'.flatten = .test c :: (inner.flatten ++ arms.flatten) := by
  cases arms with
  | last arm =>
    exact ⟨.last (.cond c inner arm), by simp only [Arms.flatten, Code.flatten, List.cons_append, List.append_assoc]⟩
  | cons arm arms =>
    exact ⟨.cons (.cond c inner arm) arms, by simp only [Arms.flatten, Code.flatten, List.cons_append, List.append_assoc]⟩

theorem Closes.plain (i : ι) {n : ℕ} {ts : List (Token ι κ)} (h : Closes n ts) : Closes n (.plain i :: ts) := by
  cases n with
  | zero =>
    obtain ⟨code, rfl⟩ := h
    exact ⟨.plain i code, by rw [Code.flatten]⟩
  | succ n =>
    obtain ⟨arms, rest, rfl, hrest⟩ := h
    obtain ⟨arms', harms⟩ := arms.flatten_plain i
    exact ⟨arms', rest, by rw [harms, List.cons_append], hrest⟩

theorem Closes.test (c : κ) {n : ℕ} {ts : List (Token ι κ)} (h : Closes (n + 1) ts) : Closes n (.test c :: ts) := by
  obtain ⟨inner, rest, rfl, hrest⟩ := h
  cases n with
  | zero =>
    obtain ⟨code, rfl⟩ := hrest
    exact ⟨.cond c inner code, by rw [Code.flatten]⟩
  | succ n =>
    obtain ⟨arms, rest, rfl, hrest⟩ := hrest
    obtain ⟨arms', harms⟩ := Arms.flatten_cond c inner arms
    exact ⟨arms', rest, by rw [harms, List.cons_append, List.append_assoc], hrest⟩

theorem Closes.other {n : ℕ} {ts : List (Token ι κ)} (h : Closes (n + 1) ts) : Closes (n + 1) (.other :: ts) := by
  obtain ⟨arms, rest, rfl, hrest⟩ := h
  exact ⟨.cons .done arms, rest, by simp only [Arms.flatten, Code.flatten, List.nil_append, List.cons_append], hrest⟩

theorem Closes.close {n : ℕ} {ts : List (Token ι κ)} (h : Closes n ts) : Closes (n + 1) (.close :: ts) :=
  ⟨.last .done, ts, by simp only [Arms.flatten, Code.flatten, List.nil_append, List.singleton_append], h⟩

/-- What a machine gets through closes the conditionals that it began inside of. -/
theorem closes_of_run {ts : List (Token ι κ)} {vs : List Bool} {s s' : σ} (h : run M ts (vs, s) = some ([], s')) :
    Closes vs.length ts := by
  induction ts generalizing vs s with
  | nil =>
    cases h
    exact ⟨.done, by rw [Code.flatten]⟩
  | cons t ts ih =>
    obtain ⟨⟨vs', s₁⟩, hstep, hrun⟩ := Option.bind_eq_some_iff.1 h
    have hrest := ih hrun
    cases t with
    | plain i =>
      obtain ⟨_, -, h⟩ := Option.map_eq_some_iff.1 hstep
      cases h
      exact hrest.plain i
    | test c =>
      obtain ⟨_, -, h⟩ := Option.map_eq_some_iff.1 hstep
      cases h
      exact hrest.test c
    | other =>
      cases vs with
      | nil => cases hstep
      | cons v vs =>
        obtain ⟨_, -, h⟩ := Option.map_eq_some_iff.1 hstep
        cases h
        exact hrest.other
    | close =>
      cases vs with
      | nil => cases hstep
      | cons v vs =>
        obtain ⟨_, -, h⟩ := Option.map_eq_some_iff.1 hstep
        cases h
        exact hrest.close

/-- What a machine gets through with every conditional closed are the tokens of nested code. -/
theorem exists_code {ts : List (Token ι κ)} {s s' : σ} (h : run M ts ([], s) = some ([], s')) :
    ∃ code : Code ι κ, code.flatten = ts := closes_of_run h

/-- A machine gets through flat code exactly when it is that of nested code, and then does what the code means. -/
theorem run_iff {ts : List (Token ι κ)} {s s' : σ} :
    run M ts ([], s) = some ([], s') ↔ ∃ code : Code ι κ, code.flatten = ts ∧ code.exec M true s = some s' := by
  have hmeans : ∀ code : Code ι κ, run M code.flatten ([], s) = some ([], s') ↔ code.exec M true s = some s' := by
    intro code
    have h := Code.run_flatten (M := M) code [] [] s
    rw [List.append_nil] at h
    rw [h, List.all_nil, Option.bind_eq_some_iff]
    constructor
    · rintro ⟨t, ht, hrun⟩
      cases hrun
      exact ht
    · exact fun ht => ⟨s', ht, rfl⟩
  constructor
  · intro h
    obtain ⟨code, rfl⟩ := exists_code h
    exact ⟨code, rfl, (hmeans code).1 h⟩
  · rintro ⟨code, rfl, h⟩
    exact (hmeans code).2 h

/-! ### Code that is not carried out -/

/-- A relation that holds from each state to the next over tokens that are not carried out. -/
structure Quiet (M : Machine ι κ σ) (R : σ → σ → Prop) : Prop where
  refl : ∀ s, R s s
  trans : ∀ {s t u}, R s t → R t u → R s u
  plain : ∀ i s s', M.plain false i s = some s' → R s s'
  test : ∀ c s v s', M.test false c s = some (v, s') → R s s'
  other : ∀ s s', M.other s = some s' → R s s'
  close : ∀ s s', M.close s = some s' → R s s'

variable {R : σ → σ → Prop}

mutual

/-- **Code that is not carried out** keeps what each token keeps that is not carried out. -/
theorem Code.exec_false (hR : Quiet M R) (code : Code ι κ) {s s' : σ} (h : code.exec M false s = some s') : R s s' := by
  match code with
  | .done =>
    rw [Code.exec] at h
    cases h
    exact hR.refl s
  | .plain i next =>
    rw [Code.exec] at h
    obtain ⟨t, ht, h⟩ := Option.bind_eq_some_iff.1 h
    exact hR.trans (hR.plain i s t ht) (Code.exec_false hR next h)
  | .cond c arms next =>
    rw [Code.exec] at h
    obtain ⟨⟨v, t⟩, ht, h⟩ := Option.bind_eq_some_iff.1 h
    obtain ⟨u, hu, h⟩ := Option.bind_eq_some_iff.1 h
    exact hR.trans (hR.test c s v t ht) (hR.trans (Arms.exec_false hR arms hu) (Code.exec_false hR next h))

theorem Arms.exec_false (hR : Quiet M R) (arms : Arms ι κ) {v : Bool} {s s' : σ} (h : arms.exec M false v s = some s') :
    R s s' := by
  match arms with
  | .last arm =>
    rw [Arms.exec, Bool.and_false] at h
    obtain ⟨t, ht, h⟩ := Option.bind_eq_some_iff.1 h
    exact hR.trans (Code.exec_false hR arm ht) (hR.close t s' h)
  | .cons arm arms =>
    rw [Arms.exec, Bool.and_false] at h
    obtain ⟨u, hu, h⟩ := Option.bind_eq_some_iff.1 h
    obtain ⟨t, ht, hu⟩ := Option.bind_eq_some_iff.1 hu
    exact hR.trans (Code.exec_false hR arm ht) (hR.trans (hR.other t u hu) (Arms.exec_false hR arms h))

end

end Library.Conditionals
