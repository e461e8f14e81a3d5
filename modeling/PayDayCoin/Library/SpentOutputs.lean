import Mathlib.Logic.Function.Basic
import Mathlib.Data.List.Basic
import Mathlib.Data.List.Nodup

/-!
# Ledgers of spent outputs

A transaction has an identifier, claims outputs of others (its inputs), and makes outputs
of its own. A ledger keeps a record for each transaction: where it is, and for each of
its outputs the mark of its spender, if it has one. `Apply` enters a transaction: it marks
each output claimed, which must exist and have no mark, and makes a fresh record.
`revert` takes a transaction out again: it clears the marks and erases the record.

**`revert_apply`**: taking out the transaction entered last, one that was not there
before, gives back the ledger as it was, although the marks are cleared in the order in
which they were made.

`Extends L₀ txs L` says that `L` has come about from `L₀` by entering the transactions
`txs`, youngest first, each of them new; **`Extends.revert`**: taking them out, youngest
first, gives back `L₀`. A `History` starts from the empty ledger. Of a history,
**`nodup_inputs`**: no
output is claimed twice; **`exists_earlier`**: every output claimed is one of a transaction
strictly earlier; `nodup_ids`: no identifier occurs twice. That a transaction is new need
not be checked: **`not_mem_of_input`**, one that claims an output cannot occur twice, as
its input would be claimed twice.
-/

namespace Library.SpentOutputs

variable {κ π μ : Type*} [DecidableEq κ]

/-- An output: the transaction it is of, and its index there. -/
abbrev Output (κ : Type*) := κ × ℕ

/-- The record of a transaction. -/
structure Record (π μ : Type*) where
  /-- Where the transaction is. -/
  pos : π
  /-- For each output the mark of its spender. -/
  spent : List (Option μ)

/-- The records, by identifier. -/
abbrev Ledger (κ π μ : Type*) := κ → Option (Record π μ)

/-- A transaction. -/
structure Tx (κ : Type*) where
  id : κ
  inputs : List (Output κ)
  outputs : ℕ

/-- A record with another mark on one output. -/
def Record.set (r : Record π μ) (n : ℕ) (m : Option μ) : Record π μ := { r with spent := r.spent.set n m }

/-- A record without any mark. -/
def Record.fresh (p : π) (outputs : ℕ) : Record π μ := ⟨p, List.replicate outputs none⟩

/-- The empty ledger. -/
def empty : Ledger κ π μ := fun _ => none

/-- One output is marked: it must exist and have no mark yet. -/
def Spends (m : μ) (L : Ledger κ π μ) (o : Output κ) (L' : Ledger κ π μ) : Prop :=
  ∃ r, L o.1 = some r ∧ r.spent[o.2]? = some none ∧ L' = Function.update L o.1 (some (r.set o.2 (some m)))

/-- Outputs are marked in order. -/
inductive SpendsAll (m : μ) : Ledger κ π μ → List (Output κ) → Ledger κ π μ → Prop where
  /-- No output to mark. -/
  | nil {L} : SpendsAll m L [] L
  /-- The first output is marked, then the others. -/
  | cons {L L₁ L₂ o os} : Spends m L o L₁ → SpendsAll m L₁ os L₂ → SpendsAll m L (o :: os) L₂

/-- A transaction at `p`, with mark `m`, is entered. -/
def Apply (p : π) (m : μ) (t : Tx κ) (L L' : Ledger κ π μ) : Prop :=
  ∃ L₁, SpendsAll m L t.inputs L₁ ∧ L' = Function.update L₁ t.id (some (Record.fresh p t.outputs))

/-- The mark of one output is cleared. -/
def unspend (L : Ledger κ π μ) (o : Output κ) : Ledger κ π μ :=
  match L o.1 with
  | none => L
  | some r => Function.update L o.1 (some (r.set o.2 none))

/-- A transaction is taken out: the marks it made are cleared, then its record goes. -/
def revert (t : Tx κ) (L : Ledger κ π μ) : Ledger κ π μ :=
  Function.update (t.inputs.foldl unspend L) t.id none

/-! ### Taking out what was entered -/

theorem unspend_of_none {L : Ledger κ π μ} {o : Output κ} (h : L o.1 = none) : unspend L o = L := by
  rw [unspend, h]

theorem unspend_of_some {L : Ledger κ π μ} {o : Output κ} {r : Record π μ} (h : L o.1 = some r) :
    unspend L o = Function.update L o.1 (some (r.set o.2 none)) := by rw [unspend, h]

theorem unspend_apply_self {L : Ledger κ π μ} {o : Output κ} :
    unspend L o o.1 = (L o.1).map fun r => r.set o.2 none := by
  cases h : L o.1 with
  | none => rw [unspend_of_none h, h]; rfl
  | some r => rw [unspend_of_some h, Function.update_self]; rfl

theorem unspend_apply_of_ne {L : Ledger κ π μ} {o : Output κ} {k : κ} (h : k ≠ o.1) : unspend L o k = L k := by
  cases hr : L o.1 with
  | none => rw [unspend_of_none hr]
  | some r => rw [unspend_of_some hr, Function.update_of_ne h]

/-- Clearing two marks may be done in either order. -/
theorem unspend_comm (L : Ledger κ π μ) (o o' : Output κ) :
    unspend (unspend L o) o' = unspend (unspend L o') o := by
  funext k
  by_cases hk : k = o.1
  · by_cases hk' : k = o'.1
    · obtain ⟨a, n⟩ := o
      obtain ⟨a', n'⟩ := o'
      simp only at hk hk'
      subst hk hk'
      rw [show unspend (unspend L (k, n)) (k, n') k = _ from unspend_apply_self,
        show unspend L (k, n) k = _ from unspend_apply_self,
        show unspend (unspend L (k, n')) (k, n) k = _ from unspend_apply_self,
        show unspend L (k, n') k = _ from unspend_apply_self, Option.map_map, Option.map_map]
      congr 1
      funext r
      simp only [Function.comp, Record.set]
      by_cases hn : n = n'
      · rw [hn]
      · rw [List.set_comm _ _ hn]
    · rw [unspend_apply_of_ne hk', hk, unspend_apply_self, unspend_apply_self, ← hk, unspend_apply_of_ne hk']
  · rw [unspend_apply_of_ne (L := unspend L o') hk]
    by_cases hk' : k = o'.1
    · rw [hk', unspend_apply_self, unspend_apply_self, ← hk', unspend_apply_of_ne hk]
    · rw [unspend_apply_of_ne hk', unspend_apply_of_ne hk', unspend_apply_of_ne hk]

theorem foldl_unspend_comm (os : List (Output κ)) : ∀ (L : Ledger κ π μ) (o : Output κ),
    os.foldl unspend (unspend L o) = unspend (os.foldl unspend L) o := by
  induction os with
  | nil => intro L o; rfl
  | cons o' os ih =>
    intro L o
    rw [List.foldl_cons, List.foldl_cons, unspend_comm, ih]

/-- Clearing the mark that was just made gives back the ledger. -/
theorem unspend_of_spends {m : μ} {L L' : Ledger κ π μ} {o : Output κ} (h : Spends m L o L') :
    unspend L' o = L := by
  obtain ⟨r, hr, hn, rfl⟩ := h
  obtain ⟨hlt, hget⟩ := List.getElem?_eq_some_iff.1 hn
  have hset : (r.set o.2 (some m)).set o.2 none = r := by
    simp only [Record.set, List.set_set]
    rw [← hget, List.set_getElem_self]
  rw [unspend_of_some (Function.update_self ..), hset, Function.update_idem, ← hr, Function.update_eq_self]

theorem foldl_unspend_of_spendsAll {m : μ} {os : List (Output κ)} {L L' : Ledger κ π μ}
    (h : SpendsAll m L os L') : os.foldl unspend L' = L := by
  induction h with
  | nil => rfl
  | cons hs _ ih => rw [List.foldl_cons, foldl_unspend_comm, ih, unspend_of_spends hs]

theorem Spends.apply_of_ne {m : μ} {L L' : Ledger κ π μ} {o : Output κ} {k : κ} (h : Spends m L o L')
    (hk : k ≠ o.1) : L' k = L k := by
  obtain ⟨r, -, -, rfl⟩ := h
  exact Function.update_of_ne hk _ _

/-- Marking outputs neither makes nor erases a record. -/
theorem SpendsAll.eq_none_iff {m : μ} {os : List (Output κ)} {L L' : Ledger κ π μ} (h : SpendsAll m L os L')
    (k : κ) : L' k = none ↔ L k = none := by
  induction h with
  | nil => rfl
  | @cons L L₁ L₂ o os hs _ ih =>
    rw [ih]
    by_cases hk : k = o.1
    · obtain ⟨r, hr, -, rfl⟩ := hs
      rw [hk, Function.update_self, hr]
      simp
    · rw [hs.apply_of_ne hk]

/-- An output that is marked has a record. -/
theorem SpendsAll.ne_none {m : μ} {os : List (Output κ)} {L L' : Ledger κ π μ} (h : SpendsAll m L os L')
    {o : Output κ} (ho : o ∈ os) : L o.1 ≠ none := by
  induction h with
  | nil => simp at ho
  | @cons L L₁ L₂ o' os hs hall ih =>
    rcases List.mem_cons.1 ho with rfl | ho
    · obtain ⟨r, hr, -, -⟩ := hs
      simp [hr]
    · have h₁ := ih ho
      by_cases hk : o.1 = o'.1
      · obtain ⟨r, hr, -, -⟩ := hs
        simp [hk, hr]
      · rwa [hs.apply_of_ne hk] at h₁

theorem unspend_update_of_ne {L : Ledger κ π μ} {o : Output κ} {k : κ} (h : o.1 ≠ k) (v : Option (Record π μ)) :
    unspend (Function.update L k v) o = Function.update (unspend L o) k v := by
  cases hr : L o.1 with
  | none => rw [unspend_of_none hr, unspend_of_none (by rwa [Function.update_of_ne h])]
  | some r =>
    rw [unspend_of_some hr, unspend_of_some (by rwa [Function.update_of_ne h]), Function.update_comm h.symm]

theorem foldl_unspend_update {k : κ} {v : Option (Record π μ)} (os : List (Output κ)) :
    ∀ L : Ledger κ π μ, (∀ o ∈ os, o.1 ≠ k) →
      os.foldl unspend (Function.update L k v) = Function.update (os.foldl unspend L) k v := by
  induction os with
  | nil => intro L _; rfl
  | cons o os ih =>
    intro L h
    rw [List.foldl_cons, List.foldl_cons, unspend_update_of_ne (h o List.mem_cons_self),
      ih _ fun o' ho' => h o' (List.mem_cons_of_mem _ ho')]

/-- **Taking out the transaction entered last gives back the ledger**, when it had no
record before. -/
theorem revert_apply {p : π} {m : μ} {t : Tx κ} {L L' : Ledger κ π μ} (h : Apply p m t L L')
    (hnew : L t.id = none) : revert t L' = L := by
  obtain ⟨L₁, hall, rfl⟩ := h
  have hne : ∀ o ∈ t.inputs, o.1 ≠ t.id := fun o ho heq => hall.ne_none ho (by rw [heq, hnew])
  rw [revert, foldl_unspend_update _ _ hne, foldl_unspend_of_spendsAll hall, Function.update_idem, ← hnew,
    Function.update_eq_self]

/-! ### Histories -/

/-- The ledger `L` has come about from `L₀` by entering the transactions `txs`, youngest
first, each of them new. -/
inductive Extends (L₀ : Ledger κ π μ) : List (Tx κ) → Ledger κ π μ → Prop where
  /-- Nothing entered. -/
  | nil : Extends L₀ [] L₀
  /-- A new transaction entered. -/
  | cons {p m t txs L L'} : Extends L₀ txs L → Apply p m t L L' → L t.id = none → Extends L₀ (t :: txs) L'

/-- The ledger has come about from the empty one. -/
abbrev History (txs : List (Tx κ)) (L : Ledger κ π μ) : Prop := Extends empty txs L

/-- **Taking out what was entered, youngest first, gives back the ledger.** -/
theorem Extends.revert {L₀ L : Ledger κ π μ} {txs : List (Tx κ)} (h : Extends L₀ txs L) :
    txs.foldl (fun L t => SpentOutputs.revert t L) L = L₀ := by
  induction h with
  | nil => rfl
  | cons _ happ hnew ih => rw [List.foldl_cons, revert_apply happ hnew, ih]

theorem Extends.append {L₀ L₁ L₂ : Ledger κ π μ} {txs txs' : List (Tx κ)} (h₁ : Extends L₀ txs L₁)
    (h₂ : Extends L₁ txs' L₂) : Extends L₀ (txs' ++ txs) L₂ := by
  induction h₂ with
  | nil => exact h₁
  | cons _ happ hnew ih => exact .cons ih happ hnew

theorem Extends.split {L₀ L : Ledger κ π μ} {txs : List (Tx κ)} :
    ∀ {txs'}, Extends L₀ (txs' ++ txs) L → ∃ L₁, Extends L₀ txs L₁ ∧ Extends L₁ txs' L := by
  intro txs'
  induction txs' generalizing L with
  | nil => intro h; exact ⟨L, h, .nil⟩
  | cons t txs' ih =>
    intro h
    cases h with
    | cons h happ hnew =>
      obtain ⟨L₁, h₁, h₂⟩ := ih h
      exact ⟨L₁, h₁, .cons h₂ happ hnew⟩

theorem SpendsAll.length {m : μ} {os : List (Output κ)} {L L' : Ledger κ π μ} (h : SpendsAll m L os L') {k : κ}
    {r' : Record π μ} (hr' : L' k = some r') : ∃ r, L k = some r ∧ r.spent.length = r'.spent.length := by
  induction h with
  | nil => exact ⟨r', hr', rfl⟩
  | @cons L L₁ L₂ o os hs _ ih =>
    obtain ⟨r₁, hr₁, hl⟩ := ih hr'
    by_cases hk : k = o.1
    · obtain ⟨r, hr, -, rfl⟩ := hs
      rw [hk, Function.update_self, Option.some.injEq] at hr₁
      refine ⟨r, hk ▸ hr, ?_⟩
      rw [← hl, ← hr₁, Record.set, List.length_set]
    · exact ⟨r₁, by rwa [hs.apply_of_ne hk] at hr₁, hl⟩

/-- A record of a history is of one of its transactions, and has a place for each output. -/
theorem History.exists_tx {txs : List (Tx κ)} {L : Ledger κ π μ} (h : History txs L) {k : κ} {r : Record π μ}
    (hr : L k = some r) : ∃ t ∈ txs, t.id = k ∧ r.spent.length = t.outputs := by
  induction h generalizing r with
  | nil => simp [empty] at hr
  | @cons p m t txs L L' _ happ _ ih =>
    obtain ⟨L₁, hall, rfl⟩ := happ
    by_cases hk : k = t.id
    · rw [hk, Function.update_self, Option.some.injEq] at hr
      refine ⟨t, List.mem_cons_self, hk.symm, ?_⟩
      rw [← hr, Record.fresh, List.length_replicate]
    · rw [Function.update_of_ne hk] at hr
      obtain ⟨r₀, hr₀, hl⟩ := hall.length hr
      obtain ⟨t', ht', hid, hlen⟩ := ih hr₀
      exact ⟨t', List.mem_cons_of_mem _ ht', hid, hl ▸ hlen⟩

/-- Every transaction of a history has a record. -/
theorem History.ne_none {txs : List (Tx κ)} {L : Ledger κ π μ} (h : History txs L) {t : Tx κ} (ht : t ∈ txs) :
    L t.id ≠ none := by
  induction h with
  | nil => simp at ht
  | @cons p m t' txs L L' _ happ _ ih =>
    obtain ⟨L₁, hall, rfl⟩ := happ
    by_cases hk : t.id = t'.id
    · rw [hk, Function.update_self]; simp
    · rw [Function.update_of_ne hk, Ne, hall.eq_none_iff]
      rcases List.mem_cons.1 ht with rfl | ht
      · exact absurd rfl hk
      · exact ih ht

/-- The output `o` has a mark. -/
def Marked (L : Ledger κ π μ) (o : Output κ) : Prop := ∃ r m, L o.1 = some r ∧ r.spent[o.2]? = some (some m)

theorem Spends.marked {m : μ} {L L' : Ledger κ π μ} {o : Output κ} (h : Spends m L o L') : Marked L' o := by
  obtain ⟨r, -, hn, rfl⟩ := h
  obtain ⟨hlt, -⟩ := List.getElem?_eq_some_iff.1 hn
  exact ⟨_, m, Function.update_self .., by rw [Record.set, List.getElem?_set_self hlt]⟩

theorem Spends.not_marked {m : μ} {L L' : Ledger κ π μ} {o : Output κ} (h : Spends m L o L') : ¬ Marked L o := by
  obtain ⟨r, hr, hn, -⟩ := h
  rintro ⟨r', m', hr', hn'⟩
  rw [hr, Option.some.injEq] at hr'
  subst hr'
  rw [hn] at hn'
  simp at hn'

/-- A mark stays when another is made. -/
theorem Spends.keeps {m : μ} {L L' : Ledger κ π μ} {o o' : Output κ} (h : Spends m L o L') (ho : Marked L o') :
    Marked L' o' := by
  by_cases heq : o' = o
  · exact heq ▸ h.marked
  · obtain ⟨r', m', hr', hn'⟩ := ho
    by_cases hk : o'.1 = o.1
    · obtain ⟨r, hr, hn, rfl⟩ := h
      have hne : o.2 ≠ o'.2 := fun h₂ => heq (Prod.ext hk h₂.symm)
      rw [← hk, hr', Option.some.injEq] at hr
      subst hr
      exact ⟨_, m', by rw [hk, Function.update_self], by rw [Record.set, List.getElem?_set_ne hne, hn']⟩
    · exact ⟨r', m', by rw [h.apply_of_ne hk, hr'], hn'⟩

theorem SpendsAll.keeps {m : μ} {os : List (Output κ)} {L L' : Ledger κ π μ} (h : SpendsAll m L os L')
    {o : Output κ} (ho : Marked L o) : Marked L' o := by
  induction h with
  | nil => exact ho
  | cons hs _ ih => exact ih (hs.keeps ho)

theorem SpendsAll.marked {m : μ} {os : List (Output κ)} {L L' : Ledger κ π μ} (h : SpendsAll m L os L')
    {o : Output κ} (ho : o ∈ os) : Marked L' o := by
  induction h with
  | nil => simp at ho
  | cons hs hall ih =>
    rcases List.mem_cons.1 ho with rfl | ho
    · exact hall.keeps hs.marked
    · exact ih ho

theorem SpendsAll.not_marked {m : μ} {os : List (Output κ)} {L L' : Ledger κ π μ} (h : SpendsAll m L os L')
    {o : Output κ} (ho : o ∈ os) : ¬ Marked L o := by
  induction h with
  | nil => simp at ho
  | cons hs hall ih =>
    rcases List.mem_cons.1 ho with rfl | ho
    · exact hs.not_marked
    · exact fun hm => ih ho (hs.keeps hm)

theorem SpendsAll.nodup {m : μ} {os : List (Output κ)} {L L' : Ledger κ π μ} (h : SpendsAll m L os L') :
    os.Nodup := by
  induction h with
  | nil => exact List.nodup_nil
  | cons hs hall ih => exact List.nodup_cons.2 ⟨fun ho => hall.not_marked ho hs.marked, ih⟩

/-- Every output that a transaction entered claims is marked. -/
theorem Extends.marked {txs : List (Tx κ)} {L₀ L : Ledger κ π μ} (h : Extends L₀ txs L) {t : Tx κ} (ht : t ∈ txs)
    {o : Output κ} (ho : o ∈ t.inputs) : Marked L o := by
  have hkeep : ∀ {p : π} {m : μ} {t : Tx κ} {L₀ L L' : Ledger κ π μ}, L₀ t.id = none → SpendsAll m L₀ t.inputs L →
      L' = Function.update L t.id (some (Record.fresh p t.outputs)) → Marked L o → Marked L' o := by
    rintro p m t L₀ L L' hnew hall rfl ⟨r, m', hr, hn⟩
    refine ⟨r, m', ?_, hn⟩
    rw [Function.update_of_ne, hr]
    intro hk
    rw [hk, (hall.eq_none_iff t.id).2 hnew] at hr
    exact absurd hr (by simp)
  induction h with
  | nil => simp at ht
  | @cons p m t' txs L L' _ happ hnew ih =>
    obtain ⟨L₁, hall, rfl⟩ := happ
    rcases List.mem_cons.1 ht with rfl | ht
    · exact hkeep hnew hall rfl (hall.marked ho)
    · exact hkeep hnew hall rfl (hall.keeps (ih ht))

/-- **No output is claimed twice.** -/
theorem History.nodup_inputs {txs : List (Tx κ)} {L : Ledger κ π μ} (h : History txs L) :
    (txs.flatMap Tx.inputs).Nodup := by
  induction h with
  | nil => exact List.nodup_nil
  | @cons p m t txs L L' hist happ _ ih =>
    obtain ⟨L₁, hall, rfl⟩ := happ
    rw [List.flatMap_cons, List.nodup_append]
    refine ⟨hall.nodup, ih, fun o ho o' ho' heq => ?_⟩
    obtain ⟨t', ht', hin⟩ := List.mem_flatMap.1 ho'
    exact hall.not_marked ho (heq ▸ hist.marked ht' hin)

/-- **Every output claimed is one of a transaction strictly earlier.** -/
theorem History.exists_earlier {txs : List (Tx κ)} {L : Ledger κ π μ} (h : History txs L) :
    ∀ {younger t older}, txs = younger ++ t :: older → ∀ o ∈ t.inputs,
      ∃ t' ∈ older, t'.id = o.1 ∧ o.2 < t'.outputs := by
  induction h with
  | nil => intro younger t older heq; simp at heq
  | @cons p m t' txs L L' hist happ _ ih =>
    intro younger t older heq o ho
    cases younger with
    | cons t'' younger =>
      rw [List.cons_append, List.cons.injEq] at heq
      exact ih heq.2 o ho
    | nil =>
      rw [List.nil_append, List.cons.injEq] at heq
      obtain ⟨rfl, rfl⟩ := heq
      obtain ⟨L₁, hall, rfl⟩ := happ
      obtain ⟨r₁, m₁, hr₁, hn₁⟩ := hall.marked ho
      obtain ⟨r, hr, hl⟩ := hall.length hr₁
      obtain ⟨t₀, ht₀, hid, hlen⟩ := History.exists_tx hist hr
      obtain ⟨hlt, -⟩ := List.getElem?_eq_some_iff.1 hn₁
      exact ⟨t₀, ht₀, hid, by omega⟩

/-- No identifier occurs twice. -/
theorem History.nodup_ids {txs : List (Tx κ)} {L : Ledger κ π μ} (h : History txs L) : (txs.map Tx.id).Nodup := by
  induction h with
  | nil => exact List.nodup_nil
  | @cons p m t txs L L' hist _ hnew ih =>
    rw [List.map_cons, List.nodup_cons]
    refine ⟨fun hmem => ?_, ih⟩
    obtain ⟨t', ht', hid⟩ := List.mem_map.1 hmem
    exact History.ne_none hist ht' (hid ▸ hnew)

/-- A transaction is new when no transaction of the history has its identifier. -/
theorem History.eq_none {txs : List (Tx κ)} {L : Ledger κ π μ} (h : History txs L) {k : κ}
    (hk : ∀ t ∈ txs, t.id ≠ k) : L k = none := by
  cases hr : L k with
  | none => rfl
  | some r =>
    obtain ⟨t, ht, hid, -⟩ := h.exists_tx hr
    exact absurd hid (hk t ht)

/-- **A transaction that claims an output cannot occur twice**: its input would be claimed
twice. -/
theorem History.not_mem_of_input {txs : List (Tx κ)} {L L' : Ledger κ π μ} {p : π} {m : μ} {t : Tx κ}
    (h : History txs L) (happ : Apply p m t L L') (hne : t.inputs ≠ []) : ∀ t' ∈ txs, t'.inputs ≠ t.inputs := by
  intro t' ht' heq
  obtain ⟨o, ho⟩ := List.exists_mem_of_ne_nil _ hne
  obtain ⟨L₁, hall, -⟩ := happ
  exact hall.not_marked ho (h.marked ht' (heq ▸ ho))

end Library.SpentOutputs
