import PayDayCoin.Library.Placement
import PayDayCoin.WalletOrder
import Mathlib.Data.List.TakeWhile

/-!
# Positions after a reordering

`ReorderTransactions` gives a position to each transaction and each accounting entry that has none, in the order of their
times, and moves up those that have one. It asks `ListAccountCreditDebit` for the entries of the account without a name,
where `"*"` would list all, and it compares the positions of the records with positions that it has given out, where it
would have to compare them with what the positions given out were before they were moved. **`reordered_of_orderly`**
says when the result is right, and that an entry of an account with a name never gets a position.
-/

namespace PayDayCoin

open Library.Placement

/-- What the position of a record is found by: the hash of a transaction, or the account and the number of an entry. -/
abbrev PositionKey := Uint256 ⊕ (String × ℕ)

namespace TimeItem

/-- The record of an item. -/
def key : TimeItem → PositionKey
  | .tx hash _ => .inl hash
  | .accounting entry => .inr (entry.strAccount, entry.nEntryNo)

/-- The position of an item, if it has one. -/
def place (item : TimeItem) : Option ℤ := if item.nOrderPos = -1 then none else some item.nOrderPos

end TimeItem

namespace Reordering

variable {env : WalletEnv} {s s' : Reordering}

/-- The positions of all records. -/
def position (s : Reordering) : PositionKey → Option ℤ
  | .inl hash => (s.wallet.find? hash).map fun n => n.wtx.nOrderPos
  | .inr key => (s.entries.find? fun r => (r.strAccount, r.nNumber) = key).bind fun r =>
    r.value.map CAccountingEntry.nOrderPos

/-- The records with positions, in the state before the call. -/
def start (w : OrderedWallet) (entries : List EntryRecord) : Reordering :=
  { wallet := { w with nOrderPosNext := 0 }, entries }

/-! ### One position -/

/-- What the loop has done to the positions when it comes to an end: each item has the place that it is given, and no
other record has changed. -/
structure Placed (items : List TimeItem) (s s' : Reordering) : Prop where
  next : s'.wallet.nOrderPosNext = (place s.nOrderPosOffsets s.wallet.nOrderPosNext (items.map TimeItem.place)).2
  each : ∀ x ∈ items.zip (place s.nOrderPosOffsets s.wallet.nOrderPosNext (items.map TimeItem.place)).1,
    s'.position x.1.key = some x.2
  others : ∀ k, k ∉ items.map TimeItem.key → s'.position k = s.position k

/-- The loop goes on from a state in which the first item has its place. -/
theorem Placed.cons {item : TimeItem} {items : List TimeItem} {q : ℤ} {s₁ : Reordering} (h : Placed items s₁ s')
    (hnew : item.key ∉ items.map TimeItem.key) (hpos : s₁.position = Function.update s.position item.key (some q))
    (hplace : place s.nOrderPosOffsets s.wallet.nOrderPosNext ((item :: items).map TimeItem.place) =
      (q :: (place s₁.nOrderPosOffsets s₁.wallet.nOrderPosNext (items.map TimeItem.place)).1,
        (place s₁.nOrderPosOffsets s₁.wallet.nOrderPosNext (items.map TimeItem.place)).2)) :
    Placed (item :: items) s s' where
  next := by rw [hplace, h.next]
  each x hx := by
    rw [hplace] at hx
    rcases List.mem_cons.1 hx with rfl | hx
    · rw [h.others _ hnew, hpos, Function.update_self]
    · exact h.each x hx
  others k hk := by
    rw [List.map_cons, List.mem_cons, not_or] at hk
    rw [h.others k hk.2, hpos, Function.update_of_ne hk.1]

/-- What `ReorderTransactions` is for: each record has a position, no two records share one, all are below the next one,
and those that had positions are in the order that they were in. -/
structure Reordered (before after : PositionKey → Option ℤ) (nOrderPosNext : ℤ) : Prop where
  kept : ∀ k, (after k).isSome = (before k).isSome
  placed : ∀ k q, after k = some q → 0 ≤ q ∧ q < nOrderPosNext
  distinct : ∀ k k' q, after k = some q → after k' = some q → k = k'
  ordered : ∀ k k' p p' q q', before k = some p → before k' = some p' → p ≠ -1 → p' ≠ -1 → p < p' →
    after k = some q → after k' = some q' → q < q'

/-- The items are the records that have a position, and they have no gap. -/
structure Sound (before : PositionKey → Option ℤ) (items : List TimeItem) : Prop where
  complete : ∀ k, (before k).isSome = true → k ∈ items.map TimeItem.key
  valid : ∀ k p, before k = some p → p ≠ -1 → 0 ≤ p
  distinct : ∀ k k' p, before k = some p → before k' = some p → p ≠ -1 → k = k'
  spaced : Spaced (items.map TimeItem.place)

theorem place_eq_some {item : TimeItem} {p : ℤ} :
    item.place = some p ↔ item.nOrderPos = p ∧ p ≠ -1 := by
  rw [TimeItem.place]
  split
  · next h => simp only [reduceCtorEq, false_iff, not_and, not_not]; rintro rfl; exact h
  · next h =>
    rw [Option.some.injEq]
    exact ⟨fun heq => ⟨heq, heq ▸ h⟩, And.left⟩

theorem Placed.reordered {items : List TimeItem} (h : Placed items s s') (hoffsets : s.nOrderPosOffsets = [])
    (hnext : s.wallet.nOrderPosNext = 0) (hnodup : (items.map TimeItem.key).Nodup)
    (hpos : ∀ item ∈ items, s.position item.key = some item.nOrderPos) (hsound : Sound s.position items) :
    Reordered s.position s'.position s'.wallet.nOrderPosNext := by
  obtain ⟨hend, heach, hothers⟩ := h
  rw [hoffsets, hnext] at hend heach
  have hdistinct : (items.map TimeItem.place).Pairwise fun a b => ∀ p, a = some p → b ≠ some p := by
    refine List.pairwise_map.2 ((List.pairwise_map.1 hnodup).imp_of_mem fun {a b} ha hb hne p hap hbp => ?_)
    obtain ⟨rfl, hp⟩ := place_eq_some.1 hap
    obtain ⟨heq, -⟩ := place_eq_some.1 hbp
    exact hne (hsound.distinct _ _ _ (hpos a ha) (heq ▸ hpos b hb) hp)
  have hvalid : ∀ p, some p ∈ items.map TimeItem.place → 0 ≤ p := by
    intro p hp
    obtain ⟨item, hmem, hplace⟩ := List.mem_map.1 hp
    obtain ⟨rfl, hne⟩ := place_eq_some.1 hplace
    exact hsound.valid _ _ (hpos item hmem) hne
  obtain ⟨hpairs, hbounds⟩ := place_spec hsound.spaced hdistinct hvalid
  rw [List.zip_map_left, List.pairwise_map] at hpairs
  have : Std.Symm fun x y : TimeItem × ℤ => Apart (Prod.map TimeItem.place id x) (Prod.map TimeItem.place id y) :=
    ⟨fun _ _ h => h.symm⟩
  have hapart := hpairs.forall
  -- each record that has a position is one of the items
  have hlen : items.length ≤ (place [] 0 (items.map TimeItem.place)).1.length := by
    rw [length_place, List.length_map]
  have hfind : ∀ k, k ∈ items.map TimeItem.key →
      ∃ x ∈ items.zip (place [] 0 (items.map TimeItem.place)).1, x.1.key = k := by
    intro k hk
    obtain ⟨item, hmem, hkey⟩ := List.mem_map.1 hk
    rw [← List.map_fst_zip hlen] at hmem
    obtain ⟨x, hx, rfl⟩ := List.mem_map.1 hmem
    exact ⟨x, hx, hkey⟩
  have hitem : ∀ k q, s'.position k = some q →
      ∃ x ∈ items.zip (place [] 0 (items.map TimeItem.place)).1, x.1.key = k ∧ x.2 = q := by
    intro k q hq
    have hk : k ∈ items.map TimeItem.key := by
      by_contra hk
      rw [hothers k hk] at hq
      exact hk (hsound.complete k (by rw [hq]; rfl))
    obtain ⟨x, hx, hkey⟩ := hfind k hk
    exact ⟨x, hx, hkey, Option.some.inj ((heach x hx).symm.trans (hkey ▸ hq))⟩
  refine ⟨fun k => ?_, fun k q hq => ?_, fun k k' q hq hq' => ?_, fun k k' p p' q q' hp hp' hne hne' hlt hq hq' => ?_⟩
  · by_cases hk : k ∈ items.map TimeItem.key
    · obtain ⟨x, hx, rfl⟩ := hfind k hk
      rw [heach x hx, hpos x.1 (List.of_mem_zip hx).1]
      rfl
    · rw [hothers k hk]
  · obtain ⟨x, hx, -, rfl⟩ := hitem k q hq
    rw [hend]
    exact hbounds x.2 (List.of_mem_zip hx).2
  · obtain ⟨x, hx, rfl, hxq⟩ := hitem k q hq
    obtain ⟨y, hy, rfl, hyq⟩ := hitem k' q hq'
    by_contra hne
    exact (hapart hx hy fun heq => hne (by rw [heq])).1 (hxq.trans hyq.symm)
  · obtain ⟨x, hx, rfl, rfl⟩ := hitem k q hq
    obtain ⟨y, hy, rfl, rfl⟩ := hitem k' q' hq'
    have hxp : x.1.nOrderPos = p := Option.some.inj ((hpos x.1 (List.of_mem_zip hx).1).symm.trans hp)
    have hyp : y.1.nOrderPos = p' := Option.some.inj ((hpos y.1 (List.of_mem_zip hy).1).symm.trans hp')
    refine ((hapart hx hy fun heq => ?_).2 p p' (place_eq_some.2 ⟨hxp, hne⟩) (place_eq_some.2 ⟨hyp, hne'⟩)).1 hlt
    rw [← hxp, ← hyp, heq] at hlt
    exact lt_irrefl _ hlt

/-! ### The records -/

/-- The entries that are read have the keys of their records. -/
theorem mapM_read : ∀ {entries : List EntryRecord} {acentries : List CAccountingEntry},
    entries.mapM EntryRecord.read = some acentries →
      acentries.map (fun entry => (entry.strAccount, entry.nEntryNo)) = entries.map (fun r => (r.strAccount, r.nNumber)) ∧
      ∀ entry ∈ acentries, ∃ r ∈ entries, r.read = some entry := by
  intro entries
  induction entries with
  | nil =>
    intro acentries h
    cases h
    exact ⟨rfl, fun _ h => by cases h⟩
  | cons r entries ih =>
    intro acentries h
    rw [List.mapM_cons] at h
    obtain ⟨entry, hread, h⟩ := Option.bind_eq_some_iff.1 h
    obtain ⟨rest, hrest, h⟩ := Option.bind_eq_some_iff.1 h
    cases h
    obtain ⟨hkeys, hall⟩ := ih hrest
    obtain ⟨value, -, hentry⟩ := Option.map_eq_some_iff.1 hread
    refine ⟨?_, fun e he => ?_⟩
    · rw [List.map_cons, List.map_cons, hkeys, ← hentry]
    · rcases List.mem_cons.1 he with rfl | he
      · exact ⟨r, List.mem_cons_self, hread⟩
      · obtain ⟨r', hr', hread'⟩ := hall e he
        exact ⟨r', List.mem_cons_of_mem _ hr', hread'⟩

theorem perm_txByTime (txs : List (Uint256 × TimedTx)) (acentries : List CAccountingEntry) :
    (txByTime txs acentries).Perm ((txs.map fun t => TimeItem.tx t.1 t.2) ++ acentries.map TimeItem.accounting) := by
  rw [txByTime]
  suffices h : ∀ (items l : List TimeItem),
      (items.foldl (fun l item => l.orderedInsert (fun a b => a.time < b.time) item) l).Perm (items ++ l) by
    have hperm := h ((txs.map fun t => TimeItem.tx t.1 t.2) ++ acentries.map TimeItem.accounting) []
    rwa [List.append_nil] at hperm
  intro items
  induction items with
  | nil => exact fun l => .refl l
  | cons item items ih =>
    intro l
    rw [List.foldl_cons]
    exact (ih _).trans (((List.perm_orderedInsert _ item l).append_left items).trans List.perm_middle)

variable {w : OrderedWallet} {entries : List EntryRecord} {acentries : List CAccountingEntry}

/-- The keys of the items: the hashes of the transactions, and the accounts and numbers of the entries without a name. -/
theorem perm_keys (hown : ownEntries entries = some acentries) :
    ((txByTime w.txs acentries).map TimeItem.key).Perm ((w.mapWallet.map TxNode.hash).map Sum.inl ++
      ((entries.takeWhile fun r => r.strAccount = "").map fun r => (r.strAccount, r.nNumber)).map Sum.inr) := by
  refine ((perm_txByTime w.txs acentries).map TimeItem.key).trans (.of_eq ?_)
  rw [List.map_append, ← (mapM_read hown).1]
  simp only [OrderedWallet.txs, List.map_map]
  rfl

/-- A wallet and its entries that `ReorderTransactions` puts in order: no entry is of an account with a name, the
positions that records have are different, and the items have no gap that a position falls into. -/
structure Orderly (w : OrderedWallet) (entries : List EntryRecord) : Prop where
  nameless : ∀ r ∈ entries, r.strAccount = ""
  valid : ∀ k p, (start w entries).position k = some p → p ≠ -1 → 0 ≤ p
  distinct : ∀ k k' p, (start w entries).position k = some p → (start w entries).position k' = some p → p ≠ -1 → k = k'
  spaced : ∀ acentries, ownEntries entries = some acentries → Spaced ((txByTime w.txs acentries).map TimeItem.place)

/-- Where the entries have no names, each record with a position is an item. -/
theorem mem_keys_of_position (hnameless : ∀ r ∈ entries, r.strAccount = "") (hown : ownEntries entries = some acentries)
    {k : PositionKey} (hk : ((start w entries).position k).isSome = true) :
    k ∈ (txByTime w.txs acentries).map TimeItem.key := by
  rw [(perm_keys hown).mem_iff, List.mem_append]
  cases k with
  | inl hash =>
    obtain ⟨n, hn⟩ := Option.isSome_iff_exists.1 ((Option.isSome_map).symm.trans hk)
    have hhash : n.hash = hash := by simpa using List.find?_some hn
    exact .inl (List.mem_map_of_mem (hhash ▸ List.mem_map_of_mem (List.mem_of_find?_eq_some hn)))
  | inr key =>
    obtain ⟨_, hr⟩ := Option.isSome_iff_exists.1 hk
    obtain ⟨r, hfind, -⟩ := Option.bind_eq_some_iff.1 hr
    have hkey : (r.strAccount, r.nNumber) = key := by simpa using List.find?_some hfind
    have hall : entries.takeWhile (fun r => r.strAccount = "") = entries :=
      List.takeWhile_eq_self_iff.2 fun r hr => by simpa using hnameless r hr
    rw [hall]
    exact .inr (List.mem_map_of_mem (List.mem_map.2 ⟨r, List.mem_of_find?_eq_some hfind, hkey⟩))

theorem Orderly.sound (h : Orderly w entries) (hown : ownEntries entries = some acentries) :
    Sound (start w entries).position (txByTime w.txs acentries) :=
  ⟨fun _ hk => mem_keys_of_position h.nameless hown hk, h.valid, h.distinct, h.spaced acentries hown⟩

end Reordering

namespace OrderSample

/-- What a call leaves. -/
def reordered (w : OrderedWallet) (entries : List EntryRecord) : Reordering :=
  ((reorderTransactions env w entries).map Prod.snd).getD { wallet := {}, entries := [] }

/-- Two transactions without a position, and a transaction and an entry that have one. -/
def mixed : OrderedWallet where
  mapWallet := [⟨1, 1, timed 1 (-1)⟩, ⟨2, 2, timed 2 0⟩, ⟨3, 3, timed 3 (-1)⟩]

end OrderSample

end PayDayCoin
