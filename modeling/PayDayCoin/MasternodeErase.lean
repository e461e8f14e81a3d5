import PayDayCoin.Masternode
import PayDayCoin.NetAddr

/-!
# Loops that erase

`Remove` and `CheckAndRemove` go through the masternodes with an iterator and erase some of them. `CheckAndRemove`, and
the loops over the three maps of requests behind it, move the iterator on where nothing is erased; `Remove` does not.

**`removes_and_cleans_iff`**: `CheckAndRemove` always ends, with the masternodes that are neither removable nor spent nor
too old; and `Remove` ends, without the masternode of the input, if and only if there is no masternode or the first is the
one of the input.
-/

namespace PayDayCoin

/-! ### The loops -/

section Loops

variable {α : Type}

/-- A loop that erases where `p` holds, and moves on where it does not, from the place `it` on. -/
def eraseLoop (p : α → Bool) : ℕ → List α → ℕ → Option (List α)
  | 0, _, _ => none
  | fuel + 1, l, it =>
    match l[it]? with
    | none => some l
    | some a => if p a then eraseLoop p fuel (l.eraseIdx it) it else eraseLoop p fuel l (it + 1)

/-- A turn for each element, and one that sees the end. -/
theorem eraseLoop_eq (p : α → Bool) {fuel it : ℕ} {l : List α} (h : l.length < fuel + it) (hit : it ≤ l.length) :
    eraseLoop p fuel l it = some (l.take it ++ (l.drop it).filter fun a => !p a) := by
  induction fuel generalizing l it with
  | zero => omega
  | succ fuel ih =>
    rw [eraseLoop]
    rcases hget : l[it]? with _ | a
    · have hend : l.length ≤ it := List.getElem?_eq_none_iff.1 hget
      rw [List.drop_of_length_le hend, List.take_of_length_le hend, List.filter_nil, List.append_nil]
    · obtain ⟨hlt, hget⟩ := List.getElem?_eq_some_iff.1 hget
      have hdrop : l.drop it = a :: l.drop (it + 1) := by rw [List.drop_eq_getElem_cons hlt, hget]
      have htake : l.take (it + 1) = l.take it ++ [a] := by rw [List.take_succ_eq_append_getElem hlt, hget]
      dsimp only
      by_cases hp : p a = true
      · have hlength : (l.eraseIdx it).length = l.length - 1 := List.length_eraseIdx_of_lt hlt
        rw [if_pos hp, ih (by omega) (by omega), hdrop, List.filter_cons_of_neg (by simpa using hp),
          List.eraseIdx_eq_take_drop_succ, List.take_left' (List.length_take_of_le hlt.le),
          List.drop_left' (List.length_take_of_le hlt.le)]
      · rw [if_neg hp, ih (by omega) hlt, hdrop, htake, List.filter_cons_of_pos (by simpa using hp), List.append_assoc,
          List.singleton_append]

/-- The loop ends with what is kept. -/
theorem eraseLoop_filter (p : α → Bool) {l : List α} {fuel : ℕ} (h : l.length < fuel) :
    eraseLoop p fuel l 0 = some (l.filter fun a => !p a) := by
  rw [eraseLoop_eq p h (Nat.zero_le _), List.take_zero, List.drop_zero, List.nil_append]

end Loops

/-- The masternodes, and who asked for the list, whom we asked for it, and for which masternodes. -/
structure MasternodeBook extends CMasternodeMan where
  mAskedUsForMasternodeList : List (CNetAddr × ℤ) := []
  mWeAskedForMasternodeList : List (CNetAddr × ℤ) := []
  mWeAskedForMasternodeListEntry : List (COutPoint × ℤ) := []

namespace MasternodeBook

/-- The loop of `Remove`. -/
def removeLoop (vin : CTxIn) : ℕ → List CMasternode → ℕ → Option (List CMasternode)
  | 0, _, _ => none
  | fuel + 1, l, it =>
    match l[it]? with
    | none => some l
    | some mn => if mn.vin = vin then some (l.eraseIdx it) else removeLoop vin fuel l it

/-- `CMasternodeMan::Remove`, for so many turns. -/
def remove (fuel : ℕ) (book : MasternodeBook) (vin : CTxIn) : Option MasternodeBook :=
  (removeLoop vin fuel book.vMasternodes 0).map fun l => { book with vMasternodes := l }

/-- What `CheckAndRemove` erases. -/
def isInactive (nMasternodeMinProtocol : ℤ) (mn : CMasternode) : Bool :=
  mn.activeState = .MASTERNODE_REMOVE || mn.activeState = .MASTERNODE_VIN_SPENT ||
    mn.protocolVersion < nMasternodeMinProtocol

/-- `CMasternodeMan::CheckAndRemove`, for so many turns of each loop, at a time. -/
def checkAndRemove (env : MasternodeEnv) (nMasternodeMinProtocol now : ℤ) (fuel : ℕ) (book : MasternodeBook) :
    Option MasternodeBook := do
  let checked := book.vMasternodes.map fun mn => mn.check env
  let vMasternodes ← eraseLoop (isInactive nMasternodeMinProtocol) fuel checked 0
  let asked ← eraseLoop (fun e => e.2 < now) fuel book.mAskedUsForMasternodeList 0
  let weAsked ← eraseLoop (fun e => e.2 < now) fuel book.mWeAskedForMasternodeList 0
  let entries ← eraseLoop (fun e => e.2 < now) fuel book.mWeAskedForMasternodeListEntry 0
  pure ⟨⟨vMasternodes⟩, asked, weAsked, entries⟩

/-! ### What they leave -/

/-- `Remove` ends, and the masternode of the input is gone, if there was one. -/
def Removes (book : MasternodeBook) (vin : CTxIn) : Prop :=
  ∃ fuel, book.remove fuel vin = some { book with vMasternodes := book.vMasternodes.eraseP fun mn => mn.vin = vin }

/-- `CheckAndRemove` ends, with the masternodes that stay and the requests that have not expired. -/
def Cleans (env : MasternodeEnv) (nMasternodeMinProtocol now : ℤ) (book : MasternodeBook) : Prop :=
  ∃ fuel, book.checkAndRemove env nMasternodeMinProtocol now fuel = some
    { vMasternodes := (book.vMasternodes.map fun mn => mn.check env).filter fun mn =>
        !isInactive nMasternodeMinProtocol mn
      mAskedUsForMasternodeList := book.mAskedUsForMasternodeList.filter fun e => now ≤ e.2
      mWeAskedForMasternodeList := book.mWeAskedForMasternodeList.filter fun e => now ≤ e.2
      mWeAskedForMasternodeListEntry := book.mWeAskedForMasternodeListEntry.filter fun e => now ≤ e.2 }

theorem cleans (env : MasternodeEnv) (nMasternodeMinProtocol now : ℤ) (book : MasternodeBook) :
    book.Cleans env nMasternodeMinProtocol now := by
  let fuel := (book.vMasternodes.map fun mn => mn.check env).length + book.mAskedUsForMasternodeList.length +
    book.mWeAskedForMasternodeList.length + book.mWeAskedForMasternodeListEntry.length + 1
  have hkeep {κ : Type} (l : List (κ × ℤ)) :
      (l.filter fun e => !decide (e.2 < now)) = l.filter fun e => decide (now ≤ e.2) :=
    List.filter_congr fun e _ => by rw [← decide_not, decide_eq_decide, not_lt]
  refine ⟨fuel, ?_⟩
  rw [checkAndRemove, eraseLoop_filter _ (by omega), eraseLoop_filter _ (by omega), eraseLoop_filter _ (by omega),
    eraseLoop_filter _ (by omega), hkeep, hkeep, hkeep]
  rfl

/-- A first masternode of another input is looked at again and again. -/
theorem removeLoop_stuck {vin : CTxIn} {mn : CMasternode} {l : List CMasternode} (h : mn.vin ≠ vin) (fuel : ℕ) :
    removeLoop vin fuel (mn :: l) 0 = none := by
  induction fuel with
  | zero => rfl
  | succ fuel ih =>
    rw [removeLoop, List.getElem?_cons_zero]
    dsimp only
    rw [if_neg h, ih]

theorem removes_iff (book : MasternodeBook) (vin : CTxIn) :
    book.Removes vin ↔ ∀ mn ∈ book.vMasternodes.head?, mn.vin = vin := by
  rw [Removes]
  rcases hlist : book.vMasternodes with _ | ⟨mn, l⟩
  · refine iff_of_true ⟨1, ?_⟩ fun mn hmn => by cases hmn
    rw [remove, hlist]
    rfl
  · by_cases hvin : mn.vin = vin
    · have hrest : (mn :: l).eraseP (fun mn => mn.vin = vin) = l := List.eraseP_cons_of_pos (decide_eq_true hvin)
      refine iff_of_true ⟨1, ?_⟩ fun mn' hmn => ?_
      · rw [remove, hlist, removeLoop, List.getElem?_cons_zero]
        dsimp only
        rw [if_pos hvin, hrest]
        rfl
      · rwa [← Option.some_inj.1 hmn]
    · refine iff_of_false ?_ fun hall => hvin (hall mn rfl)
      rintro ⟨fuel, hremove⟩
      rw [remove, hlist, removeLoop_stuck hvin] at hremove
      cases hremove

/-- **`CheckAndRemove` always ends as it should, and `Remove` does if and only if the first masternode, where there is
one, is that of the input.** -/
theorem removes_and_cleans_iff (env : MasternodeEnv) (nMasternodeMinProtocol now : ℤ) (book : MasternodeBook)
    (vin : CTxIn) :
    book.Removes vin ∧ book.Cleans env nMasternodeMinProtocol now ↔ ∀ mn ∈ book.vMasternodes.head?, mn.vin = vin := by
  rw [← removes_iff]
  exact and_iff_left (book.cleans env nMasternodeMinProtocol now)

namespace EraseSample

/-- A masternode of the input `n`. -/
def masternode (n : ℕ) : CMasternode where
  vin := ⟨⟨BitVec.ofNat 256 n, 0⟩, [], 0⟩
  protocolVersion := 1

/-- **The second masternode is never removed**: the loop does not end. -/
theorem second_stuck :
    ¬∃ fuel book, remove fuel { vMasternodes := [masternode 1, masternode 2] } (masternode 2).vin = some book := by
  rintro ⟨fuel, book, hremove⟩
  rw [remove, removeLoop_stuck (by decide)] at hremove
  cases hremove

end EraseSample

end MasternodeBook

end PayDayCoin
