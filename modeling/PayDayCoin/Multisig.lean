import PayDayCoin.InterpreterBounds
import PayDayCoin.Library.Matching

/-!
# OP_CHECKMULTISIG

`OP_CHECKMULTISIG` tries the signatures from the top one on against the keys from the top one on, and gives up as soon as
there are more signatures left than keys.

**`evalMultisig_matches`**: where no encoding fails the script, the operation finds true exactly when the signatures match
keys that stand in the same order, and it takes the numbers, the keys, the signatures and one element more off the stack.
-/

namespace PayDayCoin

open CScript Library.Matching

variable {E : Evaluator}

/-- With enough keys, the loop gives each key to the first signature left that is its own. -/
theorem multisigLoop_eq_greedy {scriptCode : CScript} {sigs keys : List Valtype}
    (henc : ∀ vchSig ∈ sigs, ∀ vchPubKey ∈ keys, E.checkEncodings vchSig vchPubKey = true) (hle : sigs.length ≤ keys.length) :
    multisigLoop E scriptCode sigs keys =
      some (greedy (fun vchSig vchPubKey => E.checkSig vchSig vchPubKey scriptCode) sigs keys) := by
  induction keys generalizing sigs with
  | nil =>
    obtain rfl := List.length_eq_zero_iff.1 (Nat.le_zero.1 hle)
    rfl
  | cons vchPubKey keys ih =>
    cases sigs with
    | nil => rfl
    | cons vchSig sigs =>
      have hcheck := henc vchSig List.mem_cons_self vchPubKey List.mem_cons_self
      have hkeys : ∀ s ∈ vchSig :: sigs, ∀ k ∈ keys, E.checkEncodings s k = true := fun s hs k hk =>
        henc s hs k (List.mem_cons_of_mem _ hk)
      rw [List.length_cons, List.length_cons] at hle
      rw [multisigLoop, hcheck, greedy]
      by_cases hsig : E.checkSig vchSig vchPubKey scriptCode = true
      · rw [if_pos hsig, if_pos hsig]
        have hle' : ¬ keys.length < sigs.length := by omega
        simp only [Bool.not_true, Bool.false_eq_true, if_false, if_neg hle']
        exact ih (fun s hs => hkeys s (List.mem_cons_of_mem _ hs)) (by omega)
      · rw [if_neg hsig, if_neg hsig]
        by_cases hfew : keys.length < (vchSig :: sigs).length
        · simp only [Bool.not_true, Bool.false_eq_true, if_false, if_pos hfew]
          rw [greedy_of_length hfew]
        · simp only [Bool.not_true, Bool.false_eq_true, if_false, if_neg hfew]
          exact ih hkeys (Nat.le_of_not_lt hfew)

/-- The signatures are those of keys in the same order, for the script without the signatures. -/
def SigsMatch (E : Evaluator) (codehash : CScript) (sigs keys : List Valtype) : Prop :=
  Matches (fun vchSig vchPubKey => E.checkSig vchSig vchPubKey (dropSigs codehash sigs)) sigs keys

theorem multisigLoop_true_iff {codehash : CScript} {sigs keys : List Valtype}
    (henc : ∀ vchSig ∈ sigs, ∀ vchPubKey ∈ keys, E.checkEncodings vchSig vchPubKey = true) (hle : sigs.length ≤ keys.length)
    {fSuccess : Bool} : multisigLoop E (dropSigs codehash sigs) sigs keys = some fSuccess ↔
      (fSuccess = true ↔ SigsMatch E codehash sigs keys) := by
  rw [multisigLoop_eq_greedy henc hle, Option.some_inj, SigsMatch, ← greedy_iff]
  exact ⟨fun h => by rw [h], fun h => (Bool.eq_iff_iff.2 h).symm⟩

/-- `OP_CHECKMULTISIG` without a test of encodings that fails the script. -/
theorem evalMultisig_matches {flags : UInt32} {txTo : CTransaction} {nIn : ℕ} {nHashType : Int32} [ScriptCrypto]
    (hflags : flags &&& SCRIPT_VERIFY_STRICTENC = 0) (f f' : Frame) (verify : Bool) :
    evalMultisig (consensusEvaluator flags txTo nIn nHashType) verify f = some f' ↔
      ∃ kn sn dummy keys sigs s fSuccess, f.stack = kn :: (keys ++ sn :: (sigs ++ dummy :: s)) ∧
        castToBigNum kn = some (keys.length : ℤ) ∧ castToBigNum sn = some (sigs.length : ℤ) ∧
        sigs.length ≤ keys.length ∧ keys.length ≤ 20 ∧ f.nOpCount + keys.length ≤ 201 ∧
        (flags &&& SCRIPT_VERIFY_NULLDUMMY ≠ 0 → dummy = []) ∧
        (fSuccess = true ↔ SigsMatch (consensusEvaluator flags txTo nIn nHashType) f.codehash sigs keys) ∧
        Frame.pushCheck { f with nOpCount := f.nOpCount + keys.length } verify fSuccess s = some f' := by
  have henc : ∀ vchSig vchPubKey, (consensusEvaluator flags txTo nIn nHashType).checkEncodings vchSig vchPubKey = true :=
    fun _ _ => by simp [consensusEvaluator, hflags]
  rw [evalMultisig_iff]
  constructor
  · rintro ⟨kn, sn, dummy, keys, sigs, s, hstack, hkn, hkeys, hcount, hsn, hsigs, hdummy, fSuccess, hloop, hcheck⟩
    refine ⟨kn, sn, dummy, keys, sigs, s, fSuccess, hstack, hkn, hsn, hsigs, hkeys, hcount, fun h => hdummy ?_, ?_, hcheck⟩
    · simp [consensusEvaluator, h]
    · exact (multisigLoop_true_iff (fun _ _ _ _ => henc _ _) hsigs).1 hloop
  · rintro ⟨kn, sn, dummy, keys, sigs, s, fSuccess, hstack, hkn, hsn, hsigs, hkeys, hcount, hdummy, hmatch, hcheck⟩
    refine ⟨kn, sn, dummy, keys, sigs, s, hstack, hkn, hkeys, hcount, hsn, hsigs, fun h => hdummy ?_, fSuccess, ?_, hcheck⟩
    · simpa [consensusEvaluator] using h
    · exact (multisigLoop_true_iff (fun _ _ _ _ => henc _ _) hsigs).2 hmatch

open InterpreterSample in
theorem evalMultisig_none_of_none :
    evalMultisig (consensusEvaluator 0 spend 0 0) false ⟨[[], [], [], [7]], [], [], 1, []⟩ =
      some ⟨[vchTrue, [7]], [], [], 1, []⟩ :=
  (evalMultisig_matches rfl _ _ false).2
    ⟨[], [], [], [], [], [[7]], true, rfl, rfl, rfl, le_rfl, by decide, by decide, fun _ => rfl,
      iff_of_true rfl (matches_nil _), rfl⟩

end PayDayCoin
