import PayDayCoin.SessionEntries

/-!
# The signatures of a mixing session

`AddScriptSig` refuses a script that an input has already, and then asks `SignatureValid`, which looks for the
input that is equal to the one given, script and all. There is none, so `SignatureValid` has nothing to verify
(**`signatureValid_of_new`**), and every script is taken. **`session_verified`** says what holds nevertheless: as long
as the scripts that come in `dss` messages for inputs of the session verify on the final transaction, each input that
is marked as signed has a script that does, a session that is complete has them all, and no good script is kept out.
In `SessionSample.garbage_signed` a script that verifies nothing marks an input as signed, and keeps
the good one out.
-/

namespace PayDayCoin

open Library.Runs Library.Updates

/-- A transaction without its scripts, which is what signatures sign. -/
def CTransaction.unsigned (tx : CTransaction) : CTransaction :=
  { tx with vin := tx.vin.map fun txin => { txin with scriptSig := [] } }

/-- `VerifyScript`: `SignatureHash` blanks the scripts of the transaction. -/
structure ScriptVerifier where
  verify : VerifyScript
  blind : ∀ scriptSig scriptPubKey tx tx' n, tx.unsigned = tx'.unsigned →
    verify scriptSig scriptPubKey tx n = verify scriptSig scriptPubKey tx' n

/-- What a signature names an input by. -/
def CTxIn.key (txin : CTxIn) : COutPoint × UInt32 := (txin.prevout, txin.nSequence)

namespace CDarksendPool

/-- The submitted inputs of all entries. -/
def sevs (pool : CDarksendPool) : List CTxDSIn := pool.entries.flatMap CDarkSendEntry.sev

theorem inputs_eq (pool : CDarksendPool) : pool.inputs = pool.sevs.map CTxDSIn.toCTxIn := by
  rw [inputs, sevs, List.map_flatMap]

/-! ### SignatureValid -/

theorem found_eq_none {l : List CTxIn} {newVin : CTxIn} (h : newVin ∉ l) :
    (List.range l.length).foldl (fun found i => if l[i]? = some newVin then some i else found) (none : Option ℕ) =
      none := by
  refine List.foldlRecOn (motive := fun found : Option ℕ => found = none) _ _ rfl fun found hfound i _ => ?_
  rw [if_neg fun hi => h (List.mem_of_getElem? hi), hfound]

/-- **`SignatureValid` verifies nothing** when no input has the script, which `AddScriptSig`
has made sure of. -/
theorem signatureValid_of_new (env : PoolEnv) {newVin : CTxIn} {pool : CDarksendPool}
    (hnew : ∀ s ∈ pool.inputs, s.scriptSig ≠ newVin.scriptSig) : pool.signatureValid env newVin = true := by
  have hmem : newVin ∉ (pool.merged env).vin := fun hmem => hnew newVin hmem rfl
  simp only [signatureValid, found_eq_none hmem]

/-! ### The invariant -/

section Verified

variable (V : ScriptVerifier) (prevPubKey : COutPoint → CScript)

/-- A script verifies for each input of the final transaction that has a key. -/
def VerifiesAt (tx : CTransaction) (vin : CTxIn) : Prop :=
  ∀ p ∈ tx.vin.zipIdx, p.1.key = vin.key → V.verify vin.scriptSig (prevPubKey vin.prevout) tx p.2 = true

/-- A signature that comes in is of no input of the session, or good for the final
transaction. -/
def GoodSig (pool : CDarksendPool) (newVin : CTxIn) : Prop :=
  newVin.key ∉ pool.inputs.map CTxIn.key ∧ newVin.key ∉ pool.finalTransaction.vin.map CTxIn.key ∨
    newVin.key ∈ pool.finalTransaction.vin.map CTxIn.key ∧ VerifiesAt V prevPubKey pool.finalTransaction newVin

/-- The signatures of a `dss` are good, each when its turn comes. -/
def Signs (pool : CDarksendPool) : MixingEvent → Prop
  | .dss env sigs => Along (fun pool item => (pool.addScriptSig env item).1) (GoodSig V prevPubKey) pool sigs
  | _ => True

/-- What holds between the entries and the final transaction. -/
structure Verified (pool : CDarksendPool) : Prop where
  users : pool.entries ≠ [] → (poolMaxTransactions : ℤ) ≤ pool.sessionUsers + 1
  live : pool.finalTransaction.vin ≠ [] → poolMaxTransactions ≤ pool.entries.length ∧
    (pool.state = .POOL_STATUS_SIGNING ∨ pool.state = .POOL_STATUS_TRANSMISSION)
  settled : pool.state ≠ .POOL_STATUS_FINALIZE_TRANSACTION
  keys : pool.finalTransaction.vin ≠ [] →
    (pool.finalTransaction.vin.map CTxIn.key).Perm (pool.inputs.map CTxIn.key)
  signed : ∀ s ∈ pool.sevs, s.fHasSig = true → pool.finalTransaction.vin ≠ [] ∧
    VerifiesAt V prevPubKey pool.finalTransaction s.toCTxIn ∧
      ∀ txin ∈ pool.finalTransaction.vin, txin.key = s.toCTxIn.key → VerifiesAt V prevPubKey pool.finalTransaction txin

end Verified

/-! ### What a signature changes -/

section Sig

variable {V : ScriptVerifier} {prevPubKey : COutPoint → CScript} {tx tx' : CTransaction} {vin vin' : CTxIn}
  {pool : CDarksendPool} {env : PoolEnv}

/-- What verifies depends on the keys of the transaction, not on its scripts. -/
theorem verifiesAt_congr (hunsigned : tx'.unsigned = tx.unsigned) (hkeys : tx'.vin.map CTxIn.key = tx.vin.map CTxIn.key)
    (hkey : vin'.key = vin.key) (hscript : vin'.scriptSig = vin.scriptSig) (h : VerifiesAt V prevPubKey tx vin) :
    VerifiesAt V prevPubKey tx' vin' := by
  rintro ⟨txin', i⟩ hi heq
  have hi' := congrArg (Option.map CTxIn.key) (List.mem_zipIdx_iff_getElem?.1 hi)
  rw [← List.getElem?_map, hkeys, List.getElem?_map] at hi'
  obtain ⟨txin, hi, hk⟩ := Option.map_eq_some_iff.1 hi'
  have hgood := h (txin, i) (List.mem_zipIdx_iff_getElem?.2 hi) (hk.trans (heq.trans hkey))
  rw [V.blind _ _ _ _ _ hunsigned, hscript, (Prod.mk.inj hkey).1]
  exact hgood

/-- The final transaction with a signature. -/
def signedWith (newVin : CTxIn) (tx : CTransaction) : CTransaction :=
  { tx with vin := tx.vin.map fun vin =>
      if newVin.prevout = vin.prevout ∧ vin.nSequence = newVin.nSequence then { vin with scriptSig := newVin.scriptSig }
      else vin }

theorem signedWith_keys (newVin : CTxIn) (tx : CTransaction) :
    (signedWith newVin tx).vin.map CTxIn.key = tx.vin.map CTxIn.key := by
  rw [signedWith, List.map_map]
  refine List.map_congr_left fun vin _ => ?_
  simp only [Function.comp]
  split <;> rfl

theorem signedWith_unsigned (newVin : CTxIn) (tx : CTransaction) : (signedWith newVin tx).unsigned = tx.unsigned := by
  simp only [CTransaction.unsigned, signedWith, List.map_map]
  congr 1
  refine List.map_congr_left fun vin _ => ?_
  simp only [Function.comp]
  split <;> rfl

/-- An input of the signed transaction has the script of the signature, or is as before. -/
theorem mem_signedWith {newVin txin : CTxIn} (h : txin ∈ (signedWith newVin tx).vin) :
    txin.key = newVin.key ∧ txin.scriptSig = newVin.scriptSig ∨ txin.key ≠ newVin.key ∧ txin ∈ tx.vin := by
  obtain ⟨vin, hvin, rfl⟩ := List.mem_map.1 h
  split
  · rename_i hkey
    exact .inl ⟨Prod.ext hkey.1.symm hkey.2, rfl⟩
  · rename_i hkey
    exact .inr ⟨fun heq => hkey ⟨(Prod.mk.inj heq).1.symm, (Prod.mk.inj heq).2⟩, hvin⟩

/-- An input of an entry that takes a signature is as before, or the one it is for. -/
theorem mem_addSig {e e' : CDarkSendEntry} (h : e.addSig vin = some e') {s : CTxDSIn} (hs : s ∈ e'.sev) :
    s ∈ e.sev ∨ s.toCTxIn.key = vin.key ∧ s.scriptSig = vin.scriptSig := by
  unfold CDarkSendEntry.addSig at h
  split at h
  · cases h
  · rename_i i hfind
    split at h
    · cases h
    · obtain rfl := Option.some.inj h
      obtain ⟨hlt, hmatch, -⟩ := List.findIdx?_eq_some_iff_getElem.1 hfind
      obtain ⟨j, hj⟩ := List.mem_iff_getElem?.1 hs
      rw [List.getElem?_modify] at hj
      obtain ⟨s₀, hs₀, rfl⟩ := Option.map_eq_some_iff.1 hj
      split
      · rename_i hij
        subst hij
        rw [Bool.and_eq_true, beq_iff_eq, beq_iff_eq] at hmatch
        rw [List.getElem?_eq_getElem hlt, Option.some.injEq] at hs₀
        subst hs₀
        exact .inr ⟨Prod.ext hmatch.1 hmatch.2, rfl⟩
      · exact .inl (List.mem_of_getElem? hs₀)

theorem mem_addSigs {l l' : List CDarkSendEntry} (h : addSigs vin l = some l') {s : CTxDSIn}
    (hs : s ∈ l'.flatMap CDarkSendEntry.sev) :
    s ∈ l.flatMap CDarkSendEntry.sev ∨ s.toCTxIn.key = vin.key ∧ s.scriptSig = vin.scriptSig := by
  induction l generalizing l' with
  | nil => cases h
  | cons e l ih =>
    rw [addSigs] at h
    rw [List.flatMap_cons, List.mem_append]
    cases he : e.addSig vin with
    | some e' =>
      rw [he] at h
      obtain rfl := Option.some.inj h
      rw [List.flatMap_cons, List.mem_append] at hs
      rcases hs with hs | hs
      · exact (mem_addSig he hs).imp_left .inl
      · exact .inl (.inr hs)
    | none =>
      rw [he] at h
      obtain ⟨l₁, hl, rfl⟩ := Option.map_eq_some_iff.1 h
      rw [List.flatMap_cons, List.mem_append] at hs
      rcases hs with hs | hs
      · exact .inl (.inl hs)
      · exact (ih hl hs).imp_left .inr

/-- An entry without the input takes no signature. -/
theorem addSigs_eq_none {l : List CDarkSendEntry}
    (hnew : ∀ s ∈ l.flatMap CDarkSendEntry.sev, s.toCTxIn.key ≠ vin.key) : addSigs vin l = none := by
  induction l with
  | nil => rfl
  | cons e l ih =>
    have he : e.addSig vin = none := by
      unfold CDarkSendEntry.addSig
      rw [List.findIdx?_eq_none_iff.2 fun s hs => ?_]
      rw [Bool.and_eq_false_iff, beq_eq_false_iff_ne, beq_eq_false_iff_ne]
      by_contra h
      rw [not_or, not_ne_iff, not_ne_iff] at h
      exact hnew s (List.mem_flatMap.2 ⟨e, List.mem_cons_self, hs⟩) (Prod.ext h.1 h.2)
    rw [addSigs, he]
    simp only
    rw [ih fun s hs => hnew s (by rw [List.flatMap_cons]; exact List.mem_append_right _ hs)]
    rfl

/-- The keys of the inputs stay when an entry takes a signature. -/
theorem addSigs_keys {l l' : List CDarkSendEntry} (h : addSigs vin l = some l') :
    (l'.flatMap CDarkSendEntry.sev).map (fun s => s.toCTxIn.key) =
      (l.flatMap CDarkSendEntry.sev).map (fun s => s.toCTxIn.key) ∧ l'.length = l.length := by
  induction l generalizing l' with
  | nil => cases h
  | cons e l ih =>
    rw [addSigs] at h
    cases he : e.addSig vin with
    | some e' =>
      rw [he] at h
      obtain rfl := Option.some.inj h
      have hsev : e'.sev.map (fun s => s.toCTxIn.key) = e.sev.map fun s => s.toCTxIn.key := by
        unfold CDarkSendEntry.addSig at he
        split at he
        · cases he
        · split at he
          · cases he
          · obtain rfl := Option.some.inj he
            exact map_modify_of_eq (CTxDSIn.withSig vin) (fun _ => rfl) _ _
      rw [List.flatMap_cons, List.flatMap_cons, List.map_append, List.map_append, hsev]
      exact ⟨rfl, rfl⟩
    | none =>
      rw [he] at h
      obtain ⟨l₁, hl, rfl⟩ := Option.map_eq_some_iff.1 h
      rw [List.flatMap_cons, List.flatMap_cons, List.map_append, List.map_append, (ih hl).1, List.length_cons,
        (ih hl).2, List.length_cons]
      exact ⟨rfl, rfl⟩

/-- What `AddScriptSig` does: nothing, or it writes the script into the final transaction
and perhaps an entry. -/
theorem addScriptSig_cases (env : PoolEnv) (newVin : CTxIn) (pool : CDarksendPool) :
    (pool.addScriptSig env newVin).1 = pool ∨
      (addSigs newVin pool.entries = none ∧ (pool.addScriptSig env newVin).1 =
        { pool with finalTransaction := signedWith newVin pool.finalTransaction }) ∨
      ∃ entries, addSigs newVin pool.entries = some entries ∧ (pool.addScriptSig env newVin).1 =
        { pool with finalTransaction := signedWith newVin pool.finalTransaction, entries := entries } := by
  unfold addScriptSig
  split
  · exact .inl rfl
  · split
    · exact .inl rfl
    · simp only
      split
      · rename_i entries hsigs
        exact .inr (.inr ⟨entries, hsigs, rfl⟩)
      · rename_i hsigs
        exact .inr (.inl ⟨hsigs, rfl⟩)

/-- A signature for no input of the session changes nothing. -/
theorem addScriptSig_foreign (env : PoolEnv) {newVin : CTxIn} (hin : newVin.key ∉ pool.inputs.map CTxIn.key)
    (hfinal : newVin.key ∉ pool.finalTransaction.vin.map CTxIn.key) : (pool.addScriptSig env newVin).1 = pool := by
  have hnone : addSigs newVin pool.entries = none := addSigs_eq_none fun s hs hkey => hin (by
    rw [inputs_eq, List.map_map]
    exact List.mem_map.2 ⟨s, hs, hkey⟩)
  have hsame : signedWith newVin pool.finalTransaction = pool.finalTransaction := by
    have hid : ∀ vin ∈ pool.finalTransaction.vin,
        (if newVin.prevout = vin.prevout ∧ vin.nSequence = newVin.nSequence then
          { vin with scriptSig := newVin.scriptSig } else vin) = vin := fun vin hvin =>
      if_neg fun h => hfinal (List.mem_map.2 ⟨vin, hvin, Prod.ext h.1.symm h.2⟩)
    rw [signedWith, List.map_congr_left hid, List.map_id']
  rcases addScriptSig_cases env newVin pool with h | ⟨-, h⟩ | ⟨entries, h, -⟩
  · exact h
  · rw [h, hsame]
  · rw [hnone] at h
    cases h

end Sig

/-! ### What steps keep -/

section Keep

variable {V : ScriptVerifier} {prevPubKey : COutPoint → CScript} {pool pool' : CDarksendPool} {env : PoolEnv}
  {newVin : CTxIn}

/-- Without a final transaction, nothing is signed. -/
theorem Verified.of_unsigned (husers : pool.entries ≠ [] → (poolMaxTransactions : ℤ) ≤ pool.sessionUsers + 1)
    (hnil : pool.finalTransaction.vin = []) (hsettled : pool.state ≠ .POOL_STATUS_FINALIZE_TRANSACTION)
    (hsigs : ∀ s ∈ pool.sevs, s.fHasSig = false) : pool.Verified V prevPubKey := by
  refine ⟨husers, fun h => absurd hnil h, hsettled, fun h => absurd hnil h, fun s hs hsig => ?_⟩
  rw [hsigs s hs] at hsig
  cases hsig

theorem Verified.unsigned (h : pool.Verified V prevPubKey) (hnil : pool.finalTransaction.vin = []) :
    ∀ s ∈ pool.sevs, s.fHasSig = false := fun s hs => by
  cases hsig : s.fHasSig with
  | false => rfl
  | true => exact absurd hnil (h.signed s hs hsig).1

theorem verified_setNull (env : PoolEnv) (pool : CDarksendPool) : (pool.setNull env).Verified V prevPubKey :=
  .of_unsigned (fun h => absurd rfl h) rfl nofun fun _ hs => absurd hs List.not_mem_nil

theorem verified_setNull_updateState (env : PoolEnv) (pool : CDarksendPool) {newState : PoolStatus}
    (hstate : newState ≠ .POOL_STATUS_FINALIZE_TRANSACTION) :
    ((pool.setNull env).updateState env newState).Verified V prevPubKey := by
  unfold updateState
  split
  · exact verified_setNull env pool
  · exact .of_unsigned (fun h => absurd rfl h) rfl hstate fun _ hs => absurd hs List.not_mem_nil

/-- **A good signature is written where it verifies.** -/
theorem Verified.addScriptSig (h : pool.Verified V prevPubKey) (hgood : pool.GoodSig V prevPubKey newVin) :
    (pool.addScriptSig env newVin).1.Verified V prevPubKey := by
  rcases hgood with ⟨hin, hfinal⟩ | ⟨hfinal, hverifies⟩
  · rw [addScriptSig_foreign env hin hfinal]
    exact h
  have hsome : pool.finalTransaction.vin ≠ [] := List.ne_nil_of_mem (List.mem_map.1 hfinal).choose_spec.1
  have hsome' : (signedWith newVin pool.finalTransaction).vin ≠ [] := fun hnil =>
    hsome (List.map_eq_nil_iff.1 hnil)
  have hunsigned := signedWith_unsigned newVin pool.finalTransaction
  have hkeys := signedWith_keys newVin pool.finalTransaction
  -- a script with the key of the signature that is the signature's verifies
  have hsig : ∀ txin : CTxIn, txin.key = newVin.key → txin.scriptSig = newVin.scriptSig →
      VerifiesAt V prevPubKey (signedWith newVin pool.finalTransaction) txin := fun txin hk hs =>
    verifiesAt_congr hunsigned hkeys hk hs hverifies
  have hold : ∀ txin : CTxIn, VerifiesAt V prevPubKey pool.finalTransaction txin →
      VerifiesAt V prevPubKey (signedWith newVin pool.finalTransaction) txin := fun txin ht =>
    verifiesAt_congr hunsigned hkeys rfl rfl ht
  have hsigned : ∀ s : CTxDSIn, s ∈ pool.sevs ∧ s.fHasSig = true ∨
      s.toCTxIn.key = newVin.key ∧ s.scriptSig = newVin.scriptSig →
      VerifiesAt V prevPubKey (signedWith newVin pool.finalTransaction) s.toCTxIn ∧
        ∀ txin ∈ (signedWith newVin pool.finalTransaction).vin, txin.key = s.toCTxIn.key →
          VerifiesAt V prevPubKey (signedWith newVin pool.finalTransaction) txin := by
    rintro s (⟨hs, hhas⟩ | ⟨hk, hscript⟩)
    · obtain ⟨-, hat, hall⟩ := h.signed s hs hhas
      refine ⟨hold _ hat, fun txin htxin hkey => ?_⟩
      rcases mem_signedWith htxin with ⟨hk, hscript⟩ | ⟨-, hmem⟩
      · exact hsig txin hk hscript
      · exact hold txin (hall txin hmem hkey)
    · refine ⟨hsig _ hk hscript, fun txin htxin hkey => ?_⟩
      rcases mem_signedWith htxin with ⟨hk', hscript'⟩ | ⟨hne, -⟩
      · exact hsig txin hk' hscript'
      · exact absurd (hkey.trans hk) hne
  rcases addScriptSig_cases env newVin pool with heq | ⟨-, heq⟩ | ⟨entries, hsigs, heq⟩
  · rw [heq]
    exact h
  · rw [heq]
    refine ⟨h.users, fun _ => h.live hsome, h.settled, fun _ => ?_, fun s hs hhas => ⟨hsome', hsigned s (.inl ⟨hs, hhas⟩)⟩⟩
    rw [hkeys]
    exact h.keys hsome
  · rw [heq]
    obtain ⟨hsame, hlen⟩ := addSigs_keys hsigs
    refine ⟨fun _ => h.users ?_, fun _ => ?_, h.settled, fun _ => ?_, fun s hs hhas => ⟨hsome', hsigned s ?_⟩⟩
    · intro hnil
      rw [hnil] at hsigs
      cases hsigs
    · simp only [hlen]
      exact h.live hsome
    · simp only [hkeys, inputs_eq, List.map_map]
      have hperm := h.keys hsome
      rw [inputs_eq, List.map_map] at hperm
      exact hperm.trans (List.Perm.of_eq hsame.symm)
    · rcases mem_addSigs hsigs hs with hs | hs
      · exact .inl ⟨hs, hhas⟩
      · exact .inr hs

theorem Verified.addScriptSigs {sigs : List CTxIn} (h : pool.Verified V prevPubKey)
    (hsigns : pool.Signs V prevPubKey (.dss env sigs)) : (pool.addScriptSigs env sigs).1.Verified V prevPubKey := by
  have hrun : (pool.addScriptSigs env sigs).1 = run (fun pool item => (pool.addScriptSig env item).1) pool sigs := by
    unfold CDarksendPool.addScriptSigs run
    have hgen : ∀ (sigs : List CTxIn) (st : CDarksendPool × Bool),
        (sigs.foldl (fun st item => ((st.1.addScriptSig env item).1, st.2 || (st.1.addScriptSig env item).2)) st).1 =
          sigs.foldl (fun pool item => (pool.addScriptSig env item).1) st.1 := by
      intro sigs
      induction sigs with
      | nil => exact fun _ => rfl
      | cons item sigs ih => exact fun st => ih _
    exact hgen sigs (pool, false)
  rw [hrun]
  exact invariant_of_along (fun _ _ _ hgood hv => hv.addScriptSig hgood) hsigns h

/-- The final transaction is made of the entries, none of which is signed yet. -/
theorem Verified.finalized (h : pool.Verified V prevPubKey) :
    ((pool.checkFull env).checkFinalize env).Verified V prevPubKey := by
  unfold checkFull
  split
  · rename_i hfull
    have hnil : pool.finalTransaction.vin = [] := by
      by_contra hsome
      rcases (h.live hsome).2 with hstate | hstate <;> rw [hfull.1] at hstate <;> cases hstate
    have hsigs := h.unsigned hnil
    have hstate : (pool.updateState env .POOL_STATUS_FINALIZE_TRANSACTION).state = .POOL_STATUS_FINALIZE_TRANSACTION :=
      rfl
    unfold checkFinalize
    rw [if_pos hstate]
    refine ⟨h.users, fun _ => ⟨hfull.2, .inl rfl⟩, nofun, fun _ => ?_, fun s hs hhas => ?_⟩
    · exact (env.shuffleVin.perm _).map CTxIn.key
    · rw [hsigs s hs] at hhas
      cases hhas
  · unfold checkFinalize
    rw [if_neg h.settled]
    exact h

theorem Verified.check (h : pool.Verified V prevPubKey) : (pool.check env).Verified V prevPubKey := by
  have hmade : ((pool.checkFull env).checkFinalize env).Verified V prevPubKey := h.finalized
  have hsent : (((pool.checkFull env).checkFinalize env).checkSigned env).Verified V prevPubKey := by
    unfold checkSigned
    split
    · unfold checkFinalTransaction
      split
      · exact verified_setNull_updateState env _ (by decide)
      · split
        · exact ⟨hmade.users, fun hsome => ⟨(hmade.live hsome).1, .inr rfl⟩, nofun, hmade.keys, hmade.signed⟩
        · exact verified_setNull env _
    · exact hmade
  unfold CDarksendPool.check checkEnded
  split
  · exact verified_setNull env _
  · exact hsent

/-- While entries are taken, there is no final transaction. -/
theorem Verified.waiting (h : pool.Verified V prevPubKey)
    (hstate : pool.state = .POOL_STATUS_ACCEPTING_ENTRIES ∨ pool.state = .POOL_STATUS_QUEUE) :
    pool.finalTransaction.vin = [] := by
  by_contra hsome
  rcases (h.live hsome).2 with hs | hs <;> rw [hs] at hstate <;> rcases hstate with hstate | hstate <;> cases hstate

theorem Verified.checkTimeout (h : pool.Verified V prevPubKey) : (pool.checkTimeout env).Verified V prevPubKey := by
  have hnulled : ∀ pool : CDarksendPool,
      ((pool.setNull env).updateState env .POOL_STATUS_ERROR).Verified V prevPubKey := fun pool =>
    verified_setNull_updateState env pool (by decide)
  have hwaiting : (pool.checkWaiting env).Verified V prevPubKey := by
    unfold checkWaiting
    split
    · rename_i hstate
      have hnil := h.waiting hstate
      simp only
      split
      · exact verified_setNull env _
      · unfold expireEntries
        simp only
        split
        · exact verified_setNull env _
        · have hsub := List.filter_sublist (p := fun e : CDarkSendEntry => !e.isExpired env.time) (l := pool.entries)
          refine .of_unsigned (fun hsome => h.users fun hnone => hsome ?_) hnil h.settled fun s hs => ?_
          · simp only [hnone, List.filter_nil]
          · exact h.unsigned hnil s ((hsub.flatMap _).subset hs)
    · split
      · exact hnulled pool
      · exact h
  unfold CDarksendPool.checkTimeout checkSigning
  split
  · exact hnulled _
  · exact hwaiting

end Keep

/-! ### Runs -/

section Run

variable [Crypto] {V : ScriptVerifier} {prevPubKey : COutPoint → CScript} {pool : CDarksendPool} {event : MixingEvent}

theorem Verified.dsa (h : pool.Verified V prevPubKey) {pool' : CDarksendPool} {env : PoolEnv} {nDenom : ℤ}
    {txCollateral : CTransaction} (hdsa : pool.dsa env nDenom txCollateral = some pool') :
    pool'.Verified V prevPubKey := by
  unfold CDarksendPool.dsa at hdsa
  split at hdsa
  · cases hdsa
  split at hdsa
  · cases hdsa
  unfold isCompatibleWithSession at hdsa
  split at hdsa
  · cases hdsa
  split at hdsa
  · cases hdsa
  split at hdsa <;> rename_i husers
  · obtain rfl := Option.some.inj hdsa
    have hnone : pool.entries = [] := by
      by_contra hsome
      have hle := h.users hsome
      rw [poolMaxTransactions] at hle
      omega
    have hnil : pool.finalTransaction.vin = [] := by
      by_contra hsome
      have hlen := (h.live hsome).1
      rw [hnone] at hlen
      exact absurd hlen (by decide)
    refine .of_unsigned (fun hsome => absurd hnone hsome) hnil nofun fun s hs => ?_
    rw [sevs] at hs
    exact absurd (hnone ▸ hs : s ∈ [].flatMap CDarkSendEntry.sev) List.not_mem_nil
  · split at hdsa
    · cases hdsa
    · split at hdsa
      · cases hdsa
      · obtain rfl := Option.some.inj hdsa
        refine ⟨fun hsome => ?_, h.live, h.settled, h.keys, h.signed⟩
        have hle := h.users hsome
        simp only
        omega

theorem Verified.dsi (h : pool.Verified V prevPubKey) {env : PoolEnv} {newInput : List CTxIn} {nAmount : ℤ}
    {txCollateral : CTransaction} {newOutput : List CTxOut} :
    (pool.dsi env newInput nAmount txCollateral newOutput).1.Verified V prevPubKey := by
  unfold CDarksendPool.dsi
  by_cases hok : pool.submissionOk env newInput newOutput = true
  swap
  · rw [if_neg hok]
    exact h
  have hready : (poolMaxTransactions : ℤ) ≤ pool.sessionUsers := by
    simp only [submissionOk, Bool.and_eq_true, decide_eq_true_eq] at hok
    exact hok.1.1.1.1.1.1
  rw [if_pos hok, addEntry]
  by_cases haccepted : pool.entryAccepted env newInput nAmount txCollateral = true
  · simp only [if_pos haccepted, if_true]
    have hroom : pool.entries.length < poolMaxTransactions := by
      simp only [entryAccepted, Bool.and_eq_true, decide_eq_true_eq] at haccepted
      exact haccepted.1.2
    have hnil : pool.finalTransaction.vin = [] := by
      by_contra hsome
      exact absurd (h.live hsome).1 (Nat.not_le.2 hroom)
    refine Verified.check (.of_unsigned (fun _ => ?_) hnil h.settled fun s hs => ?_)
    · simp only
      omega
    · simp only [sevs, List.flatMap_append, List.flatMap_singleton, List.mem_append, List.mem_map] at hs
      rcases hs with hs | ⟨txin, -, rfl⟩
      · exact h.unsigned hnil s hs
      · rfl
  · simp only [if_neg haccepted, Bool.false_eq_true, if_false]
    refine ⟨fun _ => ?_, h.live, h.settled, h.keys, h.signed⟩
    simp only
    omega

/-- Each event whose signatures are good keeps what is signed verified. -/
theorem Verified.step (h : pool.Verified V prevPubKey) (hsigns : pool.Signs V prevPubKey event) :
    (pool.step event).Verified V prevPubKey := by
  cases event with
  | dsa env nDenom txCollateral =>
    cases hdsa : pool.dsa env nDenom txCollateral with
    | none =>
      rw [CDarksendPool.step, hdsa, Option.getD_none]
      exact h
    | some pool' =>
      rw [CDarksendPool.step, hdsa, Option.getD_some]
      exact h.dsa hdsa
  | dsi env newInput nAmount txCollateral newOutput => exact h.dsi
  | dss env sigs =>
    have hsigs := h.addScriptSigs hsigns
    simp only [CDarksendPool.step, CDarksendPool.dss]
    split
    · exact hsigs.check
    · exact hsigs
  | checkTimeout env => exact h.checkTimeout
  | checkForCompleteQueue env =>
    simp only [CDarksendPool.step, CDarksendPool.checkForCompleteQueue]
    split
    · rename_i hqueue
      have hnil := h.waiting (.inr hqueue.1)
      have hbusy : PoolStatus.POOL_STATUS_ACCEPTING_ENTRIES ≠ .POOL_STATUS_FINALIZE_TRANSACTION := by decide
      exact .of_unsigned h.users hnil (fun hnow => absurd hnow hbusy) (h.unsigned hnil)
    · exact h
  | reset env => exact verified_setNull env pool

omit [Crypto] in
/-- A signature that is new, for an input of which no one is signed, is taken. -/
theorem addScriptSig_taken (env : PoolEnv) {newVin : CTxIn}
    (hnew : ∀ s ∈ pool.inputs, s.scriptSig ≠ newVin.scriptSig) (hmem : newVin.key ∈ pool.inputs.map CTxIn.key)
    (hunsigned : ∀ s ∈ pool.sevs, s.toCTxIn.key = newVin.key → s.fHasSig = false) :
    (pool.addScriptSig env newVin).2 = true := by
  have htaken : ∀ l : List CDarkSendEntry, (∃ s ∈ l.flatMap CDarkSendEntry.sev, s.toCTxIn.key = newVin.key) →
      (∀ s ∈ l.flatMap CDarkSendEntry.sev, s.toCTxIn.key = newVin.key → s.fHasSig = false) →
      (addSigs newVin l).isSome := by
    intro l
    induction l with
    | nil => exact fun ⟨s, hs, _⟩ => absurd hs List.not_mem_nil
    | cons e l ih =>
      rintro ⟨s, hs, hkey⟩ hall
      simp only [List.flatMap_cons, List.mem_append] at hs hall
      rw [addSigs]
      cases hfind : e.sev.findIdx? fun s => s.prevout == newVin.prevout && s.nSequence == newVin.nSequence with
      | none =>
        have he : e.addSig newVin = none := by rw [CDarkSendEntry.addSig, hfind]
        rw [he]
        simp only [Option.isSome_map]
        refine ih ⟨s, hs.resolve_left fun hs => ?_, hkey⟩ fun s hs => hall s (.inr hs)
        have hno := List.findIdx?_eq_none_iff.1 hfind s hs
        rw [(Prod.mk.inj hkey).1, (Prod.mk.inj hkey).2] at hno
        simp at hno
      | some i =>
        obtain ⟨hlt, hmatch, -⟩ := List.findIdx?_eq_some_iff_getElem.1 hfind
        rw [Bool.and_eq_true, beq_iff_eq, beq_iff_eq] at hmatch
        have hnot := hall (e.sev[i]) (.inl (List.getElem_mem hlt)) (Prod.ext hmatch.1 hmatch.2)
        have he : ∃ e', e.addSig newVin = some e' := by
          rw [CDarkSendEntry.addSig, hfind]
          simp only [List.getElem?_eq_getElem hlt, Option.map_some, Option.getD_some, hnot, Bool.false_eq_true, if_false]
          exact ⟨_, rfl⟩
        obtain ⟨e', he⟩ := he
        rw [he]
        rfl
  obtain ⟨entries, hentries⟩ := Option.isSome_iff_exists.1 (htaken pool.entries (by
    rw [inputs_eq, List.map_map] at hmem
    obtain ⟨s, hs, hkey⟩ := List.mem_map.1 hmem
    exact ⟨s, hs, hkey⟩) hunsigned)
  have hany : (pool.inputs.any fun s => s.scriptSig == newVin.scriptSig) = false := by
    rw [List.any_eq_false]
    exact fun s hs heq => hnew s hs (eq_of_beq heq)
  rw [addScriptSig, hany, signatureValid_of_new env hnew]
  simp only [Bool.false_eq_true, if_false, Bool.not_true, hentries]

/-- **What is signed verifies**, in every run whose signatures are good: each input that is
marked as signed, and all of a session that is complete; a signature for no input changes
nothing, and one for an input that is not signed is taken, unless its script is there. -/
theorem session_verified (V : ScriptVerifier) (prevPubKey : COutPoint → CScript) (events : List MixingEvent)
    (hsigns : Along step (Signs V prevPubKey) {} events) (n : ℕ) :
    let pool := run step {} (events.take n)
    (∀ s ∈ pool.sevs, s.fHasSig = true → s.toCTxIn.key ∈ pool.finalTransaction.vin.map CTxIn.key ∧
      VerifiesAt V prevPubKey pool.finalTransaction s.toCTxIn ∧
        ∀ txin ∈ pool.finalTransaction.vin, txin.key = s.toCTxIn.key →
          VerifiesAt V prevPubKey pool.finalTransaction txin) ∧
    (pool.signaturesComplete = true → ∀ txin ∈ pool.finalTransaction.vin,
      VerifiesAt V prevPubKey pool.finalTransaction txin) ∧
    ∀ env newVin,
      (newVin.key ∉ pool.inputs.map CTxIn.key → newVin.key ∉ pool.finalTransaction.vin.map CTxIn.key →
        (pool.addScriptSig env newVin).1 = pool) ∧
      (newVin.key ∈ pool.inputs.map CTxIn.key →
        (∀ s ∈ pool.sevs, s.toCTxIn.key = newVin.key → s.fHasSig = false) →
        (∀ s ∈ pool.inputs, s.scriptSig ≠ newVin.scriptSig) → (pool.addScriptSig env newVin).2 = true) := by
  intro pool
  have hverified : pool.Verified V prevPubKey :=
    invariant_of_along (fun _ _ _ hs hv => hv.step hs) (hsigns.take n)
      (.of_unsigned (fun h => absurd rfl h) rfl nofun fun _ hs => absurd hs List.not_mem_nil)
  refine ⟨fun s hs hhas => ?_, fun hcomplete txin htxin => ?_, fun env newVin => ⟨?_, ?_⟩⟩
  · obtain ⟨hsome, hat, hall⟩ := hverified.signed s hs hhas
    refine ⟨(hverified.keys hsome).mem_iff.2 ?_, hat, hall⟩
    rw [inputs_eq, List.map_map]
    exact List.mem_map.2 ⟨s, hs, rfl⟩
  · have hsome := List.ne_nil_of_mem htxin
    have hmem := (hverified.keys hsome).mem_iff.1 (List.mem_map_of_mem htxin)
    rw [inputs_eq, List.map_map] at hmem
    obtain ⟨s, hs, hkey⟩ := List.mem_map.1 hmem
    obtain ⟨e, he, hse⟩ := List.mem_flatMap.1 hs
    have hhas : s.fHasSig = true := List.all_eq_true.1 (List.all_eq_true.1 hcomplete e he) s hse
    exact (hverified.signed s hs hhas).2.2 txin htxin hkey.symm
  · exact addScriptSig_foreign env
  · exact fun hmem hunsigned hnew => addScriptSig_taken env hnew hmem hunsigned

end Run

end CDarksendPool

namespace SessionSample

open Sample CDarksendPool

/-- A script verifies if it is the one byte `1`. -/
def verifier : ScriptVerifier where
  verify scriptSig _ _ _ := scriptSig == [1]
  blind _ _ _ _ _ _ := rfl

/-- Three clients submit an input each, and the final transaction goes out for signing. -/
def signing : List MixingEvent :=
  joined ++ [.dsi env [spends 1] 0 (collateral 0) [pay (COIN + 1000)],
    .dsi env [spends 2] 0 (collateral 0) [pay (COIN + 1000)], .dsi env [spends 3] 0 (collateral 0) [pay (COIN + 1000)]]

/-- A signature for the first input. -/
def sigOf (scriptSig : CScript) : CTxIn := { spends 1 with scriptSig := scriptSig }

/-- The session after a signature for the first input. -/
def signedBy (scriptSig : CScript) : List MixingEvent := signing ++ [.dss env [sigOf scriptSig]]

/-- **A script that verifies nothing marks an input as signed**, and the good one
is not taken afterwards. -/
theorem garbage_signed :
    (∃ s ∈ (run CDarksendPool.step {} (signedBy [0])).sevs, s.fHasSig = true ∧
      ¬ VerifiesAt verifier (fun _ => []) (run CDarksendPool.step {} (signedBy [0])).finalTransaction s.toCTxIn) ∧
      ((run CDarksendPool.step {} signing).addScriptSig env (sigOf [1])).2 = true ∧
      ((run CDarksendPool.step {} (signedBy [0])).addScriptSig env (sigOf [1])).2 = false := by
  unfold VerifiesAt
  refine ⟨?_, ?_, ?_⟩ <;> decide +kernel

/-- With a good signature, what is signed verifies. -/
theorem good_verified :
    (run CDarksendPool.step {} ((signedBy [1]).take 8)).sevs ≠ [] ∧
    ∀ s ∈ (run CDarksendPool.step {} ((signedBy [1]).take 8)).sevs, s.fHasSig = true →
      VerifiesAt verifier (fun _ => []) (run CDarksendPool.step {} ((signedBy [1]).take 8)).finalTransaction s.toCTxIn := by
  have hgood : (run CDarksendPool.step {} signing).Signs verifier (fun _ => []) (.dss env [sigOf [1]]) := by
    refine ⟨.inr ⟨?_, ?_⟩, trivial⟩
    · decide +kernel
    · unfold VerifiesAt
      decide +kernel
  have hsigns : Along CDarksendPool.step (Signs verifier fun _ => []) {} (signedBy [1]) :=
    ⟨trivial, trivial, trivial, trivial, trivial, trivial, trivial, hgood, trivial⟩
  exact ⟨List.ne_nil_of_length_pos (by decide +kernel),
    fun s hs hhas => ((session_verified verifier (fun _ => []) _ hsigns 8).1 s hs hhas).2.1⟩

end SessionSample

end PayDayCoin
