import PayDayCoin.CombineSignatures

/-!
# Signing together

The keys of a payment to some of several keys are spread over parties. Each party has `SignSignature` write what its keys
sign, which is not enough to spend, and the transactions are merged.

**`parties_spend`**: the merged script of the input spends exactly when the parties have enough of the keys together.
-/

namespace PayDayCoin

open CScript Library.Matching

/-- The script of an input of a transaction. -/
def CTransaction.scriptSigAt (tx : CTransaction) (nIn : ℕ) : CScript := ((tx.vin[nIn]?).map CTxIn.scriptSig).getD []

section Parties

variable [ScriptCrypto]

/-- What `SignSignature` writes for a party. -/
def CKeyStore.writes (party : CKeyStore) (scriptPubKey : CScript) (txTo : CTransaction) (nIn : ℕ) (ht : UInt8) : CScript :=
  (signSignature party scriptPubKey txTo nIn (Int32.ofNat ht.toNat)).2.scriptSigAt nIn

/-- A party has the key of these bytes. -/
def CKeyStore.haveBytes (party : CKeyStore) (pubkey : Valtype) : Bool :=
  (party.getKey (ScriptCrypto.hash160 pubkey)).isSome

/-- The signatures of the first keys that a party has, below one element that is popped too many. -/
def CKeyStore.sigStack (party : CKeyStore) (m : ℕ) (keys : List CPubKey) (txTo : CTransaction) (nIn : ℕ) (ht : UInt8) :
    List Valtype :=
  ([] :: ((keys.filter party.haveKey).take m).map
    (party.sigOf ht (signatureHash (multisigScript m keys) txTo nIn (Int32.ofNat ht.toNat)))).reverse

variable {party : CKeyStore} {ht : UInt8} {m : ℕ} {keys : List CPubKey} {scriptPubKey : CScript} {suffix : List Valtype}
  {txTo : CTransaction} {nIn : ℕ}

theorem mem_take_haveBytes {k : Valtype} :
    k ∈ ((keys.map CPubKey.bytes).filter party.haveBytes).take m ↔
      ∃ key ∈ (keys.filter party.haveKey).take m, key.bytes = k := by
  rw [List.filter_map, ← List.map_take, List.mem_map]
  rfl

/-- What a party knows of a payment: it can sign with its keys, and has the script behind a hash. -/
structure CKeyStore.Joins (party : CKeyStore) (ht : UInt8) (m : ℕ) (keys : List CPubKey) (suffix : List Valtype) : Prop where
  signs : ∀ key ∈ keys, party.Signs ht key
  getCScript : suffix ≠ [] →
    party.getCScript (ScriptCrypto.hash160 (multisigScript m keys)) = some (multisigScript m keys)

variable (hm : 1 ≤ m ∧ m ≤ keys.length) (hn : keys.length ≤ 16)

include hm hn

/-- What a party writes, whether or not it can spend by itself. -/
theorem CKeyStore.Joins.writes (h : party.Joins ht m keys suffix) (hpays : PaysTo (multisigScript m keys) scriptPubKey suffix)
    (hin : nIn < txTo.vin.length) :
    party.writes scriptPubKey txTo nIn ht = ((party.sigStack m keys txTo nIn ht).reverse ++ suffix).flatMap (push []) := by
  have hsolve := fun hash => @solverSign_multisig _ party ht m keys h.signs hm hn hash
  have hwritten : ∀ s, (txTo.setScriptSig nIn s).scriptSigAt nIn = s := fun s => by
    rw [CTransaction.scriptSigAt, scriptSig_setScriptSig hin, Option.getD_some]
  rw [sigStack, List.reverse_reverse]
  cases hpays with
  | script =>
    rw [CKeyStore.writes, signSignature, hsolve, List.append_nil]
    dsimp only
    rw [if_neg (by decide : ¬ TxnOutType.TX_MULTISIG = .TX_SCRIPTHASH)]
    split <;> exact hwritten _
  | scriptID hsize =>
    have houter : ∀ hash nHashType, solverSign party
        (getScriptForDestination (.scriptID (ScriptCrypto.hash160 (multisigScript m keys)))) hash nHashType =
        (true, multisigScript m keys, .TX_SCRIPTHASH) := fun hash nHashType => by
      rw [solverSign, solver_scriptID]
      simp only [List.headD_cons, ofVector_pn, h.getCScript (List.cons_ne_nil _ _)]
    rw [CKeyStore.writes, signSignature, houter]
    simp only [Bool.not_true, Bool.false_eq_true, if_false, if_true, signatureHash_setScriptSig, hsolve,
      setScriptSig_setScriptSig]
    rw [List.flatMap_append, List.flatMap_singleton, ← push_eq_append]
    split <;> exact hwritten _

variable (hht : isDefinedHashtypeSignature [ht] = true)

include hht

omit hm hn in
theorem CKeyStore.Joins.mem_sigStack (h : party.Joins ht m keys suffix) {sig : Valtype}
    (hsig : sig ∈ party.sigStack m keys txTo nIn ht) :
    sig = [] ∨ checkSignatureEncoding sig = true ∧ ∃ key ∈ (keys.filter party.haveKey).take m,
      sig = party.sigOf ht (signatureHash (multisigScript m keys) txTo nIn (Int32.ofNat ht.toNat)) key := by
  rcases List.mem_cons.1 (List.mem_reverse.1 hsig) with rfl | hsig
  · exact .inl rfl
  · obtain ⟨key, hkey, rfl⟩ := List.mem_map.1 hsig
    obtain ⟨hin, hhave⟩ := List.mem_filter.1 (List.mem_of_mem_take hkey)
    exact .inr ⟨((h.signs key hin).sigOf hht hhave _).1, key, hkey, rfl⟩

/-- The stack that what a party writes leaves. -/
theorem CKeyStore.Joins.scriptSigStack (h : party.Joins ht m keys suffix)
    (hpays : PaysTo (multisigScript m keys) scriptPubKey suffix) (hin : nIn < txTo.vin.length) :
    scriptSigStack (party.writes scriptPubKey txTo nIn ht) = some (suffix ++ party.sigStack m keys txTo nIn ht) := by
  rw [h.writes hm hn hpays hin]
  refine (hpays.eval_pushes (fun _ _ => rfl) (fun d hd => ?_) ?_).trans (by rw [List.reverse_reverse])
  · rcases h.mem_sigStack hht (List.mem_reverse.1 hd) with rfl | ⟨henc, -⟩
    · decide
    · exact length_of_checkSignatureEncoding henc
  · have hle := List.length_take_le m (keys.filter party.haveKey)
    rw [sigStack, List.reverse_reverse, List.length_cons, List.length_map]
    omega

variable (hunique : ∀ key ∈ keys, party.haveKey key = true → ∀ key' ∈ keys,
  signsInput (multisigScript m keys) txTo nIn
    (party.sigOf ht (signatureHash (multisigScript m keys) txTo nIn (Int32.ofNat ht.toNat)) key) key'.bytes = true →
  key'.bytes = key.bytes)

include hunique

omit hm hn in
theorem CKeyStore.Joins.goodSig (h : party.Joins ht m keys suffix) {sig : Valtype}
    (hsig : sig ∈ party.sigStack m keys txTo nIn ht) :
    GoodSig (signsInput (multisigScript m keys) txTo nIn) (keys.map CPubKey.bytes) sig := by
  intro k hk hcheck
  rcases h.mem_sigStack hht hsig with rfl | ⟨henc, key, hkey, rfl⟩
  · rw [signsInput, sigValid_nil] at hcheck
    cases hcheck
  · obtain ⟨hin, hhave⟩ := List.mem_filter.1 (List.mem_of_mem_take hkey)
    have hone : ∀ k' ∈ keys.map CPubKey.bytes, signsInput (multisigScript m keys) txTo nIn
        (party.sigOf ht (signatureHash (multisigScript m keys) txTo nIn (Int32.ofNat ht.toNat)) key) k' = true →
        k' = key.bytes := by
      intro k' hk' hcheck'
      obtain ⟨key', hin', rfl⟩ := List.mem_map.1 hk'
      exact hunique key hin hhave key' hin' hcheck'
    exact ⟨henc, fun k' hk' hcheck' => (hone k' hk' hcheck').trans (hone k hk hcheck).symm⟩

omit hm hn in
/-- Who has signed in what a party writes. -/
theorem CKeyStore.Joins.signed (h : party.Joins ht m keys suffix) {k : Valtype} (hk : k ∈ keys.map CPubKey.bytes) :
    signed (signsInput (multisigScript m keys) txTo nIn) (party.sigStack m keys txTo nIn ht) k =
      decide (k ∈ ((keys.map CPubKey.bytes).filter party.haveBytes).take m) := by
  rw [Bool.eq_iff_iff, decide_eq_true_eq, mem_take_haveBytes, PayDayCoin.signed, List.any_eq_true]
  constructor
  · rintro ⟨sig, hsig, hcheck⟩
    rcases h.mem_sigStack hht hsig with rfl | ⟨-, key, hkey, rfl⟩
    · rw [signsInput, sigValid_nil] at hcheck
      cases hcheck
    · obtain ⟨hin, hhave⟩ := List.mem_filter.1 (List.mem_of_mem_take hkey)
      obtain ⟨key', hin', rfl⟩ := List.mem_map.1 hk
      exact ⟨key, hkey, (hunique key hin hhave key' hin' hcheck).symm⟩
  · rintro ⟨key, hkey, rfl⟩
    obtain ⟨hin, hhave⟩ := List.mem_filter.1 (List.mem_of_mem_take hkey)
    have hvalid := (h.signs key hin).sigValid hht hhave (multisigScript m keys) [] txTo nIn
    rw [sigValid_setScriptSig] at hvalid
    exact ⟨_, List.mem_reverse.2 (List.mem_cons_of_mem _ (List.mem_map_of_mem hkey)), hvalid⟩

omit hunique

/-- **Signing together**: each of some parties signs the transaction by itself, with the keys that it has, and the
transactions are merged. The merged script of the input spends the payment to some of several keys exactly when the parties
have enough of the keys together. -/
theorem parties_spend {parties : List CKeyStore} (hne : parties ≠ [])
    (hpays : PaysTo (multisigScript m keys) scriptPubKey suffix) (hin : nIn < txTo.vin.length)
    (hjoins : ∀ party' ∈ party :: parties, party'.Joins ht m keys suffix)
    (hunique : ∀ party' ∈ party :: parties, ∀ key ∈ keys, party'.haveKey key = true → ∀ key' ∈ keys,
      signsInput (multisigScript m keys) txTo nIn
        (party'.sigOf ht (signatureHash (multisigScript m keys) txTo nIn (Int32.ofNat ht.toNat)) key) key'.bytes = true →
      key'.bytes = key.bytes) :
    ∃ merged, mergeVariants scriptPubKey txTo nIn (party.writes scriptPubKey txTo nIn ht)
        (parties.map fun party' => party'.writes scriptPubKey txTo nIn ht) = some merged ∧
      ∀ flags, verifyScript merged scriptPubKey (txTo.setScriptSig nIn merged) nIn flags 0 = true ↔
        m ≤ (keys.filter fun key => (party :: parties).any fun party' => party'.haveKey key).length := by
  have hkeys : ∀ key ∈ keys, HasSize key ∧ isCompressedOrUncompressedPubKey key.bytes = true := fun key hkey =>
    have h := (hjoins party List.mem_cons_self).signs key hkey
    ⟨h.hasSize, h.encoding⟩
  have hvariants : List.Forall₂ (fun variant stack => scriptSigStack variant = some (suffix ++ stack))
      (parties.map fun party' => party'.writes scriptPubKey txTo nIn ht)
      (parties.map fun party' => party'.sigStack m keys txTo nIn ht) := by
    rw [List.forall₂_map_left_iff, List.forall₂_map_right_iff, List.forall₂_same]
    exact fun party' hparty => (hjoins party' (List.mem_cons_of_mem _ hparty)).scriptSigStack hm hn hht hpays hin
  have hgood : ∀ party' ∈ party :: parties, ∀ sig ∈ party'.sigStack m keys txTo nIn ht,
      GoodSig (signsInput (multisigScript m keys) txTo nIn) (keys.map CPubKey.bytes) sig :=
    fun party' hparty sig hsig => (hjoins party' hparty).goodSig hht (hunique party' hparty) hsig
  have hown := (hjoins party List.mem_cons_self).scriptSigStack hm hn hht hpays hin
  obtain ⟨sigs, hmerge, hmerged⟩ := mergeVariants_merged hkeys hm hn hpays rfl hvariants
    (by
      intro s hs sig hsig
      obtain ⟨party', hparty, rfl⟩ := List.mem_map.1 hs
      exact hgood party' (List.mem_cons_of_mem _ hparty) sig hsig)
    (by rwa [Ne, List.map_eq_nil_iff]) (.ofStack hown (hgood party List.mem_cons_self))
  refine ⟨_, hmerge, fun flags => ((hmerged.setScriptSig _).verifyScript_iff hkeys hm hn hpays flags).trans ?_⟩
  have htogether : (keys.filter fun key => (party :: parties).any fun party' => party'.haveKey key).length =
      ((keys.map CPubKey.bytes).filter fun b => ((party :: parties).map CKeyStore.haveBytes).any fun c => c b).length := by
    rw [List.filter_map, List.length_map]
    simp only [List.any_map]
    rfl
  rw [htogether, ← le_length_filter_any_take]
  -- the keys that have signed are the first that some party has
  refine iff_of_eq (congrArg (m ≤ List.length ·) (List.filter_congr fun k hk => ?_))
  rw [← List.any_cons (f := fun stack => signed (signsInput (multisigScript m keys) txTo nIn) stack k),
    ← List.map_cons (f := fun party' : CKeyStore => party'.sigStack m keys txTo nIn ht), List.any_map, List.any_map,
    Bool.eq_iff_iff, List.any_eq_true, List.any_eq_true]
  refine exists_congr fun party' => and_congr_right fun hparty => ?_
  rw [Function.comp, (hjoins party' hparty).signed hht (hunique party' hparty) hk, Function.comp]

end Parties

namespace InterpreterSample

theorem joins_keystore (party : CKeyStore) (hparty : party ∈ [keystore, keystore]) :
    party.Joins 1 1 [key] [multisigScript 1 [key]] := by
  obtain rfl : party = keystore := by simpa using hparty
  exact ⟨List.forall_mem_singleton.2 signs_key, fun _ => rfl⟩

theorem one_key (party : CKeyStore) (_ : party ∈ [keystore, keystore]) :
    ∀ k ∈ [key], party.haveKey k = true → ∀ k' ∈ [key],
      signsInput (multisigScript 1 [key]) spend 0
        (party.sigOf 1 (signatureHash (multisigScript 1 [key]) spend 0 (Int32.ofNat (1 : UInt8).toNat)) k) k'.bytes = true →
      k'.bytes = k.bytes :=
  fun _ hk _ _ hk' _ => by rw [List.mem_singleton.1 hk, List.mem_singleton.1 hk']

theorem parties_spend_key :
    let scriptPubKey := getScriptForDestination (.scriptID (ScriptCrypto.hash160 (multisigScript 1 [key])))
    ∃ merged, mergeVariants scriptPubKey spend 0 (keystore.writes scriptPubKey spend 0 1)
        ([keystore].map fun party => party.writes scriptPubKey spend 0 1) = some merged ∧
      ∀ flags, verifyScript merged scriptPubKey (spend.setScriptSig 0 merged) 0 flags 0 = true ↔
        1 ≤ ([key].filter fun k => [keystore, keystore].any fun party => party.haveKey k).length :=
  parties_spend (by decide) (by decide) (by decide) (List.cons_ne_nil _ _) (.scriptID (by decide)) (by decide) joins_keystore
    one_key

end InterpreterSample

end PayDayCoin
