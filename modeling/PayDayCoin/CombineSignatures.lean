import PayDayCoin.SignSignature

/-!
# Combining signatures

Each party to a payment to several keys signs a transaction of its own; `CombineSignatures` takes two scripts of an input
and makes one of the signatures in both, and `signrawtransaction` merges one transaction after the other so.

**`mergeVariants_multisig`** and **`mergeVariants_scriptID`**: in whatever order the transactions come, and whatever else they
push, the merged script spends exactly when enough keys have signed in any of them.
-/

namespace PayDayCoin

open CScript Library.Matching

/-! ### The functions of the source -/

/-- `PushAll`; the top of a stack is pushed last. -/
def pushAll (values : List Valtype) : CScript := values.reverse.flatMap (push [])

/-- `allsigs`: the elements of both stacks but the empty ones, each once and in order. -/
def allSigs (sigs1 sigs2 : List Valtype) : List Valtype :=
  ((sigs1 ++ sigs2).filter fun v => !v.isEmpty).dedup.mergeSort fun a b => !(b < a)

/-- The loop over the public keys for one signature: the first key without one whose signature it is gets it. -/
def assignSig (checkSig : Valtype → Valtype → Bool) (sig : Valtype) :
    List Valtype → List (Valtype × Valtype) → List (Valtype × Valtype)
  | [], sigs => sigs
  | pubkey :: pubkeys, sigs =>
    if (sigs.lookup pubkey).isSome then assignSig checkSig sig pubkeys sigs
    else if checkSig sig pubkey then (pubkey, sig) :: sigs
    else assignSig checkSig sig pubkeys sigs

/-- The map `sigs` of public keys to signatures. -/
def sigsOf (checkSig : Valtype → Valtype → Bool) (pubkeys allsigs : List Valtype) : List (Valtype × Valtype) :=
  allsigs.foldl (fun sigs sig => assignSig checkSig sig pubkeys sigs) []

/-- The loop that pushes the signatures: how many there are, and the script. -/
def mergeLoop (sigs : List (Valtype × Valtype)) (nSigsRequired : ℕ) : List Valtype → ℕ → CScript → ℕ × CScript
  | [], nSigsHave, result => (nSigsHave, result)
  | pubkey :: pubkeys, nSigsHave, result =>
    if nSigsHave < nSigsRequired then
      match sigs.lookup pubkey with
      | none => mergeLoop sigs nSigsRequired pubkeys nSigsHave result
      | some sig => mergeLoop sigs nSigsRequired pubkeys (nSigsHave + 1) (push result sig)
    else (nSigsHave, result)

section Combine

variable [ScriptCrypto]

/-- `CombineMultisig`. -/
def combineMultisig (scriptPubKey : CScript) (txTo : CTransaction) (nIn : ℕ) (vSolutions sigs1 sigs2 : List Valtype) :
    CScript :=
  let nSigsRequired := ((vSolutions.headD []).headD 0).toNat
  let pubkeys := vSolutions.tail.dropLast
  let sigs := sigsOf (fun sig pubkey => sigValid sig pubkey scriptPubKey txTo nIn 0) pubkeys (allSigs sigs1 sigs2)
  let r := mergeLoop sigs nSigsRequired pubkeys 0 [OP_0]
  r.2 ++ List.replicate (nSigsRequired - r.1) OP_0

/-- `CombineSignatures` of the stacks that two scripts of an input leave. -/
def combineStacks (txTo : CTransaction) (nIn : ℕ) (scriptPubKey : CScript) (sigs1 sigs2 : List Valtype) : CScript :=
  match (solver scriptPubKey).2 with
  | (.TX_NONSTANDARD, _) => if sigs2.length ≤ sigs1.length then pushAll sigs1 else pushAll sigs2
  | (.TX_NULL_DATA, _) => if sigs2.length ≤ sigs1.length then pushAll sigs1 else pushAll sigs2
  | (.TX_PUBKEY, _) => if (sigs1.getLastD []).isEmpty then pushAll sigs2 else pushAll sigs1
  | (.TX_PUBKEYHASH, _) => if (sigs1.getLastD []).isEmpty then pushAll sigs2 else pushAll sigs1
  | (.TX_SCRIPTHASH, _) =>
    match sigs1 with
    | [] => pushAll sigs2
    | spk :: stack1 =>
      if spk.isEmpty then pushAll sigs2
      else
        match sigs2 with
        | [] => pushAll (spk :: stack1)
        | top :: stack2 =>
          if top.isEmpty then pushAll (spk :: stack1) else push (combineStacks txTo nIn spk stack1 stack2) spk
  | (.TX_MULTISIG, vSolutions) => combineMultisig scriptPubKey txTo nIn vSolutions sigs1 sigs2

/-- The stack that a script of an input leaves, for a transaction without inputs. -/
def scriptSigStack (scriptSig : CScript) : Option (List Valtype) :=
  evalScript (consensusEvaluator SCRIPT_VERIFY_NONE { nTime := 0, vin := [], vout := [] } 0 0) [] scriptSig

/-- `CombineSignatures` of two scripts of an input that both go through. -/
def combineSignatures (scriptPubKey : CScript) (txTo : CTransaction) (nIn : ℕ) (scriptSig1 scriptSig2 : CScript) :
    Option CScript := do
  let stack1 ← scriptSigStack scriptSig1
  let stack2 ← scriptSigStack scriptSig2
  some (combineStacks txTo nIn scriptPubKey stack1 stack2)

/-- The loop of `signrawtransaction` over the variants of a transaction, for one input. -/
def mergeVariants (scriptPubKey : CScript) (txTo : CTransaction) (nIn : ℕ) (scriptSig : CScript) :
    List CScript → Option CScript
  | [] => some scriptSig
  | variant :: variants => do
    let scriptSig ← combineSignatures scriptPubKey (txTo.setScriptSig nIn scriptSig) nIn scriptSig variant
    mergeVariants scriptPubKey txTo nIn scriptSig variants

end Combine

/-! ### The map of signatures -/

section Map

variable {checkSig : Valtype → Valtype → Bool} {pubkeys : List Valtype}

/-- A key has signed in a stack. -/
def signed (checkSig : Valtype → Valtype → Bool) (stack : List Valtype) (pubkey : Valtype) : Bool :=
  stack.any fun sig => checkSig sig pubkey

theorem mem_allSigs {sigs1 sigs2 : List Valtype} {v : Valtype} :
    v ∈ allSigs sigs1 sigs2 ↔ (v ∈ sigs1 ∨ v ∈ sigs2) ∧ v ≠ [] := by
  simp [allSigs, List.mem_mergeSort, or_and_right]

theorem lookup_cons (k : Valtype) (v : Valtype) (sigs : List (Valtype × Valtype)) (k' : Valtype) :
    ((k, v) :: sigs).lookup k' = if k' = k then some v else sigs.lookup k' := by
  rw [List.lookup_cons]
  by_cases h : k' = k
  · simp [h]
  · rw [if_neg h, beq_false_of_ne h]

/-- A signature goes to no key when each key that it may go to has one, and else to one that has none. -/
theorem assignSig_cases (sig : Valtype) (pubkeys : List Valtype) (sigs : List (Valtype × Valtype)) :
    (assignSig checkSig sig pubkeys sigs = sigs ∧
        ∀ k ∈ pubkeys, checkSig sig k = true → (sigs.lookup k).isSome = true) ∨
      ∃ k ∈ pubkeys, checkSig sig k = true ∧ assignSig checkSig sig pubkeys sigs = (k, sig) :: sigs := by
  induction pubkeys with
  | nil => exact .inl ⟨rfl, fun k hk => by cases hk⟩
  | cons pubkey pubkeys ih =>
    have hlater : assignSig checkSig sig (pubkey :: pubkeys) sigs = assignSig checkSig sig pubkeys sigs →
        (checkSig sig pubkey = true → (sigs.lookup pubkey).isSome = true) →
        (assignSig checkSig sig (pubkey :: pubkeys) sigs = sigs ∧
            ∀ k ∈ pubkey :: pubkeys, checkSig sig k = true → (sigs.lookup k).isSome = true) ∨
          ∃ k ∈ pubkey :: pubkeys, checkSig sig k = true ∧
            assignSig checkSig sig (pubkey :: pubkeys) sigs = (k, sig) :: sigs := by
      intro heq hfirst
      rw [heq]
      rcases ih with ⟨hsame, hall⟩ | ⟨k, hk, hcheck, hassign⟩
      · exact .inl ⟨hsame, List.forall_mem_cons.2 ⟨hfirst, hall⟩⟩
      · exact .inr ⟨k, List.mem_cons_of_mem _ hk, hcheck, hassign⟩
    by_cases hhas : (sigs.lookup pubkey).isSome = true
    · exact hlater (by rw [assignSig, if_pos hhas]) fun _ => hhas
    by_cases hcheck : checkSig sig pubkey = true
    · exact .inr ⟨pubkey, List.mem_cons_self, hcheck, by rw [assignSig, if_neg hhas, if_pos hcheck]⟩
    · exact hlater (by rw [assignSig, if_neg hhas, if_neg hcheck]) fun h => absurd h hcheck

/-- Where no signature is that of two keys, the map has a signature for each key that has signed. -/
theorem sigsOf_spec {allsigs : List Valtype}
    (hunique : ∀ sig ∈ allsigs, ∀ k ∈ pubkeys, checkSig sig k = true → ∀ k' ∈ pubkeys, checkSig sig k' = true → k' = k) :
    (∀ k v, (sigsOf checkSig pubkeys allsigs).lookup k = some v → v ∈ allsigs ∧ checkSig v k = true) ∧
      ∀ k ∈ pubkeys, ((sigsOf checkSig pubkeys allsigs).lookup k).isSome = signed checkSig allsigs k := by
  induction allsigs using List.reverseRecOn with
  | nil => exact ⟨fun k v h => (by cases h), fun k _ => rfl⟩
  | append_singleton allsigs sig ih =>
    obtain ⟨hsound, hcomplete⟩ := ih fun s hs => hunique s (List.mem_append_left _ hs)
    have hfold : sigsOf checkSig pubkeys (allsigs ++ [sig]) =
        assignSig checkSig sig pubkeys (sigsOf checkSig pubkeys allsigs) := by
      rw [sigsOf, List.foldl_append]
      rfl
    have hsigned : ∀ k, signed checkSig (allsigs ++ [sig]) k = (signed checkSig allsigs k || checkSig sig k) := fun k => by
      simp [signed]
    rw [hfold]
    rcases assignSig_cases sig pubkeys (sigsOf checkSig pubkeys allsigs) with ⟨hsame, hall⟩ | ⟨k₀, hk₀, hcheck, hassign⟩
    · rw [hsame]
      refine ⟨fun k v h => ⟨List.mem_append_left _ (hsound k v h).1, (hsound k v h).2⟩, fun k hk => ?_⟩
      rw [hsigned, ← hcomplete k hk]
      rcases hsig : checkSig sig k with _ | _
      · rw [Bool.or_false]
      · rw [hall k hk hsig, Bool.or_true]
    · rw [hassign]
      constructor
      · intro k v h
        rw [lookup_cons] at h
        split at h
        · next heq =>
          cases h
          rw [heq]
          exact ⟨List.mem_append_right _ (List.mem_singleton_self _), hcheck⟩
        · exact ⟨List.mem_append_left _ (hsound k v h).1, (hsound k v h).2⟩
      · intro k hk
        rw [hsigned, lookup_cons]
        by_cases heq : k = k₀
        · rw [if_pos heq, heq, hcheck, Bool.or_true]
          rfl
        · have hno : checkSig sig k = false := Bool.eq_false_iff.2 fun h =>
            heq (hunique sig (List.mem_append_right _ (List.mem_singleton_self _)) k₀ hk₀ hcheck k hk h)
          rw [if_neg heq, hcomplete k hk, hno, Bool.or_false]

/-- The loop pushes the signatures of the first keys that have one. -/
theorem mergeLoop_eq (sigs : List (Valtype × Valtype)) (nSigsRequired : ℕ) {nSigsHave : ℕ} (hle : nSigsHave ≤ nSigsRequired)
    (result : CScript) :
    mergeLoop sigs nSigsRequired pubkeys nSigsHave result =
      (nSigsHave + ((pubkeys.filter fun k => (sigs.lookup k).isSome).take (nSigsRequired - nSigsHave)).length,
        result ++ (((pubkeys.filter fun k => (sigs.lookup k).isSome).take (nSigsRequired - nSigsHave)).map
          fun k => (sigs.lookup k).getD []).flatMap (push [])) := by
  induction pubkeys generalizing nSigsHave result with
  | nil => simp [mergeLoop]
  | cons pubkey pubkeys ih =>
    rw [mergeLoop]
    by_cases hlt : nSigsHave < nSigsRequired
    · rw [if_pos hlt]
      rcases hlookup : sigs.lookup pubkey with _ | sig
      · rw [List.filter_cons_of_neg (by rw [hlookup]; decide)]
        exact ih hle result
      · obtain ⟨n, hn⟩ : ∃ n, nSigsRequired - nSigsHave = n + 1 := ⟨nSigsRequired - nSigsHave - 1, by omega⟩
        rw [List.filter_cons_of_pos (by rw [hlookup]; rfl), hn, List.take_succ_cons, List.map_cons, List.flatMap_cons,
          List.length_cons, hlookup]
        dsimp only
        rw [ih (by omega), show nSigsRequired - (nSigsHave + 1) = n by omega, push_eq_append, List.append_assoc,
          Nat.add_right_comm, Nat.add_assoc]
        rfl
    · rw [if_neg hlt, show nSigsRequired - nSigsHave = 0 by omega, List.take_zero]
      simp

end Map

/-! ### What is merged -/

section Merged

variable {checkSig : Valtype → Valtype → Bool} {pubkeys : List Valtype} {m : ℕ} {p : Valtype → Bool} {sigs : List Valtype}

/-- The elements that the merged script pushes: one that is popped too many, and empty ones for what is missing. -/
def mergedElements (m : ℕ) (sigs : List Valtype) : List Valtype := [] :: (sigs ++ List.replicate (m - sigs.length) [])

theorem mem_of_mem_take_filter {k : Valtype} (hk : k ∈ (pubkeys.filter p).take m) : k ∈ pubkeys ∧ p k = true :=
  List.mem_filter.1 (List.mem_of_mem_take hk)

theorem mem_mergedElements {v : Valtype} (hv : v ∈ mergedElements m sigs) : v = [] ∨ v ∈ sigs := by
  rcases List.mem_cons.1 hv with hv | hv
  · exact .inl hv
  · rcases List.mem_append.1 hv with hv | hv
    · exact .inr hv
    · exact .inl (List.eq_of_mem_replicate hv)

theorem length_mergedElements (hle : sigs.length ≤ m) : (mergedElements m sigs).length = m + 1 := by
  simp only [mergedElements, List.length_cons, List.length_append, List.length_replicate]
  omega

theorem flatMap_mergedElements (m : ℕ) (sigs : List Valtype) :
    (mergedElements m sigs).flatMap (push []) =
      [OP_0] ++ sigs.flatMap (push []) ++ List.replicate (m - sigs.length) OP_0 := by
  have hfill : ∀ n, (List.replicate n ([] : Valtype)).flatMap (push []) = List.replicate n OP_0 := fun n => by
    induction n with
    | zero => rfl
    | succ n ih =>
      rw [List.replicate_succ, List.flatMap_cons, ih, List.replicate_succ]
      rfl
  rw [mergedElements, List.flatMap_cons, List.flatMap_append, hfill, List.append_assoc]
  rfl

variable [ScriptCrypto]

/-- If the element is a signature of one of the keys, it is strict and that of no other of them. -/
def GoodSig (checkSig : Valtype → Valtype → Bool) (pubkeys : List Valtype) (sig : Valtype) : Prop :=
  ∀ k ∈ pubkeys, checkSig sig k = true →
    checkSignatureEncoding sig = true ∧ ∀ k' ∈ pubkeys, checkSig sig k' = true → k' = k

/-- The signatures are those of the first keys of some. -/
structure Merged (checkSig : Valtype → Valtype → Bool) (pubkeys : List Valtype) (m : ℕ) (p : Valtype → Bool)
    (sigs : List Valtype) : Prop where
  good : ∀ sig ∈ sigs, GoodSig checkSig pubkeys sig
  valid : List.Forall₂ (fun sig k => checkSig sig k = true) sigs ((pubkeys.filter p).take m)

theorem Merged.encoded (h : Merged checkSig pubkeys m p sigs) : ∀ sig ∈ sigs, checkSignatureEncoding sig = true := by
  intro sig hsig
  obtain ⟨k, hk, hcheck⟩ := forall₂_mem_left h.valid hsig
  exact (h.good sig hsig k (mem_of_mem_take_filter hk).1 hcheck).1

theorem Merged.length_le (h : Merged checkSig pubkeys m p sigs) : sigs.length ≤ m := by
  rw [h.valid.length_eq]
  exact List.length_take_le _ _

/-- The keys that have signed in the merged script. -/
theorem Merged.signed_iff (h : Merged checkSig pubkeys m p sigs) (hnil : ∀ k, checkSig [] k = false) {k : Valtype}
    (hk : k ∈ pubkeys) : signed checkSig (mergedElements m sigs) k = true ↔ k ∈ (pubkeys.filter p).take m := by
  rw [signed, List.any_eq_true]
  constructor
  · rintro ⟨sig, hsig, hcheck⟩
    rcases mem_mergedElements hsig with rfl | hsig
    · rw [hnil] at hcheck
      cases hcheck
    · obtain ⟨k', hk', hcheck'⟩ := forall₂_mem_left h.valid hsig
      rwa [(h.good sig hsig k' (mem_of_mem_take_filter hk').1 hcheck').2 k hk hcheck]
  · intro hmem
    obtain ⟨sig, hsig, hcheck⟩ := forall₂_mem_right h.valid hmem
    exact ⟨sig, List.mem_cons_of_mem _ (List.mem_append_left _ hsig), hcheck⟩

variable {script : CScript} {txTo : CTransaction} {nIn : ℕ}

/-- What `CombineMultisig` makes of two stacks. -/
theorem combineMultisig_merged (hm : m ≤ 16) (last : Valtype) {sigs1 sigs2 : List Valtype}
    (hcheck : checkSig = fun sig pubkey => sigValid sig pubkey script txTo nIn 0)
    (hgood : ∀ sig, sig ∈ sigs1 ∨ sig ∈ sigs2 → GoodSig checkSig pubkeys sig) (hnil : ∀ k, checkSig [] k = false) :
    ∃ sigs, combineMultisig script txTo nIn ([UInt8.ofNat m] :: (pubkeys ++ [last])) sigs1 sigs2 =
        (mergedElements m sigs).flatMap (push []) ∧
      Merged checkSig pubkeys m (fun k => signed checkSig sigs1 k || signed checkSig sigs2 k) sigs := by
  have hm' : (UInt8.ofNat m).toNat = m := by rw [UInt8.toNat_ofNat', Nat.mod_eq_of_lt (by omega)]
  have hgood' : ∀ sig ∈ allSigs sigs1 sigs2, GoodSig checkSig pubkeys sig := fun sig hsig => hgood sig (mem_allSigs.1 hsig).1
  obtain ⟨hsound, hcomplete⟩ := @sigsOf_spec checkSig pubkeys (allSigs sigs1 sigs2)
    fun sig hsig k hk hsig' k' hk' => (hgood' sig hsig k hk hsig').2 k' hk'
  have hsigned : ∀ k, signed checkSig (allSigs sigs1 sigs2) k = (signed checkSig sigs1 k || signed checkSig sigs2 k) := by
    intro k
    rw [Bool.eq_iff_iff, Bool.or_eq_true, signed, signed, signed, List.any_eq_true, List.any_eq_true, List.any_eq_true]
    constructor
    · rintro ⟨sig, hsig, hk⟩
      rcases (mem_allSigs.1 hsig).1 with hsig | hsig
      · exact .inl ⟨sig, hsig, hk⟩
      · exact .inr ⟨sig, hsig, hk⟩
    · have hne : ∀ sig, checkSig sig k = true → sig ≠ [] := by
        rintro _ hk rfl
        rw [hnil] at hk
        cases hk
      rintro (⟨sig, hsig, hk⟩ | ⟨sig, hsig, hk⟩)
      · exact ⟨sig, mem_allSigs.2 ⟨.inl hsig, hne sig hk⟩, hk⟩
      · exact ⟨sig, mem_allSigs.2 ⟨.inr hsig, hne sig hk⟩, hk⟩
  have hfilter : (pubkeys.filter fun k => ((sigsOf checkSig pubkeys (allSigs sigs1 sigs2)).lookup k).isSome) =
      pubkeys.filter fun k => signed checkSig sigs1 k || signed checkSig sigs2 k :=
    List.filter_congr fun k hk => by rw [hcomplete k hk, hsigned]
  refine ⟨((pubkeys.filter fun k => signed checkSig sigs1 k || signed checkSig sigs2 k).take m).map
    fun k => ((sigsOf checkSig pubkeys (allSigs sigs1 sigs2)).lookup k).getD [], ?_, ?_, ?_⟩
  · rw [flatMap_mergedElements, combineMultisig]
    simp only [List.headD_cons, List.tail_cons, List.dropLast_concat, hm', mergeLoop_eq _ m (Nat.zero_le m), Nat.sub_zero,
      Nat.zero_add, ← hcheck, hfilter, List.length_map]
  · intro sig hsig
    obtain ⟨k, hk, rfl⟩ := List.mem_map.1 hsig
    rw [← hfilter] at hk
    obtain ⟨v, hv⟩ := Option.isSome_iff_exists.1 (mem_of_mem_take_filter hk).2
    rw [hv, Option.getD_some]
    exact hgood' v (hsound k v hv).1
  · rw [List.forall₂_map_left_iff, List.forall₂_same]
    intro k hk
    rw [← hfilter] at hk
    obtain ⟨v, hv⟩ := Option.isSome_iff_exists.1 (mem_of_mem_take_filter hk).2
    rw [hv, Option.getD_some]
    exact (hsound k v hv).2

end Merged

/-! ### When the merged script spends -/

section Accepts

variable [ScriptCrypto] {m : ℕ} {keys : List CPubKey} {p : Valtype → Bool} {sigs : List Valtype} {txTo tx : CTransaction}
  {nIn : ℕ}

theorem sigValid_nil (k : Valtype) (script : CScript) : sigValid [] k script txTo nIn 0 = false := by
  rw [sigValid, CheckSigCall.valid]
  exact Bool.and_false _

theorem sigValid_setScriptSig (sig k : Valtype) (script s : CScript) :
    sigValid sig k script (txTo.setScriptSig nIn s) nIn 0 = sigValid sig k script txTo nIn 0 := by
  simp only [sigValid, CheckSigCall.valid, signatureHash_setScriptSig]

/-- An element is a signature of a key, for an input. -/
def signsInput (script : CScript) (txTo : CTransaction) (nIn : ℕ) (sig pubkey : Valtype) : Bool :=
  sigValid sig pubkey script txTo nIn 0

variable (hkeys : ∀ key ∈ keys, HasSize key ∧ isCompressedOrUncompressedPubKey key.bytes = true)
  (hm : 1 ≤ m ∧ m ≤ keys.length) (hn : keys.length ≤ 16)

include hkeys hm hn

/-- Enough signatures spend. -/
theorem Merged.spentBy
    (h : Merged (signsInput (multisigScript m keys) tx nIn) (keys.map CPubKey.bytes) m p sigs)
    (hcount : m ≤ ((keys.map CPubKey.bytes).filter p).length) :
    SpentBy (multisigScript m keys) tx nIn (mergedElements m sigs) := by
  have hlen : sigs.length = m := by
    rw [h.valid.length_eq, List.length_take]
    omega
  have helements : mergedElements m sigs = [] :: sigs := by
    rw [mergedElements, hlen, Nat.sub_self, List.replicate_zero, List.append_nil]
  rw [helements]
  exact spentBy_multisig hkeys hm.1 hn h.encoded hlen ((List.take_sublist _ _).trans List.filter_sublist) h.valid

/-- With fewer signatures an empty one is on top, which is that of no key. -/
theorem Merged.count_of_evalScript
    (h : Merged (signsInput (multisigScript m keys) tx nIn) (keys.map CPubKey.bytes) m p sigs)
    {top : Valtype} {t : List Valtype}
    (heval : evalScript (consensusEvaluator 0 tx nIn 0) (mergedElements m sigs).reverse (multisigScript m keys) =
      some (top :: t))
    (htop : castToBool top = true) : m ≤ ((keys.map CPubKey.bytes).filter p).length := by
  by_contra hfew
  have hlen : sigs.length < m := by
    rw [h.valid.length_eq, List.length_take]
    omega
  obtain ⟨n, hmissing⟩ : ∃ n, m - sigs.length = n + 1 := ⟨m - sigs.length - 1, by omega⟩
  obtain ⟨sigs', dummy, s, fSuccess, hstack, hcount, -, -, hloop, ht⟩ := (evalScript_multisig (fun _ _ => rfl)
    (fun n _ hn => castToNum_getvch n hn) (fun key hkey => (hkeys key hkey).1) hm hn _ _).1 heval
  have hempty : [] ∈ sigs' := by
    rw [mergedElements, hmissing, List.replicate_succ', ← List.append_assoc, List.reverse_cons, List.reverse_append,
      List.reverse_singleton, List.cons_append, List.cons_append] at hstack
    cases sigs' with
    | nil => exact absurd hcount (by rw [List.length_nil]; omega)
    | cons sig sigs' =>
      rw [List.nil_append, List.cons_append] at hstack
      rw [← (List.cons.inj hstack).1]
      exact List.mem_cons_self
  rw [(List.cons.inj ht).1, castToBool_check] at htop
  have hle : sigs'.length ≤ (keys.map CPubKey.bytes).reverse.length := by
    rw [List.length_reverse, List.length_map, hcount]
    exact hm.2
  obtain ⟨signers, -, hvalid⟩ := ((multisigLoop_true_iff (fun _ _ _ _ => rfl) hle).1 hloop).1 htop
  obtain ⟨k, -, hk⟩ := forall₂_mem_left hvalid hempty
  have hnot : checkSignatureEncoding [] = false := rfl
  simp [consensusEvaluator, hnot] at hk

end Accepts

/-! ### Merging one transaction after the other -/

section Run

variable [ScriptCrypto]

/-- How a script is paid to, by itself or by its hash, and what is pushed on top of its signatures. -/
inductive PaysTo (script : CScript) : CScript → List Valtype → Prop
  | script : PaysTo script script []
  | scriptID (hsize : script.length ≤ MAX_SCRIPT_ELEMENT_SIZE) :
    PaysTo script (getScriptForDestination (.scriptID (ScriptCrypto.hash160 script))) [script]

variable {m : ℕ} {keys : List CPubKey} {scriptPubKey : CScript} {suffix : List Valtype}
  {checkSig : Valtype → Valtype → Bool} {p : Valtype → Bool} {sigs : List Valtype} {txTo tx : CTransaction} {nIn : ℕ}

theorem PaysTo.reverse_suffix {script : CScript} (h : PaysTo script scriptPubKey suffix) : suffix.reverse = suffix := by
  cases h <;> rfl

/-- What a short script of an input leaves. -/
theorem PaysTo.eval_pushes {E : Evaluator} (hE : ∀ vch c, E.checkPush vch c = true) {script : CScript}
    (hpays : PaysTo script scriptPubKey suffix) {l : List Valtype} (hsmall : ∀ d ∈ l, d.length ≤ 73)
    (hcount : l.length ≤ 17) :
    evalScript E [] ((l ++ suffix).flatMap (push [])) = some (suffix ++ l.reverse) := by
  have hlen := length_flatMap_push hsmall
  have hsuffix : (∀ d ∈ suffix, d.length ≤ MAX_SCRIPT_ELEMENT_SIZE) ∧ (suffix.flatMap (push [])).length ≤ 525 ∧
      suffix.length ≤ 1 := by
    cases hpays with
    | script => exact ⟨fun d hd => (by cases hd), by decide, by decide⟩
    | scriptID hsize =>
      have hpush := length_push_nil_le script
      rw [MAX_SCRIPT_ELEMENT_SIZE] at hsize
      refine ⟨fun d hd => ?_, ?_, le_rfl⟩
      · rwa [List.mem_singleton.1 hd, MAX_SCRIPT_ELEMENT_SIZE]
      · rw [List.flatMap_singleton]
        omega
  rw [evalScript_pushes hE, List.reverse_append, hpays.reverse_suffix]
  · intro d hd
    rcases List.mem_append.1 hd with hd | hd
    · have hle := hsmall d hd
      rw [MAX_SCRIPT_ELEMENT_SIZE]
      omega
    · exact hsuffix.1 d hd
  · rw [List.flatMap_append, List.length_append]
    omega
  · rw [List.length_append]
    omega

theorem length_of_checkSignatureEncoding {vchSig : Valtype} (h : checkSignatureEncoding vchSig = true) :
    vchSig.length ≤ 73 := by
  rw [checkSignatureEncoding, Bool.and_eq_true] at h
  exact (isLowDERSignature_bounds h.1).2.1

theorem Merged.eval_pushes {E : Evaluator} (hE : ∀ vch c, E.checkPush vch c = true) {script : CScript}
    (hpays : PaysTo script scriptPubKey suffix) (hm : m ≤ 16)
    (h : Merged checkSig (keys.map CPubKey.bytes) m p sigs) :
    evalScript E [] ((mergedElements m sigs ++ suffix).flatMap (push [])) =
      some (suffix ++ (mergedElements m sigs).reverse) := by
  refine hpays.eval_pushes hE (fun d hd => ?_) ?_
  · rcases mem_mergedElements hd with rfl | hsig
    · decide
    · exact length_of_checkSignatureEncoding (h.encoded d hsig)
  · rw [length_mergedElements h.length_le]
    omega

variable (hkeys : ∀ key ∈ keys, HasSize key ∧ isCompressedOrUncompressedPubKey key.bytes = true)
  (hm : 1 ≤ m ∧ m ≤ keys.length) (hn : keys.length ≤ 16)

include hkeys hm hn

theorem combineStacks_merged (hpays : PaysTo (multisigScript m keys) scriptPubKey suffix)
    (hcheck : checkSig = signsInput (multisigScript m keys) tx nIn) {sigs1 sigs2 : List Valtype}
    (hgood : ∀ sig, sig ∈ sigs1 ∨ sig ∈ sigs2 → GoodSig checkSig (keys.map CPubKey.bytes) sig) :
    ∃ sigs, combineStacks tx nIn scriptPubKey (suffix ++ sigs1) (suffix ++ sigs2) =
        (mergedElements m sigs ++ suffix).flatMap (push []) ∧
      Merged checkSig (keys.map CPubKey.bytes) m (fun k => signed checkSig sigs1 k || signed checkSig sigs2 k) sigs := by
  have hsolver := solver_iff.2 (.inl (instance_multisigScript (fun key hkey => (hkeys key hkey).1) hm hn))
  have hstacks : combineStacks tx nIn (multisigScript m keys) sigs1 sigs2 = combineMultisig (multisigScript m keys) tx nIn
      ([UInt8.ofNat m] :: (keys.map CPubKey.bytes ++ [[UInt8.ofNat keys.length]])) sigs1 sigs2 := by
    rw [combineStacks.eq_def, hsolver]
  have hnil : ∀ k, checkSig [] k = false := fun k => by
    rw [hcheck]
    exact sigValid_nil k _
  obtain ⟨sigs, hcombine, hmerged⟩ :=
    combineMultisig_merged (m := m) (by omega) [UInt8.ofNat keys.length] hcheck hgood hnil
  refine ⟨sigs, ?_, hmerged⟩
  rw [← hstacks] at hcombine
  cases hpays with
  | script => rw [List.nil_append, List.nil_append, List.append_nil, hcombine]
  | scriptID hsize =>
    have hne : (multisigScript m keys).isEmpty = false := rfl
    rw [combineStacks.eq_def, solver_scriptID]
    simp only [List.cons_append, List.nil_append, hne, Bool.false_eq_true, if_false, hcombine]
    rw [push_eq_append, List.flatMap_append, List.flatMap_singleton]

/-- The script of an input pushes good elements only, and merging it is merging signatures of some keys. -/
def HoldsSigs (m : ℕ) (keys : List CPubKey) (suffix : List Valtype) (checkSig : Valtype → Valtype → Bool)
    (scriptSig : CScript) (p : Valtype → Bool) : Prop :=
  ∃ stack, scriptSigStack scriptSig = some (suffix ++ stack) ∧
    (∀ sig ∈ stack, GoodSig checkSig (keys.map CPubKey.bytes) sig) ∧
    ∀ q : Valtype → Bool, ((keys.map CPubKey.bytes).filter fun k => signed checkSig stack k || q k).take m =
      ((keys.map CPubKey.bytes).filter fun k => p k || q k).take m

omit hkeys hm hn in
theorem HoldsSigs.ofStack {scriptSig : CScript} {stack : List Valtype}
    (hstack : scriptSigStack scriptSig = some (suffix ++ stack))
    (hgood : ∀ sig ∈ stack, GoodSig checkSig (keys.map CPubKey.bytes) sig) :
    HoldsSigs m keys suffix checkSig scriptSig (signed checkSig stack) := ⟨stack, hstack, hgood, fun _ => rfl⟩

omit hkeys in
/-- A merged script holds the signatures of the keys that were merged, as far as they are needed. -/
theorem Merged.holdsSigs (hpays : PaysTo (multisigScript m keys) scriptPubKey suffix) (hnil : ∀ k, checkSig [] k = false)
    (h : Merged checkSig (keys.map CPubKey.bytes) m p sigs) :
    HoldsSigs m keys suffix checkSig ((mergedElements m sigs ++ suffix).flatMap (push [])) p := by
  have hsigned : ∀ k, signed checkSig (mergedElements m sigs).reverse k = signed checkSig (mergedElements m sigs) k :=
    fun k => by rw [signed, signed, List.any_reverse]
  refine ⟨(mergedElements m sigs).reverse, h.eval_pushes (fun _ _ => rfl) hpays (by omega), ?_, fun q => ?_⟩
  · intro sig hsig
    rcases mem_mergedElements (List.mem_reverse.1 hsig) with rfl | hsig
    · intro k _ hk
      rw [hnil] at hk
      cases hk
    · exact h.good sig hsig
  · refine take_filter_or (fun k hk hs => ?_) fun k hk => ?_
    · rw [hsigned] at hs
      exact (mem_of_mem_take_filter ((h.signed_iff hnil hk).1 hs)).2
    · rw [hsigned]
      exact (h.signed_iff hnil (mem_of_mem_take_filter hk).1).2 hk

/-- One variant more. -/
theorem HoldsSigs.combine (hpays : PaysTo (multisigScript m keys) scriptPubKey suffix)
    (hcheck : checkSig = signsInput (multisigScript m keys) tx nIn) {scriptSig variant : CScript}
    (h : HoldsSigs m keys suffix checkSig scriptSig p) {stack : List Valtype}
    (hvariant : scriptSigStack variant = some (suffix ++ stack))
    (hgood : ∀ sig ∈ stack, GoodSig checkSig (keys.map CPubKey.bytes) sig) :
    ∃ sigs, combineSignatures scriptPubKey tx nIn scriptSig variant =
        some ((mergedElements m sigs ++ suffix).flatMap (push [])) ∧
      Merged checkSig (keys.map CPubKey.bytes) m (fun k => p k || signed checkSig stack k) sigs := by
  obtain ⟨stack₀, hstack, hgood₀, htake⟩ := h
  have hboth : ∀ sig, sig ∈ stack₀ ∨ sig ∈ stack → GoodSig checkSig (keys.map CPubKey.bytes) sig :=
    fun sig hsig => hsig.elim (hgood₀ sig) (hgood sig)
  obtain ⟨sigs, hcombine, hmerged⟩ := combineStacks_merged hkeys hm hn hpays hcheck hboth
  refine ⟨sigs, ?_, hmerged.good, ?_⟩
  · rw [combineSignatures, hstack, hvariant, ← hcombine]
    rfl
  · rw [← htake]
    exact hmerged.valid

/-- All variants, one after the other. -/
theorem mergeVariants_merged (hpays : PaysTo (multisigScript m keys) scriptPubKey suffix)
    (hcheck : checkSig = signsInput (multisigScript m keys) txTo nIn)
    {variants : List CScript} {pushed : List (List Valtype)}
    (hvariants : List.Forall₂ (fun variant stack => scriptSigStack variant = some (suffix ++ stack)) variants pushed)
    (hgood : ∀ stack ∈ pushed, ∀ sig ∈ stack, GoodSig checkSig (keys.map CPubKey.bytes) sig) (hne : variants ≠ [])
    {scriptSig : CScript} (h : HoldsSigs m keys suffix checkSig scriptSig p) :
    ∃ sigs, mergeVariants scriptPubKey txTo nIn scriptSig variants =
        some ((mergedElements m sigs ++ suffix).flatMap (push [])) ∧
      Merged checkSig (keys.map CPubKey.bytes) m (fun k => p k || pushed.any fun stack => signed checkSig stack k) sigs := by
  induction hvariants generalizing scriptSig p with
  | nil => exact absurd rfl hne
  | @cons variant stack variants pushed hvariant hvariants ih =>
    have hcheck' : checkSig = signsInput (multisigScript m keys) (txTo.setScriptSig nIn scriptSig) nIn := by
      rw [hcheck]
      exact funext fun sig => funext fun k => (sigValid_setScriptSig sig k _ scriptSig).symm
    obtain ⟨sigs, hcombine, hmerged⟩ := h.combine hkeys hm hn hpays hcheck' hvariant (hgood stack List.mem_cons_self)
    have hunfold : mergeVariants scriptPubKey txTo nIn scriptSig (variant :: variants) =
        mergeVariants scriptPubKey txTo nIn ((mergedElements m sigs ++ suffix).flatMap (push [])) variants := by
      rw [mergeVariants, hcombine]
      rfl
    rw [hunfold]
    rcases variants with _ | ⟨variant', variants⟩
    · cases hvariants
      refine ⟨sigs, rfl, ?_⟩
      simpa using hmerged
    · have hholds := hmerged.holdsSigs hm hn hpays fun k => by
        rw [hcheck]
        exact sigValid_nil k _
      obtain ⟨sigs', hrun, hmerged'⟩ := ih (fun s hs => hgood s (List.mem_cons_of_mem _ hs)) (List.cons_ne_nil _ _) hholds
      refine ⟨sigs', hrun, ?_⟩
      simpa only [List.any_cons, Bool.or_assoc] using hmerged'

/-- The merged script spends when enough keys have signed, and else it does not. -/
theorem Merged.verifyScript_iff (hpays : PaysTo (multisigScript m keys) scriptPubKey suffix)
    (h : Merged (signsInput (multisigScript m keys) tx nIn) (keys.map CPubKey.bytes) m p sigs)
    (flags : UInt32) :
    verifyScript ((mergedElements m sigs ++ suffix).flatMap (push [])) scriptPubKey tx nIn flags 0 = true ↔
      m ≤ ((keys.map CPubKey.bytes).filter p).length := by
  have hlen := length_multisigScript (fun key hkey => (hkeys key hkey).1) hm hn
  have hpushed := h.eval_pushes (E := consensusEvaluator 0 tx nIn 0) (fun _ _ => rfl) hpays (by omega)
  constructor
  · intro hverify
    have hzero : verifyScript _ _ tx nIn 0 0 = true :=
      verifyWith_refines (refines_of_fewerFlags (fewerFlags_zero flags) tx nIn 0) id hverify
    cases hpays with
    | script =>
      obtain ⟨stack, top, t, hstack, heval, htop⟩ :=
        (PayDayCoin.verifyScript_iff (not_isPayToScriptHash (by omega))).1 hzero
      rw [hpushed] at hstack
      cases hstack
      exact h.count_of_evalScript hkeys hm hn heval htop
    | scriptID hsize =>
      obtain ⟨-, pubKey2, s, top, t, hstack, -, -, heval, htop⟩ := (verifyWith_scriptID (fun _ _ => rfl) _ _).1 hzero
      rw [hpushed] at hstack
      obtain ⟨rfl, rfl⟩ := List.cons.inj (Option.some.inj hstack)
      exact h.count_of_evalScript hkeys hm hn heval htop
  · intro hcount
    have hspent := h.spentBy hkeys hm hn hcount
    cases hpays with
    | script =>
      rw [List.append_nil]
      exact hspent.verifyScript (not_isPayToScriptHash (by omega)) flags
    | scriptID hsize =>
      have hverify := hspent.verifyScript_hash hsize flags
      rwa [push_eq_append, ← List.flatMap_singleton (push []) (multisigScript m keys), ← List.flatMap_append] at hverify

omit hkeys hm hn in
theorem Merged.setScriptSig {script : CScript} (s : CScript)
    (h : Merged (signsInput script txTo nIn) (keys.map CPubKey.bytes) m p sigs) :
    Merged (signsInput script (txTo.setScriptSig nIn s) nIn) (keys.map CPubKey.bytes) m p sigs := by
  have heq : signsInput script (txTo.setScriptSig nIn s) nIn = signsInput script txTo nIn :=
    funext fun sig => funext fun k => sigValid_setScriptSig sig k script s
  rwa [heq]

end Run

namespace InterpreterSample

/-- A strict signature, with its hash type. -/
def vchSig : Valtype := [0x30, 6, 2, 1, 1, 2, 1, 1, 1]

end InterpreterSample

end PayDayCoin
