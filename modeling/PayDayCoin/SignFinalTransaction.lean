import PayDayCoin.DarksendPool

/-!
# Signing a mixed transaction

A client that mixes gets the final transaction from the masternode and signs its inputs if
`SignFinalTransaction` finds its outputs there. It finds them by the texts of their scripts: each output of the
transaction counts once for each own output with the same text, and the sum of what is
counted must be what the own outputs add up to. **`signed_pays_iff`** gives the exact condition
under which a transaction that is signed pays what the client asked for: what is counted too
often is no more than what the 64-bit sums lose. In `MixingSample.paid_once` two own outputs have one
script, and one output of the transaction stands for both.
-/

namespace PayDayCoin

/-! ### Texts of scripts -/

namespace CScript

/-- The opcodes that `GetOpName` knows. -/
def opNames : List (UInt8 × String) :=
  [(0x00, "0"), (0x4c, "OP_PUSHDATA1"), (0x4d, "OP_PUSHDATA2"), (0x4e, "OP_PUSHDATA4"), (0x4f, "-1"),
    (0x50, "OP_RESERVED"), (0x51, "1"), (0x52, "2"), (0x53, "3"), (0x54, "4"), (0x55, "5"), (0x56, "6"),
    (0x57, "7"), (0x58, "8"), (0x59, "9"), (0x5a, "10"), (0x5b, "11"), (0x5c, "12"), (0x5d, "13"),
    (0x5e, "14"), (0x5f, "15"), (0x60, "16"), (0x61, "OP_NOP"), (0x62, "OP_VER"), (0x63, "OP_IF"),
    (0x64, "OP_NOTIF"), (0x65, "OP_VERIF"), (0x66, "OP_VERNOTIF"), (0x67, "OP_ELSE"), (0x68, "OP_ENDIF"),
    (0x69, "OP_VERIFY"), (0x6a, "OP_RETURN"), (0x6b, "OP_TOALTSTACK"), (0x6c, "OP_FROMALTSTACK"),
    (0x6d, "OP_2DROP"), (0x6e, "OP_2DUP"), (0x6f, "OP_3DUP"), (0x70, "OP_2OVER"), (0x71, "OP_2ROT"),
    (0x72, "OP_2SWAP"), (0x73, "OP_IFDUP"), (0x74, "OP_DEPTH"), (0x75, "OP_DROP"), (0x76, "OP_DUP"),
    (0x77, "OP_NIP"), (0x78, "OP_OVER"), (0x79, "OP_PICK"), (0x7a, "OP_ROLL"), (0x7b, "OP_ROT"),
    (0x7c, "OP_SWAP"), (0x7d, "OP_TUCK"), (0x7e, "OP_CAT"), (0x7f, "OP_SUBSTR"), (0x80, "OP_LEFT"),
    (0x81, "OP_RIGHT"), (0x82, "OP_SIZE"), (0x83, "OP_INVERT"), (0x84, "OP_AND"), (0x85, "OP_OR"),
    (0x86, "OP_XOR"), (0x87, "OP_EQUAL"), (0x88, "OP_EQUALVERIFY"), (0x89, "OP_RESERVED1"),
    (0x8a, "OP_RESERVED2"), (0x8b, "OP_1ADD"), (0x8c, "OP_1SUB"), (0x8d, "OP_2MUL"), (0x8e, "OP_2DIV"),
    (0x8f, "OP_NEGATE"), (0x90, "OP_ABS"), (0x91, "OP_NOT"), (0x92, "OP_0NOTEQUAL"), (0x93, "OP_ADD"),
    (0x94, "OP_SUB"), (0x95, "OP_MUL"), (0x96, "OP_DIV"), (0x97, "OP_MOD"), (0x98, "OP_LSHIFT"),
    (0x99, "OP_RSHIFT"), (0x9a, "OP_BOOLAND"), (0x9b, "OP_BOOLOR"), (0x9c, "OP_NUMEQUAL"),
    (0x9d, "OP_NUMEQUALVERIFY"), (0x9e, "OP_NUMNOTEQUAL"), (0x9f, "OP_LESSTHAN"), (0xa0, "OP_GREATERTHAN"),
    (0xa1, "OP_LESSTHANOREQUAL"), (0xa2, "OP_GREATERTHANOREQUAL"), (0xa3, "OP_MIN"), (0xa4, "OP_MAX"),
    (0xa5, "OP_WITHIN"), (0xa6, "OP_RIPEMD160"), (0xa7, "OP_SHA1"), (0xa8, "OP_SHA256"), (0xa9, "OP_HASH160"),
    (0xaa, "OP_HASH256"), (0xab, "OP_CODESEPARATOR"), (0xac, "OP_CHECKSIG"), (0xad, "OP_CHECKSIGVERIFY"),
    (0xae, "OP_CHECKMULTISIG"), (0xaf, "OP_CHECKMULTISIGVERIFY"), (0xb0, "OP_NOP1"), (0xb1, "OP_NOP2"),
    (0xb2, "OP_NOP3"), (0xb3, "OP_NOP4"), (0xb4, "OP_NOP5"), (0xb5, "OP_NOP6"), (0xb6, "OP_NOP7"),
    (0xb7, "OP_NOP8"), (0xb8, "OP_NOP9"), (0xb9, "OP_NOP10"), (0xff, "OP_INVALIDOPCODE")]

/-- `GetOpName`. -/
def getOpName (opcode : UInt8) : String := (opNames.lookup opcode).getD "OP_UNKNOWN"

/-- `CBigNum(vch).getint()` of at most four bytes: the last byte has the sign. -/
def getint (vch : List UInt8) : ℤ :=
  let n : ℕ := vch.foldr (fun b n => b.toNat + 256 * n) 0
  let sign : ℕ := 2 ^ (8 * vch.length - 1)
  if vch = [] then 0 else if sign ≤ n then -((n - sign : ℕ) : ℤ) else n

/-- A byte in `HexStr`. -/
def hexByte (b : UInt8) : String :=
  String.ofList [Nat.digitChar (b.toNat / 16), Nat.digitChar (b.toNat % 16)]

/-- `ValueString`. -/
def valueString (vch : List UInt8) : String :=
  if vch.length ≤ 4 then toString (getint vch) else String.join (vch.map hexByte)

/-- The words of `CScript::ToString`, from the rest `pc` of the script; `fuel` bounds them by
the bytes left. -/
def words : ℕ → CScript → List String
  | 0, _ => []
  | _ + 1, [] => []
  | fuel + 1, b :: pc =>
    match getOp2 (b :: pc) with
    | (none, _) => ["[error]"]
    | (some (opcode, vch), pc) =>
      (if opcode ≤ OP_PUSHDATA4 then valueString vch else getOpName opcode) :: words fuel pc

/-- `CScript::ToString`. -/
def toText (s : CScript) : String := " ".intercalate (words s.length s)

end CScript

/-! ### SignFinalTransaction -/

/-- A sum in an `int64_t`. -/
def wrap (n : ℤ) : ℤ := n.bmod (2 ^ 64)

/-- The values of outputs, added up in an `int64_t`. -/
def addValues (l : List CTxOut) : ℤ := l.foldl (fun n out => wrap (n + out.nValue)) 0

/-- What is counted of the outputs `l` for own outputs `own`: how many, and their value. -/
def countOutputs (own l : List CTxOut) : ℕ × ℤ :=
  l.foldl (fun st out =>
    own.foldl (fun st o =>
      if out.scriptPubKey.toText = o.scriptPubKey.toText then (st.1 + 1, wrap (st.2 + out.nValue)) else st) st) (0, 0)

/-- The last input of a transaction that is the one of an entry. -/
def lastIndexOf (vin : List CTxIn) (s : CTxIn) : Option ℕ :=
  (List.range vin.length).foldl (fun mine i => if vin[i]? = some s then some i else mine) none

/-- `SignSignature`, with the client's keys: the script it leaves in an input of a
transaction, of which the previous output's script is given. -/
abbrev SignSignature := CScript → CTransaction → ℕ → CScript

/-- A transaction with another script in an input. -/
def CTransaction.setScriptSig (tx : CTransaction) (i : ℕ) (scriptSig : CScript) : CTransaction :=
  { tx with vin := tx.vin.modify i fun txin => { txin with scriptSig := scriptSig } }

section Sign

variable (signSignature : SignSignature)

/-- The turn of an input of an entry: the transaction with its signature, and the signatures
with the entries that they are for; or nothing, when the client refuses. -/
def signInput (e : CDarkSendEntry) (st : CTransaction × List (CDarkSendEntry × CTxIn)) (s : CTxDSIn) :
    Option (CTransaction × List (CDarkSendEntry × CTxIn)) :=
  match lastIndexOf st.1.vin s.toCTxIn with
  | none => some st
  | some mine =>
    let counted := countOutputs e.vout st.1.vout
    if counted.1 < e.vout.length ∨ counted.2 ≠ addValues e.vout then none
    else
      let tx := st.1.setScriptSig mine (signSignature s.prevPubKey st.1 mine)
      some (tx, st.2 ++ (tx.vin[mine]?.map fun sig => (e, sig)).toList)

/-- `CDarksendPool::SignFinalTransaction` of a client: the final transaction with the
client's signatures, and the signatures that are sent to the masternode, each with the entry
it is for; or nothing, when the client refuses. -/
def signFinalTransaction (entries : List CDarkSendEntry) (finalTransactionNew : CTransaction) :
    Option (CTransaction × List (CDarkSendEntry × CTxIn)) :=
  entries.foldlM (fun st e => e.sev.foldlM (signInput signSignature e) st) (finalTransactionNew, [])

end Sign

/-! ### What is counted -/

/-- The 64-bit sum without what it loses. -/
def lost (n : ℤ) : ℤ := n - wrap n

/-- How often an output is counted for own outputs. -/
def matching (own : List CTxOut) (out : CTxOut) : ℕ :=
  own.countP fun o => out.scriptPubKey.toText = o.scriptPubKey.toText

/-- What an entry asks for. -/
def CDarkSendEntry.owed (e : CDarkSendEntry) : ℤ := (e.vout.map CTxOut.nValue).sum

/-- An output pays to a script of an entry. -/
def CDarkSendEntry.isOwn (e : CDarkSendEntry) (out : CTxOut) : Bool :=
  e.vout.any fun o => o.scriptPubKey = out.scriptPubKey

/-- What outputs pay to the scripts of an entry. -/
def CDarkSendEntry.paid (e : CDarkSendEntry) (l : List CTxOut) : ℤ := ((l.filter e.isOwn).map CTxOut.nValue).sum

/-- What is counted of the outputs, as a sum. -/
def CDarkSendEntry.counted (e : CDarkSendEntry) (l : List CTxOut) : ℤ :=
  (l.map fun out => matching e.vout out * out.nValue).sum

/-- What is counted too often: an output counts once if its script is one of the entry's,
and else not at all. -/
def CDarkSendEntry.overcounted (e : CDarkSendEntry) (l : List CTxOut) : ℤ :=
  (l.map fun out => ((matching e.vout out : ℤ) - if e.isOwn out then 1 else 0) * out.nValue).sum

section Counts

theorem wrap_add (m n : ℤ) : wrap (wrap m + n) = wrap (m + n) := Int.bmod_add_bmod

theorem foldl_addValues (l : List CTxOut) (n : ℤ) :
    l.foldl (fun n out => wrap (n + out.nValue)) (wrap n) = wrap (n + (l.map CTxOut.nValue).sum) := by
  induction l generalizing n with
  | nil => simp
  | cons out l ih => rw [List.foldl_cons, wrap_add, ih, List.map_cons, List.sum_cons, Int.add_assoc]

theorem addValues_eq (l : List CTxOut) : addValues l = wrap (l.map CTxOut.nValue).sum := by
  have h := foldl_addValues l 0
  rwa [Int.zero_add] at h

/-- The inner loop counts an output once for each own output with its text. -/
theorem foldl_matching (own : List CTxOut) (out : CTxOut) (k : ℕ) (n : ℤ) :
    own.foldl (fun st o =>
      if out.scriptPubKey.toText = o.scriptPubKey.toText then (st.1 + 1, wrap (st.2 + out.nValue)) else st) (k, wrap n) =
      (k + matching own out, wrap (n + matching own out * out.nValue)) := by
  induction own generalizing k n with
  | nil => simp [matching]
  | cons o own ih =>
    rw [List.foldl_cons]
    by_cases htext : out.scriptPubKey.toText = o.scriptPubKey.toText
    · rw [if_pos htext, wrap_add, ih, matching, matching, List.countP_cons_of_pos (by simpa using htext)]
      refine Prod.ext (by simp only; omega) (congrArg wrap ?_)
      push_cast
      ring
    · rw [if_neg htext, ih, matching, matching, List.countP_cons_of_neg (by simpa using htext)]

theorem countOutputs_eq (e : CDarkSendEntry) (l : List CTxOut) :
    (countOutputs e.vout l).2 = wrap (e.counted l) := by
  have hgen : ∀ (l : List CTxOut) (k : ℕ) (n : ℤ),
      (l.foldl (fun st out => e.vout.foldl (fun st o =>
        if out.scriptPubKey.toText = o.scriptPubKey.toText then (st.1 + 1, wrap (st.2 + out.nValue)) else st) st)
        (k, wrap n)).2 = wrap (n + e.counted l) := by
    intro l
    induction l with
    | nil => exact fun k n => by simp [CDarkSendEntry.counted]
    | cons out l ih =>
      intro k n
      rw [List.foldl_cons, foldl_matching, ih, Int.add_assoc]
      rfl
  have h := hgen l 0 0
  rwa [Int.zero_add] at h

/-- What is paid is what is counted, less what is counted too often. -/
theorem CDarkSendEntry.paid_add_overcounted (e : CDarkSendEntry) (l : List CTxOut) :
    e.paid l + e.overcounted l = e.counted l := by
  unfold paid overcounted counted
  induction l with
  | nil => rfl
  | cons out l ih =>
    rw [List.filter_cons, List.map_cons, List.map_cons, List.sum_cons, List.sum_cons, ← ih]
    split
    · rw [List.map_cons, List.sum_cons]
      ring
    · ring

/-- Nothing is counted too often where the texts tell the entry's scripts apart, from each
other and from other scripts. -/
theorem CDarkSendEntry.overcounted_eq_zero {e : CDarkSendEntry} {l : List CTxOut}
    (h : ∀ out ∈ l, matching e.vout out = if e.isOwn out then 1 else 0) : e.overcounted l = 0 := by
  unfold overcounted
  rw [List.map_congr_left fun out hout => ?_, List.map_const', List.sum_replicate]
  rotate_left
  · exact 0
  · rw [h out hout]
    split <;> simp
  · simp

end Counts

/-! ### What is signed -/

/-- **The rule of a loop that may stop**: what each turn keeps holds at the end. -/
theorem foldlM_some_induct {σ α : Type} {f : σ → α → Option σ} {I : σ → Prop} {l : List α}
    (hstep : ∀ a ∈ l, ∀ s s', I s → f s a = some s' → I s') :
    ∀ {s s' : σ}, I s → l.foldlM f s = some s' → I s' := by
  induction l with
  | nil =>
    intro s s' hs h
    obtain rfl := Option.some.inj h
    exact hs
  | cons a l ih =>
    intro s s' hs h
    rw [List.foldlM_cons] at h
    obtain ⟨t, ht, h⟩ := Option.bind_eq_some_iff.1 h
    exact ih (fun b hb => hstep b (List.mem_cons_of_mem a hb)) (hstep a List.mem_cons_self s t hs ht) h

section Signed

variable {signSignature : SignSignature} {e : CDarkSendEntry} {s : CTxDSIn}
  {st st' : CTransaction × List (CDarkSendEntry × CTxIn)} {l : List CTxOut}

/-- The outputs of the transaction are those of the message, and what was counted for the
signatures is what their entries ask for. -/
structure Agreed (l : List CTxOut) (st : CTransaction × List (CDarkSendEntry × CTxIn)) : Prop where
  vout : st.1.vout = l
  counted : ∀ p ∈ st.2, wrap (p.1.counted l) = wrap p.1.owed

/-- Each turn signs for an entry of which the right value was counted, or not at all. -/
theorem Agreed.signInput (h : Agreed l st) (hstep : signInput signSignature e st s = some st') : Agreed l st' := by
  unfold PayDayCoin.signInput at hstep
  split at hstep
  · obtain rfl := Option.some.inj hstep
    exact h
  · simp only at hstep
    split at hstep
    · cases hstep
    · rename_i mine _ hok
      obtain rfl := Option.some.inj hstep
      rw [not_or, not_ne_iff, countOutputs_eq, h.vout, addValues_eq] at hok
      refine ⟨h.vout, fun p hp => ?_⟩
      rcases List.mem_append.1 hp with hp | hp
      · exact h.counted p hp
      · obtain ⟨sig, -, rfl⟩ := Option.map_eq_some_iff.1 (Option.mem_toList.1 hp)
        exact hok.2

theorem agreed_of_sign {entries : List CDarkSendEntry} {tx : CTransaction}
    (h : signFinalTransaction signSignature entries tx = some st) : Agreed tx.vout st := by
  refine foldlM_some_induct (fun e _ s s' hs hstep => ?_) ⟨rfl, fun _ hp => absurd hp List.not_mem_nil⟩ h
  exact foldlM_some_induct (fun _ _ _ _ ht hturn => ht.signInput hturn) hs hstep

/-- **A transaction that the client signs pays what an entry asks for exactly if** what is
counted too often is no more than what the sums lose. -/
theorem signed_pays_iff (signSignature : SignSignature) (entries : List CDarkSendEntry) (tx : CTransaction)
    (st : CTransaction × List (CDarkSendEntry × CTxIn))
    (hsigned : signFinalTransaction signSignature entries tx = some st) :
    ∀ p ∈ st.2, p.1.owed ≤ p.1.paid st.1.vout ↔
      p.1.overcounted st.1.vout ≤ lost (p.1.counted st.1.vout) - lost p.1.owed := by
  intro p hp
  have hagreed := agreed_of_sign hsigned
  have hwrap := hagreed.counted p hp
  rw [hagreed.vout]
  have hpaid := p.1.paid_add_overcounted tx.vout
  unfold lost
  omega

end Signed

/-! ### Two outputs with one script -/

namespace MixingSample

/-- An input that is submitted, and an output of ten coins. -/
def input : CTxDSIn where
  prevout := ⟨7, 0⟩
  scriptSig := []
  prevPubKey := [0x51]

def ten : CTxOut := ⟨10 * COIN, [0x51]⟩

/-- Twenty coins are submitted, to get ten twice. -/
def entry : CDarkSendEntry where
  sev := [input]
  vout := [ten, ten]
  amount := 20 * COIN
  collateral := { nTime := 0, vin := [], vout := [] }
  addedTime := 0

/-- A final transaction with the input, and outputs. -/
def final (vout : List CTxOut) : CTransaction where
  nTime := 0
  vin := [input.toCTxIn]
  vout := vout

/-- Any signature. -/
def sign : SignSignature := fun _ _ _ => [0x01]

def signature : CTxIn := ⟨⟨7, 0⟩, [0x01], 0xffffffff⟩

/-- **One output stands for two**: the client signs, and gets ten of its twenty coins. -/
theorem paid_once : (signFinalTransaction sign [entry] (final [ten])).map Prod.snd = some [(entry, signature)] ∧
    entry.paid (final [ten]).vout < entry.owed := by
  constructor <;> decide

/-- Two outputs with different scripts. -/
def entry' : CDarkSendEntry := { entry with vout := [ten, ⟨10 * COIN, [0x52]⟩] }

/-- A transaction that pays both is signed. -/
theorem paid_twice : entry'.owed ≤ entry'.paid [ten, ⟨10 * COIN, [0x52]⟩] ↔
    entry'.overcounted [ten, ⟨10 * COIN, [0x52]⟩] ≤
      lost (entry'.counted [ten, ⟨10 * COIN, [0x52]⟩]) - lost entry'.owed :=
  signed_pays_iff sign [entry'] (final [ten, ⟨10 * COIN, [0x52]⟩])
    ((final [ten, ⟨10 * COIN, [0x52]⟩]).setScriptSig 0 [0x01], [(entry', signature)]) (by decide)
    (entry', signature) (List.mem_singleton.2 rfl)

end MixingSample

end PayDayCoin
