import PayDayCoin.Script

/-!
# The address index of a script

`BuildAddrIndex` goes over a script with `GetOp`, without a look at whether it fails, and takes the data of each push
of eight bytes or more for an address. A script of any bytes is a list of instructions, some of them cut short
(`exists_readable`), and each turn of the loop is at one of them (`buildAddrIndexLoop_eq`).
**`buildAddrIndex_eq`**: it ends on every script, with one id for each long push, in order, or with the hash of the
whole script where there is none. A short push has no id of its own (`AddrIndexSample.short_push`).
-/

namespace PayDayCoin

open CScript

variable (hash160 : List UInt8 → List UInt8)

/-- The id of the data of a push: a copy, filled up with zeros, or its hash. -/
def addrIdOf (data : List UInt8) : List UInt8 :=
  if data.length ≤ 20 then data ++ List.replicate (20 - data.length) 0 else hash160 data

/-- The loop of `BuildAddrIndex`, from a position of the script on; `fuel` bounds its turns, and `none` says that it
needs more. The position is moved also where `GetOp` fails, and the opcode is the invalid one then. -/
def buildAddrIndexLoop : ℕ → CScript → List (List UInt8) → Bool → Option (List (List UInt8) × Bool)
  | 0, pc, addrIds, fHaveData => if pc = [] then some (addrIds, fHaveData) else none
  | fuel + 1, pc, addrIds, fHaveData =>
    if pc = [] then some (addrIds, fHaveData)
    else
      match getOp2 pc with
      | (none, pc) => buildAddrIndexLoop fuel pc addrIds fHaveData
      | (some (opcode, data), pc) =>
        if opcode ≤ OP_PUSHDATA4 ∧ 8 ≤ data.length then
          buildAddrIndexLoop fuel pc (addrIds ++ [addrIdOf hash160 data]) true
        else buildAddrIndexLoop fuel pc addrIds fHaveData

/-- `BuildAddrIndex`, with what it returns; `none` when the loop needs more turns than the script has bytes. -/
def buildAddrIndex (script : CScript) (addrIds : List (List UInt8)) : Option (List (List UInt8) × Bool) :=
  (buildAddrIndexLoop hash160 script.length script addrIds false).map fun (addrIds, fHaveData) =>
    if !fHaveData then (addrIds ++ [hash160 script], true) else (addrIds, 0 < addrIds.length)

/-! ### Instructions -/

/-- An instruction of a script: an operation, a push with the bytes of its size, or what is left of a push where the
script is too short for it. -/
inductive Instr
  | op (opcode : UInt8)
  | push (opcode : UInt8) (size data : List UInt8)
  | cut (opcode : UInt8) (size : List UInt8)

/-- How many bytes the size of a push has. -/
def sizeWidth (opcode : UInt8) : ℕ :=
  if opcode < OP_PUSHDATA1 then 0 else if opcode = OP_PUSHDATA1 then 1 else if opcode = OP_PUSHDATA2 then 2 else 4

/-- The size of a push. -/
def pushSize (opcode : UInt8) (size : List UInt8) : ℕ :=
  if opcode < OP_PUSHDATA1 then opcode.toNat else ofBytes size

namespace Instr

def bytes : Instr → List UInt8
  | op opcode => [opcode]
  | push opcode size data => opcode :: (size ++ data)
  | cut opcode size => opcode :: size

/-- The data of a push. -/
def pushed : Instr → Option (List UInt8)
  | push _ _ data => some data
  | _ => none

end Instr

/-- The script of instructions. -/
def scriptOf (l : List Instr) : CScript := l.flatMap Instr.bytes

/-- The data that is pushed. -/
def pushedData (l : List Instr) : List (List UInt8) := l.filterMap Instr.pushed

/-- The data of the pushes of eight bytes or more. -/
def longPushedData (l : List Instr) : List (List UInt8) := (pushedData l).filter fun data => 8 ≤ data.length

/-- The instructions are read as they are: a push has the data that its size says, and is cut short only where the
script is. -/
def Readable : List Instr → Prop
  | [] => True
  | .op opcode :: l => OP_PUSHDATA4 < opcode ∧ Readable l
  | .push opcode size data :: l =>
    (opcode ≤ OP_PUSHDATA4 ∧ size.length = sizeWidth opcode ∧ data.length = pushSize opcode size) ∧ Readable l
  | .cut opcode size :: l =>
    (opcode ≤ OP_PUSHDATA4 ∧ (size = [] ∧ (scriptOf l).length < sizeWidth opcode ∨
      size.length = sizeWidth opcode ∧ (scriptOf l).length < pushSize opcode size)) ∧ Readable l

theorem scriptOf_cons (i : Instr) (l : List Instr) : scriptOf (i :: l) = i.bytes ++ scriptOf l := rfl

/-! ### GetOp -/

theorem readSize_eq (width : ℕ) (pc : CScript) :
    readSize width pc = if pc.length < width then none else some (ofBytes (pc.take width), pc.drop width) := rfl

theorem getOp2_op {opcode : UInt8} (h : OP_PUSHDATA4 < opcode) (pc : CScript) :
    getOp2 (opcode :: pc) = (some (opcode, []), pc) := by
  rw [getOp2, if_neg (UInt8.not_le.2 h)]

/-- What `GetOp` makes of a push: the size, and then the data, each where the script is long enough. -/
theorem getOp2_push {opcode : UInt8} (h : opcode ≤ OP_PUSHDATA4) (pc : CScript) :
    getOp2 (opcode :: pc) =
      if pc.length < sizeWidth opcode then (none, pc)
      else if (pc.drop (sizeWidth opcode)).length < pushSize opcode (pc.take (sizeWidth opcode)) then
        (none, pc.drop (sizeWidth opcode))
      else (some (opcode, (pc.drop (sizeWidth opcode)).take (pushSize opcode (pc.take (sizeWidth opcode)))),
        (pc.drop (sizeWidth opcode)).drop (pushSize opcode (pc.take (sizeWidth opcode)))) := by
  rw [getOp2, if_pos h]
  by_cases hdirect : opcode < OP_PUSHDATA1
  · simp only [sizeWidth, pushSize, if_pos hdirect, Nat.not_lt_zero, if_false, List.drop_zero]
  · have hsize : (if opcode < OP_PUSHDATA1 then some (opcode.toNat, pc)
        else if opcode = OP_PUSHDATA1 then readSize 1 pc
        else if opcode = OP_PUSHDATA2 then readSize 2 pc
        else readSize 4 pc) = readSize (sizeWidth opcode) pc := by
      rw [if_neg hdirect, sizeWidth, if_neg hdirect]
      split
      · rfl
      · split <;> rfl
    dsimp only
    rw [hsize, readSize_eq, pushSize, if_neg hdirect]
    by_cases hlt : pc.length < sizeWidth opcode
    · rw [if_pos hlt, if_pos hlt]
    · rw [if_neg hlt, if_neg hlt]

/-- Any bytes are the script of instructions. -/
theorem exists_readable (script : CScript) : ∃ l, Readable l ∧ scriptOf l = script := by
  obtain ⟨n, hn⟩ : ∃ n, script.length ≤ n := ⟨_, Nat.le_refl _⟩
  induction n generalizing script with
  | zero => exact ⟨[], trivial, (List.length_eq_zero_iff.1 (Nat.le_zero.1 hn)).symm⟩
  | succ n ih =>
    cases script with
    | nil => exact ⟨[], trivial, rfl⟩
    | cons opcode pc =>
      rw [List.length_cons, Nat.succ_le_succ_iff] at hn
      by_cases hpush : opcode ≤ OP_PUSHDATA4
      · by_cases hsize : pc.length < sizeWidth opcode
        · obtain ⟨l, hl, rfl⟩ := ih pc hn
          exact ⟨.cut opcode [] :: l, ⟨⟨hpush, .inl ⟨rfl, hsize⟩⟩, hl⟩, rfl⟩
        have htake : (pc.take (sizeWidth opcode)).length = sizeWidth opcode :=
          List.length_take_of_le (Nat.not_lt.1 hsize)
        by_cases hdata : (pc.drop (sizeWidth opcode)).length < pushSize opcode (pc.take (sizeWidth opcode))
        · obtain ⟨l, hl, heq⟩ := ih (pc.drop (sizeWidth opcode))
            (by rw [List.length_drop]; omega)
          refine ⟨.cut opcode (pc.take (sizeWidth opcode)) :: l, ⟨⟨hpush, .inr ⟨htake, ?_⟩⟩, hl⟩, ?_⟩
          · rw [heq]
            exact hdata
          · rw [scriptOf_cons, heq, Instr.bytes, List.cons_append, List.take_append_drop]
        · obtain ⟨l, hl, heq⟩ := ih
            ((pc.drop (sizeWidth opcode)).drop (pushSize opcode (pc.take (sizeWidth opcode))))
            (by rw [List.length_drop, List.length_drop]; omega)
          refine ⟨.push opcode (pc.take (sizeWidth opcode))
            ((pc.drop (sizeWidth opcode)).take (pushSize opcode (pc.take (sizeWidth opcode)))) :: l,
            ⟨⟨hpush, htake, List.length_take_of_le (Nat.not_lt.1 hdata)⟩, hl⟩, ?_⟩
          rw [scriptOf_cons, heq, Instr.bytes, List.cons_append, List.append_assoc, List.take_append_drop,
            List.take_append_drop]
      · obtain ⟨l, hl, rfl⟩ := ih pc hn
        exact ⟨.op opcode :: l, ⟨UInt8.not_le.1 hpush, hl⟩, rfl⟩

/-! ### The loop -/

theorem longPushedData_op (opcode : UInt8) (l : List Instr) : longPushedData (.op opcode :: l) = longPushedData l := rfl

theorem longPushedData_cut (opcode : UInt8) (size : List UInt8) (l : List Instr) :
    longPushedData (.cut opcode size :: l) = longPushedData l := rfl

theorem longPushedData_push (opcode : UInt8) (size data : List UInt8) (l : List Instr) :
    longPushedData (.push opcode size data :: l) =
      if 8 ≤ data.length then data :: longPushedData l else longPushedData l := by
  rw [longPushedData, pushedData, List.filterMap_cons_some (show (Instr.push opcode size data).pushed = some data from rfl),
    List.filter_cons]
  simp only [decide_eq_true_eq]
  rfl

/-- What `GetOp` reads of a push that is there. -/
theorem getOp2_pushed {opcode : UInt8} {size data : List UInt8} (hpush : opcode ≤ OP_PUSHDATA4)
    (hsize : size.length = sizeWidth opcode) (hdata : data.length = pushSize opcode size) (pc : CScript) :
    getOp2 (opcode :: (size ++ data ++ pc)) = (some (opcode, data), pc) := by
  have htake : (size ++ data ++ pc).take (sizeWidth opcode) = size := by
    rw [List.append_assoc, ← hsize, List.take_left]
  have hdrop : (size ++ data ++ pc).drop (sizeWidth opcode) = data ++ pc := by
    rw [List.append_assoc, ← hsize, List.drop_left]
  rw [getOp2_push hpush, htake, hdrop, ← hdata, List.take_left, List.drop_left, if_neg, if_neg]
  · rw [List.length_append]
    omega
  · rw [List.length_append, List.length_append]
    omega

/-- `GetOp` fails at a push that is cut short, and goes on behind its opcode, and its size if it is there. -/
theorem getOp2_cut {opcode : UInt8} {size pc : List UInt8} (hpush : opcode ≤ OP_PUSHDATA4)
    (hcut : size = [] ∧ pc.length < sizeWidth opcode ∨
      size.length = sizeWidth opcode ∧ pc.length < pushSize opcode size) :
    getOp2 (opcode :: (size ++ pc)) = (none, pc) := by
  rw [getOp2_push hpush]
  rcases hcut with ⟨rfl, hlt⟩ | ⟨hsize, hlt⟩
  · rw [List.nil_append, if_pos hlt]
  · have htake : (size ++ pc).take (sizeWidth opcode) = size := by rw [← hsize, List.take_left]
    have hdrop : (size ++ pc).drop (sizeWidth opcode) = pc := by rw [← hsize, List.drop_left]
    rw [htake, hdrop, if_pos hlt, if_neg]
    rw [List.length_append]
    omega

/-- The loop takes the ids of the long pushes, one turn for each instruction. -/
theorem buildAddrIndexLoop_eq {l : List Instr} (hl : Readable l) {fuel : ℕ} (hfuel : (scriptOf l).length ≤ fuel)
    (addrIds : List (List UInt8)) (fHaveData : Bool) :
    buildAddrIndexLoop hash160 fuel (scriptOf l) addrIds fHaveData =
      some (addrIds ++ (longPushedData l).map (addrIdOf hash160), fHaveData || !(longPushedData l).isEmpty) := by
  induction l generalizing fuel addrIds fHaveData with
  | nil =>
    have hnil : longPushedData [] = [] := rfl
    rw [hnil, List.map_nil, List.append_nil, List.isEmpty_nil, Bool.not_true, Bool.or_false]
    cases fuel with
    | zero => exact if_pos rfl
    | succ fuel => exact if_pos rfl
  | cons i l ih =>
    cases fuel with
    | zero =>
      cases i <;> rw [scriptOf_cons, Instr.bytes, List.cons_append, List.length_cons] at hfuel <;> omega
    | succ fuel =>
      cases i with
      | op opcode =>
        obtain ⟨hop, hl⟩ := hl
        rw [scriptOf_cons, Instr.bytes, List.singleton_append, List.length_cons] at hfuel
        rw [scriptOf_cons, Instr.bytes, List.singleton_append, buildAddrIndexLoop, if_neg (List.cons_ne_nil _ _),
          getOp2_op hop]
        dsimp only
        rw [if_neg fun h => absurd h.1 (UInt8.not_le.2 hop), ih hl (Nat.succ_le_succ_iff.1 hfuel), longPushedData_op]
      | push opcode size data =>
        obtain ⟨⟨hpush, hsize, hdata⟩, hl⟩ := hl
        rw [scriptOf_cons, Instr.bytes, List.cons_append, List.length_cons, List.length_append] at hfuel
        rw [scriptOf_cons, Instr.bytes, List.cons_append, buildAddrIndexLoop, if_neg (List.cons_ne_nil _ _),
          getOp2_pushed hpush hsize hdata, longPushedData_push]
        dsimp only
        by_cases hlong : 8 ≤ data.length
        · rw [if_pos ⟨hpush, hlong⟩, if_pos hlong, ih hl (by omega), List.map_cons, List.append_assoc,
            List.singleton_append, Bool.true_or, List.isEmpty_cons, Bool.not_false, Bool.or_true]
        · rw [if_neg fun h => hlong h.2, if_neg hlong, ih hl (by omega)]
      | cut opcode size =>
        obtain ⟨⟨hpush, hcut⟩, hl⟩ := hl
        rw [scriptOf_cons, Instr.bytes, List.cons_append, List.length_cons, List.length_append] at hfuel
        rw [scriptOf_cons, Instr.bytes, List.cons_append, buildAddrIndexLoop, if_neg (List.cons_ne_nil _ _),
          getOp2_cut hpush hcut, longPushedData_cut]
        dsimp only
        rw [ih hl (by omega)]

/-- The ids that a script of instructions has. -/
def addrIdsOf (l : List Instr) : List (List UInt8) :=
  if (longPushedData l).isEmpty then [hash160 (scriptOf l)] else (longPushedData l).map (addrIdOf hash160)

/-- **`BuildAddrIndex` ends on every script, and gives each long push one id, in order**: any bytes are a script of
instructions, and those of a payment to a key or a script have the hash for their id. -/
theorem buildAddrIndex_eq :
    (∀ script, ∃ l, Readable l ∧ scriptOf l = script) ∧
      (∀ l addrIds, Readable l →
        buildAddrIndex hash160 (scriptOf l) addrIds = some (addrIds ++ addrIdsOf hash160 l, true)) ∧
      ∀ id addrIds, id.length = 20 →
        buildAddrIndex hash160 ([0x76, OP_HASH160, 20] ++ id ++ [0x88, OP_CHECKSIG]) addrIds =
            some (addrIds ++ [id], true) ∧
          buildAddrIndex hash160 ([OP_HASH160, 20] ++ id ++ [OP_EQUAL]) addrIds = some (addrIds ++ [id], true) := by
  have heq : ∀ l addrIds, Readable l →
      buildAddrIndex hash160 (scriptOf l) addrIds = some (addrIds ++ addrIdsOf hash160 l, true) := by
    intro l addrIds hl
    rw [buildAddrIndex, buildAddrIndexLoop_eq hash160 hl (Nat.le_refl _), Option.map_some, addrIdsOf, Bool.false_or]
    dsimp only
    cases hlong : longPushedData l with
    | nil => rw [List.isEmpty_nil, if_pos rfl, if_pos (by decide), List.map_nil, List.append_nil]
    | cons data rest =>
      rw [List.isEmpty_cons, if_neg (by decide), if_neg (by decide), List.map_cons, List.length_append,
        List.length_cons, decide_eq_true (by omega)]
  refine ⟨exists_readable, heq, fun id addrIds hid => ?_⟩
  have hidOf : addrIdOf hash160 id = id := by
    rw [addrIdOf, if_pos (by omega), hid, Nat.sub_self, List.replicate_zero, List.append_nil]
  have hpush : (20 : UInt8) ≤ OP_PUSHDATA4 ∧ ([] : List UInt8).length = sizeWidth 20 ∧
      id.length = pushSize 20 [] := ⟨by decide, rfl, hid⟩
  have hids : ∀ before after, longPushedData before = [] → longPushedData after = [] →
      addrIdsOf hash160 (before ++ .push 20 [] id :: after) = [id] := by
    intro before after hbefore hafter
    have hlong : longPushedData (before ++ .push 20 [] id :: after) = [id] := by
      rw [longPushedData, pushedData, List.filterMap_append, List.filter_append]
      change longPushedData before ++ longPushedData (.push 20 [] id :: after) = [id]
      rw [hbefore, longPushedData_push, hafter, if_pos (by omega), List.nil_append]
    rw [addrIdsOf, hlong, List.isEmpty_cons, if_neg Bool.false_ne_true, List.map_singleton, hidOf]
  have hkeyReadable : Readable ([.op 0x76, .op OP_HASH160, .push 20 [] id, .op 0x88, .op OP_CHECKSIG]) :=
    ⟨by decide, by decide, hpush, by decide, by decide, trivial⟩
  have hscriptReadable : Readable ([.op OP_HASH160, .push 20 [] id, .op OP_EQUAL]) :=
    ⟨by decide, hpush, by decide, trivial⟩
  have hkey := heq ([.op 0x76, .op OP_HASH160] ++ .push 20 [] id :: [.op 0x88, .op OP_CHECKSIG]) addrIds hkeyReadable
  have hscript := heq ([.op OP_HASH160] ++ .push 20 [] id :: [.op OP_EQUAL]) addrIds hscriptReadable
  rw [hids _ _ rfl rfl] at hkey hscript
  have hkeyBytes : scriptOf ([.op 0x76, .op OP_HASH160] ++ .push 20 [] id :: [.op 0x88, .op OP_CHECKSIG]) =
      [0x76, OP_HASH160, 20] ++ id ++ [0x88, OP_CHECKSIG] := by
    simp [scriptOf, Instr.bytes]
  have hscriptBytes : scriptOf ([.op OP_HASH160] ++ .push 20 [] id :: [.op OP_EQUAL]) =
      [OP_HASH160, 20] ++ id ++ [OP_EQUAL] := by
    simp [scriptOf, Instr.bytes]
  rw [hkeyBytes] at hkey
  rw [hscriptBytes] at hscript
  exact ⟨hkey, hscript⟩

namespace AddrIndexSample

/-- A short push, and one of the size of an address. -/
def instrs : List Instr := [.push 3 [] [1, 2, 3], .push 20 [] (List.replicate 20 7)]

theorem readable_instrs : Readable instrs := ⟨⟨by decide, rfl, rfl⟩, ⟨by decide, rfl, rfl⟩, trivial⟩

/-- **Of two pushes, the short one has no id**. -/
theorem short_push : Readable instrs ∧ (pushedData instrs).length = 2 ∧
    buildAddrIndex (List.take 20) (scriptOf instrs) [] = some ([List.replicate 20 7], true) :=
  ⟨readable_instrs, rfl, by decide⟩

end AddrIndexSample

end PayDayCoin
