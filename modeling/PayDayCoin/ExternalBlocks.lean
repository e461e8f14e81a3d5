import PayDayCoin.Block
import PayDayCoin.NetMessages

/-!
# Loading blocks from an external file

`LoadExternalBlockFile` looks for the start of a message through a window of 64 KiB, and hands the block behind it to
`ProcessBlock`. **`loadExternalBlockFile_spec`**: with a file whose positions fit in 32 bits, it comes to an end, no
start is tried twice, and every block of the file is handed over, but for those inside a block that has been accepted,
and those behind bytes that are taken for a block and cannot be read, where the load ends
(`ExternalSample.unreadable_ends`).
-/

namespace PayDayCoin

/-- `MessageStart`, the bytes that a message starts with. -/
def CChainParams.messageStart (params : CChainParams) : List UInt8 :=
  if params.testNet then [0xfc, 0xa2, 0x3d, 0xe8] else [0xcf, 0x2a, 0xd3, 0x8e]

/-- `sizeof(pchData)`. -/
def windowSize : ℕ := 65536

/-- What `LoadExternalBlockFile` calls. -/
structure BlockFileEnv (B S : Type) where
  params : CChainParams
  /-- The block that is read from bytes; `none` when it is an exception. -/
  readBlock : List UInt8 → Option B
  /-- There is no block without bytes. -/
  readBlock_nil : readBlock [] = none
  /-- `ProcessBlock`. -/
  processBlock : S → B → Bool × S

/-- A block that is handed to `ProcessBlock`: where its message starts, the size that it is said to have, and what
`ProcessBlock` returns. -/
structure Handed (B : Type) where
  pos : ℕ
  nSize : ℕ
  block : B
  accepted : Bool
deriving DecidableEq

namespace BlockFileEnv

variable {B S : Type} (env : BlockFileEnv B S) (file : List UInt8)

/-- The loop that looks for the start of a message, from a position on: the position behind it, or the largest position
at the end of the file. `fuel` bounds its turns, and `none` says that it needs more. -/
def findStart : ℕ → UInt32 → Option UInt32
  | 0, _ => none
  | fuel + 1, nPos =>
    let pchData := (file.drop nPos.toNat).take windowSize
    if pchData.length ≤ 8 then some 0xffffffff
    else
      match (pchData.take (pchData.length + 1 - MESSAGE_START_SIZE)).findIdx?
          (fun b => env.params.messageStart[0]? == some b) with
      | some nFind =>
        if (pchData.drop nFind).take MESSAGE_START_SIZE = env.params.messageStart then
          some (nPos + UInt32.ofNat nFind + UInt32.ofNat MESSAGE_START_SIZE)
        else findStart fuel (nPos + UInt32.ofNat nFind + 1)
      | none => findStart fuel (nPos + UInt32.ofNat (windowSize - MESSAGE_START_SIZE + 1))

/-- The loop of `LoadExternalBlockFile`, with the blocks that it hands over; an exception ends it. -/
def loadLoop : ℕ → UInt32 → S → Option (S × List (Handed B))
  | 0, _, _ => none
  | fuel + 1, nPos, s =>
    if nPos = 0xffffffff then some (s, [])
    else
      match findStart env file (file.length + 1) nPos with
      | none => none
      | some nPos =>
        if nPos = 0xffffffff then some (s, [])
        else if (file.drop nPos.toNat).length < 4 then some (s, [])
        else
          let nSize := ofBytes ((file.drop nPos.toNat).take 4)
          if 0 < nSize ∧ nSize ≤ MAX_BLOCK_SIZE then
            match env.readBlock (file.drop (nPos.toNat + 4)) with
            | none => some (s, [])
            | some block =>
              let r := env.processBlock s block
              (loadLoop fuel (if r.1 then nPos + 4 + UInt32.ofNat nSize else nPos) r.2).map fun t =>
                (t.1, ⟨nPos.toNat - MESSAGE_START_SIZE, nSize, block, r.1⟩ :: t.2)
          else loadLoop fuel nPos s

/-- `LoadExternalBlockFile`: what it returns, the state of the node, and the blocks that were handed over; `none` when a
loop needs more turns than the file has bytes. -/
def loadExternalBlockFile (s : S) : Option (Bool × S × List (Handed B)) :=
  (loadLoop env file (file.length + 1) 0 s).map fun r => (r.2.any Handed.accepted, r)

/-! ### What the file has -/

/-- A message starts at a position. -/
def OccursAt (p : ℕ) : Prop := (file.drop p).take MESSAGE_START_SIZE = env.params.messageStart

/-- The message that starts at a position says that a block follows, and how large it is. -/
def SaysBlock (p nSize : ℕ) : Prop :=
  env.OccursAt file p ∧ p + 8 ≤ file.length ∧ nSize = ofBytes ((file.drop (p + 4)).take 4) ∧ 0 < nSize ∧
    nSize ≤ MAX_BLOCK_SIZE

/-- A block starts at a position. -/
def StartsAt (p nSize : ℕ) (block : B) : Prop :=
  env.SaysBlock file p nSize ∧ env.readBlock (file.drop (p + 8)) = some block

/-- The blocks were handed to `ProcessBlock` one after the other. -/
def Fed : S → List (Handed B) → S → Prop
  | s, [], s' => s' = s
  | s, h :: handed, s' =>
    (env.processBlock s h.block).1 = h.accepted ∧ Fed (env.processBlock s h.block).2 handed s'

/-- A position is inside a block that has been accepted. -/
def Inside (handed : List (Handed B)) (p : ℕ) : Prop :=
  ∃ h ∈ handed, h.accepted = true ∧ h.pos < p ∧ p < h.pos + 8 + h.nSize

/-- The load ends at a position: bytes are taken for a block there, behind all that was handed over, and cannot be
read. -/
def EndsAt (handed : List (Handed B)) (q : ℕ) : Prop :=
  (∃ nSize, env.SaysBlock file q nSize) ∧ env.readBlock (file.drop (q + 8)) = none ∧
    ∀ h ∈ handed, h.pos < q ∧ (h.accepted = true → h.pos + 8 + h.nSize ≤ q)

/-! ### The search -/

variable {env} {file}

theorem length_messageStart (params : CChainParams) : params.messageStart.length = MESSAGE_START_SIZE := by
  rw [CChainParams.messageStart]
  split <;> rfl

/-- The first byte of a message is none of the three behind it. -/
theorem messageStart_ne (params : CChainParams) {i : ℕ} (hpos : 0 < i) (hi : i < MESSAGE_START_SIZE) :
    params.messageStart[i]? ≠ params.messageStart[0]? := by
  rw [MESSAGE_START_SIZE] at hi
  rw [CChainParams.messageStart]
  split <;> interval_cases i <;> decide

theorem OccursAt.le_length {p : ℕ} (h : env.OccursAt file p) : p + MESSAGE_START_SIZE ≤ file.length := by
  have hlength := congrArg List.length h
  rw [length_messageStart, List.length_take, List.length_drop, MESSAGE_START_SIZE] at hlength
  rw [MESSAGE_START_SIZE]
  omega

theorem OccursAt.getElem?_eq {p i : ℕ} (h : env.OccursAt file p) (hi : i < MESSAGE_START_SIZE) :
    file[p + i]? = env.params.messageStart[i]? := by
  rw [← h, List.getElem?_take_of_lt hi, List.getElem?_drop]

/-- No message starts inside the bytes that another starts with. -/
theorem OccursAt.disjoint {p q : ℕ} (h : env.OccursAt file p) (h' : env.OccursAt file q) (hlt : p < q) :
    p + MESSAGE_START_SIZE ≤ q := by
  by_contra hover
  have hi : q - p < MESSAGE_START_SIZE := by omega
  have hbyte := h.getElem?_eq hi
  have hfirst := h'.getElem?_eq (i := 0) (by decide)
  rw [Nat.add_sub_of_le hlt.le] at hbyte
  exact messageStart_ne _ (Nat.sub_pos_of_lt hlt) hi (hbyte.symm.trans hfirst)

theorem length_window (n : ℕ) : ((file.drop n).take windowSize).length = min windowSize (file.length - n) := by
  rw [List.length_take, List.length_drop]

/-- The part of the window where the first byte is looked for shows the file. -/
theorem getElem?_window {n i : ℕ}
    (hi : i < ((file.drop n).take windowSize).length + 1 - MESSAGE_START_SIZE) :
    (((file.drop n).take windowSize).take (((file.drop n).take windowSize).length + 1 - MESSAGE_START_SIZE))[i]? =
      file[n + i]? := by
  have hlt : i < windowSize := by
    rw [length_window, MESSAGE_START_SIZE] at hi
    omega
  rw [List.getElem?_take_of_lt hi, List.getElem?_take_of_lt hlt, List.getElem?_drop]

/-- A message that starts in the window has its first byte in the part that is searched. -/
theorem OccursAt.in_window {n i : ℕ} (h : env.OccursAt file (n + i)) (hi : i + MESSAGE_START_SIZE ≤ windowSize) :
    i < ((file.drop n).take windowSize).length + 1 - MESSAGE_START_SIZE := by
  have hle := h.le_length
  rw [MESSAGE_START_SIZE] at hle hi
  rw [length_window, MESSAGE_START_SIZE]
  omega

/-- What is not found in the window is not there, also at its end. -/
theorem not_occursAt_of_none {n q : ℕ}
    (hnone : (((file.drop n).take windowSize).take
        (((file.drop n).take windowSize).length + 1 - MESSAGE_START_SIZE)).findIdx?
      (fun b => env.params.messageStart[0]? == some b) = none)
    (hle : n ≤ q) (hlt : q < n + (windowSize - MESSAGE_START_SIZE + 1)) : ¬env.OccursAt file q := by
  intro h
  obtain ⟨i, rfl⟩ := Nat.exists_eq_add_of_le hle
  have hi : i + MESSAGE_START_SIZE ≤ windowSize := by
    rw [MESSAGE_START_SIZE, windowSize] at hlt ⊢
    omega
  have hbyte := getElem?_window (h.in_window hi)
  have hfirst := h.getElem?_eq (i := 0) (by decide)
  rw [Nat.add_zero] at hfirst
  rw [hfirst] at hbyte
  obtain ⟨b, hb⟩ : ∃ b, env.params.messageStart[0]? = some b :=
    ⟨_, List.getElem?_eq_getElem (by rw [length_messageStart]; decide)⟩
  have hmiss := List.findIdx?_eq_none_iff.1 hnone b (List.mem_of_getElem? (hbyte.trans hb))
  rw [hb, beq_self_eq_true] at hmiss
  cases hmiss

/-- What is found in the window is the first of its kind. -/
theorem first_of_some {n i : ℕ}
    (hsome : (((file.drop n).take windowSize).take
        (((file.drop n).take windowSize).length + 1 - MESSAGE_START_SIZE)).findIdx?
      (fun b => env.params.messageStart[0]? == some b) = some i) :
    i + MESSAGE_START_SIZE ≤ ((file.drop n).take windowSize).length ∧
      ∀ q, n ≤ q → q < n + i → ¬env.OccursAt file q := by
  obtain ⟨hi, -, hfirst⟩ := List.findIdx?_eq_some_iff_getElem.1 hsome
  have hlt := hi
  rw [List.length_take, MESSAGE_START_SIZE] at hlt
  refine ⟨by rw [MESSAGE_START_SIZE]; omega, fun q hle hq h => ?_⟩
  obtain ⟨j, rfl⟩ := Nat.exists_eq_add_of_le hle
  have hj : j < i := by omega
  have hshown : j < ((file.drop n).take windowSize).length + 1 - MESSAGE_START_SIZE := by
    rw [MESSAGE_START_SIZE]
    omega
  have hbyte := getElem?_window hshown
  have hstart := h.getElem?_eq (i := 0) (by decide)
  rw [Nat.add_zero] at hstart
  rw [hstart, List.getElem?_eq_getElem (Nat.lt_trans hj hi)] at hbyte
  apply hfirst j hj
  rw [← hbyte, beq_self_eq_true]

/-- `memcmp` in the window. -/
theorem occursAt_window {n i : ℕ} (hi : i + MESSAGE_START_SIZE ≤ ((file.drop n).take windowSize).length) :
    (((file.drop n).take windowSize).drop i).take MESSAGE_START_SIZE = env.params.messageStart ↔
      env.OccursAt file (n + i) := by
  rw [length_window] at hi
  rw [OccursAt, List.drop_take, List.take_take, List.drop_drop, Nat.min_eq_left (by omega)]

/-- Positions in the file do not wrap around. -/
theorem toNat_seek {nPos : UInt32} {k : ℕ} (h : nPos.toNat + k < 2 ^ 32) :
    (nPos + UInt32.ofNat k).toNat = nPos.toNat + k := by
  rw [UInt32.toNat_add, UInt32.toNat_ofNat']
  omega

variable (env file) in
/-- What a search from a position on should find: the next message, or none that has anything behind it. -/
def Finds (n : ℕ) (found : Option UInt32) : Prop :=
  (∃ q r, found = some r ∧ r.toNat = q + MESSAGE_START_SIZE ∧ n ≤ q ∧ env.OccursAt file q ∧
      ∀ p, n ≤ p → p < q → ¬env.OccursAt file p) ∨
    found = some 0xffffffff ∧ ∀ p, n ≤ p → env.OccursAt file p → file.length ≤ p + 8

/-- A search can go on behind what has no message. -/
theorem Finds.skip {n m : ℕ} {found : Option UInt32} (h : env.Finds file m found) (hle : n ≤ m)
    (hskip : ∀ p, n ≤ p → p < m → ¬env.OccursAt file p) : env.Finds file n found := by
  rcases h with ⟨q, r, heq, hr, hq, hoccurs, hleast⟩ | ⟨heq, hnone⟩
  · refine .inl ⟨q, r, heq, hr, hle.trans hq, hoccurs, fun p hp hlt => ?_⟩
    by_cases hbefore : p < m
    · exact hskip p hp hbefore
    · exact hleast p (Nat.not_lt.1 hbefore) hlt
  · refine .inr ⟨heq, fun p hp hoccurs => ?_⟩
    by_cases hbefore : p < m
    · exact absurd hoccurs (hskip p hp hbefore)
    · exact hnone p (Nat.not_lt.1 hbefore) hoccurs

/-- **The search finds the next message**, wherever the window cuts it. -/
theorem findStart_finds (hfile : file.length + windowSize < 2 ^ 32) {fuel : ℕ} {nPos : UInt32}
    (hfuel : file.length - nPos.toNat < fuel) : env.Finds file nPos.toNat (findStart env file fuel nPos) := by
  induction fuel generalizing nPos with
  | zero => exact absurd hfuel (Nat.not_lt_zero _)
  | succ fuel ih =>
    have hlength : ((file.drop nPos.toNat).take windowSize).length = min windowSize (file.length - nPos.toNat) :=
      length_window _
    rw [findStart]
    by_cases hend : ((file.drop nPos.toNat).take windowSize).length ≤ 8
    · rw [if_pos hend]
      rw [hlength, windowSize] at hend
      exact .inr ⟨rfl, fun p hp _ => by omega⟩
    rw [if_neg hend]
    have hinside : nPos.toNat < file.length := by
      rw [hlength, windowSize] at hend
      omega
    split
    · rename_i i hsome
      obtain ⟨hi, hfirst⟩ := first_of_some hsome
      have hbound : i + 4 ≤ windowSize := by
        rw [hlength, MESSAGE_START_SIZE] at hi
        omega
      have hseek : (nPos + UInt32.ofNat i).toNat = nPos.toNat + i := toNat_seek (by omega)
      by_cases hfound : (((file.drop nPos.toNat).take windowSize).drop i).take MESSAGE_START_SIZE =
          env.params.messageStart
      · rw [if_pos hfound]
        refine .inl ⟨nPos.toNat + i, _, rfl, ?_, Nat.le_add_right _ _, (occursAt_window hi).1 hfound, hfirst⟩
        rw [toNat_seek (by rw [hseek, MESSAGE_START_SIZE]; omega), hseek]
      · rw [if_neg hfound]
        have hnext : (nPos + UInt32.ofNat i + 1).toNat = nPos.toNat + i + 1 := by
          rw [← hseek]
          exact toNat_seek (k := 1) (by omega)
        apply Finds.skip (ih (by rw [hnext]; omega)) (by rw [hnext]; omega)
        intro p hp hlt
        rw [hnext] at hlt
        rcases Nat.lt_succ_iff_lt_or_eq.1 hlt with hlt | rfl
        · exact hfirst p hp hlt
        · exact fun h => hfound ((occursAt_window hi).2 h)
    · rename_i hmissing
      have hnext : (nPos + UInt32.ofNat (windowSize - MESSAGE_START_SIZE + 1)).toNat =
          nPos.toNat + (windowSize - MESSAGE_START_SIZE + 1) := by
        apply toNat_seek
        rw [windowSize] at hfile ⊢
        rw [MESSAGE_START_SIZE]
        omega
      apply Finds.skip (ih (by rw [hnext]; omega)) (by rw [hnext]; omega)
      intro p hp hlt
      rw [hnext] at hlt
      exact not_occursAt_of_none hmissing hp hlt

/-- With positions of 32 bits, the search does not come to the end of a file of zeros that is too large for them. -/
theorem findStart_zeros {n : ℕ} (hn : 2 ^ 32 + windowSize ≤ n) (fuel : ℕ) (nPos : UInt32) :
    findStart env (List.replicate n 0) fuel nPos = none := by
  induction fuel generalizing nPos with
  | zero => rfl
  | succ fuel ih =>
    have hpos : nPos.toNat < 2 ^ 32 := nPos.toNat_lt
    have hwindow : ((List.replicate n (0 : UInt8)).drop nPos.toNat).take windowSize = List.replicate windowSize 0 := by
      rw [List.drop_replicate, List.take_replicate, Nat.min_eq_left (by omega)]
    have hfirst : (env.params.messageStart[0]? == some 0) = false := by
      rw [CChainParams.messageStart]
      split <;> rfl
    have hmissing : ((List.replicate windowSize (0 : UInt8)).take (windowSize + 1 - MESSAGE_START_SIZE)).findIdx?
        (fun b => env.params.messageStart[0]? == some b) = none := by
      rw [List.findIdx?_eq_none_iff]
      intro b hb
      rw [List.eq_of_mem_replicate (List.mem_of_mem_take hb), hfirst]
    rw [findStart, hwindow]
    rw [List.length_replicate, if_neg (by decide), hmissing]
    exact ih _

/-! ### The load -/

variable (env file) in
/-- What a load from a position on should hand over. -/
structure Loaded (n : ℕ) (handed : List (Handed B)) : Prop where
  from_le : ∀ h ∈ handed, n ≤ h.pos
  ordered : handed.Pairwise fun h h' => h.pos < h'.pos ∧ (h.accepted = true → h.pos + 8 + h.nSize ≤ h'.pos)
  starts : ∀ h ∈ handed, env.StartsAt file h.pos h.nSize h.block
  complete : ∀ p nSize block, n ≤ p → env.StartsAt file p nSize block →
    (∃ accepted, ⟨p, nSize, block, accepted⟩ ∈ handed) ∨ Inside handed p ∨
      ∃ q, n ≤ q ∧ q < p ∧ env.EndsAt file handed q

/-- A block has bytes. -/
theorem StartsAt.lt_length {p nSize : ℕ} {block : B} (h : env.StartsAt file p nSize block) : p + 8 < file.length := by
  apply Nat.lt_of_not_le
  intro hle
  have hread := h.2
  rw [List.drop_eq_nil_of_le hle, env.readBlock_nil] at hread
  cases hread

/-- Nothing is handed over where nothing starts any more. -/
theorem Loaded.nil {n : ℕ} (h : ∀ p nSize block, n ≤ p → ¬env.StartsAt file p nSize block) : env.Loaded file n [] :=
  ⟨fun _ h => absurd h List.not_mem_nil, .nil, fun _ h => absurd h List.not_mem_nil,
    fun p nSize block hp hstarts => absurd hstarts (h p nSize block hp)⟩

/-- The load ends where a block cannot be read. -/
theorem Loaded.ends {n q nSize : ℕ} (hle : n ≤ q) (hnone : ∀ p, n ≤ p → p < q → ¬env.OccursAt file p)
    (hmeant : env.SaysBlock file q nSize) (hread : env.readBlock (file.drop (q + 8)) = none) :
    env.Loaded file n [] := by
  refine ⟨fun _ h => absurd h List.not_mem_nil, .nil, fun _ h => absurd h List.not_mem_nil,
    fun p nSize' block hp hstarts => .inr (.inr ?_)⟩
  rcases Nat.lt_trichotomy p q with hlt | rfl | hlt
  · exact absurd hstarts.1.1 (hnone p hp hlt)
  · rw [hstarts.2] at hread
    cases hread
  · exact ⟨q, hle, hlt, ⟨nSize, hmeant⟩, hread, fun _ h => absurd h List.not_mem_nil⟩

/-- A message with nothing that is taken for a block is passed over. -/
theorem Loaded.pass {n q : ℕ} {handed : List (Handed B)} (h : env.Loaded file (q + MESSAGE_START_SIZE) handed)
    (hle : n ≤ q) (hnone : ∀ p, n ≤ p → p < q → ¬env.OccursAt file p) (hoccurs : env.OccursAt file q)
    (hmeant : ∀ nSize, ¬env.SaysBlock file q nSize) : env.Loaded file n handed := by
  refine ⟨fun x hx => ?_, h.ordered, h.starts, fun p nSize block hp hstarts => ?_⟩
  · exact hle.trans ((Nat.le_add_right _ _).trans (h.from_le x hx))
  rcases Nat.lt_trichotomy p q with hlt | rfl | hlt
  · exact absurd hstarts.1.1 (hnone p hp hlt)
  · exact absurd hstarts.1 (hmeant nSize)
  · rcases h.complete p nSize block (hoccurs.disjoint hstarts.1.1 hlt) hstarts with hmem | hinside | ⟨q', hq', hends⟩
    · exact .inl hmem
    · exact .inr (.inl hinside)
    · exact .inr (.inr ⟨q', hle.trans ((Nat.le_add_right _ _).trans hq'), hends⟩)

/-- One more block is handed over. -/
theorem Loaded.cons {n m : ℕ} {x : Handed B} {handed : List (Handed B)} (h : env.Loaded file m handed)
    (hle : n ≤ x.pos) (hnone : ∀ p, n ≤ p → p < x.pos → ¬env.OccursAt file p)
    (hstarts : env.StartsAt file x.pos x.nSize x.block)
    (hm : m = if x.accepted then x.pos + 8 + x.nSize else x.pos + MESSAGE_START_SIZE) :
    env.Loaded file n (x :: handed) := by
  have hpos : x.pos < m := by
    rw [hm, MESSAGE_START_SIZE]
    split <;> omega
  have hbehind : x.accepted = true → m = x.pos + 8 + x.nSize := fun haccepted => by rw [hm, if_pos haccepted]
  refine ⟨fun y hy => ?_, List.pairwise_cons.2 ⟨fun y hy => ?_, h.ordered⟩, fun y hy => ?_,
    fun p nSize block hp hblock => ?_⟩
  · rcases List.mem_cons.1 hy with rfl | hy
    · exact hle
    · exact hle.trans (hpos.le.trans (h.from_le y hy))
  · exact ⟨hpos.trans_le (h.from_le y hy), fun haccepted => (hbehind haccepted).symm.le.trans (h.from_le y hy)⟩
  · rcases List.mem_cons.1 hy with rfl | hy
    · exact hstarts
    · exact h.starts y hy
  · rcases Nat.lt_trichotomy p x.pos with hlt | rfl | hlt
    · exact absurd hblock.1.1 (hnone p hp hlt)
    · obtain rfl : nSize = x.nSize := hblock.1.2.2.1.trans hstarts.1.2.2.1.symm
      obtain rfl : block = x.block := Option.some.inj (hblock.2.symm.trans hstarts.2)
      exact .inl ⟨x.accepted, List.mem_cons_self⟩
    · by_cases hfrom : m ≤ p
      · rcases h.complete p nSize block hfrom hblock with ⟨accepted, hmem⟩ | ⟨y, hy, hinside⟩ |
          ⟨q, hq, hlt', hmeant, hread, hall⟩
        · exact .inl ⟨accepted, List.mem_cons_of_mem _ hmem⟩
        · exact .inr (.inl ⟨y, List.mem_cons_of_mem _ hy, hinside⟩)
        · refine .inr (.inr ⟨q, hle.trans (hpos.le.trans hq), hlt', hmeant, hread, fun y hy => ?_⟩)
          rcases List.mem_cons.1 hy with rfl | hy
          · exact ⟨hpos.trans_le hq, fun haccepted => (hbehind haccepted).symm.le.trans hq⟩
          · exact hall y hy
      · cases haccepted : x.accepted with
        | true =>
          have hlast := hbehind haccepted
          exact .inr (.inl ⟨x, List.mem_cons_self, haccepted, hlt, by omega⟩)
        | false =>
          rw [haccepted, if_neg Bool.false_ne_true] at hm
          exact absurd (hm.le.trans (hstarts.1.1.disjoint hblock.1.1 hlt)) hfrom

/-- Where the load goes on, behind a block or behind its start. -/
theorem toNat_next {r : UInt32} {q nSize : ℕ} (hr : r.toNat = q + 4) (hfits : q + 8 + nSize < 2 ^ 32)
    (accepted : Bool) :
    (if accepted = true then r + 4 + UInt32.ofNat nSize else r).toNat =
      if accepted = true then q + 8 + nSize else q + MESSAGE_START_SIZE := by
  have hfour : (r + 4).toNat = q + 8 := by
    rw [show r + 4 = r + UInt32.ofNat 4 from rfl, toNat_seek (by omega)]
    omega
  split
  · rw [toNat_seek (by omega), hfour]
  · rw [hr, MESSAGE_START_SIZE]

variable (env) in
/-- **The loop hands over what it should**, from any position on. -/
theorem loadLoop_loaded (hfile : file.length + MAX_BLOCK_SIZE + 4 < 2 ^ 32 - 1) {fuel : ℕ} {nPos : UInt32}
    (hfuel : file.length - nPos.toNat < fuel) (hpos : nPos.toNat < 2 ^ 32 - 1) (s : S) :
    ∃ s' handed, loadLoop env file fuel nPos s = some (s', handed) ∧ env.Fed s handed s' ∧
      env.Loaded file nPos.toNat handed := by
  induction fuel generalizing nPos s with
  | zero => exact absurd hfuel (Nat.not_lt_zero _)
  | succ fuel ih =>
    have hne : ∀ n : UInt32, n.toNat < 2 ^ 32 - 1 → n ≠ 0xffffffff := by
      rintro n hn rfl
      exact absurd hn (by decide)
    have hmax : windowSize < MAX_BLOCK_SIZE := by decide
    rw [loadLoop, if_neg (hne nPos hpos)]
    have hfinds : env.Finds file nPos.toNat (findStart env file (file.length + 1) nPos) :=
      findStart_finds (by omega) (Nat.lt_succ_of_le (Nat.sub_le _ _))
    rcases hfinds with ⟨q, r, heq, hr, hq, hoccurs, hleast⟩ | ⟨heq, hnone⟩
    · have hle := hoccurs.le_length
      rw [MESSAGE_START_SIZE] at hle hr
      rw [heq]
      dsimp only
      rw [if_neg (hne r (by omega)), hr]
      by_cases hshort : (file.drop (q + 4)).length < 4
      · rw [if_pos hshort]
        rw [List.length_drop] at hshort
        refine ⟨s, [], rfl, rfl, .nil fun p nSize block hp hstarts => ?_⟩
        have hlong := hstarts.lt_length
        exact hleast p hp (by omega) hstarts.1.1
      rw [if_neg hshort]
      rw [List.length_drop] at hshort
      by_cases hsize : 0 < ofBytes ((file.drop (q + 4)).take 4) ∧ ofBytes ((file.drop (q + 4)).take 4) ≤ MAX_BLOCK_SIZE
      · rw [if_pos hsize]
        have hmeant : env.SaysBlock file q (ofBytes ((file.drop (q + 4)).take 4)) :=
          ⟨hoccurs, by omega, rfl, hsize.1, hsize.2⟩
        cases hread : env.readBlock (file.drop (q + 4 + 4)) with
        | none => exact ⟨s, [], rfl, rfl, .ends hq hleast hmeant hread⟩
        | some block =>
          obtain ⟨next, hdef⟩ : ∃ next, next = if (env.processBlock s block).1 = true then
              r + 4 + UInt32.ofNat (ofBytes ((file.drop (q + 4)).take 4)) else r := ⟨_, rfl⟩
          have hfits : q + 8 + ofBytes ((file.drop (q + 4)).take 4) < 2 ^ 32 := by omega
          have hnext := toNat_next hr hfits (env.processBlock s block).1
          rw [← hdef] at hnext
          have hbehind : q + 4 ≤ next.toNat ∧ next.toNat < 2 ^ 32 - 1 := by
            rw [hnext, MESSAGE_START_SIZE]
            split <;> omega
          have hless : file.length - next.toNat < fuel := by omega
          obtain ⟨s', handed, hloop, hfed, hloaded⟩ := ih hless hbehind.2 (env.processBlock s block).2
          refine ⟨s', ⟨q, ofBytes ((file.drop (q + 4)).take 4), block, (env.processBlock s block).1⟩ :: handed, ?_,
            ⟨rfl, hfed⟩, hloaded.cons hq hleast ⟨hmeant, hread⟩ hnext⟩
          dsimp only
          rw [← hdef, hloop, MESSAGE_START_SIZE, Nat.add_sub_cancel, Option.map_some]
      · rw [if_neg hsize]
        have hless : file.length - r.toNat < fuel := by omega
        obtain ⟨s', handed, hloop, hfed, hloaded⟩ := ih hless (by omega) s
        rw [hr] at hloaded
        refine ⟨s', handed, hloop, hfed, hloaded.pass hq hleast hoccurs fun nSize hmeant => ?_⟩
        exact hsize (hmeant.2.2.1 ▸ hmeant.2.2.2)
    · rw [heq]
      dsimp only
      rw [if_pos rfl]
      refine ⟨s, [], rfl, rfl, .nil fun p nSize block hp hstarts => ?_⟩
      exact absurd (hnone p hp hstarts.1.1) (Nat.not_le.2 hstarts.lt_length)

variable (env) in
/-- **The load ends, and hands over every block of the file in order**, none twice, but for those inside a block that
has been accepted, and those behind bytes that are taken for a block and cannot be read. -/
theorem loadExternalBlockFile_spec (hfile : file.length + MAX_BLOCK_SIZE + 4 < 2 ^ 32 - 1) (s : S) :
    ∃ s' handed, env.loadExternalBlockFile file s = some (handed.any Handed.accepted, s', handed) ∧
      env.Fed s handed s' ∧
      (handed.Pairwise fun h h' => h.pos < h'.pos ∧ (h.accepted = true → h.pos + 8 + h.nSize ≤ h'.pos)) ∧
      (∀ h ∈ handed, env.StartsAt file h.pos h.nSize h.block) ∧
      ∀ p nSize block, env.StartsAt file p nSize block →
        (∃ accepted, ⟨p, nSize, block, accepted⟩ ∈ handed) ∨ Inside handed p ∨ ∃ q < p, env.EndsAt file handed q := by
  have hfuel : file.length - (0 : UInt32).toNat < file.length + 1 := Nat.lt_succ_of_le (Nat.sub_le _ _)
  obtain ⟨s', handed, hloop, hfed, hloaded⟩ := loadLoop_loaded env hfile hfuel (by decide) s
  refine ⟨s', handed, ?_, hfed, hloaded.ordered, hloaded.starts, fun p nSize block hstarts => ?_⟩
  · rw [loadExternalBlockFile, hloop]
    rfl
  · rcases hloaded.complete p nSize block (Nat.zero_le p) hstarts with hmem | hinside | ⟨q, -, hlt, hends⟩
    · exact .inl hmem
    · exact .inr (.inl hinside)
    · exact .inr (.inr ⟨q, hlt, hends⟩)

end BlockFileEnv

namespace ExternalSample

open BlockFileEnv

/-- A block is a byte with a one behind it. Every block is accepted, and counted. -/
def env : BlockFileEnv UInt8 ℕ where
  params := CChainParams.main
  readBlock bytes := if bytes[1]? = some 1 then bytes[0]? else none
  readBlock_nil := by decide
  processBlock s _ := (true, s + 1)

/-- A message with a block of two bytes. -/
def message (b b' : UInt8) : List UInt8 := [0xcf, 0x2a, 0xd3, 0x8e, 2, 0, 0, 0, b, b']

theorem second_starts (b : UInt8) : env.StartsAt (message 7 b ++ message 8 1) 10 2 8 :=
  ⟨⟨rfl, show 18 ≤ 20 by decide, rfl, by decide, by decide⟩, rfl⟩

/-- The second block is handed over, if nothing ends the load before. -/
theorem second_handed : ∃ s' handed,
    env.loadExternalBlockFile (message 7 1 ++ message 8 1) 0 = some (handed.any Handed.accepted, s', handed) ∧
      env.Fed 0 handed s' ∧ ((∃ accepted, ⟨10, 2, 8, accepted⟩ ∈ handed) ∨ Inside handed 10 ∨
        ∃ q < 10, env.EndsAt (message 7 1 ++ message 8 1) handed q) := by
  have hfile : (message 7 1 ++ message 8 1).length + MAX_BLOCK_SIZE + 4 < 2 ^ 32 - 1 := by decide
  obtain ⟨s', handed, hload, hfed, -, -, hcomplete⟩ := loadExternalBlockFile_spec env hfile 0
  exact ⟨s', handed, hload, hfed, hcomplete 10 2 8 (second_starts 1)⟩

/-- **The second block is not handed over**, since what is behind the first start cannot be read. -/
theorem unreadable_ends : env.loadExternalBlockFile (message 7 0 ++ message 8 1) 0 = some (false, 0, []) ∧
    env.StartsAt (message 7 0 ++ message 8 1) 10 2 8 :=
  ⟨by decide, second_starts 0⟩

end ExternalSample

end PayDayCoin
