import Mathlib.Data.List.Basic

/-!
# Codecs

A codec says how a value is written, how it is read back from the front of a stream, and what its size is, counted in
32 bits. It is lawful for the values that `Ok` holds of when reading undoes writing whatever follows
(`read_write`), when what is read is what would be written (`write_read`, so that no two inputs give the same value),
and when the size is the number of symbols written. The combinators keep the laws: one after the other
(**`Lawful.seq`**), a change of representation (**`Lawful.imap`**), a number of values behind their count
(**`Lawful.counted`**), and a run of symbols that is read in blocks (**`Lawful.run`**).
-/

namespace Library.Codecs

variable {σ α β : Type*}

/-- How values are sized, written and read. -/
structure Codec (σ α : Type*) where
  size : α → UInt32
  write : α → List σ
  /-- The value at the front of a stream, and the rest; `none` when there is none. -/
  read : List σ → Option (α × List σ)

/-- The laws of a codec. -/
structure Codec.Lawful (c : Codec σ α) (Ok : α → Prop) : Prop where
  read_write : ∀ {a}, Ok a → ∀ rest, c.read (c.write a ++ rest) = some (a, rest)
  write_read : ∀ {s a rest}, c.read s = some (a, rest) → s = c.write a ++ rest
  ok_of_read : ∀ {s a rest}, c.read s = some (a, rest) → Ok a
  size_eq : ∀ a, c.size a = UInt32.ofNat (c.write a).length

namespace Codec

/-- Of lawful values, different ones are not written alike, and none is written as the start of another. -/
theorem Lawful.write_inj {c : Codec σ α} {Ok : α → Prop} (h : c.Lawful Ok) {a b : α} (ha : Ok a) (hb : Ok b)
    {s t : List σ} (heq : c.write a ++ s = c.write b ++ t) : a = b := by
  have hread := h.read_write ha s
  rw [heq, h.read_write hb t] at hread
  exact (Prod.mk.inj (Option.some.inj hread)).1.symm

theorem Lawful.mono {c : Codec σ α} {Ok Ok' : α → Prop} (h : c.Lawful Ok) (hiff : ∀ a, Ok' a ↔ Ok a) :
    c.Lawful Ok' where
  read_write ha := h.read_write ((hiff _).1 ha)
  write_read := h.write_read
  ok_of_read hread := (hiff _).2 (h.ok_of_read hread)
  size_eq := h.size_eq

theorem Lawful.toNat_size {c : Codec σ α} {Ok : α → Prop} (h : c.Lawful Ok) (a : α) :
    (c.size a).toNat = (c.write a).length % 4294967296 := by
  rw [h.size_eq, UInt32.toNat_ofNat']

/-! ### One after the other -/

/-- A value, then another. -/
def seq (c : Codec σ α) (d : Codec σ β) : Codec σ (α × β) where
  size p := c.size p.1 + d.size p.2
  write p := c.write p.1 ++ d.write p.2
  read s := (c.read s).bind fun (a, s) => (d.read s).map fun (b, s) => ((a, b), s)

theorem read_seq_eq_some {c : Codec σ α} {d : Codec σ β} {s rest : List σ} {p : α × β} :
    (c.seq d).read s = some (p, rest) ↔ ∃ t, c.read s = some (p.1, t) ∧ d.read t = some (p.2, rest) := by
  obtain ⟨a, b⟩ := p
  simp only [seq, Option.bind_eq_some_iff, Option.map_eq_some_iff, Prod.exists, Prod.mk.injEq]
  constructor
  · rintro ⟨a', t, hc, b', r, hd, ⟨rfl, rfl⟩, rfl⟩
    exact ⟨t, hc, hd⟩
  · rintro ⟨t, hc, hd⟩
    exact ⟨a, t, hc, b, rest, hd, ⟨rfl, rfl⟩, rfl⟩

theorem Lawful.seq {c : Codec σ α} {d : Codec σ β} {P : α → Prop} {Q : β → Prop} (hc : c.Lawful P)
    (hd : d.Lawful Q) : (c.seq d).Lawful fun p => P p.1 ∧ Q p.2 where
  read_write {p} hp rest := by
    refine read_seq_eq_some.2 ⟨d.write p.2 ++ rest, ?_, hd.read_write hp.2 rest⟩
    rw [Codec.seq, List.append_assoc]
    exact hc.read_write hp.1 _
  write_read h := by
    obtain ⟨t, h1, h2⟩ := read_seq_eq_some.1 h
    rw [Codec.seq, List.append_assoc, ← hd.write_read h2]
    exact hc.write_read h1
  ok_of_read h := by
    obtain ⟨t, h1, h2⟩ := read_seq_eq_some.1 h
    exact ⟨hc.ok_of_read h1, hd.ok_of_read h2⟩
  size_eq p := by
    simp only [Codec.seq, List.length_append, UInt32.ofNat_add, hc.size_eq, hd.size_eq]

/-! ### Another representation -/

/-- A value as it is represented by another. -/
def imap (c : Codec σ α) (f : α → β) (g : β → α) : Codec σ β where
  size b := c.size (g b)
  write b := c.write (g b)
  read s := (c.read s).map fun (a, s) => (f a, s)

theorem Lawful.imap {c : Codec σ α} {P : α → Prop} (hc : c.Lawful P) {f : α → β} {g : β → α} {Q : β → Prop}
    (hQ : ∀ b, Q b → P (g b) ∧ f (g b) = b) (hP : ∀ a, P a → Q (f a) ∧ g (f a) = a) :
    (c.imap f g).Lawful Q where
  read_write {b} hb rest := by
    simp only [Codec.imap, hc.read_write (hQ b hb).1, Option.map_some, (hQ b hb).2]
  write_read h := by
    simp only [Codec.imap, Option.map_eq_some_iff, Prod.exists, Prod.mk.injEq] at h
    obtain ⟨a, t, hread, rfl, rfl⟩ := h
    simp only [Codec.imap, (hP a (hc.ok_of_read hread)).2]
    exact hc.write_read hread
  ok_of_read h := by
    simp only [Codec.imap, Option.map_eq_some_iff, Prod.exists, Prod.mk.injEq] at h
    obtain ⟨a, t, hread, rfl, rfl⟩ := h
    exact (hP a (hc.ok_of_read hread)).1
  size_eq b := hc.size_eq (g b)

/-! ### A count, then the values -/

/-- So many values. -/
def readMany (read : List σ → Option (α × List σ)) : ℕ → List σ → Option (List α × List σ)
  | 0, s => some ([], s)
  | n + 1, s => (read s).bind fun (a, s) => (readMany read n s).map fun (l, s) => (a :: l, s)

theorem readMany_succ_eq_some {read : List σ → Option (α × List σ)} {n : ℕ} {s rest : List σ} {l : List α} :
    readMany read (n + 1) s = some (l, rest) ↔
      ∃ a l' t, l = a :: l' ∧ read s = some (a, t) ∧ readMany read n t = some (l', rest) := by
  simp only [readMany, Option.bind_eq_some_iff, Option.map_eq_some_iff, Prod.exists, Prod.mk.injEq]
  constructor
  · rintro ⟨a, t, hread, l', r, hmany, rfl, rfl⟩
    exact ⟨a, l', t, rfl, hread, hmany⟩
  · rintro ⟨a, l', t, rfl, hread, hmany⟩
    exact ⟨a, t, hread, l', rest, hmany, rfl, rfl⟩

theorem Lawful.readMany_write {c : Codec σ α} {P : α → Prop} (hc : c.Lawful P) {l : List α} (hl : ∀ a ∈ l, P a)
    (rest : List σ) : readMany c.read l.length (l.flatMap c.write ++ rest) = some (l, rest) := by
  induction l with
  | nil => rfl
  | cons a l ih =>
    refine readMany_succ_eq_some.2 ⟨a, l, l.flatMap c.write ++ rest, rfl, ?_, ih fun b hb => hl b (by simp [hb])⟩
    rw [List.flatMap_cons, List.append_assoc]
    exact hc.read_write (hl a (by simp)) _

theorem Lawful.write_readMany {c : Codec σ α} {P : α → Prop} (hc : c.Lawful P) {n : ℕ} :
    ∀ {s rest : List σ} {l : List α}, readMany c.read n s = some (l, rest) →
      l.length = n ∧ (∀ a ∈ l, P a) ∧ s = l.flatMap c.write ++ rest := by
  induction n with
  | zero =>
    intro s rest l h
    obtain ⟨rfl, rfl⟩ := Prod.mk.inj (Option.some.inj h)
    simp
  | succ n ih =>
    intro s rest l h
    obtain ⟨a, l, t, rfl, hread, hmany⟩ := readMany_succ_eq_some.1 h
    obtain ⟨hlen, hok, ht⟩ := ih hmany
    refine ⟨by simp [hlen], ?_, ?_⟩
    · simpa using ⟨hc.ok_of_read hread, hok⟩
    · rw [List.flatMap_cons, List.append_assoc, ← ht]
      exact hc.write_read hread

/-- A count, then so many values. -/
def counted (k : Codec σ ℕ) (c : Codec σ α) : Codec σ (List α) where
  size l := l.foldl (fun n a => n + c.size a) (k.size l.length)
  write l := k.write l.length ++ l.flatMap c.write
  read s := (k.read s).bind fun (n, s) => readMany c.read n s

theorem Lawful.foldl_size {c : Codec σ α} {P : α → Prop} (hc : c.Lawful P) (l : List α) (n : ℕ) :
    l.foldl (fun n a => n + c.size a) (UInt32.ofNat n) = UInt32.ofNat (n + (l.flatMap c.write).length) := by
  induction l generalizing n with
  | nil => simp
  | cons a l ih =>
    rw [List.foldl_cons, hc.size_eq, ← UInt32.ofNat_add, ih]
    simp only [List.flatMap_cons, List.length_append, Nat.add_assoc]

theorem Lawful.counted {k : Codec σ ℕ} {c : Codec σ α} {K : ℕ → Prop} {P : α → Prop} (hk : k.Lawful K)
    (hc : c.Lawful P) : (counted k c).Lawful fun l => K l.length ∧ ∀ a ∈ l, P a where
  read_write {l} hl rest := by
    simp only [Codec.counted, List.append_assoc, hk.read_write hl.1, Option.bind_some]
    exact hc.readMany_write hl.2 rest
  write_read h := by
    simp only [Codec.counted, Option.bind_eq_some_iff, Prod.exists] at h
    obtain ⟨n, t, hread, hmany⟩ := h
    obtain ⟨rfl, -, ht⟩ := hc.write_readMany hmany
    rw [Codec.counted, List.append_assoc, ← ht]
    exact hk.write_read hread
  ok_of_read h := by
    simp only [Codec.counted, Option.bind_eq_some_iff, Prod.exists] at h
    obtain ⟨n, t, hread, hmany⟩ := h
    obtain ⟨rfl, hok, -⟩ := hc.write_readMany hmany
    exact ⟨hk.ok_of_read hread, hok⟩
  size_eq l := by
    simp only [Codec.counted, hk.size_eq, hc.foldl_size, List.length_append]

/-! ### Symbols -/

/-- So many symbols at once. -/
def take (n : ℕ) (s : List σ) : Option (List σ × List σ) := if s.length < n then none else some (s.take n, s.drop n)

theorem take_append {a : List σ} (rest : List σ) : take a.length (a ++ rest) = some (a, rest) := by
  simp [take]

theorem take_eq_some {n : ℕ} {s a rest : List σ} (h : take n s = some (a, rest)) : a.length = n ∧ s = a ++ rest := by
  rw [take] at h
  split at h
  · cases h
  · next hle =>
    obtain ⟨rfl, rfl⟩ := Prod.mk.inj (Option.some.inj h)
    exact ⟨by simp; omega, (List.take_append_drop n s).symm⟩

/-- So many symbols, in blocks of at most `b + 1`. -/
def readBlocks (b : ℕ) (n : ℕ) (s : List σ) : Option (List σ × List σ) :=
  if n = 0 then some ([], s)
  else (take (min n (b + 1)) s).bind fun (block, s) =>
    (readBlocks b (n - min n (b + 1)) s).map fun (l, s) => (block ++ l, s)
termination_by n

/-- Reading in blocks is reading at once. -/
theorem readBlocks_eq (b n : ℕ) (s : List σ) : readBlocks b n s = take n s := by
  induction n using Nat.strongRecOn generalizing s with
  | ind n ih =>
    rw [readBlocks]
    split
    · next h => simp [h, take]
    · next h =>
      simp only [ih (n - min n (b + 1)) (by omega), take]
      by_cases hlt : s.length < min n (b + 1)
      · rw [if_pos hlt, if_pos (by omega), Option.bind_none]
      · rw [if_neg hlt, Option.bind_some, List.length_drop]
        by_cases hn : s.length < n
        · rw [if_pos (by omega), if_pos hn, Option.map_none]
        · rw [if_neg (by omega), if_neg hn, Option.map_some, List.drop_drop, ← List.take_add,
            Nat.add_sub_cancel' (Nat.min_le_left ..)]

/-- A count, then so many symbols, read in blocks of at most `b + 1`. -/
def run (k : Codec σ ℕ) (b : ℕ) : Codec σ (List σ) where
  size l := k.size l.length + UInt32.ofNat l.length
  write l := k.write l.length ++ l
  read s := (k.read s).bind fun (n, s) => readBlocks b n s

theorem Lawful.run {k : Codec σ ℕ} {K : ℕ → Prop} (hk : k.Lawful K) (b : ℕ) :
    (run k b).Lawful fun l => K l.length where
  read_write {l} hl rest := by
    simp only [Codec.run, List.append_assoc, hk.read_write hl, Option.bind_some, readBlocks_eq, take_append]
  write_read h := by
    simp only [Codec.run, Option.bind_eq_some_iff, Prod.exists, readBlocks_eq] at h
    obtain ⟨n, t, hread, htake⟩ := h
    obtain ⟨rfl, rfl⟩ := take_eq_some htake
    rw [Codec.run, List.append_assoc]
    exact hk.write_read hread
  ok_of_read h := by
    simp only [Codec.run, Option.bind_eq_some_iff, Prod.exists, readBlocks_eq] at h
    obtain ⟨n, t, hread, htake⟩ := h
    obtain ⟨rfl, rfl⟩ := take_eq_some htake
    exact hk.ok_of_read hread
  size_eq l := by
    simp only [Codec.run, hk.size_eq, List.length_append, UInt32.ofNat_add]

end Codec

end Library.Codecs
