import Mathlib.Data.List.Basic

/-!
# Frames in a stream

A stream of frames, each a header of a fixed size that says how long the data is that follow. A receiver takes the
stream one symbol at a time, and refuses it for good at a header that does not parse. What it makes of a stream does not
depend on how the stream is cut, as taking is a fold (`feed_append`). The rules say what it makes of several symbols
at once, up to the end of a header (**`feed_header`**) or of the data (**`feed_data`**), and so of whole frames
(**`feed_frames`**).
-/

namespace Library.Framing

variable {β η : Type*}

/-- How a frame is laid out. -/
structure Layout (β η : Type*) where
  headerSize : ℕ
  headerSize_pos : 0 < headerSize
  /-- The header that these symbols are, unless it is refused. -/
  parse : List β → Option η
  /-- The size of the data. -/
  size : η → ℕ

/-- The part of a frame that is there. -/
inductive Part (β η : Type*) where
  | header (bytes : List β)
  | data (hdr : η) (bytes : List β)

/-- A receiver: the frames that are complete, and the start of the next one. -/
structure Receiver (β η : Type*) where
  frames : List (η × List β) := []
  part : Part β η := .header []
  refused : Bool := false

variable (L : Layout β η)

/-- The data of a frame, as far as they are there. -/
def Receiver.settle (r : Receiver β η) (hdr : η) (bytes : List β) : Receiver β η :=
  if bytes.length < L.size hdr then { r with part := .data hdr bytes }
  else { r with frames := r.frames ++ [(hdr, bytes)], part := .header [] }

/-- The header of a frame, as far as it is there. -/
def Receiver.start (r : Receiver β η) (bytes : List β) : Receiver β η :=
  if bytes.length < L.headerSize then { r with part := .header bytes }
  else
    match L.parse bytes with
    | none => { r with part := .header bytes, refused := true }
    | some hdr => r.settle L hdr []

/-- A symbol is taken. -/
def absorb (r : Receiver β η) (b : β) : Receiver β η :=
  if r.refused then r
  else
    match r.part with
    | .header bytes => r.start L (bytes ++ [b])
    | .data hdr bytes => r.settle L hdr (bytes ++ [b])

/-- Symbols are taken, in order. -/
def feed (r : Receiver β η) (bytes : List β) : Receiver β η := bytes.foldl (absorb L) r

variable {L} {r : Receiver β η} {hdr : η} {taken bytes : List β}

@[simp] theorem feed_nil : feed L r [] = r := rfl

theorem feed_append (s t : List β) : feed L r (s ++ t) = feed L (feed L r s) t := List.foldl_append

theorem feed_refused (h : r.refused = true) : feed L r bytes = r := by
  induction bytes with
  | nil => rfl
  | cons b bytes ih => rwa [feed, List.foldl_cons, absorb, if_pos h]

theorem settle_of_lt (h : bytes.length < L.size hdr) : r.settle L hdr bytes = { r with part := .data hdr bytes } :=
  if_pos h

@[simp] theorem settle_refused : (r.settle L hdr bytes).refused = r.refused := by
  rw [Receiver.settle]
  split <;> rfl

theorem start_of_lt (h : bytes.length < L.headerSize) : r.start L bytes = { r with part := .header bytes } := if_pos h

/-- Symbols up to the end of the data. -/
theorem feed_data (hok : r.refused = false) (hpart : r.part = .data hdr taken) (hlt : taken.length < L.size hdr)
    (hle : taken.length + bytes.length ≤ L.size hdr) : feed L r bytes = r.settle L hdr (taken ++ bytes) := by
  induction bytes generalizing r taken with
  | nil =>
    rw [List.append_nil, settle_of_lt hlt, ← hpart]
    rfl
  | cons b bytes ih =>
    have hstep : feed L r (b :: bytes) = feed L (r.settle L hdr (taken ++ [b])) bytes := by
      simp [feed, absorb, hok, hpart]
    rw [hstep]
    cases bytes with
    | nil => rfl
    | cons b' bytes =>
      rw [List.length_cons] at hle
      have hlt' : (taken ++ [b]).length < L.size hdr := by
        rw [List.length_append, List.length_singleton]
        rw [List.length_cons] at hle
        omega
      rw [settle_of_lt hlt', ih (r := { r with part := .data hdr (taken ++ [b]) }) hok rfl hlt' (by simp at hle ⊢; omega),
        List.append_assoc, List.singleton_append]
      rfl

/-- Symbols up to the end of the header. -/
theorem feed_header (hok : r.refused = false) (hpart : r.part = .header taken) (hlt : taken.length < L.headerSize)
    (hle : taken.length + bytes.length ≤ L.headerSize) : feed L r bytes = r.start L (taken ++ bytes) := by
  induction bytes generalizing r taken with
  | nil =>
    rw [List.append_nil, start_of_lt hlt, ← hpart]
    rfl
  | cons b bytes ih =>
    have hstep : feed L r (b :: bytes) = feed L (r.start L (taken ++ [b])) bytes := by
      simp [feed, absorb, hok, hpart]
    rw [hstep]
    cases bytes with
    | nil => rfl
    | cons b' bytes =>
      rw [List.length_cons] at hle
      have hlt' : (taken ++ [b]).length < L.headerSize := by
        rw [List.length_append, List.length_singleton]
        rw [List.length_cons] at hle
        omega
      rw [start_of_lt hlt', ih (r := { r with part := .header (taken ++ [b]) }) hok rfl hlt' (by simp at hle ⊢; omega),
        List.append_assoc, List.singleton_append]
      rfl

/-- A whole frame. -/
theorem feed_frame (hok : r.refused = false) (hpart : r.part = .header []) {head data : List β}
    (hhead : head.length = L.headerSize) (hparse : L.parse head = some hdr) (hdata : data.length = L.size hdr) :
    feed L r (head ++ data) = { r with frames := r.frames ++ [(hdr, data)] } := by
  rw [feed_append, feed_header hok hpart L.headerSize_pos (by simp [hhead]), List.nil_append, Receiver.start,
    if_neg (by omega)]
  simp only [hparse]
  rw [Receiver.settle]
  split
  · next hlt =>
    rw [feed_data (r := { r with part := .data hdr [] }) hok rfl hlt (by simp [hdata]), List.nil_append,
      Receiver.settle, if_neg (by omega), ← hpart]
  · next hnot =>
    obtain rfl : data = [] := List.eq_nil_of_length_eq_zero (by simp at hnot; omega)
    rw [feed_nil, ← hpart]

/-- Whole frames, one after the other. -/
theorem feed_frames {α : Type*} {head data : α → List β} {hdr : α → η} {messages : List α}
    (hframe : ∀ m ∈ messages, (head m).length = L.headerSize ∧ L.parse (head m) = some (hdr m) ∧
      (data m).length = L.size (hdr m)) {r : Receiver β η} (hok : r.refused = false) (hpart : r.part = .header []) :
    feed L r (messages.flatMap fun m => head m ++ data m) =
      { r with frames := r.frames ++ messages.map fun m => (hdr m, data m) } := by
  induction messages generalizing r with
  | nil => simp
  | cons m messages ih =>
    obtain ⟨hhead, hparse, hdata⟩ := hframe m List.mem_cons_self
    rw [List.flatMap_cons, feed_append, feed_frame hok hpart hhead hparse hdata,
      ih (fun m' hm' => hframe m' (List.mem_cons_of_mem m hm'))
        (r := { r with frames := r.frames ++ [(hdr m, data m)] }) hok hpart]
    simp

end Library.Framing
