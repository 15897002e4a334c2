import Mathlib.Tactic.Common

/-!
# Packet buffers and their headers

A packet lies in a buffer with room before its data. Headers are put in front by
moving the start of the data into that room, where whatever stood there shows
through until it is written, and taken off by moving the start the other way. A
layout says how a record lies over the bytes.
-/

structure Layout (α β : Type*) where
  size : ℕ
  encode : β → Vector α size
  decode : Vector α size → β
  decode_encode : ∀ b, decode (encode b) = b

structure PacketBuffer (α : Type*) where
  headroom : List α
  data : List α
  behind : ℕ → α

namespace PacketBuffer

variable {α β : Type*}

def pull (n : ℕ) (b : PacketBuffer α) : Option (PacketBuffer α) :=
  if n ≤ b.data.length then
    some { b with headroom := b.headroom ++ b.data.take n, data := b.data.drop n }
  else none

def push (n : ℕ) (b : PacketBuffer α) : Option (PacketBuffer α) :=
  if n ≤ b.headroom.length then
    some { b with
      headroom := b.headroom.take (b.headroom.length - n)
      data := b.headroom.drop (b.headroom.length - n) ++ b.data }
  else none

/-- The first `n` bytes from the start of the data on, also those behind it. -/
def peek (n : ℕ) (b : PacketBuffer α) : Vector α n :=
  Vector.ofFn fun i => b.data.getD i (b.behind (i - b.data.length))

def header (L : Layout α β) (b : PacketBuffer α) : β := L.decode (b.peek L.size)

def setHeader (L : Layout α β) (h : β) (b : PacketBuffer α) : PacketBuffer α :=
  { b with data := (L.encode h).toList ++ b.data.drop L.size }

variable {b : PacketBuffer α} {L : Layout α β} {n : ℕ} {l rest : List α}

theorem pull_append (h : b.data = l ++ rest) (hl : l.length = n) :
    ∃ b', b.pull n = some b' ∧ b'.data = rest ∧ b'.headroom = b.headroom ++ l := by
  subst hl
  refine ⟨{ b with headroom := b.headroom ++ l, data := rest }, ?_, rfl, rfl⟩
  simp [pull, h]

theorem peek_append {v : Vector α n} (h : b.data = v.toList ++ rest) : b.peek n = v := by
  apply Vector.ext
  intro i hi
  simp [peek, h, List.getElem?_append_left]

theorem header_of_data {h : β} (hdata : b.data = (L.encode h).toList ++ rest) :
    b.header L = h := by
  rw [header, peek_append hdata, L.decode_encode]

theorem pull_header {h : β} (hdata : b.data = (L.encode h).toList ++ rest) :
    ∃ b', b.pull L.size = some b' ∧ b'.data = rest ∧
      b'.headroom = b.headroom ++ (L.encode h).toList :=
  pull_append hdata Vector.length_toList

theorem push_of_room (h : n ≤ b.headroom.length) : ∃ b' old, b.push n = some b' ∧
    b'.data = old ++ b.data ∧ old.length = n ∧ b'.headroom.length + n = b.headroom.length := by
  refine ⟨_, b.headroom.drop (b.headroom.length - n), if_pos h, rfl, ?_, ?_⟩
  · rw [List.length_drop]
    omega
  · rw [List.length_take]
    omega

@[simp] theorem headroom_setHeader {h : β} : (b.setHeader L h).headroom = b.headroom := rfl

theorem setHeader_data {h : β} (hdata : b.data = l ++ rest) (hl : l.length = L.size) :
    (b.setHeader L h).data = (L.encode h).toList ++ rest := by
  simp [setHeader, hdata, ← hl]

end PacketBuffer
