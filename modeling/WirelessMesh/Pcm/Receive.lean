import WirelessMesh.Lib.Lists
import WirelessMesh.Lib.Runs
import WirelessMesh.Pcm.Channel

/-!
# The receive ring as a stream

One process reads a channel while receive interrupts come in at any point between its
test, its copy and its release. As long as each read asks for a block at least, what the
process gets is the stream of the bytes that found a block to go to, block by block. The
count of a read is cut to its low 16 bits, so that a large request may ask for less than a
block: then the rest of the block is lost.
-/

namespace WirelessMesh
namespace Pcm

open Machine

inductive Reader where
  | idle
  | tested (count : ℕ)
  | copied (data : List Byte)
deriving DecidableEq

/-- The channel and its reader, the bytes that came in, the same bytes with the value of
`inreadbuf` that each of them met, and what the calls have returned. -/
structure RxState where
  chan : Buffers
  reader : Reader
  arrived : List Byte
  received : List (Byte × Option ℕ)
  returned : List (List Byte)

def RxState.start (blocksize : ℕ) (memory : ℕ → ℕ → Byte) : RxState :=
  ⟨.fresh blocksize memory, .idle, [], [], []⟩

inductive RxEvent where
  | interrupt (rxb : Vector Byte asChunksize)
  | read (count : ℕ)
  | copy (fault : Bool)
  | release

/-- One step. A step that is not the next one of the process is refused. -/
def rxStep (blocksize numbufs : ℕ) : RxEvent → RxState → Option RxState
  | .interrupt rxb, s => do
      let (chan, log) ← channelInPutbufChunk blocksize numbufs s.chan rxb
      return { s with
        chan, arrived := s.arrived ++ rxb.toList, received := s.received ++ log }
  | .read count, s =>
      match s.reader with
      | .idle =>
          match channelReadTest s.chan count with
          | .error _ => some s
          | .ok count => some { s with reader := .tested count }
      | _ => none
  | .copy fault, s =>
      match s.reader with
      | .tested count => do
          let data ← channelReadCopy s.chan count
          return { s with reader := if fault then .idle else .copied data }
      | _ => none
  | .release, s =>
      match s.reader with
      | .copied data => do
          let chan ← channelReadRelease numbufs s.chan
          return { s with chan, reader := .idle, returned := s.returned ++ [data] }
      | _ => none

def AsksForBlock (blocksize : ℕ) : RxEvent → RxState → Prop
  | .read count, _ => count % 2 ^ 16 = 0 ∨ blocksize ≤ count % 2 ^ 16
  | _, _ => True

structure FaithfulRx (blocksize numbufs : ℕ) (s : RxState) : Prop where
  heard : s.received.map Prod.fst = s.arrived
  /-- the blocks returned are the beginning of what found a place -/
  stream : s.returned.flatten <+: inBlocks s.received
  whole : ∀ data ∈ s.returned, data.length = blocksize
  /-- a full block that was not returned is found by the test -/
  ready : (s.returned.length + 1) * blocksize ≤ (inBlocks s.received).length →
    ∀ count, 0 < count % 2 ^ 16 → (channelReadTest s.chan count).isOk
  /-- no interrupt writes to the block between test and release -/
  apart : s.reader ≠ .idle → ∃ out, s.chan.ring.drain = some out ∧
    ∀ rxb chan log, channelInPutbufChunk blocksize numbufs s.chan rxb = some (chan, log) →
      ∀ x i, (x, some i) ∈ log → i ≠ out
  /-- interrupts come to an end, and the process finds its block -/
  interrupts : ∀ rxb, (rxStep blocksize numbufs (.interrupt rxb) s).isSome
  copies : ∀ count, s.reader = .tested count → (channelReadCopy s.chan count).isSome
  releases : ∀ data, s.reader = .copied data → (channelReadRelease numbufs s.chan).isSome

/-! ## The blocks of a channel -/

def partialBytes (ms : Buffers) : List Byte :=
  match ms.ring.fill with
  | none => []
  | some i => (ms.blocks i).buf.take (ms.blocks i).idx

/-- The published blocks are full and the one being filled is not. -/
structure Filling (blocksize numbufs : ℕ) (ms : Buffers) (o : ℕ) (q : List Block) : Prop where
  queued : RingIndex.Queued numbufs (fun blk => blk.idx = 0) ms.ring ms.blocks o q
  length : ∀ x, (ms.blocks x).buf.length = blocksize
  full : ∀ blk ∈ q, blk.count = blocksize ∧ blk.buf.length = blocksize
  partly : ∀ i, ms.ring.fill = some i → (ms.blocks i).idx < blocksize

def heldBytes (ms : Buffers) (q : List Block) : List Byte :=
  (q.map Block.buf).flatten ++ partialBytes ms

section Filling

variable {blocksize numbufs : ℕ} {ms : Buffers} {o i : ℕ} {q : List Block}

theorem filling_fresh (hb : 0 < blocksize) (hn : 2 ≤ numbufs) (memory : ℕ → ℕ → Byte) :
    Filling blocksize numbufs (.fresh blocksize memory) 0 [] where
  queued := .empty (by omega) fun _ => rfl
  length := by simp [Buffers.fresh]
  full := by simp
  partly := by simpa [Buffers.fresh] using hb

def Block.filled (blk : Block) (bytes : List Byte) : Block :=
  { blk with buf := overwrite blk.buf blk.idx bytes, idx := blk.idx + bytes.length }

theorem Filling.room (h : Filling blocksize numbufs ms o q) (hfill : ms.ring.fill = some i)
    {bytes : List Byte} (hle : (ms.blocks i).idx + bytes.length ≤ blocksize) :
    ((ms.blocks i).filled bytes).buf.length = blocksize ∧
      ((ms.blocks i).filled bytes).buf.take ((ms.blocks i).idx + bytes.length) =
        partialBytes ms ++ bytes := by
  have hlen := h.length i
  constructor
  · rw [Block.filled, length_overwrite (by omega), hlen]
  · simp only [Block.filled, partialBytes, hfill]
    exact take_overwrite (by omega)

theorem Filling.extend (h : Filling blocksize numbufs ms o q) (hfill : ms.ring.fill = some i)
    {bytes : List Byte} (hlt : (ms.blocks i).idx + bytes.length < blocksize) :
    let ms' := { ms with blocks := Function.update ms.blocks i ((ms.blocks i).filled bytes) }
    Filling blocksize numbufs ms' o q ∧ heldBytes ms' q = heldBytes ms q ++ bytes := by
  obtain ⟨hlen, htake⟩ := h.room hfill hlt.le
  refine ⟨⟨h.queued.write hfill, ?_, h.full, ?_⟩, ?_⟩
  · intro x
    by_cases hx : x = i
    · subst hx
      simpa using hlen
    · simpa [hx] using h.length x
  · intro j hj
    obtain rfl := Option.some.inj (hfill.symm.trans hj)
    simpa [Block.filled] using hlt
  · rw [heldBytes, heldBytes, List.append_assoc, ← htake]
    simp [partialBytes, hfill, Block.filled]

theorem Filling.complete (h : Filling blocksize numbufs ms o q) (hn : 2 ≤ numbufs)
    (hb : 0 < blocksize) (hfill : ms.ring.fill = some i) {bytes : List Byte}
    (heq : (ms.blocks i).idx + bytes.length = blocksize) :
    let blk := { (ms.blocks i).filled bytes with count := blocksize }
    let ms' : Buffers := ⟨Function.update ms.blocks i blk, ms.ring.publish numbufs⟩
    Filling blocksize numbufs ms' o (q ++ [blk]) ∧
      heldBytes ms' (q ++ [blk]) = heldBytes ms q ++ bytes := by
  obtain ⟨hlen, htake⟩ := h.room hfill heq.le
  intro blk ms'
  obtain ⟨hqueued, hidle⟩ := (h.queued.write (y := blk) hfill).publish hn hfill
  rw [Function.update_self] at hqueued
  refine ⟨⟨hqueued, ?_, ?_, ?_⟩, ?_⟩
  · intro x
    by_cases hx : x = i
    · subst hx
      simpa [ms', blk] using hlen
    · simpa [ms', hx] using h.length x
  · intro blk' hmem
    rcases List.mem_append.mp hmem with hold | hnew
    · exact h.full blk' hold
    · obtain rfl := List.mem_singleton.mp hnew
      exact ⟨rfl, hlen⟩
  · intro j hj
    rw [hidle j hj]
    exact hb
  · have hpart : partialBytes ms' = [] := by
      unfold partialBytes
      cases hj : ms'.ring.fill with
      | none => rfl
      | some j =>
          have := hidle j hj
          simp [ms', this]
    rw [heq, List.take_of_length_le hlen.le] at htake
    simp [heldBytes, hpart, blk, htake]

structure Put (blocksize numbufs : ℕ) (ms : Buffers) (o : ℕ) (q : List Block) (rxb : List Byte)
    (ms' : Buffers) (log : List (Byte × Option ℕ)) (q' : List Block) : Prop where
  filling : Filling blocksize numbufs ms' o (q ++ q')
  held : heldBytes ms' (q ++ q') = heldBytes ms q ++ inBlocks log
  bytes : log.map Prod.fst = rxb
  apart : q ≠ [] → ∀ x i, (x, some i) ∈ log → i ≠ o

theorem Put.dropped (h : Filling blocksize numbufs ms o q) (rxb : List Byte) :
    Put blocksize numbufs ms o q rxb ms (rxb.map fun x => (x, none)) [] where
  filling := by simpa using h
  held := by rw [inBlocks_none, List.append_nil, List.append_nil]
  bytes := by
    rw [List.map_map]
    exact List.map_id _
  apart := by simp

theorem Put.then {ms₁ ms₂ : Buffers} {rxb₁ rxb₂ : List Byte} {log₁ log₂ : List (Byte × Option ℕ)}
    {q₁ q₂ : List Block} (h₁ : Put blocksize numbufs ms o q rxb₁ ms₁ log₁ q₁)
    (h₂ : Put blocksize numbufs ms₁ o (q ++ q₁) rxb₂ ms₂ log₂ q₂) :
    Put blocksize numbufs ms o q (rxb₁ ++ rxb₂) ms₂ (log₁ ++ log₂) (q₁ ++ q₂) where
  filling := by simpa using h₂.filling
  held := by
    have := h₂.held
    rw [h₁.held] at this
    simpa using this
  bytes := by rw [List.map_append, h₁.bytes, h₂.bytes]
  apart := by
    intro hq x i hmem
    rcases List.mem_append.mp hmem with hmem | hmem
    · exact h₁.apart hq x i hmem
    · exact h₂.apart (by simp [hq]) x i hmem

def putRound (blocksize numbufs : ℕ) (ms : Buffers) (i : ℕ) (bytes : List Byte) : Buffers :=
  if blocksize ≤ (ms.blocks i).idx + bytes.length then
    { blocks := Function.update ms.blocks i
        { (ms.blocks i).filled bytes with count := (ms.blocks i).idx + bytes.length }
      ring := ms.ring.publish numbufs }
  else { ms with blocks := Function.update ms.blocks i ((ms.blocks i).filled bytes) }

theorem putbufLoop_succ (numbufs fuel : ℕ) {rxb : List Byte} {left : ℕ}
    (hfill : ms.ring.fill = some i) (hrxb : rxb ≠ [])
    (hleft : min (blocksize - (ms.blocks i).idx) rxb.length = left)
    (htake : (rxb.take left).length = left) :
    channelInPutbufLoop blocksize numbufs (fuel + 1) ms rxb =
      (channelInPutbufLoop blocksize numbufs fuel
        (putRound blocksize numbufs ms i (rxb.take left)) (rxb.drop left)).map
          fun r => (r.1, (rxb.take left).map (·, some i) ++ r.2) := by
  cases rxb with
  | nil => exact absurd rfl hrxb
  | cons x rxb =>
      rw [channelInPutbufLoop, hfill]
      · dsimp only
        rw [hleft, putRound, Block.filled, htake]
        cases channelInPutbufLoop blocksize numbufs fuel _ ((x :: rxb).drop left) <;> rfl
      · exact hrxb

theorem putbufLoop_round (hb : 0 < blocksize) (hn : 2 ≤ numbufs)
    (h : Filling blocksize numbufs ms o q) (hfill : ms.ring.fill = some i) {rxb : List Byte}
    (hrxb : rxb ≠ []) : ∃ left ms₁ q₁, 0 < left ∧
      Put blocksize numbufs ms o q (rxb.take left) ms₁ ((rxb.take left).map (·, some i)) q₁ ∧
      ∀ fuel, channelInPutbufLoop blocksize numbufs (fuel + 1) ms rxb =
        (channelInPutbufLoop blocksize numbufs fuel ms₁ (rxb.drop left)).map
          fun r => (r.1, (rxb.take left).map (·, some i) ++ r.2) := by
  have hpart := h.partly i hfill
  have hpos : 0 < rxb.length := List.length_pos_iff.mpr hrxb
  generalize hleft : min (blocksize - (ms.blocks i).idx) rxb.length = left
  have htake : (rxb.take left).length = left := List.length_take_of_le (by omega)
  have hapart : q ≠ [] → ∀ x j, (x, some j) ∈ (rxb.take left).map (·, some i) → j ≠ o := by
    intro hq x j hmem
    obtain ⟨_, _, heq⟩ := List.mem_map.mp hmem
    obtain rfl := Option.some.inj (Prod.mk.inj heq).2
    obtain ⟨blk, q', rfl⟩ := List.exists_cons_of_ne_nil hq
    exact h.queued.fill_ne_start hfill
  have hbytes : ((rxb.take left).map (·, some i)).map Prod.fst = rxb.take left := by
    rw [List.map_map]
    exact List.map_id _
  refine ⟨left, putRound blocksize numbufs ms i (rxb.take left), ?_⟩
  have hloop := fun fuel => putbufLoop_succ numbufs fuel hfill hrxb hleft htake
  by_cases heof : blocksize ≤ (ms.blocks i).idx + (rxb.take left).length
  · have hidx : (ms.blocks i).idx + (rxb.take left).length = blocksize := by omega
    obtain ⟨hfilling, hheld⟩ := h.complete hn hb hfill hidx
    refine ⟨[{ (ms.blocks i).filled (rxb.take left) with count := blocksize }], by omega,
      ⟨?_, ?_, hbytes, hapart⟩, hloop⟩
    · rw [putRound, if_pos heof, hidx]
      exact hfilling
    · rw [putRound, if_pos heof, hidx, inBlocks_some]
      exact hheld
  · obtain ⟨hfilling, hheld⟩ := h.extend hfill (Nat.not_le.mp heof)
    refine ⟨[], by omega, ⟨?_, ?_, hbytes, hapart⟩, hloop⟩
    · rw [putRound, if_neg heof, List.append_nil]
      exact hfilling
    · rw [putRound, if_neg heof, List.append_nil, inBlocks_some]
      exact hheld

/-- The loop comes to its end, and what it took is in the blocks behind what was there. -/
theorem putbufLoop_spec (hb : 0 < blocksize) (hn : 2 ≤ numbufs) {fuel : ℕ} {rxb : List Byte}
    (h : Filling blocksize numbufs ms o q) (hfuel : rxb.length ≤ fuel) :
    ∃ ms' log q', channelInPutbufLoop blocksize numbufs fuel ms rxb = some (ms', log) ∧
      Put blocksize numbufs ms o q rxb ms' log q' := by
  induction fuel generalizing ms q rxb with
  | zero =>
      obtain rfl := List.eq_nil_of_length_eq_zero (Nat.le_zero.mp hfuel)
      exact ⟨ms, [], [], rfl, .dropped h []⟩
  | succ fuel ih =>
      by_cases hrxb : rxb = []
      · subst hrxb
        exact ⟨ms, [], [], rfl, .dropped h []⟩
      · cases hfill : ms.ring.fill with
        | none =>
            refine ⟨ms, _, [], ?_, .dropped h rxb⟩
            rw [channelInPutbufLoop, hfill]
            exact hrxb
        | some i =>
            obtain ⟨left, ms₁, q₁, hpos, hput, hloop⟩ := putbufLoop_round hb hn h hfill hrxb
            have hlen : (rxb.drop left).length ≤ fuel := by
              rw [List.length_drop]
              omega
            obtain ⟨ms₂, log₂, q₂, hrest, hput₂⟩ := ih hput.filling hlen
            refine ⟨ms₂, _, q₁ ++ q₂, by rw [hloop, hrest, Option.map_some], ?_⟩
            have := hput.then hput₂
            rwa [List.take_append_drop] at this

theorem length_partialBytes (h : Filling blocksize numbufs ms o q) (hb : 0 < blocksize) :
    (partialBytes ms).length < blocksize := by
  unfold partialBytes
  cases hfill : ms.ring.fill with
  | none => exact hb
  | some i =>
      have := h.partly i hfill
      rw [List.length_take]
      omega

theorem Filling.release {blk : Block} (h : Filling blocksize numbufs ms o (blk :: q))
    (hb : 0 < blocksize) (hn : 2 ≤ numbufs) : ∃ ms', channelReadRelease numbufs ms = some ms' ∧
      Filling blocksize numbufs ms' ((o + 1) % numbufs) q ∧
      heldBytes ms (blk :: q) = blk.buf ++ heldBytes ms' q := by
  have hdrain : ms.ring.drain = some o := by
    rw [h.queued.drain_eq]
    rfl
  generalize hempty : { ms.blocks o with count := 0, idx := 0 } = empty
  have hidle : empty.idx = 0 := by rw [← hempty]
  obtain ⟨hqueued, hfill⟩ := h.queued.release hn hidle
  refine ⟨⟨Function.update ms.blocks o empty, ms.ring.release numbufs⟩, ?_, ⟨hqueued, ?_, ?_, ?_⟩,
    ?_⟩
  · simp [channelReadRelease, hdrain, ← hempty]
  · intro x
    by_cases hx : x = o
    · subst hx
      simpa [← hempty] using h.length x
    · simpa [hx] using h.length x
  · intro blk' hmem
    exact h.full blk' (List.mem_cons_of_mem _ hmem)
  · intro i hi
    rcases hfill i hi with ⟨hold, hne⟩ | ⟨_, rfl⟩
    · simpa [hne] using h.partly i hold
    · simpa [hidle] using hb
  · have hpart : partialBytes ⟨Function.update ms.blocks o empty, ms.ring.release numbufs⟩ =
        partialBytes ms := by
      unfold partialBytes
      cases hold : ms.ring.fill with
      | none =>
          have hnew : (ms.ring.release numbufs).fill = some o := by
            simp [RingIndex.release, hdrain, hold]
          simp [hnew, hidle]
      | some i =>
          have hnew : (ms.ring.release numbufs).fill = some i := by
            simp [RingIndex.release, hdrain, hold]
          simp [hnew, h.queued.fill_ne_start hold]
    simp [heldBytes, hpart]

end Filling

/-! ## Runs -/

/-- What holds in every state of a run: what came in and found a place was returned or is
in the blocks, and the reader is at the first of them. -/
structure RxInv (blocksize numbufs : ℕ) (s : RxState) (o : ℕ) (q : List Block) : Prop where
  filling : Filling blocksize numbufs s.chan o q
  heard : s.received.map Prod.fst = s.arrived
  stream : inBlocks s.received = s.returned.flatten ++ heldBytes s.chan q
  whole : ∀ data ∈ s.returned, data.length = blocksize
  tested : ∀ count, s.reader = .tested count → blocksize ≤ count ∧ q ≠ []
  copied : ∀ data, s.reader = .copied data → ∃ blk q', q = blk :: q' ∧ data = blk.buf

section Runs

variable {blocksize numbufs : ℕ} {s s' : RxState} {o : ℕ} {q : List Block}

theorem rxInv_start (hb : 0 < blocksize) (hn : 2 ≤ numbufs) (memory : ℕ → ℕ → Byte) :
    RxInv blocksize numbufs (.start blocksize memory) 0 [] where
  filling := filling_fresh hb hn memory
  heard := rfl
  stream := by simp [RxState.start, inBlocks, heldBytes, partialBytes, Buffers.fresh]
  whole := by simp [RxState.start]
  tested := by simp [RxState.start]
  copied := by simp [RxState.start]

theorem RxInv.interrupt (h : RxInv blocksize numbufs s o q) (hb : 0 < blocksize)
    (hn : 2 ≤ numbufs) (rxb : Vector Byte asChunksize) : ∃ chan log q',
      channelInPutbufChunk blocksize numbufs s.chan rxb = some (chan, log) ∧
      Put blocksize numbufs s.chan o q rxb.toList chan log q' :=
  putbufLoop_spec hb hn h.filling (Vector.length_toList).le

theorem RxInv.copy {count : ℕ} (h : RxInv blocksize numbufs s o q)
    (hreader : s.reader = .tested count) :
    ∃ blk q', q = blk :: q' ∧ channelReadCopy s.chan count = some blk.buf := by
  obtain ⟨hcount, hq⟩ := h.tested count hreader
  obtain ⟨blk, q', rfl⟩ := List.exists_cons_of_ne_nil hq
  have hdrain : s.chan.ring.drain = some o := by
    rw [h.filling.queued.drain_eq]
    rfl
  obtain ⟨_, _, hhead⟩ := h.filling.queued.of_drain hdrain
  obtain ⟨rfl, rfl⟩ := List.cons.inj hhead
  obtain ⟨hfull, hlen⟩ := h.filling.full _ List.mem_cons_self
  refine ⟨_, _, rfl, ?_⟩
  simp only [channelReadCopy, hdrain, Option.bind_eq_bind, Option.bind_some, Option.pure_def,
    Option.some.injEq, hfull]
  apply List.take_of_length_le
  rw [hlen]
  split_ifs <;> omega

theorem RxInv.step_interrupt (h : RxInv blocksize numbufs s o q) (hb : 0 < blocksize)
    (hn : 2 ≤ numbufs) {rxb : Vector Byte asChunksize}
    (hstep : rxStep blocksize numbufs (.interrupt rxb) s = some s') :
    ∃ o q, RxInv blocksize numbufs s' o q := by
  obtain ⟨chan, log, q', hchunk, hput⟩ := h.interrupt hb hn rxb
  simp only [rxStep, hchunk, Option.bind_eq_bind, Option.bind_some, Option.pure_def,
    Option.some.injEq] at hstep
  subst hstep
  refine ⟨o, q ++ q', hput.filling, ?_, ?_, h.whole, ?_, ?_⟩
  · rw [List.map_append, h.heard, hput.bytes]
  · rw [inBlocks_append, h.stream, hput.held, List.append_assoc]
  · intro count hreader
    obtain ⟨hcount, hq⟩ := h.tested count hreader
    exact ⟨hcount, by simp [hq]⟩
  · intro data hreader
    obtain ⟨blk, rest, rfl, hdata⟩ := h.copied data hreader
    exact ⟨blk, rest ++ q', rfl, hdata⟩

theorem RxInv.step_read {count : ℕ} (h : RxInv blocksize numbufs s o q)
    (hasks : AsksForBlock blocksize (.read count) s)
    (hstep : rxStep blocksize numbufs (.read count) s = some s') :
    ∃ o q, RxInv blocksize numbufs s' o q := by
  simp only [rxStep] at hstep
  cases hreader : s.reader with
  | tested => simp [hreader] at hstep
  | copied => simp [hreader] at hstep
  | idle =>
      simp only [hreader] at hstep
      cases htest : channelReadTest s.chan count with
      | error e =>
          simp only [htest, Option.some.injEq] at hstep
          subst hstep
          exact ⟨o, q, h⟩
      | ok c =>
          simp only [htest, Option.some.injEq] at hstep
          subst hstep
          simp only [channelReadTest] at htest
          split_ifs at htest with hzero hdrain
          obtain rfl := Except.ok.inj htest
          refine ⟨o, q, { h with tested := ?_, copied := by simp }⟩
          intro c hc
          obtain rfl := Reader.tested.inj hc
          refine ⟨?_, h.filling.queued.drain_isSome.mp hdrain⟩
          rcases hasks with hnone | hblock
          · omega
          · exact hblock

theorem RxInv.step_copy {fault : Bool} (h : RxInv blocksize numbufs s o q)
    (hstep : rxStep blocksize numbufs (.copy fault) s = some s') :
    ∃ o q, RxInv blocksize numbufs s' o q := by
  simp only [rxStep] at hstep
  cases hreader : s.reader with
  | idle => simp [hreader] at hstep
  | copied => simp [hreader] at hstep
  | tested count =>
      obtain ⟨blk, q', rfl, hcopy⟩ := h.copy hreader
      simp only [hreader, hcopy, Option.bind_eq_bind, Option.bind_some, Option.pure_def,
        Option.some.injEq] at hstep
      subst hstep
      refine ⟨o, _, { h with tested := ?_, copied := ?_ }⟩
      · intro c hc
        split_ifs at hc
      · intro data hdata
        split_ifs at hdata
        obtain rfl := Reader.copied.inj hdata
        exact ⟨blk, q', rfl, rfl⟩

theorem RxInv.step_release (h : RxInv blocksize numbufs s o q) (hb : 0 < blocksize)
    (hn : 2 ≤ numbufs)
    (hstep : rxStep blocksize numbufs .release s = some s') :
    ∃ o q, RxInv blocksize numbufs s' o q := by
  simp only [rxStep] at hstep
  cases hreader : s.reader with
  | idle => simp [hreader] at hstep
  | tested => simp [hreader] at hstep
  | copied data =>
      obtain ⟨blk, q', rfl, rfl⟩ := h.copied data hreader
      obtain ⟨chan, hrelease, hfilling, hheld⟩ := h.filling.release hb hn
      simp only [hreader, hrelease, Option.bind_eq_bind, Option.bind_some, Option.pure_def,
        Option.some.injEq] at hstep
      subst hstep
      refine ⟨_, q', hfilling, h.heard, ?_, ?_, by simp, by simp⟩
      · rw [h.stream, hheld]
        simp
      · intro data hdata
        rcases List.mem_append.mp hdata with hold | hnew
        · exact h.whole data hold
        · obtain rfl := List.mem_singleton.mp hnew
          exact (h.filling.full blk List.mem_cons_self).2

theorem rxInv_step (hb : 0 < blocksize) (hn : 2 ≤ numbufs) {event : RxEvent}
    (h : ∃ o q, RxInv blocksize numbufs s o q) (hasks : AsksForBlock blocksize event s)
    (hstep : rxStep blocksize numbufs event s = some s') :
    ∃ o q, RxInv blocksize numbufs s' o q := by
  obtain ⟨o, q, h⟩ := h
  cases event with
  | interrupt rxb => exact h.step_interrupt hb hn hstep
  | read count => exact h.step_read hasks hstep
  | copy fault => exact h.step_copy hstep
  | release => exact h.step_release hb hn hstep

theorem RxInv.faithful (h : RxInv blocksize numbufs s o q) (hb : 0 < blocksize)
    (hn : 2 ≤ numbufs) : FaithfulRx blocksize numbufs s where
  heard := h.heard
  stream := by
    rw [h.stream]
    exact List.prefix_append _ _
  whole := h.whole
  ready := by
    intro hfull count hcount
    have hq : q ≠ [] := by
      rintro rfl
      rw [h.stream, List.length_append, Lists.length_flatten_of_forall h.whole] at hfull
      have hpart := length_partialBytes h.filling hb
      simp only [heldBytes, List.map_nil, List.flatten_nil, List.nil_append] at hfull
      have : (s.returned.length + 1) * blocksize = s.returned.length * blocksize + blocksize :=
        Nat.succ_mul _ _
      omega
    have hdrain := h.filling.queued.drain_isSome.mpr hq
    simp only [channelReadTest, hdrain, if_true]
    rw [if_neg (by omega)]
    rfl
  apart := by
    intro hreader
    have hq : q ≠ [] := by
      cases hcase : s.reader with
      | idle => exact absurd hcase hreader
      | tested count => exact (h.tested count hcase).2
      | copied data =>
          obtain ⟨blk, q', rfl, _⟩ := h.copied data hcase
          exact List.cons_ne_nil blk q'
    refine ⟨o, ?_, ?_⟩
    · rw [h.filling.queued.drain_eq, if_neg (by simpa using hq)]
    · intro rxb chan log hchunk x i hmem
      obtain ⟨chan', log', q', hchunk', hput⟩ := h.interrupt hb hn rxb
      obtain ⟨rfl, rfl⟩ := Prod.mk.inj (Option.some.inj (hchunk.symm.trans hchunk'))
      exact hput.apart hq x i hmem
  interrupts := by
    intro rxb
    obtain ⟨chan, log, q', hchunk, _⟩ := h.interrupt hb hn rxb
    simp [rxStep, hchunk]
  copies := by
    intro count hreader
    obtain ⟨_, _, _, hcopy⟩ := h.copy hreader
    simp [hcopy]
  releases := by
    intro data hreader
    obtain ⟨blk, q', rfl, _⟩ := h.copied data hreader
    obtain ⟨chan, hrelease, _⟩ := h.filling.release hb hn
    simp [hrelease]

end Runs

/-- For every size and number of blocks, whatever was in memory, and every order of
interrupts and steps of the reader: if each read asks for a block at least, the reader gets
the stream. -/
theorem rx_faithful (blocksize numbufs : ℕ) (memory : ℕ → ℕ → Byte) (hb : 1 ≤ blocksize)
    (hn : 2 ≤ numbufs) (events : List RxEvent)
    (hasks : Throughout (rxStep blocksize numbufs) (AsksForBlock blocksize) events
      (.start blocksize memory)) {s : RxState}
    (hv : Visits (rxStep blocksize numbufs) (.start blocksize memory) events s) :
    FaithfulRx blocksize numbufs s := by
  obtain ⟨o, q, h⟩ := hv.invariant_of_throughout
    (P := fun s => ∃ o q, RxInv blocksize numbufs s o q) (rxInv_step hb hn) hasks
    ⟨0, [], rxInv_start hb hn memory⟩
  exact h.faithful hb hn

def ramp : Vector Byte asChunksize := Vector.ofFn fun i => BitVec.ofNat 8 i

def twoReads (count : ℕ) : List RxEvent :=
  [.interrupt ramp, .interrupt ramp, .read count, .copy false, .release,
   .read count, .copy false, .release]

theorem rx_faithful_two_reads : ∃ s,
    Visits (rxStep 80 2) (.start 80 fun _ _ => 0xff) (twoReads 80) s ∧
      s.returned = [ramp.toList, ramp.toList] ∧ FaithfulRx 80 2 s := by
  have hrun : (finish (rxStep 80 2) (twoReads 80) (.start 80 fun _ _ => 0xff)).any
      (fun s => decide (s.returned = [ramp.toList, ramp.toList])) = true := by
    decide +kernel
  obtain ⟨s, hv, hreturned⟩ := exists_visits hrun
  refine ⟨s, hv, hreturned, rx_faithful 80 2 (fun _ _ => 0xff) (by decide) (by decide) _ ?_ hv⟩
  apply throughout_of_forall
  simp [twoReads, AsksForBlock]

/-- Of 65537 bytes that are asked for, one is left after the cut, and one byte of each
block is returned. -/
theorem large_read_loses_bytes : ∃ s,
    Visits (rxStep 80 2) (.start 80 fun _ _ => 0xff) (twoReads 65537) s ∧
      s.returned = [[0], [0]] ∧ ¬s.returned.flatten <+: inBlocks s.received := by
  have hrun : (finish (rxStep 80 2) (twoReads 65537) (.start 80 fun _ _ => 0xff)).any
      (fun s => decide (s.returned = [[0], [0]] ∧
        ¬s.returned.flatten <+: inBlocks s.received)) = true := by
    decide +kernel
  exact exists_visits hrun

end Pcm
end WirelessMesh
