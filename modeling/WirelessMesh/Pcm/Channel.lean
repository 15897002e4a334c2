import WirelessMesh.Kernel
import WirelessMesh.Lib.BlockRing

/-!
# The channels of the PCM driver

A channel has a ring of blocks for each direction. The receive interrupt fills blocks
that a reading process drains, and a writing process fills blocks that the transmit
interrupt drains. Interrupts run under the lock of the channel; a process takes it for its
test and for its last section, and copies without it.
-/

namespace WirelessMesh
namespace Pcm

def asChunksize : ℕ := 80

/-- One block: the memory, the number of bytes (`readn` or `writen`) and the position
(`readidx` or `writeidx`). -/
structure Block where
  buf : List Byte
  count : ℕ
  idx : ℕ

/-- The blocks of one direction. `ring.fill` is `inreadbuf` or `inwritebuf`, `ring.drain` is
`outreadbuf` or `outwritebuf`, and `none` stands for -1. -/
structure Buffers where
  blocks : ℕ → Block
  ring : RingIndex

/-- The blocks as `as_channel_reallocbufs` leaves them, in memory as it was found. -/
def Buffers.fresh (size : ℕ) (memory : ℕ → ℕ → Byte) : Buffers where
  blocks x := ⟨(List.range size).map (memory x), 0, 0⟩
  ring := ⟨some 0, none⟩

/-! ## Receiving -/

def overwrite (buf : List Byte) (pos : ℕ) (bytes : List Byte) : List Byte :=
  buf.take pos ++ bytes ++ buf.drop (pos + bytes.length)

/-- The loop of `__as_io_channel_in_putbuf_chunk`. It also says for each byte what
`inreadbuf` was when it came. `none` is a loop that has not come to its end. -/
def channelInPutbufLoop (blocksize numbufs : ℕ) :
    ℕ → Buffers → List Byte → Option (Buffers × List (Byte × Option ℕ))
  | _, ms, [] => some (ms, [])
  | 0, _, _ :: _ => none
  | fuel + 1, ms, rxb =>
      match ms.ring.fill with
      | none => some (ms, rxb.map fun x => (x, none))
      | some i => do
          let blk := ms.blocks i
          let left := min (blocksize - blk.idx) rxb.length
          let blk := { blk with
            buf := overwrite blk.buf blk.idx (rxb.take left), idx := blk.idx + left }
          let ms :=
            if blocksize ≤ blk.idx then
              { blocks := Function.update ms.blocks i { blk with count := blk.idx }
                ring := ms.ring.publish numbufs }
            else { ms with blocks := Function.update ms.blocks i blk }
          let (ms, rest) ← channelInPutbufLoop blocksize numbufs fuel ms (rxb.drop left)
          return (ms, (rxb.take left).map (fun x => (x, some i)) ++ rest)

def channelInPutbufChunk (blocksize numbufs : ℕ) (ms : Buffers) (rxb : Vector Byte asChunksize) :
    Option (Buffers × List (Byte × Option ℕ)) :=
  channelInPutbufLoop blocksize numbufs asChunksize ms rxb.toList

/-- The first part of `__as_channel_read`, up to the locked test. A call that may sleep comes
back to it when it wakes up. -/
def channelReadTest (chan : Buffers) (count : ℕ) : Except ℤ ℕ :=
  let count := count % 2 ^ 16
  if count < 1 then .error (-einval)
  else if chan.ring.drain.isSome then .ok count
  else .error (-eagain)

/-- The copy to the process, of the block that `outreadbuf` points to. -/
def channelReadCopy (chan : Buffers) (count : ℕ) : Option (List Byte) := do
  let out ← chan.ring.drain
  let blk := chan.blocks out
  let amnt := if blk.count < count then blk.count else count
  return blk.buf.take amnt

def channelReadRelease (numbufs : ℕ) (chan : Buffers) : Option Buffers := do
  let out ← chan.ring.drain
  return {
    blocks := Function.update chan.blocks out { chan.blocks out with count := 0, idx := 0 }
    ring := chan.ring.release numbufs }

/-! ## Transmitting -/

/-- The loop of `__as_io_channel_out_getbuf_chunk`, for a number of bytes. It also says of
each byte which block it is from; silence is from none. -/
def channelOutGetbufLoop (numbufs : ℕ) :
    ℕ → Buffers → ℕ → Option (Buffers × List (Byte × Option ℕ))
  | _, chan, 0 => some (chan, [])
  | 0, _, _ + 1 => none
  | fuel + 1, chan, bytes =>
      match chan.ring.drain with
      | none => some (chan, List.replicate bytes (0, none))
      | some out => do
          let blk := chan.blocks out
          let left := min (blk.count - blk.idx) bytes
          let txb := (blk.buf.drop blk.idx).take left
          let blk := { blk with idx := blk.idx + left }
          let chan :=
            if blk.count ≤ blk.idx then
              { blocks := Function.update chan.blocks out { blk with count := 0, idx := 0 }
                ring := chan.ring.release numbufs }
            else { chan with blocks := Function.update chan.blocks out blk }
          let (chan, rest) ← channelOutGetbufLoop numbufs fuel chan (bytes - left)
          return (chan, txb.map (fun x => (x, some out)) ++ rest)

def channelOutGetbufChunk (numbufs : ℕ) (chan : Buffers) :
    Option (Buffers × List (Byte × Option ℕ)) :=
  channelOutGetbufLoop numbufs asChunksize chan asChunksize

/-- The first part of `__as_chan_write`, up to the locked test. -/
def chanWriteTest (chan : Buffers) (count : ℕ) : Except ℤ ℕ :=
  let count := count % 2 ^ 16
  if count < 1 then .error (-einval)
  else if chan.ring.fill.isSome then .ok count
  else .error (-eagain)

/-- The copy from the process into the block that `inwritebuf` points to, and the number
of bytes. -/
def chanWriteCopy (blocksize : ℕ) (chan : Buffers) (usrbuf : List Byte) (count : ℕ) :
    Option (ℕ × Buffers) := do
  let i ← chan.ring.fill
  let amnt := if blocksize < count then blocksize else count
  let blk := chan.blocks i
  return (amnt, { chan with
    blocks := Function.update chan.blocks i
      ⟨overwrite blk.buf 0 (usrbuf.take amnt), amnt, 0⟩ })

def chanWritePublish (numbufs : ℕ) (chan : Buffers) : Buffers :=
  { chan with ring := chan.ring.publish numbufs }

/-! ## Blocks of bytes -/

theorem take_overwrite {buf bytes : List Byte} {pos : ℕ} (h : pos ≤ buf.length) :
    (overwrite buf pos bytes).take (pos + bytes.length) = buf.take pos ++ bytes := by
  have hlen : (buf.take pos ++ bytes).length = pos + bytes.length := by
    rw [List.length_append, List.length_take_of_le h]
  rw [overwrite, ← hlen, List.take_left]

theorem length_overwrite {buf bytes : List Byte} {pos : ℕ} (h : pos + bytes.length ≤ buf.length) :
    (overwrite buf pos bytes).length = buf.length := by
  simp only [overwrite, List.length_append, List.length_take, List.length_drop]
  omega

/-- The bytes that were put into a block or taken out of one, in order. -/
def inBlocks (log : List (Byte × Option ℕ)) : List Byte :=
  (log.filter fun entry => entry.2.isSome).map Prod.fst

@[simp] theorem inBlocks_append (log log' : List (Byte × Option ℕ)) :
    inBlocks (log ++ log') = inBlocks log ++ inBlocks log' := by
  simp [inBlocks]

@[simp] theorem inBlocks_some (bytes : List Byte) (i : ℕ) :
    inBlocks (bytes.map fun x => (x, some i)) = bytes := by
  induction bytes with
  | nil => rfl
  | cons x bytes ih =>
      rw [List.map_cons, inBlocks, List.filter_cons_of_pos rfl, List.map_cons]
      exact congrArg (x :: ·) ih

@[simp] theorem inBlocks_none (bytes : List Byte) :
    inBlocks (bytes.map fun x => (x, none)) = [] := by
  simp [inBlocks]

end Pcm
end WirelessMesh
