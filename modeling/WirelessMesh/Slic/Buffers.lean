import WirelessMesh.Slic.EventQueue

/-!
# The buffers of a telephone channel

A channel gets its buffers when its file is opened and gives them back when the file is
closed. In between a process may ask for another number of blocks or another size of them,
and may flush what is in them. The limits are tested by the requests, on C integers.
-/

namespace WirelessMesh
namespace Slic

abbrev CInt := BitVec 32

def asDefaultBlocksize : ℤ := 160
def asDefaultNumBufs : ℤ := 2
def asMaxBlocksize : ℤ := 8192
def asMaxNumBufs : ℕ := 32
def asMaxBufSpace : ℤ := 32768

def asFlushRead : CInt := 1
def asFlushWrite : CInt := 2
def asFlushEvent : CInt := 4

inductive BufPolicy
  | immediate
  | whenFull
deriving DecidableEq

/-- The buffer fields of `struct as_dev_chan`. A pointer into the memory of the channel is the
offset from its start, and `none` is `NULL`. -/
structure ChanBufs where
  isOpen : Bool
  sig : ℤ
  blocksize : ℤ
  numbufs : ℕ
  readbuf : ℕ → Option ℤ
  writebuf : ℕ → Option ℤ
  inreadbuf : ℤ
  outreadbuf : ℤ
  inwritebuf : ℤ
  outwritebuf : ℤ
  readn : ℕ → ℤ
  readidx : ℕ → ℤ
  writen : ℕ → ℤ
  writeidx : ℕ → ℤ
  txbufpolicy : BufPolicy
  rxbufpolicy : BufPolicy
  txdisable : Bool
  rxdisable : Bool
  events : EventQueue

def setFirst {α : Type*} (n : ℕ) (new old : ℕ → α) : ℕ → α :=
  fun x => if x < n then new x else old x

/-- The number of buffers that `as_channel_reallocbufs` makes of the one it is asked for. -/
def clampNumbufs (numbufs : ℤ) : ℕ :=
  if numbufs < 2 then 2 else if asMaxNumBufs < numbufs then asMaxNumBufs else numbufs.toNat

def EventQueue.clear (q : EventQueue) : EventQueue :=
  { q with
    eventinidx := 0
    eventoutidx := 0
    in_lt := asMaxEventsize_pos
    out_lt := asMaxEventsize_pos }

namespace ChanBufs

/-- The second half of `as_channel_reallocbufs`, with the new memory if there is any. -/
def install (ss : ChanBufs) (size : ℤ) (numbufs : ℕ) (newbuf : Bool) : ChanBufs :=
  { ss with
    blocksize := size
    readbuf := setFirst numbufs (fun x => if newbuf then some (x * size) else none)
      (Function.update ss.readbuf 0 none)
    writebuf := setFirst numbufs (fun x => if newbuf then some ((numbufs + x) * size) else none)
      ss.writebuf
    writen := setFirst numbufs (fun _ => 0) ss.writen
    writeidx := setFirst numbufs (fun _ => 0) ss.writeidx
    readn := setFirst numbufs (fun _ => 0) ss.readn
    readidx := setFirst numbufs (fun _ => 0) ss.readidx
    inreadbuf := if newbuf then 0 else -1
    inwritebuf := if newbuf then 0 else -1
    outreadbuf := -1
    outwritebuf := -1
    numbufs
    txdisable := ss.txbufpolicy = .whenFull
    rxdisable := ss.rxbufpolicy = .whenFull }

/-- `as_channel_reallocbufs`. The flag `memory` says whether `kmalloc` finds room. -/
def reallocbufs (memory : Bool) (ss : ChanBufs) (size numbufs : ℤ) : ℤ × ChanBufs :=
  let numbufs := clampNumbufs numbufs
  if size ≠ 0 then
    if memory then (0, ss.install size numbufs true) else (-enomem, ss)
  else (0, ss.install size numbufs false)

def initializeChannel (memory : Bool) (chan : ChanBufs) : ℤ × ChanBufs :=
  let (res, chan) := reallocbufs memory chan asDefaultBlocksize asDefaultNumBufs
  if res ≠ 0 then (res, chan)
  else
    (0, { chan with
      rxbufpolicy := .immediate
      txbufpolicy := .immediate
      txdisable := false
      rxdisable := false
      events := chan.events.clear })

/-- `as_close_channel`, which asks for no memory. -/
def closeChannel (chan : ChanBufs) : ChanBufs :=
  let chan := (reallocbufs false chan 0 0).2
  { chan with events := chan.events.clear }

/-- `as_file_open`. The span has no `open` function of its own. -/
def fileOpen (memory : Bool) (chan : ChanBufs) : ℤ × ChanBufs :=
  if chan.sig = 0 then (-enxio, chan)
  else if chan.isOpen then (-ebusy, chan)
  else
    let (res, chan) := initializeChannel memory chan
    if res = 0 then (0, { chan with isOpen := true }) else (res, chan.closeChannel)

def fileRelease (chan : ChanBufs) : ChanBufs :=
  closeChannel { chan with isOpen := false }

/-- `struct as_bufferinfo`, as far as a process sets it. -/
structure BufferInfo where
  txbufpolicy : CInt
  rxbufpolicy : CInt
  numbufs : CInt
  bufsize : CInt

def policyOf (policy : CInt) : BufPolicy :=
  if policy &&& 1 = 1 then .whenFull else .immediate

/-- The tests of `AS_CTL_SET_BUFINFO`. The product is one of C integers. -/
def bufinfoAccepted (bi : BufferInfo) : Prop :=
  bi.bufsize.toInt ≤ asMaxBlocksize ∧ 16 ≤ bi.bufsize.toInt ∧
    (bi.bufsize * bi.numbufs).toInt ≤ asMaxBufSpace

instance (bi : BufferInfo) : Decidable (bufinfoAccepted bi) :=
  inferInstanceAs (Decidable (_ ∧ _ ∧ _))

/-- `AS_CTL_SET_BUFINFO`, with what could be copied from the process. -/
def setBufinfo (memory : Bool) (bi : Option BufferInfo) (chan : ChanBufs) : ℤ × ChanBufs :=
  match bi with
  | none => (-eio, chan)
  | some bi =>
      if bufinfoAccepted bi then
        reallocbufs memory
          { chan with
            rxbufpolicy := policyOf bi.rxbufpolicy, txbufpolicy := policyOf bi.txbufpolicy }
          bi.bufsize.toInt bi.numbufs.toInt
      else (-einval, chan)

/-- The tests of `AS_CTL_SET_BLOCKSIZE`. -/
def blocksizeAccepted (j : CInt) : Prop := j.toInt ≤ asMaxBlocksize ∧ 16 ≤ j.toInt

instance (j : CInt) : Decidable (blocksizeAccepted j) := inferInstanceAs (Decidable (_ ∧ _))

def setBlocksize (memory : Bool) (j : CInt) (chan : ChanBufs) : ℤ × ChanBufs :=
  if blocksizeAccepted j then reallocbufs memory chan j.toInt chan.numbufs
  else (-einval, chan)

def flushRead (chan : ChanBufs) : ChanBufs :=
  { chan with
    inreadbuf := 0
    outreadbuf := -1
    readn := setFirst chan.numbufs (fun _ => 0) chan.readn
    readidx := setFirst chan.numbufs (fun _ => 0) chan.readidx }

def flushWrite (chan : ChanBufs) : ChanBufs :=
  { chan with
    outwritebuf := -1
    inwritebuf := 0
    writen := setFirst chan.numbufs (fun _ => 0) chan.writen
    writeidx := setFirst chan.numbufs (fun _ => 0) chan.writeidx }

def ctlFlush (mode : CInt) (chan : ChanBufs) : ChanBufs :=
  let chan := if mode &&& asFlushRead ≠ 0 then chan.flushRead else chan
  let chan := if mode &&& asFlushWrite ≠ 0 then chan.flushWrite else chan
  if mode &&& asFlushEvent ≠ 0 then { chan with events := chan.events.clear } else chan

/-! ## Runs -/

inductive Request
  | fileOpen (memory : Bool)
  | setBufinfo (memory : Bool) (bi : Option BufferInfo)
  | setBlocksize (memory : Bool) (j : CInt)
  | flush (mode : CInt)
  | fileRelease

def step : Request → ChanBufs → Option ChanBufs
  | .fileOpen memory, chan => some (chan.fileOpen memory).2
  | .setBufinfo memory bi, chan => some (chan.setBufinfo memory bi).2
  | .setBlocksize memory j, chan => some (chan.setBlocksize memory j).2
  | .flush mode, chan => some (chan.ctlFlush mode)
  | .fileRelease, chan => some chan.fileRelease

def Allocated (chan : ChanBufs) : Prop :=
  ∀ x < chan.numbufs, (chan.readbuf x).isSome ∧ (chan.writebuf x).isSome

instance (chan : ChanBufs) : Decidable chan.Allocated := Nat.decidableBallLT _ _

structure Geometry (chan : ChanBufs) : Prop where
  two_le : 2 ≤ chan.numbufs
  numbufs_le : chan.numbufs ≤ asMaxNumBufs
  space : chan.blocksize * chan.numbufs ≤ asMaxBufSpace
  read_allocated : 0 ≤ chan.inreadbuf → chan.Allocated
  write_allocated : 0 ≤ chan.inwritebuf → chan.Allocated

variable {chan : ChanBufs} {size : ℤ} {numbufs : ℕ}

/-! ## New buffers -/

theorem Geometry.congr {chan' : ChanBufs} (h : chan.Geometry)
    (hblock : chan'.blocksize = chan.blocksize) (hnum : chan'.numbufs = chan.numbufs)
    (hread : chan'.readbuf = chan.readbuf) (hwrite : chan'.writebuf = chan.writebuf)
    (hinread : chan'.inreadbuf = chan.inreadbuf) (hinwrite : chan'.inwritebuf = chan.inwritebuf) :
    chan'.Geometry := by
  have halloc : chan'.Allocated ↔ chan.Allocated := by
    unfold Allocated
    rw [hnum, hread, hwrite]
  exact ⟨hnum ▸ h.two_le, hnum ▸ h.numbufs_le, by rw [hblock, hnum]; exact h.space,
    by rw [hinread, halloc]; exact h.read_allocated,
    by rw [hinwrite, halloc]; exact h.write_allocated⟩

/-- A channel as the card driver hands it over, in memory that was cleared. -/
def cleared (sig : ℤ) : ChanBufs where
  isOpen := false
  sig := sig
  blocksize := 0
  numbufs := 0
  readbuf _ := none
  writebuf _ := none
  inreadbuf := 0
  outreadbuf := 0
  inwritebuf := 0
  outwritebuf := 0
  readn _ := 0
  readidx _ := 0
  writen _ := 0
  writeidx _ := 0
  txbufpolicy := .immediate
  rxbufpolicy := .immediate
  txdisable := false
  rxdisable := false
  events := EventLog.initialQueue

/-- `as_channel_register` closes the channel. -/
def registered (sig : ℤ) : ChanBufs := (cleared sig).closeChannel

instance (chan : ChanBufs) : Decidable chan.Geometry :=
  decidable_of_iff (2 ≤ chan.numbufs ∧ chan.numbufs ≤ asMaxNumBufs ∧
      chan.blocksize * chan.numbufs ≤ asMaxBufSpace ∧ (0 ≤ chan.inreadbuf → chan.Allocated) ∧
      (0 ≤ chan.inwritebuf → chan.Allocated))
    ⟨fun h => ⟨h.1, h.2.1, h.2.2.1, h.2.2.2.1, h.2.2.2.2⟩,
      fun h => ⟨h.two_le, h.numbufs_le, h.space, h.read_allocated, h.write_allocated⟩⟩

end ChanBufs
end Slic
end WirelessMesh
