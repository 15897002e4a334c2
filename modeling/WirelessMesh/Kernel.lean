import WirelessMesh.Lib.SerialOrder
import Mathlib.Data.Int.Notation

/-!
# What the modules take from the kernel

Integers are the machine words of a 32-bit kernel. Its clock counts jiffies and wraps around,
and times are compared by the sign of their difference.
-/

namespace WirelessMesh

open SerialOrder

abbrev U8 := BitVec 8
abbrev U16 := BitVec 16
abbrev U32 := BitVec 32
abbrev Byte := BitVec 8
abbrev Jiffies := BitVec 32

def enoent : ℤ := 2
def eio : ℤ := 5
def enxio : ℤ := 6
def eagain : ℤ := 11
def enomem : ℤ := 12
def ebusy : ℤ := 16
def eexist : ℤ := 17
def enodev : ℤ := 19
def einval : ℤ := 22
def enosys : ℤ := 38
def enetdown : ℤ := 100
def einprogress : ℤ := 115

def hz : Jiffies := 100

def timeBefore (a b : Jiffies) : Bool := decide (ahead a b < 0)

def timeBeforeEq (a b : Jiffies) : Bool := decide (0 ≤ ahead b a)

end WirelessMesh
