import WirelessMesh.Mesh.FwdInvariant

/-!
# The mesh manager and its ports

`MESH_MGR` lists the registered mesh devices and owns the forwarding table. A
device is known by its address; the manager reads its record through that address.
Registering and unregistering each take two steps, with the manager's lock free
and bottom halves running in between.
-/

namespace WirelessMesh
namespace Mesh

inductive MeshType where
  | portal
  | map
  | transfer
deriving DecidableEq

/-- `MESH_DEVICE`, the fields the mesh layer reads. `up` is the flag `MESHF_UP`;
`attached` says that `fwdTable` points to the manager's table. -/
structure MeshDevice where
  name : String
  index : ℕ
  type : MeshType
  up : Bool
  devAddr : Mac
  attached : Bool

structure MeshMgr where
  devs : DevPtr → MeshDevice
  ports : List DevPtr
  fwdTable : MeshFwdTable
  meshAddr : Mac

/-- The first half of `swjtu_mesh_register_port`, under the lock of the manager: the
number of ports before, or `none` for a name in use. -/
def registerPortLink (mgr : MeshMgr) (port : DevPtr) : Option ℕ × MeshMgr :=
  let mgr :=
    if (mgr.devs port).type = .transfer ∧ mgr.ports = [] then
      { mgr with meshAddr := (mgr.devs port).devAddr }
    else mgr
  if mgr.ports.any fun tmp => (mgr.devs tmp).name == (mgr.devs port).name then (none, mgr)
  else (some mgr.ports.length, { mgr with ports := port :: mgr.ports })

def fwdAddDev (env : Env) (table : MeshFwdTable) (dev : DevPtr) (devAddr : Mac) : MeshFwdTable :=
  meshFwdDbInsert env.now env.room table dev devAddr true true

def fwdDelDev (table : MeshFwdTable) (dev : DevPtr) : MeshFwdTable :=
  meshFwdDbDeleteByDev table dev

/-- The second half: the minor number, the table and the item of the port. -/
def registerPortAttach (env : Env) (mgr : MeshMgr) (port : DevPtr) (index : ℕ) : MeshMgr :=
  { mgr with
    devs := Function.update mgr.devs port
      { mgr.devs port with index := index + 1, attached := true }
    fwdTable := fwdAddDev env mgr.fwdTable port (mgr.devs port).devAddr }

def meshRegisterPort (env : Env) (mgr : MeshMgr) (port : DevPtr) : ℤ × MeshMgr :=
  match registerPortLink mgr port with
  | (none, mgr) => (-eexist, mgr)
  | (some index, mgr) => (0, registerPortAttach env mgr port index)

/-- The first half of `swjtu_mesh_unregister_port`. -/
def unregisterPortForget (mgr : MeshMgr) (port : DevPtr) : MeshMgr :=
  { mgr with fwdTable := fwdDelDev mgr.fwdTable port }

/-- The second half. Deleting a node that is on no list has no defined result. -/
def unregisterPortUnlink (mgr : MeshMgr) (port : DevPtr) : Option MeshMgr :=
  if port ∈ mgr.ports then some { mgr with ports := mgr.ports.erase port } else none

def meshUnregisterPort (mgr : MeshMgr) (port : DevPtr) : Option MeshMgr :=
  unregisterPortUnlink (unregisterPortForget mgr port) port

def getPortByName (mgr : MeshMgr) (devname : String) : Option DevPtr :=
  if devname = "" then none else mgr.ports.find? fun port => (mgr.devs port).name == devname

def freshMgr : MeshMgr where
  devs := fun p =>
    if p = 1 then ⟨"ath0", 0, .transfer, true, stationMac 1, false⟩
    else ⟨"portal", 0, .portal, true, stationMac 2, false⟩
  ports := []
  fwdTable := fwdInitTable
  meshAddr := stationMac 0

def twoPorts : MeshMgr :=
  (meshRegisterPort ⟨0, true⟩ (meshRegisterPort ⟨0, true⟩ freshMgr 1).2 2).2

example : twoPorts.ports = [2, 1] ∧ getPortByName twoPorts "ath0" = some 1 := by decide

end Mesh
end WirelessMesh
