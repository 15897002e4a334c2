import WirelessMesh.Dsr.Cache

/-!
# The identifications of the route requests a node has passed on

`dsr_input.c` keeps, for each of twelve sources, the identifications of the last sixteen route
requests it has passed on. No entry is ever taken out. The loops over the table end at the
number of entries in use that `rt_req_ids_size` counts.
-/

namespace WirelessMesh.Dsr

def reqTableSize : ℕ := 12

def reqTableIds : ℕ := 16

abbrev Ident := BitVec 16

/-- `struct id_fifo`; an entry whose source is zero is free. -/
structure IdFifo where
  saddr : Addr
  time : ℕ
  id : List Ident
  head : ℕ
  tail : ℕ
  len : ℕ
  deriving DecidableEq, Repr

namespace IdFifo

def used (e : IdFifo) : Bool :=
  e.saddr != 0

/-- The loop of `lookup_rt_req_id` over one entry. -/
def holds (id : Ident) (e : IdFifo) : Bool :=
  (List.range e.len).any fun j => e.id.getD ((e.head + j) % reqTableIds) 0 == id

/-- What `add_rt_req_id` does to the entry of the source. -/
def push (id : Ident) (e : IdFifo) : IdFifo :=
  { e with
    id := e.id.set e.tail id
    tail := (e.tail + 1) % reqTableIds
    len := if e.len < reqTableIds then e.len + 1 else e.len
    head := if e.len < reqTableIds then e.head else (e.head + 1) % reqTableIds }

def start (now : ℕ) (saddr : Addr) (id : Ident) (e : IdFifo) : IdFifo where
  saddr := saddr
  time := now
  id := e.id.set 0 id
  head := 0
  tail := 1
  len := 1

end IdFifo

/-- `rt_req_ids` and `rt_req_ids_size`. -/
structure IdTable where
  entries : List IdFifo
  size : ℕ
  deriving DecidableEq, Repr

def IdTable.init : IdTable where
  entries := List.replicate reqTableSize
    { saddr := 0, time := 0, id := List.replicate reqTableIds 0, head := 0, tail := 0, len := 0 }
  size := 0

/-- The loop over the entries in use: the slot of the source, if it has one. -/
def findSource (saddr : Addr) (t : IdTable) : Option (Option ℕ) :=
  SlotTable.find IdFifo.used (fun e => e.saddr == saddr) t.size 0 0 t.entries

def lookupRtReqId (saddr : Addr) (id : Ident) (t : IdTable) : Option Bool :=
  (findSource saddr t).map fun slot =>
    (slot.bind fun i => t.entries[i]?).any (IdFifo.holds id)

/-- The slot of `add_rt_req_id` for a source that has none. -/
def IdTable.slot (t : IdTable) : ℕ :=
  if t.size < reqTableSize then SlotTable.firstFree IdFifo.used t.entries
  else SlotTable.oldest (fun _ => true) IdFifo.time t.entries

def addRtReqId (now : ℕ) (saddr : Addr) (id : Ident) (t : IdTable) : Option IdTable :=
  (findSource saddr t).map fun
    | some i => { t with entries := t.entries.modify i (IdFifo.push id) }
    | none =>
        { entries := t.entries.modify t.slot (IdFifo.start now saddr id)
          size := if t.size < reqTableSize then t.size + 1 else t.size }

/-- What `proc_rt_req_opt` decides for a request that is not for this node: it is passed on
unless the node is already listed in it or it was passed on before. -/
def passRequest (now : ℕ) (saddr : Addr) (id : Ident) (listed : Bool) (t : IdTable) :
    Option (IdTable × Bool) :=
  if listed then some (t, false)
  else (lookupRtReqId saddr id t).bind fun seen =>
    if seen then some (t, false) else (addRtReqId now saddr id t).map (·, true)

/-! ### The count of the entries -/

/-- With as many entries in use as are counted, the loop finds the entry of the source or comes
to its end. -/
theorem findSource_cases (saddr : Addr) {t : IdTable}
    (h : t.size = t.entries.countP IdFifo.used) :
    (∃ k e, findSource saddr t = some (some k) ∧ t.entries[k]? = some e ∧ e.used ∧
      e.saddr = saddr) ∨
    findSource saddr t = some none ∧ ∀ e ∈ t.entries, e.used → e.saddr ≠ saddr := by
  have hcases := SlotTable.find_cases (fun e => e.saddr == saddr) 0 ((Nat.zero_add _).trans h.symm)
  simpa [findSource] using hcases

theorem passRequest_of_find {t : IdTable} {saddr : Addr} {id : Ident} {slot : Option ℕ} (now : ℕ)
    (hfind : findSource saddr t = some slot) :
    passRequest now saddr id false t =
      if (slot.bind fun i => t.entries[i]?).any (IdFifo.holds id) then some (t, false)
      else (addRtReqId now saddr id t).map (·, true) := by
  rw [passRequest, if_neg Bool.false_ne_true, lookupRtReqId, hfind]
  rfl

theorem IdTable.slot_spec {t : IdTable} (hlen : t.entries.length = reqTableSize)
    (hsize : t.size = t.entries.countP IdFifo.used) :
    ∃ e, t.entries[t.slot]? = some e ∧
      e.used = !decide (t.entries.countP IdFifo.used < reqTableSize) := by
  rw [IdTable.slot, hsize]
  apply SlotTable.slot_spec hlen (by decide) (SlotTable.firstFree_spec IdFifo.used)
  intro hne _
  obtain ⟨e, he, -⟩ := SlotTable.oldest_spec (fun _ => true) IdFifo.time hne fun _ _ => rfl
  exact ⟨e, he⟩

/-- The count of the table of identifications stays right, for any number of sources. -/
theorem addRtReqId_count {t : IdTable} (now : ℕ) {saddr : Addr} (id : Ident)
    (hlen : t.entries.length = reqTableSize) (hsize : t.size = t.entries.countP IdFifo.used)
    (hzero : saddr ≠ 0) :
    ∃ t', addRtReqId now saddr id t = some t' ∧ t'.entries.length = reqTableSize ∧
      t'.size = t'.entries.countP IdFifo.used := by
  rw [addRtReqId]
  rcases findSource_cases saddr hsize with ⟨k, e, hfind, hk, -, -⟩ | ⟨hfind, -⟩
  · rw [hfind]
    refine ⟨_, rfl, (List.length_modify ..).trans hlen, ?_⟩
    have hcount := SlotTable.countP_modify IdFifo.used hk (IdFifo.push id)
    have hused : (e.push id).used = e.used := rfl
    rw [hused] at hcount
    simp only [hsize]
    omega
  · rw [hfind]
    refine ⟨_, rfl, (List.length_modify ..).trans hlen, ?_⟩
    obtain ⟨e, he, hused⟩ := t.slot_spec hlen hsize
    have hstart : (e.start now saddr id).used = true := bne_iff_ne.mpr hzero
    have hcount := SlotTable.countP_fill he hused hstart
    rw [← hsize] at hcount
    exact hcount.symm

theorem passRequest_count {t : IdTable} (now : ℕ) {saddr : Addr} (id : Ident) (listed : Bool)
    (hlen : t.entries.length = reqTableSize) (hsize : t.size = t.entries.countP IdFifo.used)
    (hzero : saddr ≠ 0) :
    ∃ r, passRequest now saddr id listed t = some r ∧ (r.2 = true → listed = false) ∧
      r.1.entries.length = reqTableSize ∧ r.1.size = r.1.entries.countP IdFifo.used := by
  cases listed with
  | true => exact ⟨(t, false), rfl, (fun h => by cases h), hlen, hsize⟩
  | false =>
      obtain ⟨slot, hfind⟩ : ∃ slot, findSource saddr t = some slot := by
        rcases findSource_cases saddr hsize with ⟨k, e, hfind, -⟩ | ⟨hfind, -⟩
        · exact ⟨_, hfind⟩
        · exact ⟨_, hfind⟩
      rw [passRequest_of_find now hfind]
      split
      · exact ⟨(t, false), rfl, fun _ => rfl, hlen, hsize⟩
      · obtain ⟨t', hadd, hcount⟩ := addRtReqId_count now id hlen hsize hzero
        rw [hadd]
        exact ⟨(t', true), rfl, fun _ => rfl, hcount⟩

end WirelessMesh.Dsr
