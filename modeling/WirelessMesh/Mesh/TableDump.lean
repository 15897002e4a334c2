import WirelessMesh.Mesh.Manager

/-!
# Reading the forwarding table

`mesh_fwd_db_get_entries` copies a part of the table into a buffer, counting off an offset
while it walks the chains bucket by bucket. The proc file of a table shows ten entries at
each read and keeps in a static variable where to go on. Positions of the walk are signed
words in the source; they stay far from the ends of the range.
-/

namespace WirelessMesh
namespace Mesh

structure MeshFwdEntry where
  macAddr : Mac
  devName : String
  portNo : ℕ
  isLocal : Bool
  isStatic : Bool
  ageingTimerValue : Jiffies
deriving DecidableEq

/-- `__copy_fdb`: the record is cleared first, and `isStatic` is not set after that. -/
def copyFdb (devs : DevPtr → MeshDevice) (now : Jiffies) (item : MeshFwdItem) : MeshFwdEntry where
  macAddr := item.addr
  devName := (devs item.dest).name
  portNo := (devs item.dest).index
  isLocal := item.isLocal
  isStatic := false
  ageingTimerValue := if item.isStatic then 0 else now - item.ageingTimer

def MeshFwdTable.bucket (table : MeshFwdTable) (i : Fin meshFwdHashSize) : List MeshFwdItem :=
  (table.items.chain i).filterMap table.items.read

/-- The variables of the walk: the records copied so far, newest last, and what is left to
skip. -/
structure DumpState where
  num : ℤ
  offset : ℤ
  buf : List MeshFwdEntry

/-- The loop over one chain. Every item met is linked, so none has disappeared. -/
def dumpBucket (copy : MeshFwdItem → MeshFwdEntry) (maxnum : ℤ) :
    List MeshFwdItem → DumpState → DumpState
  | [], s => s
  | item :: rest, s =>
      if s.num < maxnum then
        if s.offset ≠ 0 then dumpBucket copy maxnum rest { s with offset := s.offset - 1 }
        else dumpBucket copy maxnum rest { s with num := s.num + 1, buf := s.buf ++ [copy item] }
      else s

/-- `mesh_fwd_db_get_entries`: the number of records and the records. -/
def meshFwdDbGetEntries (devs : DevPtr → MeshDevice) (now : Jiffies) (table : MeshFwdTable)
    (maxnum offset : ℤ) : ℤ × List MeshFwdEntry :=
  let s := (List.finRange meshFwdHashSize).foldl
    (fun s i => dumpBucket (copyFdb devs now) maxnum (table.bucket i) s) ⟨0, offset, []⟩
  (s.num, s.buf)

/-! ## The proc file -/

def readMax : ℤ := 10

def hex2 (b : BitVec 8) : List Char :=
  [Nat.digitChar (b.toNat / 16), Nat.digitChar (b.toNat % 16)]

def yesNo (b : Bool) : List Char := (if b then "Yes" else "No").toList

def procLine (ent : MeshFwdEntry) : List Char :=
  ' ' :: List.intercalate [':'] (ent.macAddr.toList.map hex2) ++ " \t".toList ++
    ent.devName.toList ++ " \t\t".toList ++ yesNo ent.isLocal ++ " \t\t".toList ++
    yesNo ent.isStatic ++ " \t\t".toList ++ (toString ent.ageingTimerValue.toInt).toList ++ ['\n']

def procRule : List Char := List.replicate 81 '-' ++ ['\n']

def procText (name : String) (ents : List MeshFwdEntry) : List Char :=
  '\n' :: name.toList ++ ['\n'] ++ procRule ++
    "        MAC        |   Device    |   isLocal    |   isStatic    |   Aging time \n".toList ++
    procRule ++ ents.flatMap procLine ++ procRule ++ ['\n']

/-- One call of `__mesh_fwd_proc`. -/
structure ProcRead where
  now : Jiffies
  offset : ℕ
  bufferLength : ℕ

/-- `__mesh_fwd_proc` with the static `position`: the new position, and the bytes that the
reader gets, from `buffer_location` on. -/
def meshFwdProc (devs : DevPtr → MeshDevice) (name : String) (table : MeshFwdTable)
    (position : ℤ) (read : ProcRead) : ℤ × List Char :=
  let (count, ents) := meshFwdDbGetEntries devs read.now table readMax position
  let position := if count < readMax then 0 else position + count
  (position, ((procText name ents).drop read.offset).take read.bufferLength)

def procReads (devs : DevPtr → MeshDevice) (name : String) (table : MeshFwdTable) :
    ℤ → List ProcRead → List (List Char)
  | _, [] => []
  | position, read :: reads =>
      let (position, text) := meshFwdProc devs name table position read
      text :: procReads devs name table position reads

/-! ## What is asked -/

def recordOf (devs : DevPtr → MeshDevice) (now : Jiffies) (item : MeshFwdItem) : MeshFwdEntry :=
  { copyFdb devs now item with isStatic := item.isStatic }

def MeshFwdTable.enumeration (table : MeshFwdTable) : List MeshFwdItem :=
  (List.finRange meshFwdHashSize).flatMap table.bucket

def MeshFwdTable.window (table : MeshFwdTable) (maxnum offset : ℤ) : List MeshFwdItem :=
  (table.enumeration.take (offset + maxnum).toNat).drop offset.toNat

def listing (copy : MeshFwdItem → MeshFwdEntry) (items : List MeshFwdItem) :
    ℤ × List MeshFwdEntry := (items.length, items.map copy)

def MeshFwdTable.page (table : MeshFwdTable) (k : ℕ) : List MeshFwdItem :=
  (table.enumeration.drop (10 * k)).take 10

def MeshFwdTable.pages (table : MeshFwdTable) : ℕ := table.enumeration.length / 10 + 1

/-! ## The walk -/

section Walk

variable {copy : MeshFwdItem → MeshFwdEntry} {maxnum : ℤ}

theorem dumpBucket_full {s : DumpState} (hfull : ¬s.num < maxnum) (items : List MeshFwdItem) :
    dumpBucket copy maxnum items s = s := by
  cases items with
  | nil => rfl
  | cons item rest => rw [dumpBucket, if_neg hfull]

theorem dumpBucket_append (xs ys : List MeshFwdItem) (s : DumpState) :
    dumpBucket copy maxnum (xs ++ ys) s =
      dumpBucket copy maxnum ys (dumpBucket copy maxnum xs s) := by
  induction xs generalizing s with
  | nil => rfl
  | cons item xs ih =>
      rw [List.cons_append, dumpBucket, dumpBucket]
      split_ifs with hroom hskip
      · exact ih _
      · exact ih _
      · rw [dumpBucket_full hroom]

theorem foldl_dumpBucket (bucket : Fin meshFwdHashSize → List MeshFwdItem)
    (is : List (Fin meshFwdHashSize)) (s : DumpState) :
    is.foldl (fun s i => dumpBucket copy maxnum (bucket i) s) s =
      dumpBucket copy maxnum (is.flatMap bucket) s := by
  induction is generalizing s with
  | nil => rfl
  | cons i is ih => rw [List.foldl_cons, ih, List.flatMap_cons, dumpBucket_append]

/-- The items the walk copies: those after the skipped ones, as far as there is room. A
negative offset is never used up. -/
def copiedFrom (maxnum : ℤ) (items : List MeshFwdItem) (s : DumpState) : List MeshFwdItem :=
  if 0 ≤ s.offset then (items.drop s.offset.toNat).take (maxnum - s.num).toNat else []

theorem copiedFrom_full {s : DumpState} (hfull : ¬s.num < maxnum) (items : List MeshFwdItem) :
    copiedFrom maxnum items s = [] := by
  have hzero : (maxnum - s.num).toNat = 0 := by omega
  simp [copiedFrom, hzero]

theorem copiedFrom_skip {s : DumpState} (hskip : s.offset ≠ 0) (item : MeshFwdItem)
    (items : List MeshFwdItem) : copiedFrom maxnum (item :: items) s =
      copiedFrom maxnum items { s with offset := s.offset - 1 } := by
  simp only [copiedFrom]
  by_cases hneg : 0 ≤ s.offset
  · have hpred : 0 ≤ s.offset - 1 := by omega
    have hsucc : s.offset.toNat = (s.offset - 1).toNat + 1 := by omega
    rw [if_pos hneg, if_pos hpred, hsucc, List.drop_succ_cons]
  · rw [if_neg hneg, if_neg (by omega)]

theorem copiedFrom_take {s : DumpState} (hroom : s.num < maxnum) (hzero : s.offset = 0)
    (item : MeshFwdItem) (items : List MeshFwdItem) (buf : List MeshFwdEntry) :
    copiedFrom maxnum (item :: items) s =
      item :: copiedFrom maxnum items { s with num := s.num + 1, buf } := by
  have hsucc : (maxnum - s.num).toNat = (maxnum - (s.num + 1)).toNat + 1 := by omega
  simp [copiedFrom, hzero, hsucc]

variable (copy maxnum) in
theorem dumpBucket_spec (items : List MeshFwdItem) (s : DumpState) :
    (dumpBucket copy maxnum items s).num = s.num + (copiedFrom maxnum items s).length ∧
      (dumpBucket copy maxnum items s).buf = s.buf ++ (copiedFrom maxnum items s).map copy := by
  induction items generalizing s with
  | nil => simp [dumpBucket, copiedFrom]
  | cons item items ih =>
      rw [dumpBucket]
      by_cases hroom : s.num < maxnum
      · rw [if_pos hroom]
        by_cases hskip : s.offset = 0
        · rw [if_neg (not_not_intro hskip), copiedFrom_take hroom hskip item items]
          obtain ⟨hnum, hbuf⟩ := ih { s with num := s.num + 1, buf := s.buf ++ [copy item] }
          rw [hnum, hbuf, List.length_cons, List.map_cons]
          refine ⟨by push_cast; ring, ?_⟩
          rw [List.append_assoc, List.singleton_append]
        · rw [if_pos hskip, copiedFrom_skip hskip]
          exact ih _
      · rw [if_neg hroom, copiedFrom_full hroom]
        simp

end Walk

section Entries

variable {devs : DevPtr → MeshDevice} {now : Jiffies} {table : MeshFwdTable} {maxnum offset : ℤ}

variable (devs now table maxnum) in
theorem meshFwdDbGetEntries_eq (hoffset : 0 ≤ offset) :
    meshFwdDbGetEntries devs now table maxnum offset =
      listing (copyFdb devs now) (table.window maxnum offset) := by
  have hwindow : copiedFrom maxnum table.enumeration ⟨0, offset, []⟩ =
      table.window maxnum offset := by
    have hcount : (offset + maxnum).toNat - offset.toNat = maxnum.toNat := by omega
    simp [copiedFrom, MeshFwdTable.window, hoffset, List.drop_take, hcount]
  obtain ⟨hnum, hbuf⟩ := dumpBucket_spec (copyFdb devs now) maxnum table.enumeration ⟨0, offset, []⟩
  simp only [meshFwdDbGetEntries, foldl_dumpBucket]
  rw [← MeshFwdTable.enumeration, hnum, hbuf, hwindow]
  simp [listing]

theorem meshFwdDbGetEntries_neg (hoffset : ¬0 ≤ offset) :
    meshFwdDbGetEntries devs now table maxnum offset = (0, []) := by
  obtain ⟨hnum, hbuf⟩ := dumpBucket_spec (copyFdb devs now) maxnum table.enumeration ⟨0, offset, []⟩
  simp only [meshFwdDbGetEntries, foldl_dumpBucket]
  rw [← MeshFwdTable.enumeration, hnum, hbuf]
  simp [copiedFrom, hoffset]

theorem copyFdb_eq_recordOf_iff {item : MeshFwdItem} :
    copyFdb devs now item = recordOf devs now item ↔ item.isStatic = false := by
  simp [recordOf, copyFdb]

theorem map_copyFdb_eq_iff {items : List MeshFwdItem} :
    items.map (copyFdb devs now) = items.map (recordOf devs now) ↔
      ∀ item ∈ items, item.isStatic = false := by
  simp [List.map_inj_left, copyFdb_eq_recordOf_iff]

theorem getEntries_faithful_iff : meshFwdDbGetEntries devs now table maxnum offset =
      listing (recordOf devs now) (table.window maxnum offset) ↔
    (0 ≤ offset ∨ table.window maxnum offset = []) ∧
      ∀ item ∈ table.window maxnum offset, item.isStatic = false := by
  by_cases hoffset : 0 ≤ offset
  · rw [meshFwdDbGetEntries_eq _ _ _ _ hoffset, listing, listing, Prod.mk.injEq, map_copyFdb_eq_iff]
    simp [hoffset]
  · rw [meshFwdDbGetEntries_neg hoffset, listing, Prod.mk.injEq]
    constructor
    · rintro ⟨hlen, _⟩
      have hnil : table.window maxnum offset = [] := List.length_eq_zero_iff.mp (by omega)
      simp [hnil]
    · rintro ⟨hcase, _⟩
      have hnil := hcase.resolve_left hoffset
      simp [hnil]

end Entries

/-! ## Reads of the proc file -/

section Proc

variable {devs : DevPtr → MeshDevice} {name : String} {table : MeshFwdTable}

def pageText (devs : DevPtr → MeshDevice) (name : String) (now : Jiffies)
    (items : List MeshFwdItem) : List Char :=
  procText name (items.map (recordOf devs now))

def Whole (devs : DevPtr → MeshDevice) (name : String) (items : List MeshFwdItem)
    (read : ProcRead) : Prop :=
  read.offset = 0 ∧ (pageText devs name read.now items).length ≤ read.bufferLength

theorem length_procLine_recordOf (now : Jiffies) (item : MeshFwdItem) :
    (procLine (recordOf devs now item)).length =
      (procLine (copyFdb devs now item)).length + if item.isStatic then 1 else 0 := by
  cases hstatic : item.isStatic with
  | false => simp [copyFdb_eq_recordOf_iff.mpr hstatic]
  | true =>
      simp only [procLine, recordOf, copyFdb, hstatic, yesNo, List.length_append, List.length_cons]
      simp
      omega

variable (devs name) in
theorem length_pageText (now : Jiffies) (items : List MeshFwdItem) :
    (pageText devs name now items).length =
      (procText name (items.map (copyFdb devs now))).length + items.countP (·.isStatic) := by
  have hlines : ((items.map (recordOf devs now)).flatMap procLine).length =
      ((items.map (copyFdb devs now)).flatMap procLine).length + items.countP (·.isStatic) := by
    induction items with
    | nil => rfl
    | cons item items ih =>
        simp only [List.map_cons, List.flatMap_cons, List.length_append, ih,
          length_procLine_recordOf, List.countP_cons]
        omega
  simp only [pageText, procText, List.length_append, hlines]
  omega

theorem cut_eq_pageText_iff {items : List MeshFwdItem} {read : ProcRead} :
    ((procText name (items.map (copyFdb devs read.now))).drop read.offset).take read.bufferLength =
        pageText devs name read.now items ↔
      Whole devs name items read ∧ ∀ item ∈ items, item.isStatic = false := by
  have hlen := length_pageText devs name read.now items
  constructor
  · intro heq
    have hcut := congrArg List.length heq
    have hpos : 0 < (procText name (items.map (copyFdb devs read.now))).length := by
      simp [procText]
    rw [List.length_take, List.length_drop] at hcut
    have hnone : items.countP (·.isStatic) = 0 := by omega
    refine ⟨⟨by omega, by omega⟩, fun item hitem => ?_⟩
    simpa using List.countP_eq_zero.mp hnone item hitem
  · rintro ⟨⟨hoffset, hfits⟩, hdynamic⟩
    rw [map_copyFdb_eq_iff.mpr hdynamic, hoffset, List.drop_zero]
    exact List.take_of_length_le hfits

theorem window_eq_page (table : MeshFwdTable) (k : ℕ) :
    table.window readMax (10 * k : ℕ) = table.page k := by
  have hend : (((10 * k : ℕ) : ℤ) + readMax).toNat = 10 * k + 10 := by
    simp only [readMax]
    omega
  rw [MeshFwdTable.window, hend, Int.toNat_natCast, List.drop_take, Nat.add_sub_cancel_left,
    MeshFwdTable.page]

theorem length_page_lt_iff {k : ℕ} (hk : k < table.pages) :
    (table.page k).length < 10 ↔ k + 1 = table.pages := by
  simp only [MeshFwdTable.page, MeshFwdTable.pages, List.length_take, List.length_drop] at hk ⊢
  omega

/-- A read prints the page at which the position stands, and moves the position to the next
page, after the last one to the first. -/
theorem meshFwdProc_page {k : ℕ} (hk : k < table.pages) (read : ProcRead) :
    meshFwdProc devs name table (10 * k : ℕ) read =
      (((10 * ((k + 1) % table.pages) : ℕ) : ℤ),
        ((procText name ((table.page k).map (copyFdb devs read.now))).drop read.offset).take
          read.bufferLength) := by
  have hentries := meshFwdDbGetEntries_eq devs read.now table readMax (Int.natCast_nonneg (10 * k))
  rw [window_eq_page] at hentries
  have hlast := length_page_lt_iff hk
  have hten : (table.page k).length ≤ 10 := by simp [MeshFwdTable.page]
  simp only [meshFwdProc, hentries, listing, Prod.mk.injEq, and_true]
  by_cases hshort : (table.page k).length < 10
  · rw [if_pos (by simp only [readMax]; omega), hlast.mp hshort, Nat.mod_self]
    rfl
  · have hnext : k + 1 < table.pages := lt_of_le_of_ne hk fun h => hshort (hlast.mpr h)
    rw [if_neg (by simp only [readMax]; omega), Nat.mod_eq_of_lt hnext]
    push_cast
    omega

variable (devs name) in
theorem getElem?_procReads (reads : List ProcRead) {k : ℕ} (hk : k < table.pages) (i : ℕ) :
    (procReads devs name table (10 * k : ℕ) reads)[i]? = reads[i]?.map fun read =>
      ((procText name ((table.page ((k + i) % table.pages)).map (copyFdb devs read.now))).drop
        read.offset).take read.bufferLength := by
  induction reads generalizing k i with
  | nil => simp [procReads]
  | cons read reads ih =>
      have hpages : 0 < table.pages := Nat.succ_pos _
      rw [procReads, meshFwdProc_page hk]
      cases i with
      | zero => simp [Nat.mod_eq_of_lt hk]
      | succ i =>
          have hturn : ((k + 1) % table.pages + i) % table.pages = (k + (i + 1)) % table.pages := by
            rw [Nat.mod_add_mod]
            congr 1
            omega
          simp only [List.getElem?_cons_succ]
          rw [ih (Nat.mod_lt _ hpages), hturn]

theorem flatMap_page (table : MeshFwdTable) :
    (List.range table.pages).flatMap table.page = table.enumeration := by
  have hfirst : ∀ n, (List.range n).flatMap table.page = table.enumeration.take (10 * n) := by
    intro n
    induction n with
    | zero => rfl
    | succ n ih =>
        rw [List.range_succ, List.flatMap_append, ih, List.flatMap_singleton, MeshFwdTable.page,
          Nat.mul_succ, List.take_add]
  rw [hfirst]
  apply List.take_of_length_le
  simp only [MeshFwdTable.pages]
  omega

end Proc

/-- What the calls for some records and what the reads of the proc file return, against what
they should: the exceptions are static items, negative offsets and reads of parts. -/
theorem dump_faithful_iff (devs : DevPtr → MeshDevice) (name : String) (table : MeshFwdTable) :
    (∀ now maxnum offset,
      meshFwdDbGetEntries devs now table maxnum offset =
          listing (recordOf devs now) (table.window maxnum offset) ↔
        (0 ≤ offset ∨ table.window maxnum offset = []) ∧
          ∀ item ∈ table.window maxnum offset, item.isStatic = false) ∧
    (∀ (reads : List ProcRead) (i : ℕ) (read : ProcRead), reads[i]? = some read →
      ((procReads devs name table 0 reads)[i]? =
          some (pageText devs name read.now (table.page (i % table.pages))) ↔
        Whole devs name (table.page (i % table.pages)) read ∧
          ∀ item ∈ table.page (i % table.pages), item.isStatic = false)) ∧
    (List.range table.pages).flatMap table.page = table.enumeration := by
  refine ⟨fun _ _ _ => getEntries_faithful_iff, ?_, flatMap_page table⟩
  intro reads i read hread
  have hone : 0 < table.pages := Nat.succ_pos _
  have htext := getElem?_procReads devs name reads hone i
  rw [hread, Option.map_some, Nat.zero_add] at htext
  rw [← cut_eq_pageText_iff]
  change (procReads devs name table ((10 * 0 : ℕ) : ℤ) reads)[i]? = _ ↔ _
  rw [htext, Option.some.injEq]

/-- The local entry of a port is static, and the file says that it is not. -/
theorem static_entry_not_shown :
    (meshFwdDbGetEntries twoPorts.devs 0 twoPorts.fwdTable 10 0).2.map MeshFwdEntry.isStatic =
      [false, false] ∧
    (twoPorts.fwdTable.window 10 0).map MeshFwdItem.isStatic = [true, true] ∧
    meshFwdDbGetEntries twoPorts.devs 0 twoPorts.fwdTable 10 0 ≠
      listing (recordOf twoPorts.devs 0) (twoPorts.fwdTable.window 10 0) := by
  have hshown : (meshFwdDbGetEntries twoPorts.devs 0 twoPorts.fwdTable 10 0).2.map
      MeshFwdEntry.isStatic = [false, false] := by decide +kernel
  have hheld : (twoPorts.fwdTable.window 10 0).map MeshFwdItem.isStatic = [true, true] := by
    decide +kernel
  refine ⟨hshown, hheld, fun heq => ?_⟩
  rw [heq, listing, List.map_map] at hshown
  exact absurd (hshown.symm.trans hheld) (by decide)

end Mesh
end WirelessMesh
