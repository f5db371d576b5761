import UbsVirt.Enpu.ShmState
import UbsVirt.Enpu.TlsfRun
import UbsVirt.Lib.Chain

/-!
# The swap-buffer pool on its headers

The pool as the source has it, `enpu-manager/core/src/shm_manager.c:1088-1410`: headers on the
heap, each with a size word whose low bit is the used flag, links to its physical neighbours,
and links for the list it is in. The used list runs along `next_free` as the free lists do.
Every field of a header is a function of its address; a loop along a list is given as many
steps as there are headers, and `none` stands for a loop that takes more.
-/

namespace UbsVirt.Enpu.Tlsf

open Chain Function

abbrev Addr := Nat

/-- `TLSFManager` and the heap of `TLSFBlockHeader`s; `live` are the headers that `malloc` has
returned and that were not freed. -/
structure Manager where
  initialized : Bool
  freeList : Nat → Nat → Option Addr
  usedList : Option Addr
  shmTotalSize : Nat
  totalUsed : Nat
  size : Addr → Nat
  dataOffset : Addr → Nat
  /-- `next_free` and `prev_free`. -/
  free : Links Addr
  /-- `next_phys` and `prev_phys`. -/
  phys : Links Addr
  live : List Addr

namespace Manager

/-- `block_get_size`: the size word without its low bit. -/
def blockGetSize (m : Manager) (a : Addr) : Nat := m.size a / 2 * 2

def blockIsUsed (m : Manager) (a : Addr) : Bool := m.size a % 2 == 1

/-- `block_set_size`: the low bit of the old word is put into the new one. -/
def blockSetSize (m : Manager) (a : Addr) (size : Nat) : Manager :=
  { m with size := update m.size a (if m.size a % 2 = 1 then size / 2 * 2 + 1 else size) }

def blockMarkAsFree (m : Manager) (a : Addr) : Manager :=
  { m with size := update m.size a (m.size a / 2 * 2) }

def blockMarkAsUsed (m : Manager) (a : Addr) : Manager :=
  { m with size := update m.size a (m.size a / 2 * 2 + 1) }

/-- `malloc` returned the header at `a`. -/
def malloc (m : Manager) (a : Addr) : Manager := { m with live := a :: m.live }

/-- The header at `a` is given to `free`. -/
def release (m : Manager) (a : Addr) : Manager := { m with live := m.live.erase a }

def setFreeList (m : Manager) (c : Nat × Nat) (head : Option Addr) : Manager :=
  { m with freeList := fun fl sl => if fl = c.1 ∧ sl = c.2 then head else m.freeList fl sl }

/-- `tlsf_insert_free_block`, lines 1158-1168. -/
def insertFreeBlock (m : Manager) (a : Addr) : Manager :=
  let c := calcFlSl (m.blockGetSize a)
  { m with free := m.free.push (m.freeList c.1 c.2) a }.setFreeList c (some a)

/-- `tlsf_remove_free_block`, lines 1170-1185. -/
def removeFreeBlock (m : Manager) (a : Addr) : Manager :=
  let c := calcFlSl (m.blockGetSize a)
  let r := m.free.unlink (m.freeList c.1 c.2) a
  { m with free := r.1 }.setFreeList c r.2

/-- `tlsf_insert_used_block`, lines 1187-1191. -/
def insertUsedBlock (m : Manager) (a : Addr) : Manager :=
  { m with free := m.free.setNext a m.usedList, usedList := some a }

/-- `tlsf_remove_used_block`, lines 1193-1204. -/
def removeUsedBlock (m : Manager) (a : Addr) : Option Manager :=
  (unlinkWalk a m.free.next m.usedList m.live.length none).map fun r =>
    { m with free := { m.free with next := r.1 }, usedList := r.2 }

/-- The loop along one list, as in lines 1209-1214 and 1239-1244. -/
def walkList (m : Manager) (found : Addr → Bool) (head : Option Addr) : Option (Option Addr) :=
  walk m.free.next found m.live.length head

/-- `tlsf_find_block_by_offset`, lines 1206-1229. -/
def findBlockByOffset (m : Manager) (offset : Nat) : Option (Option Addr) :=
  let here := fun a => decide (m.dataOffset a = offset)
  firstFound id
    [m.walkList here m.usedList,
      firstFound (fun i => firstFound (fun j => m.walkList here (m.freeList i j))
        (List.range maxSl)) (List.range maxFl)]

/-- `tlsf_find_block`, lines 1231-1248. -/
def findBlock (m : Manager) (size : Nat) : Option (Option Addr) :=
  let fl := (calcFlSl size).1
  firstFound (fun i => firstFound (fun j =>
      m.walkList (fun a => decide (size ≤ m.blockGetSize a)) (m.freeList i j)) (List.range maxSl))
    (List.range' fl (maxFl - fl))

/-- Put the part of block `a` behind its first `need` bytes under the new header `n`,
lines 1257 and 1262-1279. -/
def carve (m : Manager) (a : Addr) (need : Nat) (n : Addr) : Manager :=
  let remain := m.blockGetSize a - need
  let newOff := (m.dataOffset a + need) % 2 ^ 64
  let m := m.malloc n
  let m := (m.blockSetSize n remain).blockMarkAsFree n
  let m := { m with dataOffset := update m.dataOffset n newOff }
  let m := { m with phys := m.phys.insertAfter a n }
  let m := { m with free := (m.free.setPrev n none).setNext n none }
  let m := m.blockSetSize a need
  m.insertFreeBlock n

/-- `tlsf_split_block`, lines 1250-1281. `header` is what `malloc` returns. -/
def splitBlock (m : Manager) (a : Addr) (need : Nat) (header : Option Addr) : Manager :=
  let remain := m.blockGetSize a - need
  if remain < align then m
  else
    match header with
    | none => m
    | some n => m.carve a need n

def addUsed (m : Manager) (a : Addr) : Manager :=
  { m with totalUsed := (m.totalUsed + m.blockGetSize a) % 2 ^ 64 }

def subUsed (m : Manager) (a : Addr) : Manager :=
  { m with totalUsed := subU64 m.totalUsed (m.blockGetSize a) }

/-- `tlsf_alloc`, lines 1328-1355: the offset handed out, or `none` for `(uint64_t)-1`. -/
def alloc (m : Manager) (size : Nat) (header : Option Addr) : Option (Option Nat × Manager) :=
  if !m.initialized || size == 0 then some (none, m)
  else
    let allocSz := alignSize size
    (m.findBlock allocSz).map fun found =>
      match found with
      | none => (none, m)
      | some a =>
        let m := m.removeFreeBlock a
        let m := m.splitBlock a allocSz header
        let m := m.blockMarkAsUsed a
        let m := m.insertUsedBlock a
        let m := m.addUsed a
        (some (m.dataOffset a), m)

/-- Take the block `b` that follows `a` in the physical chain into `a`, lines 1381-1390 and
1396-1405. -/
def absorb (m : Manager) (a b : Addr) : Manager :=
  let m := m.blockSetSize a ((m.blockGetSize a + m.blockGetSize b) % 2 ^ 64)
  let m := { m with phys := m.phys.bypass a b }
  m.release b

/-- Merging backwards, lines 1379-1392. -/
def mergePrev (m : Manager) (a : Addr) : Manager × Addr :=
  match m.phys.prev a with
  | none => (m, a)
  | some prev =>
    if m.blockIsUsed prev then (m, a) else ((m.removeFreeBlock prev).absorb prev a, prev)

/-- Merging forwards, lines 1394-1406. -/
def mergeNext (m : Manager) (a : Addr) : Manager :=
  match m.phys.next a with
  | none => m
  | some next => if m.blockIsUsed next then m else (m.removeFreeBlock next).absorb a next

/-- Merge a free block that is in no list with its neighbours and insert it, lines 1379-1408. -/
def coalesce (m : Manager) (a : Addr) : Manager :=
  let r := m.mergePrev a
  (r.1.mergeNext r.2).insertFreeBlock r.2

/-- `tlsf_free`, lines 1357-1410. -/
def freeOffset (m : Manager) (offset : Nat) : Option Manager :=
  if !m.initialized || decide (m.shmTotalSize ≤ offset) then some m
  else
    (m.findBlockByOffset offset).bind fun found =>
      match found with
      | none => some m
      | some a =>
        if !m.blockIsUsed a then some m
        else
          (m.removeUsedBlock a).map fun m => ((m.subUsed a).blockMarkAsFree a).coalesce a

/-- `tlsf_pool_init`, lines 1283-1326, and whether it succeeds. -/
def poolInit (m : Manager) (shmSize : Nat) (header : Option Addr) : Manager × Bool :=
  if m.initialized then (m, true)
  else
    let m := { m with
      freeList := fun _ _ => none, usedList := none, shmTotalSize := shmSize, totalUsed := 0 }
    match header with
    | none => (m, false)
    | some a =>
      let m := m.malloc a
      let m := (m.blockSetSize a shmSize).blockMarkAsFree a
      let m := { m with dataOffset := update m.dataOffset a 0 }
      let m := { m with phys := (m.phys.setPrev a none).setNext a none }
      let m := { m with free := (m.free.setPrev a none).setNext a none }
      let m := m.insertFreeBlock a
      ({ m with initialized := true }, true)

def block (m : Manager) (a : Addr) : Block :=
  ⟨m.dataOffset a, m.blockGetSize a, m.blockIsUsed a⟩

end Manager

end UbsVirt.Enpu.Tlsf
