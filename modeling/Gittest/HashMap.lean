import Gittest.LinkList

/-!
# The hash map

`hash_map.cpp`: an array of lists whose nodes point to a copy of a key and a copy of a value. A key
or a value that a caller passes is a buffer of its own or a block on the heap.
-/

namespace Gittest

structure Entry where
  key : Option Addr
  value : Option Addr
  deriving DecidableEq, Repr

/-- What a `const void *` points to. -/
inductive Src where
  | caller (bytes : Buffer)
  | block (a : Addr)
  deriving DecidableEq, Repr

/-- `HashMap`, with what its callbacks make of the bytes of keys. -/
structure HashMap where
  hashCode : Buffer → Int
  equal : Buffer → Buffer → Int
  size : Int
  capacity : Int
  capacityTmp : Int
  entryList : Option Addr

variable {σ : Type}

def readSrc : Src → MemM Entry σ Buffer
  | .caller bytes => return bytes
  | .block a => readBytes a

/-- `memcpy(dst, src, n)` into a block. -/
def memcpyTo (dst : Option Addr) (src : Src) (n : Int) : MemM Entry σ Unit := do
  let a ← deref dst
  let data ← readSrc src
  let copied ← (memcpy (← readBytes a) data n : Except Fault Buffer)
  writeBytes a copied

def freePtr (p : Option Addr) : MemM Entry σ Unit :=
  match p with
  | some a => freeBlock a
  | none => return

def nodeDestroy : LlistNodeOp Entry σ := fun node => do
  let n ← readData node
  freePtr n.key
  freePtr n.value

def HashMap.new (hashCode : Buffer → Int) (equal : Buffer → Buffer → Int) (capacity : Int) :
    HashMap where
  hashCode := hashCode
  equal := equal
  size := 0
  capacity := 0
  capacityTmp := capacity
  entryList := none

/-- The loop of `init`: the lists from `i` on, of which `remaining` are missing. -/
def initFrom (alloc : Allocator) (entryList : Option Addr) : Nat → Int → MemM Entry σ Int
  | 0, _ => return 0
  | remaining + 1, i => do
      let list ← llistCreat alloc 16
      writeCell (← deref entryList) i list
      if list = none then
        return -1
      else
        initFrom alloc entryList remaining (i + 1)

def HashMap.init (alloc : Allocator) (hm : HashMap) : MemM Entry σ (Int × HashMap) := do
  let entryList ← mallocBlock alloc (8 * hm.capacityTmp)
  let hm := { hm with capacity := hm.capacityTmp, entryList := entryList }
  let ret ← initFrom alloc entryList hm.capacity.toNat 0
  return (ret, hm)

/-- The index that `insert`, `find`, `has_key` and `erase` each compute. -/
def HashMap.entryIndex (hm : HashMap) (key : Src) : MemM Entry σ Int := do
  let hashCode := hm.hashCode (← readSrc key)
  let entryIndex ← remInt hashCode hm.capacity
  if entryIndex < 0 then
    addNegative entryIndex hm.capacity
  else
    return entryIndex

/-- `this->entryList[i]`, about to be used as a list. -/
def HashMap.list (hm : HashMap) (i : Int) : MemM Entry σ Addr := do
  deref (← readCell (← deref hm.entryList) i)

/-- `equal(key, entry)`, which reads the stored key through `hashmap_key_get`. -/
def HashMap.cmp (hm : HashMap) (key : Src) : LlistCmp Entry σ := fun entry => do
  let stored ← readBytes (← deref (← readData entry).key)
  return hm.equal (← readSrc key) stored

def HashMap.insert (alloc : Allocator) (hm : HashMap) (key : Option Src) (keySize : Int)
    (value : Option Src) (valueSize : Int) : MemM Entry σ (Int × HashMap) :=
  match key, value with
  | some key, some value => do
      let list ← hm.list (← hm.entryIndex key)
      match ← llistFind list (hm.cmp key) with
      | none =>
          let entryKey ← mallocBlock alloc keySize
          memcpyTo entryKey key keySize
          let entryValue ← mallocBlock alloc valueSize
          memcpyTo entryValue value valueSize
          if (← llistInsert alloc list ⟨entryKey, entryValue⟩ llistBackward) ≠ 0 then
            return (-1, hm)
          else
            return (0, { hm with size := ← incr hm.size })
      | some e =>
          freePtr (← readData e).value
          let newValue ← mallocBlock alloc valueSize
          writeData e { ← readData e with value := newValue }
          memcpyTo newValue value valueSize
          return (0, hm)
  | _, _ => return (-1, hm)

def HashMap.find (hm : HashMap) (key : Src) : MemM Entry σ (Option Addr) := do
  let list ← hm.list (← hm.entryIndex key)
  match ← llistFind list (hm.cmp key) with
  | some e => return (← readData e).value
  | none => return none

def HashMap.hasKey (hm : HashMap) (key : Src) : MemM Entry σ Int := do
  let list ← hm.list (← hm.entryIndex key)
  match ← llistFind list (hm.cmp key) with
  | some _ => return 1
  | none => return 0

def HashMap.erase (hm : HashMap) (key : Src) : MemM Entry σ (Int × HashMap) := do
  let list ← hm.list (← hm.entryIndex key)
  let ret ← llistDelet list (hm.cmp key) (some nodeDestroy)
  if ret = 0 then
    return (ret, { hm with size := ← subInt hm.size 1 })
  else
    return (ret, hm)

/-- The loop of `clear`: the lists from `i` on, of which `remaining` are left. -/
def clearLists (hm : HashMap) : Nat → Int → Int → MemM Entry σ Int
  | 0, _, size => return size
  | remaining + 1, i, size => do
      let n ← llistClear (← hm.list i) (some nodeDestroy)
      let size ← subInt size n
      clearLists hm remaining (i + 1) size

def HashMap.clear (hm : HashMap) : MemM Entry σ (Int × HashMap) := do
  let size ← clearLists hm hm.capacity.toNat 0 hm.size
  return (0, { hm with size := size })

/-- The loop of the destructor: the lists from `i` on, of which `remaining` are left. -/
def destroyLists (hm : HashMap) : Nat → Int → MemM Entry σ Unit
  | 0, _ => return
  | remaining + 1, i => do
      llistDestroy (← readCell (← deref hm.entryList) i) (some nodeDestroy)
      destroyLists hm remaining (i + 1)

/-- `~HashMap` -/
def HashMap.destroy (hm : HashMap) : MemM Entry σ Unit :=
  match hm.entryList with
  | none => return
  | some entryList => do
      destroyLists hm hm.capacity.toNat 0
      freeBlock entryList

def HashMap.getSize (hm : HashMap) : Int := hm.size

end Gittest
