import NekOS.Foundation.Fallible
import NekOS.Foundation.Memory
import NekOS.Kernel.Page

/-!
# Physical memory and Sv39 page tables

The functions of `kernel/pgtable.rs` and the kernel mappings of `kernel/vm.rs`, acting on physical
memory.  Page tables are part of memory: the entry `i` of the table at `pt` is the word at the
address `pt + 8 * i`.  The registers of devices are modelled as plain memory.

All errors of these functions are `()`, so they are programs in `Fallible Phys`; what a failing
call has changed stays changed.
-/

namespace NekOS

/-! ### Page table entries -/

/-- `PTE_V`. -/
def pteV : ℕ := 1

/-- `PTE_R`. -/
def pteR : ℕ := 2

/-- `PTE_W`. -/
def pteW : ℕ := 4

/-- `PTE_X`. -/
def pteX : ℕ := 8

/-- `PTE_U`. -/
def pteU : ℕ := 16

/-- The test `pte & flags != 0`. -/
def hasFlag (pte flags : ℕ) : Bool := pte &&& flags != 0

/-- The test `pte & (PTE_R | PTE_W | PTE_X) != 0`, by which the code tells leaves from pointers to
tables. -/
def isLeaf (pte : ℕ) : Bool := hasFlag pte (pteR ||| pteW ||| pteX)

/-- `pte_to_pa`. -/
def pteToPa (pte : ℕ) : ℕ := ((pte >>> 10) &&& 0x0FFFFFFFFFFF) <<< 12

/-- `pa_to_pte`. -/
def paToPte (pa flags : ℕ) : ℕ := ((pa >>> 12) <<< 10) ||| flags

/-- The index into the table of a level: bits 12, 21 and 30 upwards, nine each. -/
def vpn (va level : ℕ) : Fin 512 :=
  ⟨(va >>> (12 + 9 * level)) % 512, Nat.mod_lt _ (by decide)⟩

/-! ### Physical memory -/

/-- Physical memory with its page allocator. -/
@[ext]
structure Phys where
  /-- The page allocator. -/
  page : PageAllocator
  /-- The contents of memory. -/
  mem : Memory

namespace Phys

/-- Entry `i` of the table (512 entries of 8 bytes) at the address `pt`. -/
def entry (ph : Phys) (pt : ℕ) (i : Fin 512) : ℕ := ph.mem (pt / 8 + i)

/-- Overwrite entry `i` of the table at the address `pt`. -/
def setEntry (ph : Phys) (pt : ℕ) (i : Fin 512) (pte : ℕ) : Phys :=
  { ph with mem := Function.update ph.mem (pt / 8 + i) pte }

/-- `page::free`. -/
def freePage (ph : Phys) (addr : ℕ) : Phys := { ph with page := ph.page.free addr }

/-- `write_bytes(page, 0, PAGE_SIZE)`, and `PageTable::clear`. -/
def zeroPage (ph : Phys) (pa : ℕ) : Phys := { ph with mem := ph.mem.clear (pa / 8) 512 }

/-- `copy_nonoverlapping(src, dst, PAGE_SIZE)` for two page addresses. -/
def copyPage (ph : Phys) (src dst : ℕ) : Phys :=
  { ph with mem := ph.mem.copy (src / 8) (dst / 8) 512 }

/-- Copy bytes of a file to the address `dst`. -/
def copyIn (ph : Phys) (dst : ℕ) (data : List UInt8) : Phys :=
  { ph with mem := ph.mem.setBytes dst data }

/-- Store one byte. -/
def writeByte (ph : Phys) (pa : ℕ) (b : UInt8) : Phys := { ph with mem := ph.mem.setByte pa b }

end Phys

/-- `page::alloc`. -/
def allocPage : Fallible Phys ℕ := fun ph =>
  match ph.page.alloc with
  | some (pa, page) => some (some pa, { ph with page := page })
  | none => some (none, ph)

/-- A failing allocation changes nothing. -/
lemma allocPage_eq_none {ph ph' : Phys} (h : allocPage ph = some (none, ph')) : ph' = ph := by
  unfold allocPage at h
  split at h
  · simp at h
  · obtain rfl : ph = ph' := by simpa using h
    rfl

/-- Allocation changes no memory. -/
lemma allocPage_mem {ph ph' : Phys} {o : Option ℕ} (h : allocPage ph = some (o, ph')) : ph'.mem = ph.mem := by
  unfold allocPage at h
  split at h
  · obtain ⟨-, rfl⟩ := by simpa using h
    rfl
  · obtain ⟨-, rfl⟩ := by simpa using h
    rfl

/-! ### Page tables -/

namespace PageTable

/-- `pgtable::create`: a new empty table. -/
def create : Fallible Phys ℕ := do
  let addr ← allocPage
  Fallible.modify fun ph => ph.zeroPage addr
  return addr

/-- One level of `walk`: the table that an entry points to.  With `alloc`, a missing table is
created and linked. -/
def descend (alloc : Bool) (pt : ℕ) (idx : Fin 512) : Fallible Phys ℕ := do
  let pte ← Fallible.gets fun ph => ph.entry pt idx
  if !hasFlag pte pteV then
    if alloc then
      let newPt ← create
      Fallible.modify fun ph => ph.setEntry pt idx (paToPte newPt pteV)
      return newPt
    else Fallible.fail
  else if isLeaf pte then Fallible.fail
  else return pteToPa pte

/-- `pgtable::walk`: the table and index of the last-level entry for a virtual address. -/
def walk (pt va : ℕ) (alloc : Bool) : Fallible Phys (ℕ × Fin 512) := do
  let pt₁ ← descend alloc pt (vpn va 2)
  let pt₀ ← descend alloc pt₁ (vpn va 1)
  return (pt₀, vpn va 0)

/-- One iteration of `map`. -/
def mapPage (pt va pa flags : ℕ) : Fallible Phys Unit := do
  let (node, idx) ← walk pt va true
  let pte ← Fallible.gets fun ph => ph.entry node idx
  if hasFlag pte pteV then Fallible.fail
  else Fallible.modify fun ph => ph.setEntry node idx (paToPte pa (flags ||| pteV))

/-- `pgtable::map`. -/
def map (pt va pa size flags : ℕ) : Fallible Phys Unit :=
  if size = 0 ∨ va % pageSize ≠ 0 ∨ pa % pageSize ≠ 0 then Fallible.fail
  else Fallible.forRange (size / pageSize) fun i =>
    mapPage pt (wrap (va + i * pageSize)) (wrap (pa + i * pageSize)) flags

/-- One iteration of `set_flags`. -/
def setFlagsPage (pt va flags : ℕ) : Fallible Phys Unit := do
  let (node, idx) ← walk pt va false
  let pte ← Fallible.gets fun ph => ph.entry node idx
  if !hasFlag pte pteV then Fallible.fail
  else Fallible.modify fun ph => ph.setEntry node idx (paToPte (pteToPa pte) (flags ||| pteV))

/-- `pgtable::set_flags`. -/
def setFlags (pt va size flags : ℕ) : Fallible Phys Unit :=
  if size = 0 ∨ va % pageSize ≠ 0 ∨ size % pageSize ≠ 0 then Fallible.fail
  else Fallible.forRange (pageSteps 0 size) fun i =>
    setFlagsPage pt (wrap (va + i * pageSize)) flags

/-- One iteration of `unmap`: an entry that is not valid is skipped. -/
def unmapPage (pt va : ℕ) (freePage : Bool) : Fallible Phys Unit := do
  let (node, idx) ← walk pt va false
  let pte ← Fallible.gets fun ph => ph.entry node idx
  if !hasFlag pte pteV then return ()
  else
    if freePage then Fallible.modify fun ph => ph.freePage (pteToPa pte)
    Fallible.modify fun ph => ph.setEntry node idx 0

/-- `pgtable::unmap`. -/
def unmap (pt va size : ℕ) (freePage : Bool) : Fallible Phys Unit :=
  if size = 0 ∨ va % pageSize ≠ 0 then Fallible.fail
  else Fallible.forRange (size / pageSize) fun i =>
    unmapPage pt (wrap (va + i * pageSize)) freePage

/-- The result of `walk(pt, va, false)`, which changes nothing. -/
def slotOf (ph : Phys) (pt va : ℕ) : Option (ℕ × Fin 512) := (walk pt va false ph).bind Prod.fst

/-- The last-level entry for a virtual address, `none` when a table on the way is missing. -/
def findPte (ph : Phys) (pt va : ℕ) : Option ℕ :=
  (slotOf ph pt va).map fun slot => ph.entry slot.1 slot.2

/-- `pgtable::virt_to_phys`. -/
def virtToPhys (ph : Phys) (pt va : ℕ) : Option ℕ :=
  match findPte ph pt va with
  | none => none
  | some pte => if !hasFlag pte pteV then none else some (pteToPa pte + va % pageSize)

/-- `pgtable::free_walk`: free the tables below a table.  The recursion of the source follows the
entries without a bound of its own, on a kernel stack of one page; `depth` is the number of nested
calls after which the stack is exhausted and the machine halts. -/
def freeWalk : ℕ → ℕ → Fallible Phys Unit
  | 0, _ => Fallible.halt
  | depth + 1, pt => Fallible.forEach (List.finRange 512) fun i => do
    let pte ← Fallible.gets fun ph => ph.entry pt i
    if hasFlag pte pteV && !isLeaf pte then
      freeWalk depth (pteToPa pte)
      Fallible.modify fun ph => ph.freePage (pteToPa pte)
    else return ()

/-- The bound on nested calls of `freeWalk`.  Tables that `map` builds need three. -/
def walkDepth : ℕ := 32

/-- `pgtable::free`: free the tables below a table and the table itself. -/
def free (pt : ℕ) : Fallible Phys Unit := do
  freeWalk walkDepth pt
  Fallible.modify fun ph => ph.freePage pt

end PageTable

/-! ### Kernel mappings -/

namespace Vm

/-- `map_plic`. -/
def mapPlic (pt : ℕ) : Fallible Phys Unit :=
  Fallible.forEach plicPages fun addr => PageTable.map pt addr addr pageSize (pteR ||| pteW)

/-- `map_kernel`: the supervisor mappings that every page table carries. -/
def mapKernel (pt : ℕ) : Fallible Phys Unit := do
  PageTable.map pt kernelStart kernelStart kernelSize (pteR ||| pteW ||| pteX)
  PageTable.map pt uartBase uartBase pageSize (pteR ||| pteW)
  mapPlic pt

/-- `vm::init`: the kernel page table, with the same mappings. -/
def init : Fallible Phys ℕ := do
  let pt ← PageTable.create
  mapKernel pt
  return pt

end Vm

end NekOS
