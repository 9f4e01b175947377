import NekOS.AddressSpace.Images

/-!
# The loader with all its checks

`load`, `spawn` and `exec` once more, halting at every sum, difference or product of file values that
leaves 64 bits and at every read outside the file.  Where this loader does not halt it does what the loader
of the kernel does.
-/

namespace NekOS

open PageTable

namespace Exec

/-! ### The checked loader -/

/-- Rounding up to a page boundary, `(x + PAGE_SIZE - 1) & !(PAGE_SIZE - 1)`, where the sum must not
overflow. -/
def strictCeil (x : ℕ) : Option ℕ := (checkedAdd x pageSize).map fun y => pageFloor (y - 1)

/-- The header of a file that has all its bytes. -/
def strictEhdr (data : List UInt8) : Option Elf64Ehdr :=
  if ehdrSize ≤ data.length then some (Elf64Ehdr.read data) else none

/-- A program header that has all its bytes in the file. -/
def strictPhdr (data : List UInt8) (off : ℕ) : Option Elf64Phdr :=
  if off + phdrSize ≤ data.length then some (Elf64Phdr.read data off) else none

/-- The checks of `elf_verify` before the one of the program header table. -/
def goodHeader (ehdr : Elf64Ehdr) (size : ℕ) : Bool :=
  decide (ehdrSize ≤ size) && decide (ehdr.eIdent = elfMagic) && decide (ehdr.eType = etExec) &&
    decide (ehdr.eMachine = emRiscv) && decide (ehdr.ePhentsize = phdrSize)

/-- `elf_verify`, where the product must not overflow. -/
def strictVerify (ehdr : Elf64Ehdr) (size : ℕ) : Option Bool :=
  if goodHeader ehdr size then
    (checkedMul ehdr.ePhnum ehdr.ePhentsize).map fun len =>
      (checkedAdd ehdr.ePhoff len).any fun stop => decide (stop ≤ size)
  else some false

/-- The copy of file bytes to the page at `pageVa`. -/
def strictCopy (data : List UInt8) (phdr : Elf64Phdr) (pageVa page : ℕ) : Fallible Phys Unit := do
  let pageEnd ← Fallible.unwrap (checkedAdd pageVa pageSize)
  let fileVaEnd ← Fallible.unwrap (checkedAdd phdr.pVaddr phdr.pFilesz)
  if max pageVa phdr.pVaddr < min pageEnd fileVaEnd then do
    let sum ← Fallible.unwrap (checkedAdd phdr.pOffset (max pageVa phdr.pVaddr))
    let srcOffset ← Fallible.unwrap (strictSub sum phdr.pVaddr)
    let dstOffset ← Fallible.unwrap (strictSub (max pageVa phdr.pVaddr) pageVa)
    let len ← Fallible.unwrap (strictSub (min pageEnd fileVaEnd) (max pageVa phdr.pVaddr))
    let bytes ← Fallible.unwrap (slice data srcOffset (srcOffset + len))
    Fallible.modify fun ph => ph.copyIn (page + dstOffset) bytes
  else pure ()

/-- `loadPage` with its checks. -/
def strictLoadPage (pagetable : ℕ) (data : List UInt8) (phdr : Elf64Phdr) (j : ℕ) :
    Fallible Phys Unit := do
  let page ← allocPage
  Fallible.modify fun ph => ph.zeroPage page
  let offset ← Fallible.unwrap (checkedMul j pageSize)
  let pageVa ← Fallible.unwrap (checkedAdd (vaStart phdr) offset)
  strictCopy data phdr pageVa page
  PageTable.map pagetable pageVa page pageSize (segmentFlags phdr)

/-- The pages of a segment with the checks of their addresses. -/
def strictLoadPages (pagetable : ℕ) (data : List UInt8) (phdr : Elf64Phdr) (image : ℕ × ℕ) :
    Fallible Phys (ℕ × ℕ) := do
  let stop ← Fallible.unwrap (checkedAdd phdr.pVaddr phdr.pMemsz)
  let vaEnd ← Fallible.unwrap (strictCeil stop)
  let size ← Fallible.unwrap (strictSub vaEnd (vaStart phdr))
  Fallible.forRange (size / pageSize) (strictLoadPage pagetable data phdr)
  return (min image.1 (vaStart phdr), max image.2 vaEnd)

/-- `loadSegment` with its checks. -/
def strictLoadSegment (pagetable : ℕ) (data : List UInt8) (ehdr : Elf64Ehdr) (i : ℕ)
    (image : ℕ × ℕ) : Fallible Phys (ℕ × ℕ) := do
  let step ← Fallible.unwrap (checkedMul i ehdr.ePhentsize)
  let off ← Fallible.unwrap (checkedAdd ehdr.ePhoff step)
  let phdr ← Fallible.unwrap (strictPhdr data off)
  if skipped phdr then pure image
  else if !segmentOk data phdr then Fallible.fail
  else strictLoadPages pagetable data phdr image

/-- `elfLoad` with its checks. -/
def strictElfLoad (pagetable : ℕ) (data : List UInt8) (ehdr : Elf64Ehdr) :
    Fallible Phys (ℕ × ℕ × ℕ) := do
  let image ← Fallible.foldRange ehdr.ePhnum (strictLoadSegment pagetable data ehdr) (usizeMax, 0)
  if image.1 = usizeMax then Fallible.fail
  else do
    let imageSize ← Fallible.unwrap (strictSub image.2 image.1)
    return (ehdr.eEntry, image.1, imageSize)

/-- `loadFile` with its checks. -/
def strictLoadFile (data : List UInt8) : Fallible Phys LoadedImage :=
  if data.length < ehdrSize then Fallible.fail
  else do
    let ehdr ← Fallible.unwrap (strictEhdr data)
    let ok ← Fallible.unwrap (strictVerify ehdr data.length)
    if !ok then Fallible.fail
    else do
      let pagetable ← PageTable.create
      Vm.mapKernel pagetable
      let image ← strictElfLoad pagetable data ehdr
      let userStack ← allocPage
      Fallible.modify fun ph => ph.zeroPage userStack
      PageTable.map pagetable (userStackTop - pageSize) userStack pageSize (pteR ||| pteW ||| pteU)
      return ⟨pagetable, userStack, image.1, image.2.1, image.2.2⟩

end Exec

namespace Kernel

open TaskManager

/-- `free_user_space`, where the end of the image must not overflow. -/
def strictFreeUserSpace (pagetable userStack imageBase imageSize heapBase heapEnd : ℕ) :
    Fallible Phys Unit := do
  let sum ← Fallible.unwrap (checkedAdd imageBase imageSize)
  let _ ← Fallible.unwrap (Exec.strictCeil sum)
  freeUserSpace pagetable userStack imageBase imageSize heapBase heapEnd

/-- `load` with its checks. -/
def strictLoad (name : String) : Fallible Kernel LoadedImage := do
  let k ← Fallible.gets id
  let data ← Fallible.ofOption (k.findFile name)
  onPhys (Exec.strictLoadFile data)

/-- `createUserImage` with its checks. -/
def strictCreateUserImage (pagetable userStack entry imageBase imageSize : ℕ) : Fallible Kernel ℕ := do
  let heapBase ← Fallible.ofOption (checkedAdd imageBase imageSize)
  let reject : Fallible Kernel ℕ := do
    onPhys (strictFreeUserSpace pagetable userStack imageBase imageSize heapBase heapBase)
    Fallible.fail
  if heapLimit < heapBase ∨ heapBase % pageSize ≠ 0 then reject
  else
    let m ← readTm
    match m.tasks.firstFree with
    | none => reject
    | some slot =>
      match ← Fallible.attempt (onPhys allocPage) with
      | none => reject
      | some kernelStack =>
        onTm fun m => m.bumpPid.incRunnable
        onTm (setTask slot (some (imageTask m pagetable userStack entry imageBase imageSize
          heapBase kernelStack)))
        return m.nextPid

/-- `replaceCurrent` with its checks. -/
def strictReplaceCurrent (pagetable userStack entry imageBase imageSize : ℕ) (tf : TrapFrame) :
    Fallible Kernel TrapFrame := do
  let heapBase ← Fallible.ofOption (checkedAdd imageBase imageSize)
  if heapLimit < heapBase ∨ heapBase % pageSize ≠ 0 then Fallible.fail
  else
    let m ← readTm
    let i ← Fallible.ofOption m.currentIndex
    let old ← Fallible.ofOption (m.tasks i)
    onTm (updateTask i fun t =>
      { t with
        pagetable := pagetable
        userStack := userStack
        entry := entry
        imageBase := imageBase
        imageSize := imageSize
        heapBase := heapBase
        heapEnd := heapBase })
    onPhys (strictFreeUserSpace old.pagetable old.userStack old.imageBase old.imageSize old.heapBase
      old.heapEnd)
    return { tf with sp := userStackTop, sepc := entry, a0 := 0, a1 := 0, a2 := 0 }

/-- `spawn` with its checks. -/
def strictSpawn (name : String) : Fallible Kernel ℕ := do
  let image ← strictLoad name
  strictCreateUserImage image.pagetable image.userStack image.entry image.imageBase image.imageSize

/-- `exec` with its checks. -/
def strictExec (name : String) (tf : TrapFrame) : Fallible Kernel TrapFrame := do
  let image ← strictLoad name
  strictReplaceCurrent image.pagetable image.userStack image.entry image.imageBase image.imageSize tf

end Kernel

end NekOS
