import NekOS.Kernel.Task

/-!
# Loading programs

The ELF loader of `kernel/exec.rs`.  The fields of the headers are 64-bit values, and the address
arithmetic that the source does not check wraps.
-/

namespace NekOS

/-- The little-endian number in `n` bytes of a file, from the offset `off` on. -/
def leNat (data : List UInt8) (off : ℕ) : ℕ → ℕ
  | 0 => 0
  | n + 1 => (data.getD off 0).toNat + 256 * leNat data (off + 1) n

/-- The size of `Elf64Ehdr`. -/
def ehdrSize : ℕ := 64

/-- The size of `Elf64Phdr`. -/
def phdrSize : ℕ := 56

/-- `ET_EXEC`. -/
def etExec : ℕ := 2

/-- `EM_RISCV`. -/
def emRiscv : ℕ := 243

/-- `PT_LOAD`. -/
def ptLoad : ℕ := 1

/-- `PF_X`. -/
def pfX : ℕ := 1

/-- `PF_W`. -/
def pfW : ℕ := 2

/-- `PF_R`. -/
def pfR : ℕ := 4

/-- `Elf64Ehdr`: the fields that the loader reads. -/
structure Elf64Ehdr where
  /-- The first four bytes of `e_ident`. -/
  eIdent : List UInt8
  eType : ℕ
  eMachine : ℕ
  eEntry : ℕ
  ePhoff : ℕ
  ePhentsize : ℕ
  ePhnum : ℕ

/-- `Elf64Phdr`: the fields that the loader reads. -/
structure Elf64Phdr where
  pType : ℕ
  pFlags : ℕ
  pOffset : ℕ
  pVaddr : ℕ
  pFilesz : ℕ
  pMemsz : ℕ

/-- Read the ELF header of a file. -/
def Elf64Ehdr.read (data : List UInt8) : Elf64Ehdr where
  eIdent := data.take 4
  eType := leNat data 16 2
  eMachine := leNat data 18 2
  eEntry := leNat data 24 8
  ePhoff := leNat data 32 8
  ePhentsize := leNat data 54 2
  ePhnum := leNat data 56 2

/-- Read a program header of a file. -/
def Elf64Phdr.read (data : List UInt8) (off : ℕ) : Elf64Phdr where
  pType := leNat data off 4
  pFlags := leNat data (off + 4) 4
  pOffset := leNat data (off + 8) 8
  pVaddr := leNat data (off + 16) 8
  pFilesz := leNat data (off + 32) 8
  pMemsz := leNat data (off + 40) 8

/-- `LoadedImage`. -/
structure LoadedImage where
  pagetable : ℕ
  userStack : ℕ
  entry : ℕ
  imageBase : ℕ
  imageSize : ℕ

namespace Exec

/-- `ELFMAG0` to `ELFMAG3`. -/
def elfMagic : List UInt8 := [0x7f, 0x45, 0x4c, 0x46]

/-- `elf_verify`. -/
def elfVerify (ehdr : Elf64Ehdr) (size : ℕ) : Bool :=
  decide (ehdrSize ≤ size) && decide (ehdr.eIdent = elfMagic) && decide (ehdr.eType = etExec) &&
    decide (ehdr.eMachine = emRiscv) && decide (ehdr.ePhentsize = phdrSize) &&
    (checkedAdd ehdr.ePhoff (ehdr.ePhnum * ehdr.ePhentsize)).any fun stop => decide (stop ≤ size)

/-- The offset of program header `i`. -/
def phdrOffset (ehdr : Elf64Ehdr) (i : ℕ) : ℕ := wrap (ehdr.ePhoff + i * ehdr.ePhentsize)

/-- `va_start`: the page of the first byte of a segment. -/
def vaStart (phdr : Elf64Phdr) : ℕ := pageFloor phdr.pVaddr

/-- `va_end`: the page boundary after the last byte of a segment, wrapping. -/
def vaEnd (phdr : Elf64Phdr) : ℕ := pageCeil (wrap (phdr.pVaddr + phdr.pMemsz))

/-- `num_pages`. -/
def numPages (phdr : Elf64Phdr) : ℕ := wrapSub (vaEnd phdr) (vaStart phdr) / pageSize

/-- The bytes of the file that go to the page at `pageVa`, and their offset in the page. -/
def pageBytes (data : List UInt8) (phdr : Elf64Phdr) (pageVa : ℕ) : ℕ × List UInt8 :=
  let copyVaStart := max pageVa phdr.pVaddr
  let copyVaEnd := min (wrap (pageVa + pageSize)) (wrap (phdr.pVaddr + phdr.pFilesz))
  let srcOffset := wrapSub (wrap (phdr.pOffset + copyVaStart)) phdr.pVaddr
  (copyVaStart - pageVa, (data.drop srcOffset).take (copyVaEnd - copyVaStart))

/-- The permissions of the pages of a segment. -/
def segmentFlags (phdr : Elf64Phdr) : ℕ :=
  pteU ||| (if hasFlag phdr.pFlags pfR then pteR else 0) |||
    (if hasFlag phdr.pFlags pfW then pteW else 0) ||| (if hasFlag phdr.pFlags pfX then pteX else 0)

/-- One iteration of the inner loop of `elf_load`: allocate, fill and map a page of a segment. -/
def loadPage (pagetable : ℕ) (data : List UInt8) (phdr : Elf64Phdr) (j : ℕ) :
    Fallible Phys Unit := do
  let page ← allocPage
  Fallible.modify fun ph => ph.zeroPage page
  let pageVa := wrap (vaStart phdr + j * pageSize)
  let (dstOffset, bytes) := pageBytes data phdr pageVa
  Fallible.modify fun ph => ph.copyIn (page + dstOffset) bytes
  PageTable.map pagetable pageVa page pageSize (segmentFlags phdr)

/-- A segment that the loader passes over. -/
def skipped (phdr : Elf64Phdr) : Bool := decide (phdr.pType ≠ ptLoad) || decide (phdr.pMemsz = 0)

/-- The checks of `elf_load` on the file range of a segment. -/
def segmentOk (data : List UInt8) (phdr : Elf64Phdr) : Bool :=
  (checkedAdd phdr.pOffset phdr.pFilesz).any fun stop =>
    decide (phdr.pFilesz ≤ phdr.pMemsz) && decide (stop ≤ data.length)

/-- One iteration of the outer loop of `elf_load`.  The accumulator is the address range of the
segments so far. -/
def loadSegment (pagetable : ℕ) (data : List UInt8) (ehdr : Elf64Ehdr) (i : ℕ)
    (image : ℕ × ℕ) : Fallible Phys (ℕ × ℕ) :=
  let phdr := Elf64Phdr.read data (phdrOffset ehdr i)
  if skipped phdr then pure image
  else if !segmentOk data phdr then Fallible.fail
  else do
    Fallible.forRange (numPages phdr) (loadPage pagetable data phdr)
    return (min image.1 (vaStart phdr), max image.2 (vaEnd phdr))

/-- `elf_load`: the entry point and the base and size of the image. -/
def elfLoad (pagetable : ℕ) (data : List UInt8) (ehdr : Elf64Ehdr) :
    Fallible Phys (ℕ × ℕ × ℕ) := do
  let (imageStart, imageEnd) ← Fallible.foldRange ehdr.ePhnum (loadSegment pagetable data ehdr)
    (usizeMax, 0)
  if imageStart = usizeMax then Fallible.fail
  else return (ehdr.eEntry, imageStart, wrapSub imageEnd imageStart)

/-- `load`, for the file found under the name. -/
def loadFile (data : List UInt8) : Fallible Phys LoadedImage :=
  if data.length < ehdrSize then Fallible.fail
  else if !elfVerify (Elf64Ehdr.read data) data.length then Fallible.fail
  else do
    let pagetable ← PageTable.create
    Vm.mapKernel pagetable
    let (entry, imageBase, imageSize) ← elfLoad pagetable data (Elf64Ehdr.read data)
    let userStack ← allocPage
    Fallible.modify fun ph => ph.zeroPage userStack
    PageTable.map pagetable (userStackTop - pageSize) userStack pageSize (pteR ||| pteW ||| pteU)
    return ⟨pagetable, userStack, entry, imageBase, imageSize⟩

end Exec

namespace Kernel

/-- `initrd::find`. -/
def findFile (k : Kernel) (name : String) : Option (List UInt8) :=
  (k.files.find? fun file => file.1 = name).map Prod.snd

/-- `load`. -/
def load (name : String) : Fallible Kernel LoadedImage := do
  let k ← Fallible.gets id
  let data ← Fallible.ofOption (k.findFile name)
  onPhys (Exec.loadFile data)

/-- `spawn`. -/
def spawn (name : String) : Fallible Kernel ℕ := do
  let image ← load name
  createUserImage image.pagetable image.userStack image.entry image.imageBase image.imageSize

/-- `exec`: the frame in which the new program starts. -/
def exec (name : String) (tf : TrapFrame) : Fallible Kernel TrapFrame := do
  let image ← load name
  replaceCurrent image.pagetable image.userStack image.entry image.imageBase image.imageSize tf

end Kernel

end NekOS
