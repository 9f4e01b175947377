import NekOS.Foundation.Bytes
import NekOS.Foundation.Machine
import NekOS.Kernel.Task

/-!
# The allocator of the C library

`malloc.c`, on top of `sbrk` of `posix.c`.  Every block starts with a header of two words, its size with
a flag in the lowest bit and the link of the free list; the blocks come from `sbrk`, which the program
may call as well.

Pointers are 64-bit values, `NULL` is 0.  The loops over the free list follow links in memory and need
not end: they get as many steps as there are addresses.
-/

namespace NekOS

namespace Malloc

/-! ### The headers -/

/-- `ALIGNMENT`. -/
def alignment : ℕ := 16

/-- `ALIGN_UP`. -/
def alignUp (x : ℕ) : ℕ := wrap (x + (alignment - 1)) / alignment * alignment

/-- `MIN_BLOCK_SIZE`. -/
def minBlockSize : ℕ := 32

/-- `HEADER_SIZE`. -/
def headerSize : ℕ := alignment

/-- The field `size` of the header at an address. -/
def sizeField (m : Bytes) (h : ℕ) : ℕ := m.load h 8

/-- The field `next` of the header at an address. -/
def nextField (m : Bytes) (h : ℕ) : ℕ := m.load (h + 8) 8

/-- Write the field `size`. -/
def setSize (m : Bytes) (h size : ℕ) : Bytes := m.store h size 8

/-- Write the field `next`. -/
def setNext (m : Bytes) (h next : ℕ) : Bytes := m.store (h + 8) next 8

/-- `GET_SIZE`. -/
def getSize (m : Bytes) (h : ℕ) : ℕ := sizeField m h / 2 * 2

/-- `SET_USED`. -/
def setUsed (m : Bytes) (h : ℕ) : Bytes := setSize m h (getSize m h)

/-- `SET_FREE`. -/
def setFree (m : Bytes) (h : ℕ) : Bytes := setSize m h (getSize m h + 1)

/-- `HDR_FROM_PTR`. -/
def hdrFromPtr (ptr : ℕ) : ℕ := wrapSub ptr headerSize

/-- `PTR_FROM_HDR`. -/
def ptrFromHdr (h : ℕ) : ℕ := wrap (h + headerSize)

/-- The size of the block for a request of `size` bytes. -/
def blockSize (size : ℕ) : ℕ := max (alignUp (wrap (size + headerSize))) minBlockSize

/-! ### The heap -/

/-- What the allocator works on: the memory of the program, `free_list`, and the program break that the
kernel keeps. -/
structure Heap where
  mem : Bytes
  freeList : ℕ
  brk : ℕ

/-- The number of steps after which a loop over the free list has seen every address. -/
def loopSteps : ℕ := 2 ^ 64

/-- `sbrk`, of a program whose heap starts at `base`: without a value it is `(void *)-1`.  The kernel
keeps the break between the start of the heap and `HEAP_LIMIT`, and may have no pages for a growth. -/
def sbrk (base : ℕ) (granted : Bool) (increment : ℤ) (s : Heap) : Option ℕ × Heap :=
  let newEnd := (s.brk : ℤ) + increment
  if newEnd < base ∨ TaskManager.heapLimit < newEnd then (none, s)
  else if 0 < increment ∧ granted = false then (none, s)
  else (some s.brk, { s with brk := newEnd.toNat })

/-- `request_more`. -/
def requestMore (base : ℕ) (granted : Bool) (total : ℕ) (s : Heap) : ℕ × Heap :=
  match sbrk base granted (asIsize total) s with
  | (none, s) => (0, s)
  | (some blk, s) => (blk, { s with mem := setNext (setFree (setSize s.mem blk total) blk) blk 0 })

/-- `add_to_free_list`. -/
def addToFreeList (blk : ℕ) (s : Heap) : Heap :=
  { s with mem := setNext (setFree s.mem blk) blk s.freeList, freeList := blk }

/-- The loop of `remove_from_free_list`: the block whose link is `blk`, or `NULL`. -/
def findPrev (m : Bytes) (blk : ℕ) : ℕ → ℕ → Option ℕ
  | 0, _ => none
  | steps + 1, prev =>
    if prev ≠ 0 ∧ nextField m prev ≠ blk then findPrev m blk steps (nextField m prev) else some prev

/-- `remove_from_free_list`. -/
def removeFromFreeList (blk : ℕ) (s : Heap) : Option Heap :=
  if s.freeList = blk then some { s with freeList := nextField s.mem blk }
  else do
    let prev ← findPrev s.mem blk loopSteps s.freeList
    let m := if prev ≠ 0 then setNext s.mem prev (nextField s.mem blk) else s.mem
    return { s with mem := setNext m blk 0 }

/-- The first-fit loop of `malloc`: the first block that is large enough, or `NULL`, and the one before
it. -/
def firstFit (m : Bytes) (total : ℕ) : ℕ → ℕ → ℕ → Option (ℕ × ℕ)
  | 0, _, _ => none
  | steps + 1, prev, blk =>
    if blk = 0 then some (prev, 0)
    else if total ≤ getSize m blk then some (prev, blk)
    else firstFit m total steps blk (nextField m blk)

/-- The link to `blk` now leads to `target`. -/
def relink (prev target : ℕ) (s : Heap) : Heap :=
  if prev ≠ 0 then { s with mem := setNext s.mem prev target } else { s with freeList := target }

/-- The body of the first-fit loop for a block that is large enough: the block is split, or leaves the
free list as it is. -/
def takeFit (total prev blk : ℕ) (s : Heap) : Heap :=
  let s :=
    if wrap (total + minBlockSize) ≤ getSize s.mem blk then
      let split := wrap (blk + total)
      let m := setFree (setSize s.mem split (wrapSub (getSize s.mem blk) total)) split
      let m := setNext m split (nextField m blk)
      relink prev split { s with mem := setSize m blk total }
    else relink prev (nextField s.mem blk) s
  { s with mem := setNext (setUsed s.mem blk) blk 0 }

/-- `malloc`: the pointer and the heap afterwards, when the loops end. -/
def malloc (base : ℕ) (granted : Bool) (size : ℕ) (s : Heap) : Option (ℕ × Heap) :=
  if size = 0 then some (0, s)
  else do
    let total := blockSize size
    let (prev, blk) ← firstFit s.mem total loopSteps 0 s.freeList
    if blk ≠ 0 then return (ptrFromHdr blk, takeFit total prev blk s)
    else
      let (blk, s) := requestMore base granted total s
      if blk = 0 then return (0, s)
      else
        let s ← removeFromFreeList blk s
        return (ptrFromHdr blk, { s with mem := setUsed s.mem blk })

/-- `free`. -/
def free (ptr : ℕ) (s : Heap) : Heap :=
  if ptr = 0 then s
  else addToFreeList (hdrFromPtr ptr) { s with mem := setFree s.mem (hdrFromPtr ptr) }

/-- `calloc`. -/
def calloc (base : ℕ) (granted : Bool) (nmemb size : ℕ) (s : Heap) : Option (ℕ × Heap) :=
  if nmemb ≠ 0 ∧ usizeMax / nmemb < size then some (0, s)
  else do
    let total := wrap (nmemb * size)
    let (ptr, s) ← malloc base granted total s
    return (ptr, if ptr ≠ 0 then { s with mem := s.mem.fill ptr 0 total } else s)

/-- `realloc`. -/
def realloc (base : ℕ) (granted : Bool) (ptr size : ℕ) (s : Heap) : Option (ℕ × Heap) :=
  if ptr = 0 then malloc base granted size s
  else if size = 0 then some (0, free ptr s)
  else
    let oldPayload := wrapSub (getSize s.mem (hdrFromPtr ptr)) headerSize
    if size ≤ oldPayload then some (ptr, s)
    else do
      let (newPtr, s) ← malloc base granted size s
      if newPtr = 0 then return (0, s)
      else return (newPtr, free ptr { s with mem := s.mem.copy ptr newPtr oldPayload })

/-! ### Programs -/

/-- What a program does with the allocator.  A growth of the heap is granted by the kernel or not. -/
inductive Event
  | malloc (size : ℕ) (granted : Bool)
  | calloc (nmemb size : ℕ) (granted : Bool)
  | realloc (ptr size : ℕ) (granted : Bool)
  | free (ptr : ℕ)
  | sbrk (increment : ℤ) (granted : Bool)
  /-- The program writes to memory. -/
  | store (a : ℕ) (b : UInt8)

/-- A program: its heap, the pointers it holds with the sizes it asked for, and the ranges that it has
obtained from `sbrk` itself. -/
structure Program where
  heap : Heap
  live : List (ℕ × ℕ)
  own : List (ℕ × ℕ)

namespace Program

/-- The program when it starts. -/
def start (base : ℕ) (m : Bytes) : Program := ⟨⟨m, 0, base⟩, [], []⟩

/-- The pointer is one that the program holds. -/
def Holds (p : Program) (ptr : ℕ) : Prop := ∃ x ∈ p.live, x.1 = ptr

instance (p : Program) (ptr : ℕ) : Decidable (p.Holds ptr) := by
  unfold Holds
  infer_instance

/-- The address lies in memory of the program. -/
def Owns (p : Program) (a : ℕ) : Prop :=
  (∃ x ∈ p.live, x.1 ≤ a ∧ a < x.1 + x.2) ∨ ∃ x ∈ p.own, x.1 ≤ a ∧ a < x.1 + x.2

instance (p : Program) (a : ℕ) : Decidable (p.Owns a) := by
  unfold Owns
  infer_instance

/-- The program holds another pointer, when it is none to nothing. -/
def hold (ptr size : ℕ) (p : Program) : Program :=
  if ptr = 0 then p else { p with live := (ptr, size) :: p.live }

/-- The program gives a pointer up. -/
def drop (ptr : ℕ) (p : Program) : Program :=
  { p with live := p.live.filter fun x => x.1 ≠ ptr }

/-- The ranges that lie below an address. -/
def clip (stop : ℕ) (own : List (ℕ × ℕ)) : List (ℕ × ℕ) :=
  own.map fun x => (x.1, min x.2 (stop - x.1))

/-- One event.  A program frees and reallocates the pointers that it holds, and writes to its own
memory. -/
def step (base : ℕ) (p : Program) : Event → Option Program
  | .malloc size granted =>
    if size < 2 ^ 64 then
      (Malloc.malloc base granted size p.heap).map fun r => { p with heap := r.2 }.hold r.1 size
    else none
  | .calloc nmemb size granted =>
    if nmemb < 2 ^ 64 ∧ size < 2 ^ 64 then
      (Malloc.calloc base granted nmemb size p.heap).map fun r =>
        { p with heap := r.2 }.hold r.1 (nmemb * size)
    else none
  | .realloc ptr size granted =>
    if size < 2 ^ 64 ∧ (ptr = 0 ∨ p.Holds ptr) then
      (Malloc.realloc base granted ptr size p.heap).map fun r =>
        if r.1 = 0 ∧ size ≠ 0 then { p with heap := r.2 }
        else ({ p with heap := r.2 }.drop ptr).hold r.1 size
    else none
  | .free ptr =>
    if ptr = 0 ∨ p.Holds ptr then some ({ p with heap := Malloc.free ptr p.heap }.drop ptr) else none
  | .sbrk increment granted =>
    let r := Malloc.sbrk base granted increment p.heap
    some { p with
      heap := r.2
      own := if increment < 0 then clip r.2.brk p.own
        else if r.1.isSome then (p.heap.brk, increment.toNat) :: p.own else p.own }
  | .store a b =>
    if p.Owns a then some { p with heap := { p.heap with mem := Function.update p.heap.mem a b } }
    else none

end Program

/-- A program that starts with a heap at `base`. -/
def machine (base : ℕ) : Machine Program Event where
  init p := ∃ m, p = Program.start base m
  step := Program.step base

end Malloc

end NekOS
