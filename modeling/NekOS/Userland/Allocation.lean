import NekOS.Userland.MallocSteps

/-!
# The operations of the allocator

What `malloc`, `free`, `calloc` and `realloc` do to the blocks.  A request is served from the free list
or by a growth of the heap; it makes a block of at least the size that was computed for it.  For requests
near the top of the range that size is too small, which is why the lemmas ask for `InRange` when the
request is served.
-/

namespace NekOS

namespace Malloc

/-! ### Requests -/

/-- The free list has a block of at least `total` bytes. -/
def Fits (total : ℕ) (h : Heap) : Prop :=
  ∃ q b, b ≠ 0 ∧ firstFit h.mem total loopSteps 0 h.freeList = some (q, b)

/-- The kernel grants the growth for a block of `total` bytes. -/
def Grants (base : ℕ) (granted : Bool) (total : ℕ) (h : Heap) : Prop :=
  (sbrk base granted (asIsize total) h).1.isSome

/-- The request is served: from the free list or by a growth of the heap. -/
def Served (base : ℕ) (granted : Bool) (size : ℕ) (h : Heap) : Prop :=
  size ≠ 0 ∧ (Fits (blockSize size) h ∨ Grants base granted (blockSize size) h)

/-- The size of the block can be computed and is a positive increment of the break. -/
def InRange (size : ℕ) : Prop := size + 31 < 2 ^ 63

/-- The block for a request that is in range has room for the header and for what was asked. -/
lemma blockSize_spec {size : ℕ} (hsize : InRange size) :
    blockSize size % 16 = 0 ∧ 32 ≤ blockSize size ∧ size + 16 ≤ blockSize size ∧
      blockSize size < 2 ^ 63 := by
  unfold InRange at hsize
  unfold blockSize alignUp minBlockSize
  simp only [alignment, headerSize]
  have hinner : wrap (size + 16) = size + 16 := wrap_of_lt (by omega)
  have houter : wrap (size + 16 + (16 - 1)) = size + 16 + (16 - 1) := wrap_of_lt (by omega)
  rw [hinner, houter]
  omega

section Ops

variable {base total size ptr : ℕ} {granted : Bool} {h h' : Heap} {frees lives : List Blk} {b : Blk}

/-- What an allocation does: a block of at least `total` bytes is in use, and the others keep their
contents. -/
structure Allocated (base total : ℕ) (h h' : Heap) (frees lives frees' : List Blk) (b : Blk) :
    Prop where
  inv : HeapInv base h' frees' (b :: lives)
  total_le : total ≤ b.size
  shape : Reshaped 16 32 (frees ++ lives) h.brk (frees' ++ b :: lives) h'.brk
  keep : ∀ d ∈ lives, Bytes.Agree h.mem h'.mem d.addr d.size
  small : h.brk < h'.brk → ∀ d ∈ frees, d.size < total

/-- The free list has a large enough block, if one of its blocks is large enough. -/
lemma HeapInv.fits_iff (hi : HeapInv base h frees lives) :
    Fits total h ↔ ∃ d ∈ frees, total ≤ d.size := by
  have hget : ∀ d ∈ frees, getSize h.mem d.addr = d.size := fun d hd =>
    hi.getSize_eq (List.mem_append_left _ hd)
  have hpos : ∀ d ∈ frees, d.addr ≠ 0 := fun d hd =>
    (hi.block (List.mem_append_left _ hd)).2.2.2.2.1
  rcases firstFit_spec total 0 hi.linked hget hpos hi.length_lt with
    ⟨hsmall, q, hrun⟩ | ⟨pre, d, post, hsplit, hfit, hrun⟩
  · constructor
    · rintro ⟨q', b', hb', hrun'⟩
      rw [hrun] at hrun'
      cases hrun'
      exact absurd rfl hb'
    · rintro ⟨d, hd, hle⟩
      exact absurd (hsmall d hd) (by omega)
  · have hmem : d ∈ frees := by simp [hsplit]
    exact ⟨fun _ => ⟨d, hmem, hfit⟩, fun _ => ⟨_, d.addr, hpos d hmem, hrun⟩⟩

/-- `sbrk` changes nothing, or moves the break within its bounds. -/
lemma sbrk_cases (base : ℕ) (granted : Bool) (increment : ℤ) (h : Heap) :
    sbrk base granted increment h = (none, h) ∨
      (base : ℤ) ≤ h.brk + increment ∧ (h.brk : ℤ) + increment ≤ TaskManager.heapLimit ∧
        sbrk base granted increment h =
          (some h.brk, { h with brk := ((h.brk : ℤ) + increment).toNat }) := by
  unfold sbrk
  dsimp only
  split
  next => exact Or.inl rfl
  next hin =>
    split
    · exact Or.inl rfl
    · exact Or.inr ⟨by omega, by omega, rfl⟩

/-- A growth of the heap by a positive increment. -/
lemma grants_iff (hbase : base ≤ h.brk) (hpos : 0 < total) (htotal : total < 2 ^ 63) :
    Grants base granted total h ↔ h.brk + total ≤ TaskManager.heapLimit ∧ granted = true := by
  have hcast : asIsize total = total := by
    unfold asIsize
    rw [Nat.mod_eq_of_lt (by omega), if_pos htotal]
  unfold Grants sbrk
  rw [hcast]
  dsimp only
  by_cases hlimit : h.brk + total ≤ TaskManager.heapLimit
  · rw [if_neg (by omega)]
    cases granted
    · rw [if_pos ⟨by omega, rfl⟩]
      simp
    · rw [if_neg (by simp)]
      simpa using hlimit
  · rw [if_pos (by omega)]
    simp [hlimit]

/-- `request_more` of what the kernel does not grant. -/
lemma requestMore_refused (hno : ¬ Grants base granted total h) :
    requestMore base granted total h = (0, h) := by
  unfold Grants at hno
  unfold requestMore
  rcases sbrk_cases base granted (asIsize total) h with hrun | ⟨-, -, hrun⟩
  · rw [hrun]
  · rw [hrun] at hno
    exact absurd rfl hno

/-- The header that `request_more` writes. -/
def grown (h : Heap) (total : ℕ) : Heap :=
  { h with
    mem := setNext (setFree (setSize h.mem h.brk total) h.brk) h.brk 0
    brk := h.brk + total }

/-- `request_more` of what the kernel grants. -/
lemma requestMore_granted (hbase : base ≤ h.brk) (hpos : 0 < total) (htotal : total < 2 ^ 63)
    (hyes : Grants base granted total h) :
    requestMore base granted total h = (h.brk, grown h total) := by
  obtain ⟨hlimit, rfl⟩ := (grants_iff hbase hpos htotal).mp hyes
  have hcast : asIsize total = total := by
    unfold asIsize
    rw [Nat.mod_eq_of_lt (by omega), if_pos htotal]
  unfold requestMore sbrk
  rw [hcast]
  dsimp only
  rw [if_neg (by omega), if_neg (by simp)]
  have hnat : ((h.brk : ℤ) + total).toNat = h.brk + total := by omega
  rw [hnat]
  rfl

namespace HeapInv

/-- A block of the heap lies below the break, so that the header behind it does not touch it. -/
lemma agree_grown (hi : HeapInv base h frees lives) (hb : b ∈ frees ++ lives) :
    Bytes.Agree h.mem (grown h total).mem b.addr b.size := by
  obtain ⟨-, -, -, hstop, -⟩ := hi.block hb
  exact (Bytes.Agree.trans (agree_setSize (by omega)) (agree_setSize (by omega))).trans
    (agree_setNext (by omega))

/-- A new block from the kernel: it never was on the free list, so that the loop that removes it finds
nothing. -/
lemma grow (hi : HeapInv base h frees lives) (htotal : total % 16 = 0) (hleast : 32 ≤ total)
    (hlimit : h.brk + total ≤ TaskManager.heapLimit) (hsmall : ∀ d ∈ frees, d.size < total) :
    ∃ s, removeFromFreeList h.brk (grown h total) = some s ∧
      Allocated base total h { s with mem := setUsed s.mem h.brk } frees lives frees ⟨h.brk, total⟩ := by
  have hbound : TaskManager.heapLimit < 2 ^ 62 := by decide
  have hpos := hi.base_pos
  have hbase := hi.base_le
  have hblock : ∀ {d : Blk}, d ∈ frees ++ lives → 32 ≤ d.size ∧ d.addr + d.size ≤ h.brk ∧
      d.addr ≠ 0 := fun hd => by
    obtain ⟨-, h₁, -, h₂, h₃, -⟩ := hi.block hd
    exact ⟨h₁, h₂, h₃⟩
  have hagree : ∀ d ∈ frees ++ lives, Bytes.Agree h.mem (grown h total).mem d.addr d.size :=
    fun d hd => hi.agree_grown hd
  have hlinked : Linked (nextField (grown h total).mem) h.freeList frees 0 :=
    hi.linked.congr fun d hd => by
      have := hblock (List.mem_append_left _ hd)
      exact nextField_congr ((hagree d (List.mem_append_left _ hd)).mono (by omega) (by omega))
  have hhead : (grown h total).freeList ≠ h.brk := by
    have hlink := hi.linked
    change h.freeList ≠ h.brk
    cases frees with
    | nil =>
      have hzero : h.freeList = 0 := hlink
      omega
    | cons d ds =>
      have := hblock (List.mem_append_left lives (List.mem_cons_self (a := d) (l := ds)))
      rw [hlink.1]
      omega
  have hother : ∀ d ∈ frees, d.addr ≠ h.brk := fun d hd => by
    have := hblock (List.mem_append_left _ hd)
    omega
  have hprev : findPrev (grown h total).mem h.brk loopSteps h.freeList = some 0 :=
    findPrev_spec hlinked hother (by omega) hi.length_lt
  refine ⟨{ grown h total with mem := setNext (grown h total).mem h.brk 0 }, ?_, ?_⟩
  · rw [removeFromFreeList, if_neg hhead]
    change (findPrev (grown h total).mem h.brk loopSteps h.freeList).bind _ = _
    rw [hprev]
    rfl
  have hkeep : ∀ d ∈ frees ++ lives, Bytes.Agree h.mem
      (setUsed (setNext (grown h total).mem h.brk 0) h.brk) d.addr d.size := fun d hd => by
    have := hblock hd
    exact ((hagree d hd).trans (agree_setNext (by omega))).trans (agree_setSize (by omega))
  have hfield : sizeField (setNext (grown h total).mem h.brk 0) h.brk = total + 1 := by
    have hset : sizeField (setFree (setSize h.mem h.brk total) h.brk) h.brk = total + 1 :=
      sizeField_setFree htotal (Or.inl (sizeField_setSize (by omega)))
    rw [← hset, sizeField_congr (agree_setNext (by omega))]
    exact sizeField_congr (agree_setNext (by omega))
  have hshape : Reshaped 16 32 (frees ++ lives) h.brk (frees ++ ⟨h.brk, total⟩ :: lives)
      (h.brk + total) := Reshaped.grow List.perm_middle htotal hleast
  have hrepr : Repr h frees lives := hi.toRepr
  have hkept : Repr { h with mem := setUsed (setNext (grown h total).mem h.brk 0) h.brk }
      frees lives :=
    hrepr.of_agree
      (fun d hd => (hkeep d (List.mem_append_left _ hd)).mono le_rfl
        (by have := hblock (List.mem_append_left lives hd); omega))
      (fun d hd => (hkeep d (List.mem_append_right _ hd)).mono le_rfl
        (by have := hblock (List.mem_append_right frees hd); omega))
  refine ⟨hi.of_reshaped ⟨hkept.linked, hkept.free, ?_⟩ hshape hlimit, le_rfl, hshape,
    fun d hd => hkeep d (List.mem_append_right _ hd), fun _ => hsmall⟩
  refine List.forall_mem_cons.mpr ⟨?_, hkept.live⟩
  exact sizeField_setUsed htotal (Or.inr hfield)

/-! ### The four functions -/

/-- `malloc` ends.  A request that is not served gets `NULL` and changes nothing; one that is served gets
the memory behind the header of a block. -/
lemma malloc_spec (hi : HeapInv base h frees lives) (granted : Bool) (size : ℕ)
    (hrange : Served base granted size h → InRange size) :
    ∃ r h', Malloc.malloc base granted size h = some (r, h') ∧
      ((¬ Served base granted size h ∧ r = 0 ∧ h' = h) ∨
        Served base granted size h ∧ ∃ frees' b, r = b.addr + 16 ∧
          Allocated base (blockSize size) h h' frees lives frees' b) := by
  rw [Malloc.malloc]
  by_cases hzero : size = 0
  · exact ⟨0, h, if_pos hzero, Or.inl ⟨fun hs => hs.1 hzero, rfl, rfl⟩⟩
  rw [if_neg hzero]
  dsimp only
  have hget : ∀ d ∈ frees, getSize h.mem d.addr = d.size := fun d hd =>
    hi.getSize_eq (List.mem_append_left _ hd)
  have hpos : ∀ d ∈ frees, d.addr ≠ 0 := fun d hd =>
    (hi.block (List.mem_append_left _ hd)).2.2.2.2.1
  rcases firstFit_spec (blockSize size) 0 hi.linked hget hpos hi.length_lt with
    ⟨hsmall, q, hrun⟩ | ⟨pre, d, post, rfl, hfit, hrun⟩
  · -- No block of the list is large enough.
    have hnofit : ¬ Fits (blockSize size) h := fun hfits => by
      obtain ⟨d, hd, hle⟩ := hi.fits_iff.mp hfits
      exact absurd (hsmall d hd) (by omega)
    rw [hrun]
    simp only [Option.bind_eq_bind, Option.bind_some, ne_eq, not_true_eq_false, if_false]
    by_cases hgrant : Grants base granted (blockSize size) h
    · have hserved : Served base granted size h := ⟨hzero, Or.inr hgrant⟩
      obtain ⟨hmod, hleast, -, hlt⟩ := blockSize_spec (hrange hserved)
      rw [requestMore_granted hi.base_le (by omega) hlt hgrant]
      have hbrk : h.brk ≠ 0 := by
        have := hi.base_pos
        have := hi.base_le
        omega
      obtain ⟨s, hremove, hdone⟩ := hi.grow hmod hleast
        ((grants_iff hi.base_le (by omega) hlt).mp hgrant).1 hsmall
      dsimp only
      rw [if_neg hbrk, hremove]
      have hptr : ptrFromHdr h.brk = h.brk + 16 := by
        have hlimit := hi.brk_le
        have hbound : TaskManager.heapLimit < 2 ^ 62 := by decide
        exact wrap_of_lt (by simp only [headerSize, alignment]; omega)
      exact ⟨_, _, rfl, Or.inr ⟨hserved, frees, ⟨h.brk, blockSize size⟩, hptr, hdone⟩⟩
    · rw [requestMore_refused hgrant]
      exact ⟨0, h, rfl, Or.inl ⟨fun hs => hs.2.elim hnofit hgrant, rfl, rfl⟩⟩
  · -- The first block that is large enough.
    have hmem : d ∈ pre ++ d :: post := by simp
    have hserved : Served base granted size h :=
      ⟨hzero, Or.inl (hi.fits_iff.mpr ⟨d, hmem, hfit⟩)⟩
    obtain ⟨hmod, hleast, -, hlt⟩ := blockSize_spec (hrange hserved)
    obtain ⟨c, frees', hc, hle, hinv, hbrk, hshape, hkeep⟩ := hi.takeFit hmod hleast hfit
    rw [hrun]
    simp only [Option.bind_eq_bind, Option.bind_some, ne_eq, hpos d hmem, not_false_eq_true, if_true]
    have hptr : ptrFromHdr d.addr = c.addr + 16 := by
      obtain ⟨-, -, -, -, -, hd⟩ := hi.block (List.mem_append_left lives hmem)
      rw [hc]
      exact wrap_of_lt (by simp only [headerSize, alignment]; omega)
    exact ⟨_, _, rfl, Or.inr ⟨hserved, frees', c, hptr, hinv, hle, hbrk.symm ▸ hshape, hkeep,
      fun hlt' => absurd hbrk hlt'.ne'⟩⟩

/-- The header of a pointer to the memory of a block. -/
lemma hdrFromPtr_eq (hi : HeapInv base h frees lives) (hb : b ∈ frees ++ lives) :
    hdrFromPtr (b.addr + 16) = b.addr := by
  obtain ⟨-, -, -, -, -, hlt⟩ := hi.block hb
  simp only [hdrFromPtr, wrapSub, headerSize, alignment]
  omega

/-- `free` moves a block to the front of the free list.  The blocks in use keep their contents. -/
lemma free_spec (hi : HeapInv base h frees (b :: lives)) :
    HeapInv base (Malloc.free (b.addr + 16) h) (b :: frees) lives ∧
      (Malloc.free (b.addr + 16) h).brk = h.brk ∧
      ∀ d ∈ lives, Bytes.Agree h.mem (Malloc.free (b.addr + 16) h).mem d.addr d.size := by
  have hb : b ∈ frees ++ b :: lives := by simp
  obtain ⟨hsize, hleast, -, -, -, hlt⟩ := hi.block hb
  have hperm : (frees ++ b :: lives).Perm (b :: (frees ++ lives)) := List.perm_middle
  have hapart : ∀ d ∈ frees ++ lives, b.addr + b.size ≤ d.addr ∨ d.addr + d.size ≤ b.addr :=
    fun d hd => (hi.arena.perm hperm).apart_cons hd
  have hblock : ∀ d ∈ frees ++ lives, 32 ≤ d.size := fun d hd =>
    (hi.block (hperm.mem_iff.mpr (List.mem_cons_of_mem _ hd))).2.1
  rw [Malloc.free, if_neg (by omega), hi.hdrFromPtr_eq hb, addToFreeList]
  have hfirst : sizeField (setFree h.mem b.addr) b.addr = b.size + 1 :=
    sizeField_setFree hsize (Or.inl (hi.live b (List.mem_cons_self ..)))
  have hsecond : sizeField (setFree (setFree h.mem b.addr) b.addr) b.addr = b.size + 1 :=
    sizeField_setFree hsize (Or.inr hfirst)
  have hhead : h.freeList < 2 ^ 64 := by
    have hlink := hi.linked
    cases frees with
    | nil =>
      have hzero : h.freeList = 0 := hlink
      omega
    | cons d ds =>
      obtain ⟨-, -, -, -, -, hd⟩ := hi.block (b := d) (by simp)
      rw [hlink.1]
      omega
  have hkeep : ∀ d ∈ frees ++ lives, Bytes.Agree h.mem
      (setNext (setFree (setFree h.mem b.addr) b.addr) b.addr h.freeList) d.addr d.size :=
    fun d hd => by
      have := hapart d hd
      exact (Bytes.Agree.trans (agree_setSize (by omega)) (agree_setSize (by omega))).trans
        (agree_setNext (by omega))
  have hold : Repr h frees lives := ⟨hi.linked, hi.free, fun d hd =>
    hi.live d (List.mem_cons_of_mem _ hd)⟩
  have hkept := hold.of_agree
    (fun d hd => (hkeep d (List.mem_append_left _ hd)).mono le_rfl
      (by have := hblock d (List.mem_append_left _ hd); omega))
    (fun d hd => (hkeep d (List.mem_append_right _ hd)).mono le_rfl
      (by have := hblock d (List.mem_append_right _ hd); omega))
  refine ⟨⟨⟨⟨rfl, ?_⟩, ?_, hkept.live⟩, hi.base_pos, hi.base_le, hi.brk_le, ?_⟩, rfl,
    fun d hd => hkeep d (List.mem_append_right _ hd)⟩
  · have hlink := hkept.linked
    rwa [nextField_setNext hhead]
  · refine List.forall_mem_cons.mpr ⟨?_, hkept.free⟩
    rw [sizeField_congr (agree_setNext (by omega)), hsecond]
  · exact hi.arena.perm hperm

/-- The order of the blocks in use does not matter. -/
lemma perm_lives {lives' : List Blk} (hi : HeapInv base h frees lives) (hp : lives.Perm lives') :
    HeapInv base h frees lives' where
  linked := hi.linked
  free := hi.free
  live d hd := hi.live d (hp.mem_iff.mpr hd)
  base_pos := hi.base_pos
  base_le := hi.base_le
  brk_le := hi.brk_le
  arena := hi.arena.perm (hp.append_left frees)

/-- Writes to the memory behind the header of a block in use leave the other blocks alone. -/
lemma agree_payload {m' : Bytes} (hi : HeapInv base h frees (b :: lives))
    (hm : ∀ x, x < b.addr + 16 ∨ b.addr + b.size ≤ x → m' x = h.mem x) {d : Blk}
    (hd : d ∈ frees ++ lives) : Bytes.Agree h.mem m' d.addr d.size := by
  have hperm : (frees ++ b :: lives).Perm (b :: (frees ++ lives)) := List.perm_middle
  have hapart : b.addr + b.size ≤ d.addr ∨ d.addr + d.size ≤ b.addr :=
    (hi.arena.perm hperm).apart_cons hd
  exact fun x hx hlt => hm x (by omega)

/-- Writes to the memory behind the header of a block in use keep the headers. -/
lemma write {m' : Bytes} (hi : HeapInv base h frees (b :: lives))
    (hm : ∀ x, x < b.addr + 16 ∨ b.addr + b.size ≤ x → m' x = h.mem x) :
    HeapInv base { h with mem := m' } frees (b :: lives) := by
  have hleast : ∀ d ∈ frees ++ b :: lives, 32 ≤ d.size := fun d hd => (hi.block hd).2.1
  have hrepr : Repr { h with mem := m' } frees (b :: lives) := by
    refine hi.toRepr.of_agree (fun d hd => ?_) (List.forall_mem_cons.mpr ⟨?_, fun d hd => ?_⟩)
    · have hsize := hleast d (List.mem_append_left _ hd)
      exact (hi.agree_payload hm (List.mem_append_left _ hd)).mono le_rfl (by omega)
    · exact fun x hx hlt => hm x (by omega)
    · have hsize := hleast d (List.mem_append_right _ (List.mem_cons_of_mem _ hd))
      exact (hi.agree_payload hm (List.mem_append_right _ hd)).mono le_rfl (by omega)
  exact ⟨hrepr, hi.base_pos, hi.base_le, hi.brk_le, hi.arena⟩

end HeapInv

/-- An allocation followed by writes to the memory that it returns. -/
lemma Allocated.write {frees' : List Blk} (ha : Allocated base total h h' frees lives frees' b)
    (m' : Bytes)
    (hm : ∀ x, x < b.addr + 16 ∨ b.addr + b.size ≤ x → m' x = h'.mem x) :
    Allocated base total h { h' with mem := m' } frees lives frees' b where
  inv := ha.inv.write hm
  total_le := ha.total_le
  shape := ha.shape
  keep d hd := (ha.keep d hd).trans (ha.inv.agree_payload hm (List.mem_append_right _ hd))
  small := ha.small

namespace HeapInv

/-- `calloc` ends.  It is `malloc` of the product, if that is a `size_t`, and the memory is zero. -/
lemma calloc_spec {nmemb : ℕ} (hi : HeapInv base h frees lives)
    (hrange : Served base granted (nmemb * size) h → nmemb * size < 2 ^ 64 →
      InRange (nmemb * size)) :
    ∃ r h', calloc base granted nmemb size h = some (r, h') ∧
      (((2 ^ 64 ≤ nmemb * size ∨ ¬ Served base granted (nmemb * size) h) ∧ r = 0 ∧ h' = h) ∨
        nmemb * size < 2 ^ 64 ∧ Served base granted (nmemb * size) h ∧ ∃ frees' b, r = b.addr + 16 ∧
          Allocated base (blockSize (nmemb * size)) h h' frees lives frees' b ∧
          ∀ x, r ≤ x → x < r + nmemb * size → h'.mem x = 0) := by
  have hover : nmemb ≠ 0 ∧ usizeMax / nmemb < size ↔ 2 ^ 64 ≤ nmemb * size := by
    rcases Nat.eq_zero_or_pos nmemb with rfl | hpos
    · simp
    · rw [Nat.div_lt_iff_lt_mul hpos, usizeMax, mul_comm size]
      exact ⟨fun hlt => by omega, fun hle => ⟨hpos.ne', by omega⟩⟩
  rw [calloc]
  by_cases hbig : 2 ^ 64 ≤ nmemb * size
  · exact ⟨0, h, if_pos (hover.mpr hbig), Or.inl ⟨Or.inl hbig, rfl, rfl⟩⟩
  rw [if_neg fun hno => hbig (hover.mp hno), wrap_of_lt (by omega)]
  dsimp only
  obtain ⟨r, h', hrun, ⟨hno, rfl, rfl⟩ | ⟨hserved, frees', b, rfl, hdone⟩⟩ :=
    hi.malloc_spec granted (nmemb * size) fun hs => hrange hs (by omega)
  · rw [hrun]
    exact ⟨0, h', rfl, Or.inl ⟨Or.inr hno, rfl, rfl⟩⟩
  · obtain ⟨-, -, hroom, -⟩ := blockSize_spec (hrange hserved (by omega))
    have hle := hdone.total_le
    rw [hrun]
    refine ⟨b.addr + 16, { h' with mem := h'.mem.fill (b.addr + 16) 0 (nmemb * size) }, ?_,
      Or.inr ⟨by omega, hserved, frees', b, rfl, hdone.write _ fun x hx => ?_, fun x hx hlt => ?_⟩⟩
    · exact congrArg (fun s => some (b.addr + 16, s)) (if_pos (by omega))
    · exact Bytes.fill_apply (by omega)
    · exact Bytes.fill_self hx hlt

/-- What `realloc` does when it moves a block: there is a new block in use with the old contents, and the
old one is in front on the free list. -/
structure Moved (base size : ℕ) (h h' : Heap) (frees lives frees' : List Blk) (b c : Blk) : Prop where
  inv : HeapInv base h' (b :: frees') (c :: lives)
  room : size + 16 ≤ c.size
  shape : Reshaped 16 32 (frees ++ b :: lives) h.brk (b :: frees' ++ c :: lives) h'.brk
  keep : ∀ d ∈ lives, Bytes.Agree h.mem h'.mem d.addr d.size
  copied : ∀ i, i + 16 < b.size → h'.mem (c.addr + 16 + i) = h.mem (b.addr + 16 + i)
  small : h.brk < h'.brk → ∀ d ∈ frees, d.size < blockSize size

/-- `realloc` of a block in use, to a size that is not 0, ends.  It returns `NULL` and changes nothing,
returns the same pointer and changes nothing, or moves the block. -/
lemma realloc_spec (hi : HeapInv base h frees (b :: lives)) (hsize : size ≠ 0)
    (hrange : b.size < size + 16 → Served base granted size h → InRange size) :
    ∃ r h', realloc base granted (b.addr + 16) size h = some (r, h') ∧
      ((b.size < size + 16 ∧ ¬ Served base granted size h ∧ r = 0 ∧ h' = h) ∨
        (size + 16 ≤ b.size ∧ r = b.addr + 16 ∧ h' = h) ∨
        (b.size < size + 16 ∧ Served base granted size h ∧
          ∃ frees' c, r = c.addr + 16 ∧ Moved base size h h' frees lives frees' b c)) := by
  have hb : b ∈ frees ++ b :: lives := by simp
  obtain ⟨-, hleast, -, -, -, hlt⟩ := hi.block hb
  have hold : wrapSub (getSize h.mem (hdrFromPtr (b.addr + 16))) headerSize = b.size - 16 := by
    rw [hi.hdrFromPtr_eq hb, hi.getSize_eq hb]
    simp only [wrapSub, headerSize, alignment]
    omega
  rw [realloc, if_neg (by omega), if_neg hsize]
  dsimp only
  rw [hold]
  by_cases hfit : size ≤ b.size - 16
  · exact ⟨_, h, if_pos hfit, Or.inr (Or.inl ⟨by omega, rfl, rfl⟩)⟩
  rw [if_neg hfit]
  obtain ⟨r, h', hrun, ⟨hno, rfl, rfl⟩ | ⟨hserved, frees', c, rfl, hdone⟩⟩ :=
    hi.malloc_spec granted size fun hs => hrange (by omega) hs
  · rw [hrun]
    exact ⟨0, h', rfl, Or.inl ⟨by omega, hno, rfl, rfl⟩⟩
  obtain ⟨-, -, hroom, -⟩ := blockSize_spec (hrange (by omega) hserved)
  have hle := hdone.total_le
  have hapart : c.addr + c.size ≤ b.addr ∨ b.addr + b.size ≤ c.addr := by
    have hperm : (frees' ++ c :: b :: lives).Perm (c :: (frees' ++ b :: lives)) := List.perm_middle
    exact (hdone.inv.arena.perm hperm).apart_cons (by simp)
  have hwritten := hdone.write (h'.mem.copy (b.addr + 16) (c.addr + 16) (b.size - 16))
    fun x hx => Bytes.copy_apply (by omega)
  set s : Heap := { h' with mem := h'.mem.copy (b.addr + 16) (c.addr + 16) (b.size - 16) } with hs
  obtain ⟨hfreed, hbrk, hkeep⟩ := (hwritten.inv.perm_lives (List.Perm.swap b c lives)).free_spec
  refine ⟨c.addr + 16, Malloc.free (b.addr + 16) s, ?_, Or.inr (Or.inr ⟨by omega, hserved, frees', c,
    rfl, hfreed, by omega, ?_, fun d hd => ?_, fun i hi' => ?_, ?_⟩)⟩
  · rw [hrun]
    change (if c.addr + 16 = 0 then some (0, h') else some (c.addr + 16, Malloc.free (b.addr + 16) s)) = _
    rw [if_neg (by omega)]
  · rw [hbrk]
    refine hdone.shape.trans_perm ?_
    exact (List.perm_middle.trans ((List.perm_middle).cons c)).trans
      ((List.Perm.swap b c _).trans (List.perm_middle.symm.cons b))
  · exact (hwritten.keep d (List.mem_cons_of_mem _ hd)).trans
      (hkeep d (List.mem_cons_of_mem _ hd))
  · have hc := hkeep c (List.mem_cons_self ..) (c.addr + 16 + i) (by omega) (by omega)
    rw [hc]
    have hcopy : s.mem (c.addr + 16 + i) = h'.mem (b.addr + 16 + i) :=
      Bytes.copy_self (by omega) (by omega)
    rw [hcopy]
    exact hdone.keep b (List.mem_cons_self ..) _ (by omega) (by omega)
  · rw [hbrk]
    exact hdone.small

end HeapInv

end Ops

end Malloc

end NekOS
