import NekOS.Userland.HeapRuns

/-!
# What programs get from the allocator

The memory behind the pointers of a program is inside the heap and apart from everything else, the blocks
fill the heap, and `realloc` keeps the contents, along every run of sane events.  `malloc` of a size next
to `SIZE_MAX`, and sizes whose block is a negative increment of the break, are the events that are not
sane.
-/

namespace NekOS

open TaskManager

/-- `sbrk` of the kernel, when it grants the call of a task, is `sbrk` of the C library. -/
lemma Kernel.sbrk_refines {increment : ℤ} {k k' : Kernel} {a : ℕ} {i : Fin maxTasks} {t : Task}
    (hrun : Kernel.sbrk increment k = some (some a, k')) (hi : k.tm.currentIndex = some i)
    (ht : k.tm.tasks i = some t) {h : Malloc.Heap} (hbrk : h.brk = t.heapEnd) :
    ∃ newEnd, k'.tm.tasks i = some { t with heapEnd := newEnd } ∧
      Malloc.sbrk t.heapBase true increment h = (some a, { h with brk := newEnd }) := by
  rcases sbrk_cases hrun with ⟨hnone, -⟩ | ⟨-, j, t', newEnd, -, -, r, ph, hj, ht', hadd, hbase, hlimit,
    -, -, -, ⟨hnone, -⟩ | ⟨ha, -, rfl⟩⟩
  · cases hnone
  · cases hnone
  obtain rfl := Option.some.inj (hi.symm.trans hj)
  obtain rfl := Option.some.inj (ht.symm.trans ht')
  obtain rfl := Option.some.inj ha
  obtain ⟨hrange, hend⟩ : (0 ≤ (t.heapEnd : ℤ) + increment ∧ (t.heapEnd : ℤ) + increment < 2 ^ 64) ∧
      ((t.heapEnd : ℤ) + increment).toNat = newEnd := by
    unfold checkedAddSigned at hadd
    split at hadd
    next h => exact ⟨h, Option.some.inj hadd⟩
    next => cases hadd
  refine ⟨newEnd, ?_, ?_⟩
  · simp [updateTask, setTask, ht]
  · unfold Malloc.sbrk
    dsimp only
    rw [hbrk, if_neg (by omega), if_neg (by simp), hend]

namespace Malloc

/-- The free list consists of the headers at these addresses. -/
def IsFreeList (h : Heap) (as : List ℕ) : Prop :=
  0 ∉ as ∧ ∃ bs : List Blk, bs.map Blk.addr = as ∧ Linked (nextField h.mem) h.freeList bs 0

/-- The links of a list that does not visit 0 determine its addresses. -/
lemma linked_addrs {next : ℕ → ℕ} {a : ℕ} {bs cs : List Blk} (hb : Linked next a bs 0)
    (hc : Linked next a cs 0) (hb₀ : 0 ∉ bs.map Blk.addr) (hc₀ : 0 ∉ cs.map Blk.addr) :
    bs.map Blk.addr = cs.map Blk.addr := by
  induction bs generalizing a cs with
  | nil =>
    obtain rfl : a = 0 := hb
    cases cs with
    | nil => rfl
    | cons c cs => exact absurd (List.mem_cons.mpr (Or.inl hc.1)) hc₀
  | cons b bs ih =>
    obtain ⟨rfl, hb⟩ := hb
    rw [List.map_cons, List.mem_cons, not_or] at hb₀
    cases cs with
    | nil => exact absurd hc (Ne.symm hb₀.1)
    | cons c cs =>
      obtain ⟨heq, hc⟩ := hc
      rw [List.map_cons, List.mem_cons, not_or] at hc₀
      rw [List.map_cons, List.map_cons, ← heq, ih hb (heq ▸ hc) hb₀.2 hc₀.2]

/-- The blocks on the free list. -/
lemma HeapInv.isFreeList {base : ℕ} {h : Heap} {frees lives : List Blk}
    (hi : HeapInv base h frees lives) {as : List ℕ} :
    IsFreeList h as ↔ as = frees.map Blk.addr := by
  have hzero : 0 ∉ frees.map Blk.addr := fun hmem => by
    obtain ⟨b, hb, hb₀⟩ := List.mem_map.mp hmem
    exact (hi.block (List.mem_append_left _ hb)).2.2.2.2.1 hb₀
  constructor
  · rintro ⟨has, bs, rfl, hlinked⟩
    exact linked_addrs hlinked hi.linked has hzero
  · rintro rfl
    exact ⟨hzero, frees, rfl, hi.linked⟩

namespace Program

section Claims

variable {base : ℕ} {p p' : Program} {e : Event} {frees : List Blk} {lives : List (Blk × ℕ)}

/-- The header of a block of the allocator is at the address. -/
def IsHeader (p : Program) (a : ℕ) : Prop :=
  (∃ x ∈ p.live, a = hdrFromPtr x.1) ∨ ∃ as, IsFreeList p.heap as ∧ a ∈ as

/-- The memory behind the pointers of a program, with the sizes that the headers give. -/
structure Sound (base : ℕ) (p : Program) : Prop where
  /-- It is in the heap, and not smaller than what was asked for. -/
  inside : ∀ x ∈ p.live, base ≤ x.1 ∧ x.2 ≤ p.payload x.1 ∧ x.1 + p.payload x.1 ≤ p.heap.brk
  /-- No two of the ranges overlap. -/
  apart : p.live.Pairwise fun x y => x.1 + p.payload x.1 ≤ y.1 ∨ y.1 + p.payload y.1 ≤ x.1
  /-- It contains no header. -/
  headers : ∀ x ∈ p.live, ∀ a, p.IsHeader a → x.1 + p.payload x.1 ≤ a ∨ a + headerSize ≤ x.1
  /-- It is none of what the program has obtained from `sbrk`. -/
  own : ∀ x ∈ p.live, ∀ o ∈ p.own, 0 < o.2 → x.1 + p.payload x.1 ≤ o.1 ∨ o.1 + o.2 ≤ x.1

namespace Inv

/-- What the pointers of a program lead to. -/
lemma sound (hi : Inv base p frees lives) : Sound base p := by
  have hblock : ∀ x ∈ lives, x.1 ∈ frees ++ lives.map Prod.fst := fun x hx =>
    List.mem_append_right _ (List.mem_map.mpr ⟨x, hx, rfl⟩)
  have hfacts : ∀ x ∈ lives, p.payload (x.1.addr + 16) = x.1.size - 16 ∧ 32 ≤ x.1.size := fun x hx =>
    ⟨hi.payload_eq hx, (hi.heap.block (hblock x hx)).2.1⟩
  have hlive : ∀ y ∈ p.live, ∃ x ∈ lives, (x.1.addr + 16, x.2) = y := fun y hy => by
    rw [hi.live] at hy
    exact List.mem_map.mp hy
  have hapart : ∀ x ∈ lives, ∀ b ∈ frees ++ lives.map Prod.fst, b.addr ≠ x.1.addr →
      x.1.Apart b := fun x hx b hb hne =>
    hi.heap.arena.apart.forall (hblock x hx) hb fun heq => hne (by rw [heq])
  refine ⟨fun y hy => ?_, ?_, fun y hy a ha => ?_, fun y hy o ho hpos => ?_⟩
  · obtain ⟨x, hx, rfl⟩ := hlive y hy
    obtain ⟨hpay, hleast⟩ := hfacts x hx
    obtain ⟨-, -, hstart, hstop, -⟩ := hi.heap.block (hblock x hx)
    have hroom := hi.room x hx
    rw [hpay]
    dsimp only
    omega
  · rw [hi.live, List.pairwise_map]
    have hpair := List.pairwise_map.mp (List.pairwise_append.mp hi.heap.arena.apart).2.1
    refine hpair.imp_of_mem fun {x y} hx hy hxy => ?_
    obtain ⟨hx₁, hx₂⟩ := hfacts x hx
    obtain ⟨hy₁, hy₂⟩ := hfacts y hy
    rw [hx₁, hy₁]
    unfold Blk.Apart Blk.stop at hxy
    dsimp only
    omega
  · obtain ⟨x, hx, rfl⟩ := hlive y hy
    obtain ⟨hpay, hleast⟩ := hfacts x hx
    have hheader : ∃ b ∈ frees ++ lives.map Prod.fst, b.addr = a := by
      rcases ha with ⟨y, hy, heq⟩ | ⟨as, has, hmem⟩
      · obtain ⟨z, hz, rfl⟩ := hlive y hy
        exact ⟨z.1, hblock z hz, (heq.trans (hi.heap.hdrFromPtr_eq (hblock z hz))).symm⟩
      · rw [hi.heap.isFreeList.mp has] at hmem
        obtain ⟨b, hb, rfl⟩ := List.mem_map.mp hmem
        exact ⟨b, List.mem_append_left _ hb, rfl⟩
    obtain ⟨b, hb, rfl⟩ := hheader
    have hb32 := (hi.heap.block hb).2.1
    rw [hpay]
    simp only [headerSize, alignment]
    by_cases heq : b.addr = x.1.addr
    · omega
    · have h := hapart x hx b hb heq
      unfold Blk.Apart Blk.stop at h
      omega
  · obtain ⟨x, hx, rfl⟩ := hlive y hy
    obtain ⟨hpay, hleast⟩ := hfacts x hx
    have h := hi.own_apart o ho hpos x.1 (hblock x hx)
    rw [hpay]
    unfold Blk.Apart Blk.stop at h
    dsimp only at h ⊢
    omega

end Inv

/-! ### Alignment -/

/-- A request that is served by a growth of the heap finds the break at a multiple of 16. -/
def GrowsAligned (base : ℕ) (p : Program) (e : Event) : Prop :=
  ∀ size granted, p.request e = some (size, granted) → Served base granted size p.heap →
    ¬ Fits (blockSize size) p.heap → p.heap.brk % alignment = 0

/-- The blocks of a program are aligned. -/
def BlocksAligned (frees : List Blk) (lives : List (Blk × ℕ)) : Prop :=
  ∀ b ∈ frees ++ lives.map Prod.fst, b.addr % 16 = 0

namespace Inv

/-- A step keeps the blocks aligned, if the heap grows at an aligned break. -/
lemma aligned_step {frees' : List Blk} {lives' : List (Blk × ℕ)} (hi : Inv base p frees lives)
    (hgrow : GrowsAligned base p e) (hchange : Changes base p p' e frees lives frees' lives')
    (haligned : BlocksAligned frees lives) : BlocksAligned frees' lives' := by
  rcases hchange with ⟨-, rfl, rfl⟩ | ⟨hshape, hsmall⟩
  · exact haligned
  · refine hshape.aligned haligned (fun hlt => ?_) (by decide)
    obtain ⟨size, granted, hask, hserved, hall⟩ := hsmall hlt
    refine hgrow size granted hask hserved fun hfits => ?_
    obtain ⟨d, hd, hle⟩ := hi.heap.fits_iff.mp hfits
    exact absurd (hall d hd) (by omega)

/-- The pointers to aligned blocks are aligned. -/
lemma live_aligned (hi : Inv base p frees lives) (haligned : BlocksAligned frees lives) :
    ∀ x ∈ p.live, x.1 % alignment = 0 := by
  rw [hi.live]
  intro y hy
  obtain ⟨x, hx, rfl⟩ := List.mem_map.mp hy
  have h := haligned x.1 (List.mem_append_right _ (List.mem_map.mpr ⟨x, hx, rfl⟩))
  simp only [alignment]
  omega

/-- A request does not move the break down. -/
lemma brk_le_of_request {frees' : List Blk} {lives' : List (Blk × ℕ)} {size : ℕ} {granted : Bool}
    (hchange : Changes base p p' e frees lives frees' lives')
    (hask : p.request e = some (size, granted)) : p.heap.brk ≤ p'.heap.brk := by
  rcases hchange with ⟨⟨increment, granted', rfl⟩, -⟩ | ⟨hshape, -⟩
  · cases hask
  · exact hshape.stop_le

end Inv

/-- The blocks of a program that gets there by sane events. -/
lemma inv_of_reaches (hpos : 0 < base) (hle : base ≤ heapLimit)
    (h : (machine base).Reaches (Sane base) p) : ∃ frees lives, Inv base p frees lives := by
  refine Machine.Reaches.invariant (I := fun q => ∃ frees lives, Inv base q frees lives)
    (fun s hs => ?_) (fun s e t hi hsane hstep => ?_) h
  · obtain ⟨m, rfl⟩ := hs
    exact ⟨[], [], inv_start hpos hle m⟩
  · obtain ⟨frees, lives, hi⟩ := hi
    obtain ⟨t', hstep', -, frees', lives', hi', -⟩ := hi.step_spec (allowed_of_step hstep) hsane
    obtain rfl := Option.some.inj (hstep.symm.trans hstep')
    exact ⟨frees', lives', hi'⟩

/-- **What `malloc` hands out.**  In every run of sane events in which the heap grows at aligned breaks,
the pointers of the program are aligned, and the memory behind them is large enough, in the heap, and apart
from all other such memory, from the headers and from what the program got from `sbrk` itself.  The next
such event goes through, a request does not move the break down, and one that is not served changes
nothing. -/
theorem allocations_sound (hpos : 0 < base) (hle : base ≤ heapLimit)
    (h : (machine base).Reaches (fun p e => Sane base p e ∧ GrowsAligned base p e) p) :
    (∀ x ∈ p.live, x.1 % alignment = 0) ∧ Sound base p ∧
    ∀ e, p.Allowed e → Sane base p e → ∃ p', step base p e = some p' ∧
      ∀ size granted, p.request e = some (size, granted) → p.heap.brk ≤ p'.heap.brk ∧
        (¬ Served base granted size p.heap → p' = p) := by
  have hinv : ∃ frees lives, Inv base p frees lives ∧ BlocksAligned frees lives := by
    refine Machine.Reaches.invariant
      (I := fun q => ∃ frees lives, Inv base q frees lives ∧ BlocksAligned frees lives)
      (fun s hs => ?_) (fun s e t hi hok hstep => ?_) h
    · obtain ⟨m, rfl⟩ := hs
      exact ⟨[], [], inv_start hpos hle m, by simp [BlocksAligned]⟩
    · obtain ⟨frees, lives, hi, haligned⟩ := hi
      obtain ⟨t', hstep', -, frees', lives', hi', hchange⟩ :=
        hi.step_spec (allowed_of_step hstep) hok.1
      obtain rfl := Option.some.inj (hstep.symm.trans hstep')
      exact ⟨frees', lives', hi', hi.aligned_step hok.2 hchange haligned⟩
  obtain ⟨frees, lives, hi, haligned⟩ := hinv
  refine ⟨hi.live_aligned haligned, hi.sound, fun e hallowed hsane => ?_⟩
  obtain ⟨p', hstep, hno, frees', lives', -, hchange⟩ := hi.step_spec hallowed hsane
  exact ⟨p', hstep, fun size granted hask =>
    ⟨Inv.brk_le_of_request hchange hask, hno size granted hask⟩⟩

/-! ### The blocks fill the heap -/

/-- A call of the allocator with sizes below 2^62, or a write of the program to its memory.  A product
that `calloc` rejects is no size. -/
def Modest : Event → Prop
  | .malloc size _ => size < 2 ^ 62
  | .calloc nmemb size _ => nmemb * size < 2 ^ 62 ∨ 2 ^ 64 ≤ nmemb * size
  | .realloc _ size _ => size < 2 ^ 62
  | .free _ => True
  | .sbrk _ _ => False
  | .store _ _ => True

/-- The blocks fill the heap, those on the free list are the ones with the flag, and the others are those
behind the pointers of the program. -/
structure Tiled (base : ℕ) (p : Program) (frees lives : List Blk) : Prop where
  tiles : Tiles base p.heap.brk (frees ++ lives)
  sized : ∀ b ∈ frees ++ lives, b.size % 16 = 0 ∧ 32 ≤ b.size
  once : ((frees ++ lives).map Blk.addr).Nodup
  list : IsFreeList p.heap (frees.map Blk.addr)
  live : p.live.map Prod.fst = lives.map fun b => ptrFromHdr b.addr
  size : ∀ b ∈ frees ++ lives, getSize p.heap.mem b.addr = b.size
  flag : ∀ b ∈ frees ++ lives, sizeField p.heap.mem b.addr % 2 = 1 ↔ b ∈ frees

/-- Such events are sane. -/
lemma sane_of_modest (hmodest : Modest e) : Sane base p e := by
  refine ⟨fun size granted hask _ => ?_, fun increment granted heq => ?_⟩
  · cases e with
    | malloc size' granted' =>
      cases hask
      have hlt : size < 2 ^ 62 := hmodest
      unfold InRange
      omega
    | calloc nmemb size' granted' =>
      unfold request at hask
      dsimp only at hask
      split at hask
      next hfits =>
        cases hask
        have hlt : nmemb * size' < 2 ^ 62 := hmodest.resolve_right (by omega)
        unfold InRange
        omega
      next => cases hask
    | realloc ptr size' granted' =>
      unfold request at hask
      dsimp only at hask
      split at hask
      next =>
        cases hask
        have hlt : size < 2 ^ 62 := hmodest
        unfold InRange
        omega
      next => cases hask
    | free => cases hask
    | sbrk => cases hask
    | store => cases hask
  · subst heq
    exact absurd hmodest id

/-- The blocks of the allocator, when they fill the heap. -/
lemma Inv.tiled (hi : Inv base p frees lives)
    (ht : Tiles base p.heap.brk (frees ++ lives.map Prod.fst)) :
    Tiled base p frees (lives.map Prod.fst) where
  tiles := ht
  sized b hb := ⟨(hi.heap.block hb).1, (hi.heap.block hb).2.1⟩
  once := hi.heap.arena.nodup (by decide)
  list := hi.heap.isFreeList.mpr rfl
  live := by
    rw [hi.live, List.map_map, List.map_map]
    refine List.map_congr_left fun x hx => ?_
    obtain ⟨-, -, -, -, -, hlt⟩ := hi.heap.block (b := x.1)
      (List.mem_append_right _ (List.mem_map.mpr ⟨x, hx, rfl⟩))
    change x.1.addr + 16 = wrap (x.1.addr + 16)
    exact (wrap_of_lt (by omega)).symm
  size b hb := hi.heap.getSize_eq hb
  flag b hb := by
    obtain ⟨hmod, -⟩ := hi.heap.block hb
    rcases List.mem_append.mp hb with hfree | hlive
    · rw [hi.heap.free b hfree]
      exact ⟨fun _ => hfree, fun _ => by omega⟩
    · rw [hi.heap.live b hlive]
      refine ⟨fun hodd => absurd hodd (by omega), fun hfree => ?_⟩
      have hfield := (hi.heap.free b hfree).symm.trans (hi.heap.live b hlive)
      omega

/-- **The heap is tiled.**  In every run of calls of the allocator with sizes below 2^62 the blocks fill
the heap up to the break.  The next call goes through, and it moves the break up only if no block of the
free list is large enough. -/
theorem heap_tiled (hpos : 0 < base) (hle : base ≤ heapLimit)
    (h : (machine base).Reaches (fun _ e => Modest e) p) :
    ∃ frees lives, Tiled base p frees lives ∧
      ∀ e, p.Allowed e → Modest e → ∃ p', step base p e = some p' ∧
        (p.heap.brk < p'.heap.brk → ∃ size granted, p.request e = some (size, granted) ∧
          ∀ b ∈ frees, b.size < blockSize size) := by
  have hinv : ∃ frees lives, Inv base p frees lives ∧
      Tiles base p.heap.brk (frees ++ lives.map Prod.fst) := by
    refine Machine.Reaches.invariant (I := fun q => ∃ frees lives, Inv base q frees lives ∧
      Tiles base q.heap.brk (frees ++ lives.map Prod.fst))
      (fun s hs => ?_) (fun s e t hi hok hstep => ?_) h
    · obtain ⟨m, rfl⟩ := hs
      exact ⟨[], [], inv_start hpos hle m, [], List.Perm.refl _, rfl⟩
    · obtain ⟨frees, lives, hi, ht⟩ := hi
      obtain ⟨t', hstep', -, frees', lives', hi', hchange⟩ :=
        hi.step_spec (allowed_of_step hstep) (sane_of_modest hok)
      obtain rfl := Option.some.inj (hstep.symm.trans hstep')
      rcases hchange with ⟨⟨increment, granted, rfl⟩, -⟩ | ⟨hshape, -⟩
      · exact absurd hok id
      · exact ⟨frees', lives', hi', hshape.tiles ht⟩
  obtain ⟨frees, lives, hi, ht⟩ := hinv
  refine ⟨frees, lives.map Prod.fst, hi.tiled ht, fun e hallowed hmodest => ?_⟩
  obtain ⟨p', hstep, -, frees', lives', -, hchange⟩ :=
    hi.step_spec hallowed (sane_of_modest hmodest)
  refine ⟨p', hstep, fun hlt => ?_⟩
  rcases hchange with ⟨⟨increment, granted, rfl⟩, -⟩ | ⟨-, hsmall⟩
  · exact absurd hmodest id
  · obtain ⟨size, granted, hask, -, hall⟩ := hsmall hlt
    exact ⟨size, granted, hask, hall⟩

/-! ### Moving a block -/

/-- The step of `realloc`, from its result. -/
lemma step_realloc {ptr size r : ℕ} {granted : Bool} {h' : Heap}
    (hallowed : p.Allowed (.realloc ptr size granted))
    (hrun : Malloc.realloc base granted ptr size p.heap = some (r, h')) :
    step base p (.realloc ptr size granted) =
      some (if r = 0 ∧ size ≠ 0 then { p with heap := h' }
        else ({ p with heap := h' }.drop ptr).hold r size) := by
  have hcond : size < 2 ^ 64 ∧ (ptr = 0 ∨ p.Holds ptr) := hallowed
  rw [step, if_pos hcond, hrun]
  rfl

/-- **`realloc` keeps contents.**  In every run of sane events, `realloc` of a pointer of the program to a
size from 1 to 2^62 - 1 returns `NULL` and changes nothing, or returns a pointer to memory of that size with
the old contents.  The memory behind the other pointers keeps its contents, and the old block is the one
returned or is on the free list once. -/
theorem realloc_keeps (hpos : 0 < base) (hle : base ≤ heapLimit)
    (h : (machine base).Reaches (Sane base) p) {ptr size : ℕ} (hptr : p.Holds ptr) (hsize : size ≠ 0)
    (hlt : size < 2 ^ 62) (granted : Bool) :
    ∃ p' r, step base p (.realloc ptr size granted) = some p' ∧
      Malloc.realloc base granted ptr size p.heap = some (r, p'.heap) ∧ Sound base p' ∧
      ((r = 0 ∧ p' = p) ∨
        r ≠ 0 ∧ (r, size) ∈ p'.live ∧
        (∀ i < min (p.payload ptr) size, p'.heap.mem (r + i) = p.heap.mem (ptr + i)) ∧
        (∀ y ∈ p.live, y.1 ≠ ptr → y ∈ p'.live ∧
          Bytes.Agree p.heap.mem p'.heap.mem y.1 (p.payload y.1)) ∧
        (r = ptr ∨ ∃ as, IsFreeList p'.heap as ∧ as.count (hdrFromPtr ptr) = 1)) := by
  obtain ⟨frees, lives, hi⟩ := inv_of_reaches hpos hle h
  obtain ⟨x, hx, rfl⟩ := hi.holds_iff.mp hptr
  have hallowed : p.Allowed (.realloc (x.1.addr + 16) size granted) := ⟨by omega, Or.inr hptr⟩
  have hmodest : Modest (.realloc (x.1.addr + 16) size granted) := hlt
  obtain ⟨p', hstep, -, frees', lives', hi', -⟩ := hi.step_spec hallowed (sane_of_modest hmodest)
  have hfst := (hi.perm_filter hx).map Prod.fst
  have hothers : ∀ y ∈ p.live, y.1 ≠ x.1.addr + 16 →
      y ∈ (p.drop (x.1.addr + 16)).live := fun y hy hne => by
    unfold drop
    exact List.mem_filter.mpr ⟨hy, by simpa using hne⟩
  have hrange : x.1.size < size + 16 → Served base granted size p.heap → InRange size := fun _ _ => by
    unfold InRange
    omega
  obtain ⟨r, h', hrun, ⟨-, -, rfl, rfl⟩ | ⟨hfit, rfl, rfl⟩ | ⟨hbig, -, frees₁, c, rfl, hm⟩⟩ :=
    (hi.heap.perm_lives hfst).realloc_spec hsize hrange
  · have hres := step_realloc hallowed hrun
    rw [if_pos ⟨rfl, hsize⟩, hstep] at hres
    obtain rfl := Option.some.inj hres
    exact ⟨p, 0, hstep, hrun, hi.sound, Or.inl ⟨rfl, rfl⟩⟩
  · have hres := step_realloc hallowed hrun
    rw [if_neg (fun h => absurd h.1 (by omega)), hold_block, hstep] at hres
    obtain rfl := Option.some.inj hres
    exact ⟨_, x.1.addr + 16, hstep, hrun, hi'.sound, Or.inr ⟨by omega, List.mem_cons_self ..,
      fun _ _ => rfl, fun y hy hne => ⟨List.mem_cons_of_mem _ (hothers y hy hne), fun _ _ _ => rfl⟩,
      Or.inl rfl⟩⟩
  · have hres := step_realloc hallowed hrun
    rw [if_neg (fun h => absurd h.1 (by omega)), hold_block, hstep] at hres
    obtain rfl := Option.some.inj hres
    refine ⟨_, c.addr + 16, hstep, hrun, hi'.sound, Or.inr ⟨by omega, List.mem_cons_self ..,
      fun i hlt' => ?_, fun y hy hne => ⟨List.mem_cons_of_mem _ (hothers y hy hne), ?_⟩, Or.inr ?_⟩⟩
    · rw [hi.payload_eq hx] at hlt'
      exact hm.copied i (by omega)
    · rw [hi.live] at hy
      obtain ⟨z, hz, rfl⟩ := List.mem_map.mp hy
      have hzmem : z.1 ∈ (lives.filter fun y => y.1.addr + 16 ≠ x.1.addr + 16).map Prod.fst := by
        refine List.mem_map.mpr ⟨z, List.mem_filter.mpr ⟨hz, ?_⟩, rfl⟩
        simpa using hne
      have hleast : 32 ≤ z.1.size :=
        (hi.heap.block (List.mem_append_right _ (List.mem_map.mpr ⟨z, hz, rfl⟩))).2.1
      rw [hi.payload_eq hz]
      exact (hm.keep z.1 hzmem).mono (by omega) (by omega)
    · have hb : x.1 ∈ frees ++ lives.map Prod.fst :=
        List.mem_append_right _ (List.mem_map.mpr ⟨x, hx, rfl⟩)
      refine ⟨_, hm.inv.isFreeList.mpr rfl, ?_⟩
      rw [hi.heap.hdrFromPtr_eq hb]
      have hnodup := hm.inv.arena.nodup (by decide)
      rw [List.map_append] at hnodup
      exact List.count_eq_one_of_mem (List.nodup_append.mp hnodup).1
        (List.mem_map.mpr ⟨x.1, List.mem_cons_self .., rfl⟩)

end Claims

/-! ### Concrete programs -/

/-- A program whose heap starts at 0x10000. -/
def sampleStart : Program := start 0x10000 fun _ => 0

/-- It can start. -/
lemma sampleStart_reaches (ok : Program → Event → Prop) : (machine 0x10000).Reaches ok sampleStart :=
  .init ⟨fun _ => 0, rfl⟩

/-- The program after a first `malloc` of 16 bytes. -/
lemma sample_malloc : ∃ p, step 0x10000 sampleStart (.malloc 16 true) = some p ∧
    p.live = [(0x10010, 16)] := by
  have hrun : (step 0x10000 sampleStart (.malloc 16 true)).map live = some [(0x10010, 16)] := by rfl
  exact Option.map_eq_some_iff.mp hrun

/-- That `malloc` finds an aligned break. -/
lemma sample_aligned {size : ℕ} {granted : Bool} :
    GrowsAligned 0x10000 sampleStart (.malloc size granted) :=
  fun _ _ _ _ _ => rfl

/-- The theorem for the program after a first `malloc`. -/
theorem allocations_sound_sample : ∃ p : Program, p.live = [(0x10010, 16)] ∧ Sound 0x10000 p ∧
    ∃ p', step 0x10000 p (.malloc 16 true) = some p' ∧ p.heap.brk ≤ p'.heap.brk := by
  obtain ⟨p, hstep, hlive⟩ := sample_malloc
  have hmodest : Modest (.malloc 16 true) := show 16 < 2 ^ 62 by decide
  have hreach := (sampleStart_reaches fun p e => Sane 0x10000 p e ∧ GrowsAligned 0x10000 p e).step
    ⟨sane_of_modest hmodest, sample_aligned⟩ hstep
  obtain ⟨-, hsound, hnext⟩ := allocations_sound (by decide) (by decide) hreach
  obtain ⟨p', hp', hask⟩ := hnext (.malloc 16 true) (show 16 < 2 ^ 64 by decide)
    (sane_of_modest hmodest)
  exact ⟨p, hlive, hsound, p', hp', (hask 16 true rfl).1⟩

/-- A request next to `SIZE_MAX` gets 16 bytes. -/
theorem allocation_too_small : ∃ p, (machine 0x10000).Reaches (fun _ _ => True) p ∧
    ¬ Sound 0x10000 p := by
  have hrun : ((machine 0x10000).step sampleStart (.malloc (2 ^ 64 - 1) true)).map
      (fun p => (p.live, p.payload 0x10010)) = some ([(0x10010, 2 ^ 64 - 1)], 16) := by rfl
  obtain ⟨p, hstep, hp⟩ := Option.map_eq_some_iff.mp hrun
  obtain ⟨hlive, hpay⟩ := Prod.mk.inj hp
  refine ⟨p, (sampleStart_reaches _).step trivial hstep, fun hsound => ?_⟩
  have hroom := (hsound.inside (0x10010, 2 ^ 64 - 1) (by rw [hlive]; simp)).2.1
  rw [hpay] at hroom
  omega

/-- The theorem for the program after a first `malloc`. -/
theorem heap_tiled_sample : ∃ (p : Program) (frees lives : List Blk), p.live = [(0x10010, 16)] ∧
    Tiled 0x10000 p frees lives := by
  obtain ⟨p, hstep, hlive⟩ := sample_malloc
  have hmodest : Modest (.malloc 16 true) := show 16 < 2 ^ 62 by decide
  have hreach := (sampleStart_reaches fun _ e => Modest e).step hmodest hstep
  obtain ⟨frees, lives, htiled, -⟩ := heap_tiled (by decide) (by decide) hreach
  exact ⟨p, frees, lives, hlive, htiled⟩

/-- The theorem for the pointer of a first `malloc`. -/
theorem realloc_keeps_sample : ∃ p p' : Program, p.Holds 0x10010 ∧
    step 0x10000 p (.realloc 0x10010 32 true) = some p' ∧ Sound 0x10000 p' := by
  obtain ⟨p, hstep, hlive⟩ := sample_malloc
  have hmodest : Modest (.malloc 16 true) := show 16 < 2 ^ 62 by decide
  have hreach := (sampleStart_reaches (Sane 0x10000)).step (sane_of_modest hmodest) hstep
  have hholds : p.Holds 0x10010 := ⟨(0x10010, 16), by rw [hlive]; simp, rfl⟩
  obtain ⟨p', -, hp', -, hsound, -⟩ := realloc_keeps (by decide) (by decide) hreach hholds
    (show 32 ≠ 0 by decide) (by decide) true
  exact ⟨p, p', hholds, hp', hsound⟩

/-- Two requests, a write to the second block, and a request that moves the break down. -/
def loweringEvents : List Event :=
  [.malloc 16 true, .malloc 16 true, .store 0x10030 7, .malloc (2 ^ 64 - 48) true]

/-- After a request that moves the break down, `realloc` writes to the memory behind another pointer. -/
theorem realloc_overwrites : ∃ p p' : Program, (machine 0x10000).Reaches (fun _ _ => True) p ∧
    p.Holds 0x10010 ∧ (0x10030, 16) ∈ p.live ∧ step 0x10000 p (.realloc 0x10010 32 true) = some p' ∧
    (0x10030, 32) ∈ p'.live ∧ p.heap.mem 0x10030 = 7 ∧ p'.heap.mem 0x10030 = 0 := by
  have hrun : ((machine 0x10000).run sampleStart loweringEvents).map
      (fun p => (p.live, p.heap.mem 0x10030,
        (step 0x10000 p (.realloc 0x10010 32 true)).map fun p' =>
          (p'.live.head?, p'.heap.mem 0x10030))) =
      some ([(0x10050, 2 ^ 64 - 48), (0x10030, 16), (0x10010, 16)], 7,
        some (some (0x10030, 32), 0)) := by
    set_option maxRecDepth 4000 in rfl
  obtain ⟨p, hp, hfacts⟩ := Option.map_eq_some_iff.mp hrun
  obtain ⟨hlive, hbefore, hstep⟩ := by simpa only [Prod.mk.injEq] using hfacts
  obtain ⟨p', hp', hafter⟩ := Option.map_eq_some_iff.mp hstep
  obtain ⟨hhead, hbyte⟩ := Prod.mk.inj hafter
  have hholds : p.Holds 0x10010 := ⟨(0x10010, 16), by rw [hlive]; simp, rfl⟩
  have htrivial : ∀ (es : List Event) (q : Program),
      (machine 0x10000).RunOk (fun _ _ => True) q es := fun es => by
    induction es with
    | nil => exact fun _ => trivial
    | cons e es ih => exact fun _ => ⟨trivial, fun t _ => ih t⟩
  exact ⟨p, p', (sampleStart_reaches _).run (htrivial _ _) hp, hholds,
    by rw [hlive]; simp, hp', List.mem_of_mem_head? hhead, hbefore, hbyte⟩

end Program

end Malloc

end NekOS
