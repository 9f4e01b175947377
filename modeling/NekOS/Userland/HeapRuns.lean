import NekOS.Kernel.TaskSteps
import NekOS.Userland.Allocation

/-!
# Programs that allocate

A program calls the allocator and `sbrk`, and writes to the memory that it has obtained.  As long as the
requests that are served are in range, and the program gives back by `sbrk` only what it has obtained by
`sbrk`, the blocks of the allocator stay what its headers say.
-/

namespace NekOS

namespace Malloc

namespace Program

/-! ### Requests of a program -/

/-- The size of the memory behind a pointer, from its header. -/
def payload (p : Program) (ptr : ℕ) : ℕ := wrapSub (getSize p.heap.mem (hdrFromPtr ptr)) headerSize

/-- The size for which an event calls `malloc`, and whether the kernel has pages for a growth. -/
def request (p : Program) : Event → Option (ℕ × Bool)
  | .malloc size granted => some (size, granted)
  | .calloc nmemb size granted => if nmemb * size < 2 ^ 64 then some (nmemb * size, granted) else none
  | .realloc ptr size granted =>
    if ptr = 0 ∨ size ≠ 0 ∧ p.payload ptr < size then some (size, granted) else none
  | _ => none

/-- What the event asks for is in range, if it is served. -/
def AsksInRange (base : ℕ) (p : Program) (e : Event) : Prop :=
  ∀ size granted, p.request e = some (size, granted) → Served base granted size p.heap → InRange size

/-- A call of `sbrk` that lowers the break gives back memory that the program has obtained from it. -/
def GivesOwn (base : ℕ) (p : Program) (e : Event) : Prop :=
  ∀ increment granted, e = .sbrk increment granted → increment < 0 →
    (base : ℤ) ≤ p.heap.brk + increment → ∀ a, (p.heap.brk : ℤ) + increment ≤ a → a < p.heap.brk →
      ∃ o ∈ p.own, o.1 ≤ a ∧ a < o.1 + o.2

/-- The event is one that the allocator is made for. -/
def Sane (base : ℕ) (p : Program) (e : Event) : Prop := AsksInRange base p e ∧ GivesOwn base p e

/-- The event is a call that a program may make: with values of 64 bits and pointers that it holds. -/
def Allowed (p : Program) : Event → Prop
  | .malloc size _ => size < 2 ^ 64
  | .calloc nmemb size _ => nmemb < 2 ^ 64 ∧ size < 2 ^ 64
  | .realloc ptr size _ => size < 2 ^ 64 ∧ (ptr = 0 ∨ p.Holds ptr)
  | .free ptr => ptr = 0 ∨ p.Holds ptr
  | .sbrk _ _ => True
  | .store a _ => p.Owns a

/-- The blocks of the allocator in a program: those on the free list, and those in use with the size that
was asked for. -/
structure Inv (base : ℕ) (p : Program) (frees : List Blk) (lives : List (Blk × ℕ)) : Prop where
  heap : HeapInv base p.heap frees (lives.map Prod.fst)
  live : p.live = lives.map fun x => (x.1.addr + 16, x.2)
  room : ∀ x ∈ lives, x.2 + 16 ≤ x.1.size
  own_le : ∀ o ∈ p.own, 0 < o.2 → o.1 + o.2 ≤ p.heap.brk
  own_apart : ∀ o ∈ p.own, 0 < o.2 → ∀ b ∈ frees ++ lives.map Prod.fst, (Blk.mk o.1 o.2).Apart b

/-- What a step does to the blocks: they stay, or an allocation reshapes them.  The break moves up for an
allocation only where no block of the free list is large enough. -/
def Changes (base : ℕ) (p p' : Program) (e : Event) (frees : List Blk) (lives : List (Blk × ℕ))
    (frees' : List Blk) (lives' : List (Blk × ℕ)) : Prop :=
  (∃ increment granted, e = .sbrk increment granted) ∧ frees' = frees ∧ lives' = lives ∨
    Reshaped 16 32 (frees ++ lives.map Prod.fst) p.heap.brk (frees' ++ lives'.map Prod.fst)
        p'.heap.brk ∧
      (p.heap.brk < p'.heap.brk → ∃ size granted, p.request e = some (size, granted) ∧
        Served base granted size p.heap ∧ ∀ d ∈ frees, d.size < blockSize size)

section Steps

variable {base size ptr : ℕ} {granted : Bool} {p p' : Program} {frees frees' : List Blk}
  {lives lives' : List (Blk × ℕ)} {h' : Heap} {b c : Blk} {e : Event}

/-- Nothing changes. -/
lemma Changes.refl : Changes base p p e frees lives frees lives :=
  Or.inr ⟨.same (List.Perm.refl _), fun hlt => absurd hlt (lt_irrefl _)⟩

/-- A pointer to a block is not `NULL`. -/
lemma hold_block (p : Program) (a size : ℕ) :
    p.hold (a + 16) size = { p with live := (a + 16, size) :: p.live } :=
  if_neg (by omega)

namespace Inv

/-- The program holds the pointers to the blocks in use. -/
lemma holds_iff (hi : Inv base p frees lives) :
    p.Holds ptr ↔ ∃ x ∈ lives, x.1.addr + 16 = ptr := by
  rw [Holds, hi.live]
  constructor
  · rintro ⟨y, hy, rfl⟩
    obtain ⟨x, hx, rfl⟩ := List.mem_map.mp hy
    exact ⟨x, hx, rfl⟩
  · rintro ⟨x, hx, rfl⟩
    exact ⟨_, List.mem_map.mpr ⟨x, hx, rfl⟩, rfl⟩

/-- The program never holds `NULL`. -/
lemma drop_zero (hi : Inv base p frees lives) : p.drop 0 = p := by
  have hall : p.live.filter (fun x => x.1 ≠ 0) = p.live := by
    rw [List.filter_eq_self, hi.live]
    intro x hx
    obtain ⟨y, -, rfl⟩ := List.mem_map.mp hx
    simp
  rw [drop, hall]

/-- Giving up one pointer leaves the other blocks in use. -/
lemma perm_filter (hi : Inv base p frees lives) {x : Blk × ℕ} (hx : x ∈ lives) :
    lives.Perm (x :: lives.filter fun y => y.1.addr + 16 ≠ x.1.addr + 16) := by
  have hnodup : (lives.map fun y => y.1.addr).Nodup := by
    have h := hi.heap.arena.nodup (by decide)
    rw [List.map_append, List.map_map] at h
    exact (List.nodup_append.mp h).2.1
  have hfilter : lives.filter (fun y => y.1.addr + 16 ≠ x.1.addr + 16) = lives.erase x := by
    rw [(List.Nodup.of_map _ hnodup).erase_eq_filter]
    refine List.filter_congr fun y hy => ?_
    have hinj := List.inj_on_of_nodup_map hnodup hy hx
    rw [Bool.eq_iff_iff]
    simp only [decide_eq_true_eq, bne_iff_ne, ne_eq]
    exact ⟨fun hne heq => hne (by rw [heq]), fun hne heq => hne (hinj (by omega))⟩
  rw [hfilter]
  exact List.perm_cons_erase hx

/-- The pointers after one is given up. -/
lemma live_drop (hi : Inv base p frees lives) {x : Blk × ℕ} :
    (p.drop (x.1.addr + 16)).live = (lives.filter fun y => y.1.addr + 16 ≠ x.1.addr + 16).map
      fun y => (y.1.addr + 16, y.2) := by
  rw [drop]
  dsimp only
  rw [hi.live, List.filter_map]
  rfl

/-- The ranges of the program are apart from the blocks after they have been reshaped. -/
lemma own_apart_of (hi : Inv base p frees lives) {bs : List Blk} {stop : ℕ}
    (hshape : Reshaped 16 32 (frees ++ lives.map Prod.fst) p.heap.brk bs stop) :
    (∀ o ∈ p.own, 0 < o.2 → o.1 + o.2 ≤ stop) ∧
      ∀ o ∈ p.own, 0 < o.2 → ∀ d ∈ bs, (Blk.mk o.1 o.2).Apart d :=
  ⟨fun o ho hpos => (hi.own_le o ho hpos).trans hshape.stop_le, fun o ho hpos =>
    hshape.apart (hi.own_le o ho hpos) (hi.own_apart o ho hpos)⟩

/-- A request that is served. -/
lemma allocated (hi : Inv base p frees lives) (hrange : InRange size)
    (ha : Allocated base (blockSize size) p.heap h' frees (lives.map Prod.fst) frees' b) :
    Inv base ({ p with heap := h' }.hold (b.addr + 16) size) frees' ((b, size) :: lives) := by
  obtain ⟨-, -, hroom, -⟩ := blockSize_spec hrange
  obtain ⟨hle, hapart⟩ := hi.own_apart_of ha.shape
  rw [hold_block]
  refine ⟨ha.inv, ?_, List.forall_mem_cons.mpr ⟨hroom.trans ha.total_le, hi.room⟩, hle, hapart⟩
  change (b.addr + 16, size) :: p.live = _
  rw [hi.live]
  rfl

/-- What an allocation changes. -/
lemma changes_allocated (hserved : Served base granted size p.heap)
    (hask : p.request e = some (size, granted))
    (ha : Allocated base (blockSize size) p.heap h' frees (lives.map Prod.fst) frees' b) :
    Changes base p ({ p with heap := h' }.hold (b.addr + 16) size) e frees lives frees'
      ((b, size) :: lives) := by
  rw [hold_block]
  exact Or.inr ⟨ha.shape, fun hlt => ⟨size, granted, hask, hserved, ha.small hlt⟩⟩

/-- `malloc`. -/
lemma malloc_step (hi : Inv base p frees lives)
    (hrange : Served base granted size p.heap → InRange size)
    (hask : p.request e = some (size, granted)) :
    ∃ p', (Malloc.malloc base granted size p.heap).map
        (fun r => { p with heap := r.2 }.hold r.1 size) = some p' ∧
      (¬ Served base granted size p.heap → p' = p) ∧
      ∃ frees' lives', Inv base p' frees' lives' ∧
        Changes base p p' e frees lives frees' lives' := by
  obtain ⟨r, h', hrun, ⟨hno, rfl, rfl⟩ | ⟨hserved, frees', b, rfl, ha⟩⟩ :=
    hi.heap.malloc_spec granted size hrange
  · rw [hrun]
    exact ⟨p, rfl, fun _ => rfl, frees, lives, hi, Changes.refl⟩
  · rw [hrun]
    exact ⟨_, rfl, fun hno => absurd hserved hno, frees', (b, size) :: lives,
      hi.allocated (hrange hserved) ha, changes_allocated hserved hask ha⟩

/-- `calloc`. -/
lemma calloc_step {nmemb : ℕ} (hi : Inv base p frees lives)
    (hsane : AsksInRange base p (.calloc nmemb size granted)) :
    ∃ p', (Malloc.calloc base granted nmemb size p.heap).map
        (fun r => { p with heap := r.2 }.hold r.1 (nmemb * size)) = some p' ∧
      ((2 ^ 64 ≤ nmemb * size ∨ ¬ Served base granted (nmemb * size) p.heap) → p' = p) ∧
      ∃ frees' lives', Inv base p' frees' lives' ∧
        Changes base p p' (.calloc nmemb size granted) frees lives frees' lives' := by
  have hask : nmemb * size < 2 ^ 64 →
      p.request (.calloc nmemb size granted) = some (nmemb * size, granted) := fun hlt => if_pos hlt
  have hrange : Served base granted (nmemb * size) p.heap → nmemb * size < 2 ^ 64 →
      InRange (nmemb * size) := fun hserved hlt => hsane _ _ (hask hlt) hserved
  obtain ⟨r, h', hrun, ⟨hno, rfl, rfl⟩ | ⟨hlt, hserved, frees', b, rfl, ha, -⟩⟩ :=
    hi.heap.calloc_spec hrange
  · rw [hrun]
    exact ⟨p, rfl, fun _ => rfl, frees, lives, hi, Changes.refl⟩
  · rw [hrun]
    refine ⟨_, rfl, fun hno => ?_, frees', (b, nmemb * size) :: lives,
      hi.allocated (hrange hserved hlt) ha, changes_allocated hserved (hask hlt) ha⟩
    exact hno.elim (fun hle => absurd hlt (by omega)) (absurd hserved)

/-- `free` of a pointer that the program holds. -/
lemma free_step (hi : Inv base p frees lives) {x : Blk × ℕ} (hx : x ∈ lives) :
    ∃ lives', Inv base ({ p with heap := Malloc.free (x.1.addr + 16) p.heap }.drop (x.1.addr + 16))
        (x.1 :: frees) lives' ∧
      Changes base p ({ p with heap := Malloc.free (x.1.addr + 16) p.heap }.drop (x.1.addr + 16)) e
        frees lives (x.1 :: frees) lives' := by
  have hperm := hi.perm_filter hx
  set lives' := lives.filter fun y => y.1.addr + 16 ≠ x.1.addr + 16 with hlives
  obtain ⟨hheap, hbrk, -⟩ := (hi.heap.perm_lives (hperm.map Prod.fst)).free_spec
  have hshape : Reshaped 16 32 (frees ++ lives.map Prod.fst) p.heap.brk
      (x.1 :: frees ++ lives'.map Prod.fst) p.heap.brk :=
    .same (((hperm.map Prod.fst).append_left frees).trans List.perm_middle)
  obtain ⟨hle, hapart⟩ := hi.own_apart_of hshape
  refine ⟨lives', ⟨hheap, hi.live_drop, fun y hy => hi.room y (List.mem_of_mem_filter hy),
    fun o ho hpos => ?_, hapart⟩, Or.inr ⟨?_, fun hlt => ?_⟩⟩
  · exact (hle o ho hpos).trans hbrk.ge
  · change Reshaped 16 32 _ p.heap.brk _ (Malloc.free (x.1.addr + 16) p.heap).brk
    rw [hbrk]
    exact hshape
  · exact absurd hbrk hlt.ne'

/-- The pointer of a block in use and its payload. -/
lemma payload_eq (hi : Inv base p frees lives) {x : Blk × ℕ} (hx : x ∈ lives) :
    p.payload (x.1.addr + 16) = x.1.size - 16 := by
  have hb : x.1 ∈ frees ++ lives.map Prod.fst :=
    List.mem_append_right _ (List.mem_map.mpr ⟨x, hx, rfl⟩)
  obtain ⟨-, hleast, -, -, -, hlt⟩ := hi.heap.block hb
  rw [payload, hi.heap.hdrFromPtr_eq hb, hi.heap.getSize_eq hb]
  simp only [wrapSub, headerSize, alignment]
  omega

/-- `realloc` of a pointer that the program holds, to a size that is not 0. -/
lemma realloc_step (hi : Inv base p frees lives) {x : Blk × ℕ} (hx : x ∈ lives) (hsize : size ≠ 0)
    (hsane : AsksInRange base p (.realloc (x.1.addr + 16) size granted)) :
    ∃ r h', Malloc.realloc base granted (x.1.addr + 16) size p.heap = some (r, h') ∧
      (x.1.size < size + 16 → ¬ Served base granted size p.heap → r = 0 ∧ h' = p.heap) ∧
      ∃ frees' lives',
        Inv base (if r = 0 ∧ size ≠ 0 then { p with heap := h' }
          else ({ p with heap := h' }.drop (x.1.addr + 16)).hold r size) frees' lives' ∧
        Changes base p (if r = 0 ∧ size ≠ 0 then { p with heap := h' }
          else ({ p with heap := h' }.drop (x.1.addr + 16)).hold r size)
          (.realloc (x.1.addr + 16) size granted) frees lives frees' lives' := by
  have hleast : 32 ≤ x.1.size :=
    (hi.heap.block (List.mem_append_right _ (List.mem_map.mpr ⟨x, hx, rfl⟩))).2.1
  have hask : x.1.size < size + 16 → p.request (.realloc (x.1.addr + 16) size granted) =
      some (size, granted) := fun hlt => by
    refine if_pos (Or.inr ⟨hsize, ?_⟩)
    rw [hi.payload_eq hx]
    omega
  have hperm := hi.perm_filter hx
  have hlive := hi.live_drop (x := x)
  have hroom : ∀ y ∈ lives.filter (fun y => y.1.addr + 16 ≠ x.1.addr + 16), y.2 + 16 ≤ y.1.size :=
    fun y hy => hi.room y (List.mem_of_mem_filter hy)
  set rest := lives.filter fun y => y.1.addr + 16 ≠ x.1.addr + 16 with hrest
  have hfst := hperm.map Prod.fst
  obtain ⟨r, h', hrun, ⟨-, -, rfl, rfl⟩ | ⟨hfit, rfl, rfl⟩ | ⟨hbig, hserved, frees', c, rfl, hm⟩⟩ :=
    (hi.heap.perm_lives hfst).realloc_spec hsize
      fun hbig hserved => hsane _ _ (hask hbig) hserved
  · refine ⟨0, p.heap, hrun, fun _ _ => ⟨rfl, rfl⟩, frees, lives, ?_⟩
    rw [if_pos ⟨rfl, hsize⟩]
    exact ⟨hi, Changes.refl⟩
  · -- The block is large enough and stays where it is.
    refine ⟨_, p.heap, hrun, fun hbig => absurd hbig (by omega), frees, (x.1, size) :: rest, ?_⟩
    rw [if_neg (fun h => absurd h.1 (by omega)), hold_block]
    have hshape : Reshaped 16 32 (frees ++ lives.map Prod.fst) p.heap.brk
        (frees ++ ((x.1, size) :: rest).map Prod.fst) p.heap.brk := .same (hfst.append_left frees)
    obtain ⟨hle, hapart⟩ := hi.own_apart_of hshape
    refine ⟨⟨hi.heap.perm_lives hfst, ?_, List.forall_mem_cons.mpr ⟨hfit, hroom⟩, hle, hapart⟩,
      Or.inr ⟨hshape, fun hlt => absurd hlt (lt_irrefl _)⟩⟩
    exact congrArg (List.cons _) hlive
  · -- The block moves.
    refine ⟨_, h', hrun, fun _ hno => absurd hserved hno, x.1 :: frees', (c, size) :: rest, ?_⟩
    rw [if_neg (fun h => absurd h.1 (by omega)), hold_block]
    have hshape : Reshaped 16 32 (frees ++ lives.map Prod.fst) p.heap.brk
        (x.1 :: frees' ++ ((c, size) :: rest).map Prod.fst) h'.brk :=
      hm.shape.of_perm (hfst.append_left frees)
    obtain ⟨hle, hapart⟩ := hi.own_apart_of hshape
    refine ⟨⟨hm.inv, congrArg (List.cons _) hlive, List.forall_mem_cons.mpr ⟨hm.room, hroom⟩, hle,
      hapart⟩, Or.inr ⟨hshape, fun hlt => ⟨size, granted, hask hbig, hserved, hm.small hlt⟩⟩⟩

/-- The blocks below the break after the program has given memory back. -/
lemma stop_le_of_gives (hi : Inv base p frees lives) {increment : ℤ}
    (hown : GivesOwn base p (.sbrk increment granted)) (hneg : increment < 0)
    (hbase : (base : ℤ) ≤ p.heap.brk + increment) {d : Blk} (hd : d ∈ frees ++ lives.map Prod.fst) :
    (d.stop : ℤ) ≤ p.heap.brk + increment := by
  obtain ⟨-, hleast, -, hstop, -⟩ := hi.heap.block hd
  by_contra hover
  unfold Blk.stop at hover
  obtain ⟨o, ho, h₁, h₂⟩ := hown increment granted rfl hneg hbase (d.addr + d.size - 1) (by omega)
    (by omega)
  have hapart := hi.own_apart o ho (by omega) d hd
  unfold Blk.Apart Blk.stop at hapart
  dsimp only at hapart
  omega

/-- The program calls `sbrk`. -/
lemma sbrk_step (hi : Inv base p frees lives) {increment : ℤ}
    (hown : GivesOwn base p (.sbrk increment granted))
    (hstep : step base p (.sbrk increment granted) = some p') : Inv base p' frees lives := by
  have hlive := hi.live
  have hbase := hi.heap.base_le
  have hclip : ∀ {stop : ℕ} {o : ℕ × ℕ}, o ∈ clip stop p.own → 0 < o.2 →
      ∃ o' ∈ p.own, o'.1 = o.1 ∧ o.2 ≤ o'.2 ∧ o.1 + o.2 ≤ stop := fun ho hpos => by
    obtain ⟨o', ho', rfl⟩ := List.mem_map.mp ho
    exact ⟨o', ho', rfl, min_le_left .., by dsimp only at hpos ⊢; omega⟩
  have hclipped : ∀ stop : ℕ, stop ≤ p.heap.brk → (∀ o ∈ clip stop p.own, 0 < o.2 → o.1 + o.2 ≤ stop) ∧
      ∀ o ∈ clip stop p.own, 0 < o.2 → ∀ d ∈ frees ++ lives.map Prod.fst,
        (Blk.mk o.1 o.2).Apart d := fun stop _ => by
    refine ⟨fun o ho hpos => ?_, fun o ho hpos d hd => ?_⟩
    · obtain ⟨-, -, -, -, hle⟩ := hclip ho hpos
      exact hle
    · obtain ⟨o', ho', h₁, h₂, -⟩ := hclip ho hpos
      have hapart := hi.own_apart o' ho' (by omega) d hd
      unfold Blk.Apart Blk.stop at hapart ⊢
      dsimp only at hapart ⊢
      omega
  cases hstep
  rcases Malloc.sbrk_cases base granted increment p.heap with hrun | ⟨hlow, hhigh, hrun⟩
  · rw [hrun]
    by_cases hneg : increment < 0
    · rw [if_pos hneg]
      exact ⟨hi.heap, hlive, hi.room, (hclipped _ le_rfl).1, (hclipped _ le_rfl).2⟩
    · rw [if_neg hneg]
      exact ⟨hi.heap, hlive, hi.room, hi.own_le, hi.own_apart⟩
  · rw [hrun]
    dsimp only
    by_cases hneg : increment < 0
    · rw [if_pos hneg]
      have hstop := fun d hd => hi.stop_le_of_gives hown hneg hlow (d := d) hd
      obtain ⟨hle, hapart⟩ := hclipped ((p.heap.brk : ℤ) + increment).toNat (by omega)
      refine ⟨⟨⟨hi.heap.linked, hi.heap.free, hi.heap.live⟩, hi.heap.base_pos, ?_, ?_,
        hi.heap.arena.limit fun d hd => ?_⟩, hlive, hi.room, hle, hapart⟩
      · change base ≤ ((p.heap.brk : ℤ) + increment).toNat
        omega
      · change ((p.heap.brk : ℤ) + increment).toNat ≤ TaskManager.heapLimit
        omega
      · have := hstop d hd
        change d.stop ≤ ((p.heap.brk : ℤ) + increment).toNat
        omega
    · rw [if_neg hneg, if_pos Option.isSome_some]
      have hstop : p.heap.brk ≤ ((p.heap.brk : ℤ) + increment).toNat := by omega
      refine ⟨⟨⟨hi.heap.linked, hi.heap.free, hi.heap.live⟩, hi.heap.base_pos, hbase.trans hstop, ?_,
        hi.heap.arena.limit fun d hd => (hi.heap.arena.stop_le d hd).trans hstop⟩, hlive, hi.room,
        List.forall_mem_cons.mpr ⟨fun _ => ?_, fun o ho hpos => (hi.own_le o ho hpos).trans hstop⟩,
        List.forall_mem_cons.mpr ⟨fun _ d hd => ?_, hi.own_apart⟩⟩
      · change ((p.heap.brk : ℤ) + increment).toNat ≤ TaskManager.heapLimit
        omega
      · change p.heap.brk + increment.toNat ≤ ((p.heap.brk : ℤ) + increment).toNat
        omega
      · exact Or.inr (hi.heap.arena.stop_le d hd)

/-- The program writes to its memory. -/
lemma store_step (hi : Inv base p frees lives) {a : ℕ} {v : UInt8} (ha : p.Owns a) :
    Inv base { p with heap := { p.heap with mem := Function.update p.heap.mem a v } } frees lives := by
  refine ⟨?_, hi.live, hi.room, hi.own_le, hi.own_apart⟩
  rcases ha with ⟨y, hy, h₁, h₂⟩ | ⟨o, ho, h₁, h₂⟩
  · rw [hi.live] at hy
    obtain ⟨x, hx, rfl⟩ := List.mem_map.mp hy
    dsimp only at h₁ h₂
    have hroom := hi.room x hx
    have hperm := (hi.perm_filter hx).map Prod.fst
    refine HeapInv.perm_lives ((hi.heap.perm_lives hperm).write fun z hz => ?_) hperm.symm
    exact Function.update_of_ne (by omega) ..
  · have hout : ∀ d ∈ frees ++ lives.map Prod.fst, a < d.addr ∨ d.addr + d.size ≤ a := fun d hd => by
      have hapart := hi.own_apart o ho (by omega) d hd
      unfold Blk.Apart Blk.stop at hapart
      dsimp only at hapart
      omega
    have hagree : ∀ d ∈ frees ++ lives.map Prod.fst, ∀ k ≤ d.size,
        Bytes.Agree p.heap.mem (Function.update p.heap.mem a v) d.addr k := fun d hd k hk z hz hlt => by
      have := hout d hd
      exact Function.update_of_ne (by omega) ..
    have hleast : ∀ d ∈ frees ++ lives.map Prod.fst, 32 ≤ d.size := fun d hd =>
      (hi.heap.block hd).2.1
    have hrepr := hi.heap.toRepr.of_agree
      (fun d hd => hagree d (List.mem_append_left _ hd) 16
        (by have := hleast d (List.mem_append_left _ hd); omega))
      (fun d hd => hagree d (List.mem_append_right _ hd) 8
        (by have := hleast d (List.mem_append_right _ hd); omega))
    exact ⟨hrepr, hi.heap.base_pos, hi.heap.base_le, hi.heap.brk_le, hi.heap.arena⟩

/-- An event without a request asks for nothing. -/
lemma of_request_none {P : ℕ → Bool → Prop} (h : p.request e = none) (size : ℕ) (granted : Bool)
    (heq : p.request e = some (size, granted)) : P size granted := by
  rw [h] at heq
  cases heq

/-- **A step of a program.**  An allowed event that is sane goes through.  The headers in memory still
describe the blocks, and a request that is not served changes nothing. -/
theorem step_spec (hi : Inv base p frees lives) (hallowed : p.Allowed e) (hsane : p.Sane base e) :
    ∃ p', step base p e = some p' ∧
      (∀ size granted, p.request e = some (size, granted) → ¬ Served base granted size p.heap →
        p' = p) ∧
      ∃ frees' lives', Inv base p' frees' lives' ∧
        Changes base p p' e frees lives frees' lives' := by
  cases e with
  | malloc size granted =>
    obtain ⟨p', hrun, hno, hdone⟩ := hi.malloc_step (fun h => hsane.1 size granted rfl h)
      (e := .malloc size granted) rfl
    refine ⟨p', (if_pos hallowed).trans hrun, fun size' granted' heq => ?_, hdone⟩
    cases heq
    exact hno
  | calloc nmemb size granted =>
    obtain ⟨p', hrun, hno, hdone⟩ := hi.calloc_step hsane.1
    refine ⟨p', (if_pos hallowed).trans hrun, fun size' granted' heq hnot => ?_, hdone⟩
    unfold request at heq
    dsimp only at heq
    split at heq
    · cases heq
      exact hno (Or.inr hnot)
    · cases heq
  | realloc ptr size granted =>
    have hstep : ∀ {r h'}, Malloc.realloc base granted ptr size p.heap = some (r, h') →
        step base p (.realloc ptr size granted) =
          some (if r = 0 ∧ size ≠ 0 then { p with heap := h' }
            else ({ p with heap := h' }.drop ptr).hold r size) := fun hrun => by
      have hcond : size < 2 ^ 64 ∧ (ptr = 0 ∨ p.Holds ptr) := hallowed
      rw [step, if_pos hcond, hrun]
      rfl
    rcases hallowed.2 with rfl | hptr
    · -- `realloc` without a pointer is `malloc`.
      have hask : p.request (.realloc 0 size granted) = some (size, granted) := by
        rw [request, if_pos (Or.inl rfl)]
      obtain ⟨p', hrun, hno, hdone⟩ := hi.malloc_step (fun h => hsane.1 size granted hask h) hask
      obtain ⟨⟨r, h'⟩, hmalloc, rfl⟩ := Option.map_eq_some_iff.mp hrun
      have hreal : Malloc.realloc base granted 0 size p.heap = some (r, h') :=
        (if_pos rfl).trans hmalloc
      have hsame : (if r = 0 ∧ size ≠ 0 then { p with heap := h' }
          else ({ p with heap := h' }.drop 0).hold r size) = { p with heap := h' }.hold r size := by
        have hdrop : { p with heap := h' }.drop 0 = { p with heap := h' } :=
          congrArg (fun l => { p with heap := h', live := l }) (congrArg Program.live hi.drop_zero)
        split
        next h => rw [hold, if_pos h.1]
        next => rw [hdrop]
      refine ⟨_, hstep hreal, fun size' granted' heq => ?_, ?_⟩
      · rw [hsame]
        cases hask.symm.trans heq
        exact hno
      · rw [hsame]
        exact hdone
    · obtain ⟨x, hx, rfl⟩ := hi.holds_iff.mp hptr
      by_cases hzero : size = 0
      · subst hzero
        obtain ⟨lives', hinv, hchanges⟩ := hi.free_step (e := .realloc (x.1.addr + 16) 0 granted) hx
        have hreal : Malloc.realloc base granted (x.1.addr + 16) 0 p.heap =
            some (0, Malloc.free (x.1.addr + 16) p.heap) := by
          rw [Malloc.realloc, if_neg (by omega), if_pos rfl]
        refine ⟨_, hstep hreal, fun size' granted' heq => ?_, x.1 :: frees, lives', ?_, ?_⟩
        · have hask : p.request (.realloc (x.1.addr + 16) 0 granted) = none := by
            rw [request, if_neg (by simp)]
          cases hask.symm.trans heq
        · rw [if_neg (by simp)]
          exact hinv
        · rw [if_neg (by simp)]
          exact hchanges
      · obtain ⟨r, h', hreal, hno, hdone⟩ := hi.realloc_step hx hzero hsane.1
        refine ⟨_, hstep hreal, fun size' granted' heq hnot => ?_, hdone⟩
        unfold request at heq
        dsimp only at heq
        split at heq
        next hask =>
          cases heq
          rw [hi.payload_eq hx] at hask
          obtain ⟨rfl, rfl⟩ := hno (by omega) hnot
          rw [if_pos ⟨rfl, hzero⟩]
        next => cases heq
  | free ptr =>
    rcases hallowed with rfl | hptr
    · refine ⟨p, ?_, of_request_none rfl, frees, lives, hi, Changes.refl⟩
      rw [step, if_pos (Or.inl rfl)]
      exact congrArg some hi.drop_zero
    · obtain ⟨x, hx, rfl⟩ := hi.holds_iff.mp hptr
      obtain ⟨lives', hinv, hchanges⟩ := hi.free_step (e := .free (x.1.addr + 16)) hx
      exact ⟨_, if_pos (Or.inr hptr), of_request_none rfl, x.1 :: frees, lives', hinv,
        hchanges⟩
  | sbrk increment granted =>
    exact ⟨_, rfl, of_request_none rfl, frees, lives, hi.sbrk_step hsane.2 rfl,
      Or.inl ⟨⟨increment, granted, rfl⟩, rfl, rfl⟩⟩
  | store a v =>
    exact ⟨_, if_pos hallowed, of_request_none rfl, frees, lives, hi.store_step hallowed,
      Changes.refl⟩

end Inv

/-- Only allowed events go through. -/
lemma allowed_of_step (hstep : step base p e = some p') : p.Allowed e := by
  unfold step at hstep
  cases e with
  | sbrk => exact trivial
  | _ =>
    dsimp only at hstep
    split at hstep
    · assumption
    · cases hstep

/-- A program that starts. -/
lemma inv_start (hpos : 0 < base) (hle : base ≤ TaskManager.heapLimit) (m : Bytes) :
    Inv base (start base m) [] [] where
  heap := ⟨⟨rfl, by simp, by simp⟩, hpos, le_rfl, hle, Arena.nil⟩
  live := rfl
  room := by simp
  own_le := by simp [start]
  own_apart := by simp

end Steps

end Program

end Malloc

end NekOS
