import NekOS.Foundation.Blocks
import NekOS.Userland.Malloc

/-!
# The free list of the C library

The blocks of the allocator are those on the free list and those in use.  `HeapInv` says that the
headers in memory describe them; each operation has a lemma that gives the blocks afterwards.
-/

namespace NekOS

namespace Malloc

/-- The headers in memory describe the blocks on the free list and the blocks in use. -/
structure Repr (h : Heap) (frees lives : List Blk) : Prop where
  linked : Linked (nextField h.mem) h.freeList frees 0
  free : ∀ b ∈ frees, sizeField h.mem b.addr = b.size + 1
  live : ∀ b ∈ lives, sizeField h.mem b.addr = b.size

/-- The blocks of the allocator lie between the start of the heap and the break. -/
structure HeapInv (base : ℕ) (h : Heap) (frees lives : List Blk) : Prop
    extends Repr h frees lives where
  base_pos : 0 < base
  base_le : base ≤ h.brk
  brk_le : h.brk ≤ TaskManager.heapLimit
  arena : Arena 16 32 base h.brk (frees ++ lives)

/-! ### Fields -/

section Fields

variable {m m' : Bytes} {a h v : ℕ}

/-- Reading the size back. -/
lemma sizeField_setSize (hv : v < 2 ^ 64) : sizeField (setSize m h v) h = v :=
  Bytes.load_store_of_lt (hv.trans_le (by norm_num))

/-- Reading the link back. -/
lemma nextField_setNext (hv : v < 2 ^ 64) : nextField (setNext m h v) h = v :=
  Bytes.load_store_of_lt (hv.trans_le (by norm_num))

/-- The size depends on its eight bytes. -/
lemma sizeField_congr (hagree : Bytes.Agree m m' h 8) : sizeField m' h = sizeField m h :=
  hagree.load_eq

/-- The link depends on its eight bytes. -/
lemma nextField_congr (hagree : Bytes.Agree m m' (h + 8) 8) : nextField m' h = nextField m h :=
  hagree.load_eq

/-- Writing the size leaves the rest alone. -/
lemma agree_setSize {k : ℕ} (hout : a + k ≤ h ∨ h + 8 ≤ a) : Bytes.Agree m (setSize m h v) a k :=
  Bytes.agree_store hout

/-- Writing the link leaves the rest alone. -/
lemma agree_setNext {k : ℕ} (hout : a + k ≤ h + 8 ∨ h + 16 ≤ a) :
    Bytes.Agree m (setNext m h v) a k :=
  Bytes.agree_store (by omega)

/-- The size in a header is a 64-bit value. -/
lemma sizeField_lt (m : Bytes) (h : ℕ) : sizeField m h < 2 ^ 64 :=
  (Bytes.load_lt m h 8).trans_le (by norm_num)

/-- A link is a 64-bit value. -/
lemma nextField_lt (m : Bytes) (h : ℕ) : nextField m h < 2 ^ 64 :=
  (Bytes.load_lt m (h + 8) 8).trans_le (by norm_num)

/-- `SET_USED` clears the flag of a header. -/
lemma sizeField_setUsed {size : ℕ} (hsize : size % 16 = 0)
    (h' : sizeField m h = size ∨ sizeField m h = size + 1) : sizeField (setUsed m h) h = size := by
  have hlt := sizeField_lt m h
  have hget : getSize m h = size := by
    unfold getSize
    omega
  rw [setUsed, hget, sizeField_setSize (by omega)]

/-- `SET_FREE` sets it. -/
lemma sizeField_setFree {size : ℕ} (hsize : size % 16 = 0)
    (h' : sizeField m h = size ∨ sizeField m h = size + 1) :
    sizeField (setFree m h) h = size + 1 := by
  have hlt := sizeField_lt m h
  have hget : getSize m h = size := by
    unfold getSize
    omega
  rw [setFree, hget, sizeField_setSize (by omega)]

end Fields

/-! ### The loops -/

/-- The address of the last block of a list, or `prev`. -/
def lastAddr (prev : ℕ) (bs : List Blk) : ℕ := bs.foldl (fun _ b => b.addr) prev

/-- The last block of a list. -/
lemma lastAddr_concat (prev : ℕ) (bs : List Blk) (b : Blk) : lastAddr prev (bs ++ [b]) = b.addr := by
  rw [lastAddr, List.foldl_append]
  rfl

/-- The first-fit loop ends at the end of the list, when no block is large enough, or at the first one
that is. -/
lemma firstFit_spec (total prev : ℕ) {m : Bytes} {frees : List Blk} {steps a : ℕ}
    (hlinked : Linked (nextField m) a frees 0) (hsize : ∀ b ∈ frees, getSize m b.addr = b.size)
    (hpos : ∀ b ∈ frees, b.addr ≠ 0) (hsteps : frees.length < steps) :
    ((∀ b ∈ frees, b.size < total) ∧ ∃ q, firstFit m total steps prev a = some (q, 0)) ∨
    ∃ pre b post, frees = pre ++ b :: post ∧ total ≤ b.size ∧
      firstFit m total steps prev a = some (lastAddr prev pre, b.addr) := by
  induction frees generalizing steps prev a with
  | nil =>
    obtain ⟨steps, rfl⟩ : ∃ n, steps = n + 1 := ⟨steps - 1, by simp at hsteps; omega⟩
    have ha : a = 0 := hlinked
    exact Or.inl ⟨by simp, prev, by rw [firstFit, if_pos ha]⟩
  | cons b bs ih =>
    obtain ⟨steps, rfl⟩ : ∃ n, steps = n + 1 := ⟨steps - 1, by simp at hsteps; omega⟩
    obtain ⟨rfl, hlinked⟩ := hlinked
    obtain ⟨hb, hbs⟩ := List.forall_mem_cons.mp hsize
    obtain ⟨hb₀, hbs₀⟩ := List.forall_mem_cons.mp hpos
    rw [firstFit, if_neg hb₀, hb]
    by_cases hfit : total ≤ b.size
    · rw [if_pos hfit]
      exact Or.inr ⟨[], b, bs, rfl, hfit, rfl⟩
    rw [if_neg hfit]
    rcases ih b.addr hlinked hbs hbs₀ (by simpa using hsteps) with
      ⟨hsmall, q, hrun⟩ | ⟨pre, c, post, rfl, hc, hrun⟩
    · exact Or.inl ⟨List.forall_mem_cons.mpr ⟨by omega, hsmall⟩, q, hrun⟩
    · exact Or.inr ⟨b :: pre, c, post, rfl, hc, hrun⟩

/-- The loop of `remove_from_free_list` does not find a block that is not on the list. -/
lemma findPrev_spec {m : Bytes} {blk : ℕ} {frees : List Blk} {steps a : ℕ}
    (hlinked : Linked (nextField m) a frees 0) (hpos : ∀ b ∈ frees, b.addr ≠ blk) (hblk : blk ≠ 0)
    (hsteps : frees.length < steps) : findPrev m blk steps a = some 0 := by
  induction frees generalizing steps a with
  | nil =>
    obtain ⟨steps, rfl⟩ : ∃ n, steps = n + 1 := ⟨steps - 1, by simp at hsteps; omega⟩
    have ha : a = 0 := hlinked
    rw [findPrev, if_neg (by simp [ha]), ha]
  | cons b bs ih =>
    obtain ⟨steps, rfl⟩ : ∃ n, steps = n + 1 := ⟨steps - 1, by simp at hsteps; omega⟩
    obtain ⟨rfl, hlinked⟩ := hlinked
    obtain ⟨-, hbs⟩ := List.forall_mem_cons.mp hpos
    have hnext : nextField m b.addr ≠ blk := by
      cases bs with
      | nil =>
        have hzero : nextField m b.addr = 0 := hlinked
        rw [hzero]
        exact hblk.symm
      | cons c cs =>
        rw [hlinked.1]
        exact hbs c (List.mem_cons_self ..)
    rw [findPrev]
    by_cases hb : b.addr = 0
    · rw [if_neg (by simp [hb]), hb]
    · rw [if_pos ⟨hb, hnext⟩]
      exact ih hlinked hbs (by simpa using hsteps)

/-- `relink` makes the list up to `prev` lead to `target`, and writes to links of the list alone. -/
lemma relink_spec {s : Heap} {pre : List Blk} {y target : ℕ}
    (hlinked : Linked (nextField s.mem) s.freeList pre y) (hpos : ∀ b ∈ pre, b.addr ≠ 0)
    (hsize : ∀ b ∈ pre, 16 ≤ b.size) (hapart : pre.Pairwise Blk.Apart) (htarget : target < 2 ^ 64) :
    Linked (nextField (relink (lastAddr 0 pre) target s).mem)
        (relink (lastAddr 0 pre) target s).freeList pre target ∧
      (relink (lastAddr 0 pre) target s).brk = s.brk ∧
      ∀ x, (∀ b ∈ pre, x < b.addr + 8 ∨ b.addr + 16 ≤ x) →
        (relink (lastAddr 0 pre) target s).mem x = s.mem x := by
  rcases List.eq_nil_or_concat pre with rfl | ⟨pre, b, rfl⟩
  · rw [relink, if_neg (by simp [lastAddr])]
    exact ⟨rfl, rfl, fun _ _ => rfl⟩
  rw [List.concat_eq_append] at *
  have hb : b ∈ pre ++ [b] := by simp
  rw [lastAddr_concat, relink, if_pos (hpos b hb)]
  refine ⟨hlinked.relink (fun c hc => ?_) (nextField_setNext htarget), rfl, fun x hx => ?_⟩
  · have hbc : c.Apart b := (List.pairwise_append.mp hapart).2.2 c hc b (by simp)
    have hc16 := hsize c (by simp [hc])
    have hb16 := hsize b hb
    refine nextField_congr (agree_setNext ?_)
    unfold Blk.Apart Blk.stop at hbc
    omega
  · have hout := hx b hb
    exact Bytes.store_apply (by omega)

/-! ### Taking a block -/

section Steps

variable {base total : ℕ} {h h' : Heap} {frees lives pre post : List Blk} {b : Blk}

/-- The headers of a list of blocks are kept by what happens to the rest of memory. -/
lemma Repr.of_agree {m' : Bytes} (hr : Repr h frees lives)
    (hfrees : ∀ b ∈ frees, Bytes.Agree h.mem m' b.addr 16)
    (hlives : ∀ b ∈ lives, Bytes.Agree h.mem m' b.addr 8) :
    Repr { h with mem := m' } frees lives where
  linked := hr.linked.congr fun b hb =>
    nextField_congr ((hfrees b hb).mono (Nat.le_add_right ..) (by omega))
  free b hb := by
    rw [← hr.free b hb]
    exact sizeField_congr ((hfrees b hb).mono le_rfl (by omega))
  live b hb := by
    rw [← hr.live b hb]
    exact sizeField_congr (hlives b hb)

namespace HeapInv

/-- The facts about one block. -/
lemma block (hi : HeapInv base h frees lives) (hb : b ∈ frees ++ lives) :
    b.size % 16 = 0 ∧ 32 ≤ b.size ∧ base ≤ b.addr ∧ b.addr + b.size ≤ h.brk ∧ b.addr ≠ 0 ∧
      b.addr + b.size < 2 ^ 63 := by
  have hstart := hi.arena.start_le b hb
  have hstop := hi.arena.stop_le b hb
  have hleast := hi.arena.least_le b hb
  have hpos := hi.base_pos
  have hlimit := hi.brk_le
  simp only [TaskManager.heapLimit, userStackTop, pageSize, Blk.stop] at hstop hlimit
  exact ⟨hi.arena.sized b hb, hleast, hstart, hstop, by omega, by omega⟩

/-- The size in the header of a block. -/
lemma getSize_eq (hi : HeapInv base h frees lives) (hb : b ∈ frees ++ lives) :
    getSize h.mem b.addr = b.size := by
  obtain ⟨hsize, -⟩ := hi.block hb
  have hfield : sizeField h.mem b.addr = b.size ∨ sizeField h.mem b.addr = b.size + 1 := by
    rcases List.mem_append.mp hb with hb | hb
    · exact Or.inr (hi.free b hb)
    · exact Or.inl (hi.live b hb)
  unfold getSize
  omega

/-- The loops over the free list see all its blocks. -/
lemma length_lt (hi : HeapInv base h frees lives) : frees.length < loopSteps := by
  have hlen := hi.arena.length_le (by decide)
  have hlimit := hi.brk_le
  simp only [TaskManager.heapLimit, userStackTop, pageSize] at hlimit
  rw [List.length_append] at hlen
  rw [loopSteps]
  omega

/-- The blocks around one on the free list. -/
lemma apart_middle (hi : HeapInv base h (pre ++ b :: post) lives) :
    (∀ c ∈ pre ++ post ++ lives, b.Apart c) ∧ pre.Pairwise Blk.Apart := by
  have hperm : (pre ++ b :: post ++ lives).Perm (b :: (pre ++ post ++ lives)) := by
    rw [List.append_assoc, List.append_assoc]
    exact List.perm_middle
  have hpair := List.pairwise_append.mp hi.arena.apart
  exact ⟨fun c hc => (hi.arena.perm hperm).apart_cons hc, (List.pairwise_append.mp hpair.1).1⟩

/-- The blocks of the allocator after a change of their shape. -/
lemma of_reshaped {frees' lives' : List Blk} (hi : HeapInv base h frees lives)
    (hrepr : Repr h' frees' lives')
    (hshape : Reshaped 16 32 (frees ++ lives) h.brk (frees' ++ lives') h'.brk)
    (hlimit : h'.brk ≤ TaskManager.heapLimit) : HeapInv base h' frees' lives' :=
  ⟨hrepr, hi.base_pos, hi.base_le.trans hshape.stop_le, hlimit, hshape.arena hi.arena hi.base_le⟩

/-- The last steps of taking a block: the list leads past it, its flag is cleared and its link reset.
Before them only the block itself has been written to, which is now `c`, and `rest` follows the blocks
before it. -/
lemma leave (hi : HeapInv base h (pre ++ b :: post) lives) {m : Bytes} {target : ℕ} {c : Blk}
    {rest : List Blk} (hm : ∀ x, x < b.addr ∨ b.addr + b.size ≤ x → m x = h.mem x)
    (hsize : c.size % 16 = 0) (hleast : 32 ≤ c.size) (hle : c.size ≤ b.size)
    (hc : c.addr = b.addr) (hfield : sizeField m b.addr = c.size ∨ sizeField m b.addr = c.size + 1)
    (htarget : target < 2 ^ 64) (hlinked : Linked (nextField m) target rest 0)
    (hrest : ∀ d ∈ rest, sizeField m d.addr = d.size + 1)
    (hplace : ∀ d ∈ rest, 32 ≤ d.size ∧
      (d ∈ post ∨ b.addr + c.size ≤ d.addr ∧ d.addr + d.size ≤ b.addr + b.size)) :
    ∃ h', h' = { relink (lastAddr 0 pre) target { h with mem := m } with
        mem := setNext (setUsed (relink (lastAddr 0 pre) target { h with mem := m }).mem b.addr)
          b.addr 0 } ∧ h'.brk = h.brk ∧ Repr h' (pre ++ rest) (c :: lives) ∧
      ∀ d ∈ lives, Bytes.Agree h.mem h'.mem d.addr d.size := by
  obtain ⟨happart, hpairs⟩ := hi.apart_middle
  obtain ⟨y, hpre, -⟩ := Linked.append.mp hi.linked
  have hpreBlock : ∀ d ∈ pre, 32 ≤ d.size ∧ d.addr ≠ 0 ∧
      (b.addr + b.size ≤ d.addr ∨ d.addr + d.size ≤ b.addr) := fun d hd => by
    obtain ⟨-, h₁, -, -, h₂, -⟩ := hi.block (b := d) (by simp [hd])
    exact ⟨h₁, h₂, happart d (by simp [hd])⟩
  -- The blocks after the one that is taken, and those in use, lie apart from it and from those before.
  have houter : ∀ d ∈ post ++ lives, (b.addr + b.size ≤ d.addr ∨ d.addr + d.size ≤ b.addr) ∧
      ∀ e ∈ pre, e.addr + e.size ≤ d.addr ∨ d.addr + d.size ≤ e.addr := fun d hd => by
    have hmem : d ∈ b :: (post ++ lives) := List.mem_cons_of_mem _ hd
    refine ⟨happart d (by rw [List.append_assoc]; exact List.mem_append_right _ hd), fun e he => ?_⟩
    have hpair := hi.arena.apart
    rw [List.append_assoc] at hpair
    exact (List.pairwise_append.mp hpair).2.2 e he d hmem
  have hpreLinked : Linked (nextField m) h.freeList pre y := hpre.congr fun d hd => by
    obtain ⟨h₁, -, h₂⟩ := hpreBlock d hd
    exact nextField_congr fun x hx hlt => hm x (by omega)
  obtain ⟨hrelinked, hbrk, hframe⟩ := relink_spec (s := { h with mem := m }) hpreLinked
    (fun d hd => (hpreBlock d hd).2.1) (fun d hd => by have := (hpreBlock d hd).1; omega) hpairs
    htarget
  generalize relink (lastAddr 0 pre) target { h with mem := m } = s at hrelinked hbrk hframe ⊢
  have hkeep : ∀ {a k : ℕ}, (∀ d ∈ pre, a + k ≤ d.addr + 8 ∨ d.addr + 16 ≤ a) →
      (a + k ≤ b.addr ∨ b.addr + 16 ≤ a) →
      Bytes.Agree m (setNext (setUsed s.mem b.addr) b.addr 0) a k := fun {a k} h₁ h₂ => by
    have hs : Bytes.Agree m s.mem a k := fun x hx hlt =>
      hframe x fun d hd => by have := h₁ d hd; omega
    exact (hs.trans (agree_setSize (by omega))).trans (agree_setNext (by omega))
  have hb8 : ∀ d ∈ pre, b.addr + 8 ≤ d.addr + 8 ∨ d.addr + 16 ≤ b.addr := fun d hd => by
    obtain ⟨h₁, -, h₂⟩ := hpreBlock d hd
    omega
  refine ⟨_, rfl, hbrk, ⟨?_, fun d hd => ?_, fun d hd => ?_⟩, fun d hd => ?_⟩
  · refine Linked.append.mpr ⟨target, hrelinked.congr fun d hd => ?_, hlinked.congr fun d hd => ?_⟩
    · obtain ⟨h₁, -, h₂⟩ := hpreBlock d hd
      refine nextField_congr (Bytes.Agree.trans (agree_setSize ?_) (agree_setNext ?_))
      · omega
      · omega
    · obtain ⟨h₁, hd | hd⟩ := hplace d hd
      · obtain ⟨h₂, h₃⟩ := houter d (List.mem_append_left _ hd)
        exact nextField_congr (hkeep (fun e he => by
          have := h₃ e he
          have := (hpreBlock e he).1
          omega) (by omega))
      · exact nextField_congr (hkeep (fun e he => by
          obtain ⟨h₂, -, h₃⟩ := hpreBlock e he
          omega) (by omega))
  · rcases List.mem_append.mp hd with hd | hd
    · obtain ⟨h₁, -, h₂⟩ := hpreBlock d hd
      have hold : sizeField h.mem d.addr = d.size + 1 := hi.free d (by simp [hd])
      have hsame : sizeField m d.addr = sizeField h.mem d.addr :=
        sizeField_congr fun x hx hlt => hm x (by omega)
      rw [sizeField_congr (hkeep (fun e he => ?_) (by omega)), hsame, hold]
      by_cases hde : d = e
      · subst hde
        omega
      · have hapart := hpairs.forall hd he hde
        have h₃ := (hpreBlock e he).1
        unfold Blk.Apart Blk.stop at hapart
        omega
    · rw [← hrest d hd]
      obtain ⟨h₁, hd | hd⟩ := hplace d hd
      · obtain ⟨h₂, h₃⟩ := houter d (List.mem_append_left _ hd)
        exact sizeField_congr (hkeep (fun e he => by
          have := h₃ e he
          have := (hpreBlock e he).1
          omega) (by omega))
      · exact sizeField_congr (hkeep (fun e he => by
          obtain ⟨h₂, -, h₃⟩ := hpreBlock e he
          omega) (by omega))
  · rcases List.mem_cons.mp hd with rfl | hd
    · have hs : sizeField s.mem b.addr = sizeField m b.addr :=
        sizeField_congr fun x hx hlt => hframe x fun e he => by have := hb8 e he; omega
      rw [hc]
      have hset : sizeField (setUsed s.mem b.addr) b.addr = d.size :=
        sizeField_setUsed hsize (by rwa [hs])
      rw [← hset]
      exact sizeField_congr (agree_setNext (by omega))
    · obtain ⟨h₂, h₃⟩ := houter d (List.mem_append_right _ hd)
      obtain ⟨-, h₁, -⟩ := hi.block (b := d) (by simp [hd])
      have hsame : sizeField m d.addr = sizeField h.mem d.addr :=
        sizeField_congr fun x hx hlt => hm x (by omega)
      rw [sizeField_congr (hkeep (fun e he => ?_) (by omega)), hsame, hi.live d hd]
      have := h₃ e he
      have := (hpreBlock e he).1
      omega
  · obtain ⟨h₂, h₃⟩ := houter d (List.mem_append_right _ hd)
    have hold : Bytes.Agree h.mem m d.addr d.size := fun x hx hlt => hm x (by omega)
    refine hold.trans (hkeep (fun e he => ?_) (by omega))
    have := h₃ e he
    have := (hpreBlock e he).1
    omega

/-- A block that is large enough is split or taken as it is.  The blocks in use keep their contents. -/
lemma takeFit (hi : HeapInv base h (pre ++ b :: post) lives) (htotal : total % 16 = 0)
    (hleast : 32 ≤ total) (hfit : total ≤ b.size) :
    ∃ c frees', c.addr = b.addr ∧ total ≤ c.size ∧
      HeapInv base (Malloc.takeFit total (lastAddr 0 pre) b.addr h) frees' (c :: lives) ∧
      (Malloc.takeFit total (lastAddr 0 pre) b.addr h).brk = h.brk ∧
      Reshaped 16 32 (pre ++ b :: post ++ lives) h.brk (frees' ++ c :: lives) h.brk ∧
      ∀ d ∈ lives, Bytes.Agree h.mem (Malloc.takeFit total (lastAddr 0 pre) b.addr h).mem
        d.addr d.size := by
  have hb : b ∈ pre ++ b :: post ++ lives := by simp
  obtain ⟨hsize, hleast', hstart, hstop, hpos, hlt⟩ := hi.block hb
  have hget := hi.getSize_eq hb
  obtain ⟨happart, -⟩ := hi.apart_middle
  obtain ⟨y, -, rfl, hpost⟩ := Linked.append.mp hi.linked
  have hnext := nextField_lt h.mem b.addr
  have hpostBlock : ∀ d ∈ post, 32 ≤ d.size ∧
      (b.addr + b.size ≤ d.addr ∨ d.addr + d.size ≤ b.addr) := fun d hd => by
    obtain ⟨-, h₁, -⟩ := hi.block (b := d) (by simp [hd])
    exact ⟨h₁, happart d (by simp [hd])⟩
  rw [Malloc.takeFit, hget, minBlockSize, wrap_of_lt (by omega)]
  by_cases hsplit : total + 32 ≤ b.size
  · -- The block is split, and its second part takes its place on the list.
    have haddr : wrap (b.addr + total) = b.addr + total := wrap_of_lt (by omega)
    have hsub : wrapSub b.size total = b.size - total := by
      simp only [wrapSub]
      omega
    rw [if_pos hsplit, haddr, hsub]
    set m₁ := setFree (setSize h.mem (b.addr + total) (b.size - total)) (b.addr + total) with hm₁
    set m := setSize (setNext m₁ (b.addr + total) (nextField m₁ b.addr)) b.addr total with hm
    have hagree₁ : ∀ {a k : ℕ}, (a + k ≤ b.addr + total ∨ b.addr + total + 8 ≤ a) →
        Bytes.Agree h.mem m₁ a k := fun hout =>
      (agree_setSize hout).trans (agree_setSize hout)
    have hlink : nextField m₁ b.addr = nextField h.mem b.addr :=
      nextField_congr (hagree₁ (by omega))
    have hagree : ∀ {a k : ℕ}, (a + k ≤ b.addr ∨ b.addr + b.size ≤ a) → Bytes.Agree h.mem m a k :=
      fun hout => ((hagree₁ (by omega)).trans (agree_setNext (by omega))).trans
        (agree_setSize (by omega))
    have hlinked : Linked (nextField m) (b.addr + total)
        (⟨b.addr + total, b.size - total⟩ :: post) 0 := by
      have hfield : nextField m (b.addr + total) = nextField h.mem b.addr := by
        rw [← hlink, hm, nextField_congr (agree_setSize (by omega)),
          nextField_setNext (nextField_lt ..)]
      refine ⟨rfl, ?_⟩
      change Linked (nextField m) (nextField m (b.addr + total)) post 0
      rw [hfield]
      refine hpost.congr fun d hd => nextField_congr (hagree ?_)
      have := hpostBlock d hd
      omega
    have hrest : ∀ d ∈ (⟨b.addr + total, b.size - total⟩ :: post : List Blk),
        sizeField m d.addr = d.size + 1 := by
      refine List.forall_mem_cons.mpr ⟨?_, fun d hd => ?_⟩
      · have hfield : sizeField m₁ (b.addr + total) = b.size - total + 1 :=
          sizeField_setFree (by omega) (Or.inl (sizeField_setSize (by omega)))
        change sizeField m (b.addr + total) = b.size - total + 1
        rw [← hfield, hm, sizeField_congr (agree_setSize (by omega)),
          sizeField_congr (agree_setNext (by omega))]
      · have := hpostBlock d hd
        rw [sizeField_congr (hagree (by omega))]
        exact hi.free d (by simp [hd])
    have hplace : ∀ d ∈ (⟨b.addr + total, b.size - total⟩ :: post : List Blk), 32 ≤ d.size ∧
        (d ∈ post ∨ b.addr + total ≤ d.addr ∧ d.addr + d.size ≤ b.addr + b.size) := by
      refine List.forall_mem_cons.mpr ⟨⟨?_, Or.inr ⟨le_rfl, ?_⟩⟩, fun d hd =>
        ⟨(hpostBlock d hd).1, Or.inl hd⟩⟩
      · change 32 ≤ b.size - total
        omega
      · change b.addr + total + (b.size - total) ≤ b.addr + b.size
        omega
    obtain ⟨h', rfl, hbrk, hrepr, hlives⟩ := hi.leave (c := ⟨b.addr, total⟩)
      (fun x hx => hagree (k := 1) (by omega) x le_rfl (by omega)) htotal hleast hfit rfl
      (Or.inl (sizeField_setSize (by omega))) (by omega) hlinked hrest hplace
    have hreshape : Reshaped 16 32 (pre ++ b :: post ++ lives) h.brk
        ((pre ++ ⟨b.addr + total, b.size - total⟩ :: post) ++ ⟨b.addr, total⟩ :: lives) h.brk := by
      have hbefore : (pre ++ b :: post ++ lives).Perm (b :: (pre ++ post ++ lives)) := by
        rw [List.append_assoc, List.append_assoc]
        exact List.perm_middle
      refine Reshaped.split hbefore (List.perm_middle.trans (List.Perm.cons _ ?_)) htotal hleast hsplit
      rw [List.append_assoc, List.append_assoc]
      exact List.perm_middle
    exact ⟨⟨b.addr, total⟩, pre ++ ⟨b.addr + total, b.size - total⟩ :: post, rfl, le_rfl,
      hi.of_reshaped hrepr (hbrk.symm ▸ hreshape) (hbrk.le.trans hi.brk_le), hbrk, hreshape, hlives⟩
  · -- The block leaves the list as it is.
    rw [if_neg hsplit]
    obtain ⟨h', rfl, hbrk, hrepr, hlives⟩ := hi.leave (m := h.mem) (c := b) (fun _ _ => rfl) hsize hleast' le_rfl rfl
      (Or.inr (hi.free b (by simp))) hnext hpost (fun d hd => hi.free d (by simp [hd]))
      fun d hd => ⟨(hpostBlock d hd).1, Or.inl hd⟩
    have hreshape : Reshaped 16 32 (pre ++ b :: post ++ lives) h.brk ((pre ++ post) ++ b :: lives)
        h.brk := by
      refine Reshaped.same ?_
      have hfront : (pre ++ b :: post ++ lives).Perm (b :: (pre ++ post ++ lives)) := by
        rw [List.append_assoc, List.append_assoc]
        exact List.perm_middle
      exact hfront.trans List.perm_middle.symm
    exact ⟨b, pre ++ post, rfl, hfit,
      hi.of_reshaped hrepr (hbrk.symm ▸ hreshape) (hbrk.le.trans hi.brk_le), hbrk, hreshape, hlives⟩

end HeapInv

end Steps

end Malloc

end NekOS
