import Mathlib.Data.List.Nodup
import Mathlib.Data.List.Perm.Basic
import Mathlib.Data.Finset.Card
import Mathlib.Data.Finset.Range

/-!
# Blocks of memory

Ranges of addresses that do not overlap, and singly linked lists of blocks whose links are kept
elsewhere.  Splitting a block, adding one at the end and moving one to another list keep the blocks
apart.
-/

namespace NekOS

/-- A range of addresses. -/
structure Blk where
  addr : ℕ
  size : ℕ
  deriving DecidableEq

namespace Blk

/-- The address behind the last byte. -/
def stop (b : Blk) : ℕ := b.addr + b.size

/-- The blocks do not overlap. -/
def Apart (b c : Blk) : Prop := b.stop ≤ c.addr ∨ c.stop ≤ b.addr

/-- Apart both ways. -/
lemma Apart.symm {b c : Blk} (h : b.Apart c) : c.Apart b := Or.symm h

instance : Std.Symm Blk.Apart := ⟨fun _ _ => Apart.symm⟩

/-- A part of a block is apart from what the block is apart from. -/
lemma Apart.of_part {b c d : Blk} (h : b.Apart c) (h₁ : c.addr ≤ d.addr) (h₂ : d.stop ≤ c.stop) :
    b.Apart d := by
  unfold Apart at *
  omega

end Blk

/-- Blocks of a least size, in multiples of `unit`, that lie between two addresses and do not
overlap. -/
structure Arena (unit least start stop : ℕ) (blocks : List Blk) : Prop where
  sized : ∀ b ∈ blocks, b.size % unit = 0
  least_le : ∀ b ∈ blocks, least ≤ b.size
  start_le : ∀ b ∈ blocks, start ≤ b.addr
  stop_le : ∀ b ∈ blocks, b.stop ≤ stop
  apart : blocks.Pairwise Blk.Apart

namespace Arena

variable {unit least start stop : ℕ} {blocks bs cs : List Blk} {b c : Blk}

/-- No blocks. -/
lemma nil : Arena unit least start stop [] :=
  ⟨by simp, by simp, by simp, by simp, List.Pairwise.nil⟩

/-- The order of the blocks does not matter. -/
lemma perm (h : Arena unit least start stop bs) (hp : bs.Perm cs) : Arena unit least start stop cs where
  sized b hb := h.sized b (hp.mem_iff.mpr hb)
  least_le b hb := h.least_le b (hp.mem_iff.mpr hb)
  start_le b hb := h.start_le b (hp.mem_iff.mpr hb)
  stop_le b hb := h.stop_le b (hp.mem_iff.mpr hb)
  apart := (hp.pairwise_iff fun h => Blk.Apart.symm h).mp h.apart

/-- Another end behind all blocks. -/
lemma limit {stop' : ℕ} (h : Arena unit least start stop blocks)
    (hstop : ∀ b ∈ blocks, b.stop ≤ stop') : Arena unit least start stop' blocks :=
  ⟨h.sized, h.least_le, h.start_le, hstop, h.apart⟩

/-- Two blocks of different places. -/
lemma apart_cons (h : Arena unit least start stop (b :: blocks)) (hc : c ∈ blocks) : b.Apart c :=
  (List.pairwise_cons.mp h.apart).1 c hc

/-- A block in front. -/
lemma cons (h : Arena unit least start stop blocks) (hsize : b.size % unit = 0)
    (hleast : least ≤ b.size) (hstart : start ≤ b.addr) (hstop : b.stop ≤ stop)
    (hapart : ∀ c ∈ blocks, b.Apart c) : Arena unit least start stop (b :: blocks) where
  sized := List.forall_mem_cons.mpr ⟨hsize, h.sized⟩
  least_le := List.forall_mem_cons.mpr ⟨hleast, h.least_le⟩
  start_le := List.forall_mem_cons.mpr ⟨hstart, h.start_le⟩
  stop_le := List.forall_mem_cons.mpr ⟨hstop, h.stop_le⟩
  apart := List.pairwise_cons.mpr ⟨hapart, h.apart⟩

/-- Without the first block. -/
lemma tail (h : Arena unit least start stop (b :: blocks)) : Arena unit least start stop blocks where
  sized := (List.forall_mem_cons.mp h.sized).2
  least_le := (List.forall_mem_cons.mp h.least_le).2
  start_le := (List.forall_mem_cons.mp h.start_le).2
  stop_le := (List.forall_mem_cons.mp h.stop_le).2
  apart := (List.pairwise_cons.mp h.apart).2

/-- The blocks have different addresses. -/
lemma nodup (h : Arena unit least start stop blocks) (hleast : 0 < least) :
    (blocks.map Blk.addr).Nodup := by
  induction blocks with
  | nil => exact List.nodup_nil
  | cons b bs ih =>
    refine List.nodup_cons.mpr ⟨fun hmem => ?_, ih h.tail⟩
    obtain ⟨c, hc, heq⟩ := List.mem_map.mp hmem
    have hb := (List.forall_mem_cons.mp h.least_le).1
    have hc' := (List.forall_mem_cons.mp h.least_le).2 c hc
    have hapart := h.apart_cons hc
    unfold Blk.Apart Blk.stop at hapart
    omega

/-- There are at most as many blocks as addresses. -/
lemma length_le (h : Arena unit least start stop blocks) (hleast : 0 < least) :
    blocks.length ≤ stop := by
  have hsub : (blocks.map Blk.addr).toFinset ⊆ Finset.range stop := by
    intro a ha
    obtain ⟨b, hb, rfl⟩ := List.mem_map.mp (List.mem_toFinset.mp ha)
    have hsize := h.least_le b hb
    have hstop := h.stop_le b hb
    unfold Blk.stop at hstop
    exact Finset.mem_range.mpr (by omega)
  have hcard := Finset.card_le_card hsub
  rwa [List.toFinset_card_of_nodup (h.nodup hleast), List.length_map, Finset.card_range] at hcard

end Arena

/-- The blocks lie one behind the other from `start` to `stop`. -/
def Consecutive : ℕ → List Blk → ℕ → Prop
  | start, [], stop => start = stop
  | start, b :: bs, stop => b.addr = start ∧ Consecutive b.stop bs stop

namespace Consecutive

variable {start stop : ℕ} {bs cs : List Blk} {b : Blk}

/-- One row behind the other. -/
lemma append : Consecutive start (bs ++ cs) stop ↔
    ∃ mid, Consecutive start bs mid ∧ Consecutive mid cs stop := by
  induction bs generalizing start with
  | nil => simp [Consecutive]
  | cons b bs ih =>
    rw [List.cons_append, Consecutive, ih]
    simp only [Consecutive]
    constructor
    · rintro ⟨h, y, h₁, h₂⟩
      exact ⟨y, ⟨h, h₁⟩, h₂⟩
    · rintro ⟨y, ⟨h, h₁⟩, h₂⟩
      exact ⟨h, y, h₁, h₂⟩

/-- A block of the row is split in two. -/
lemma split {n : ℕ} (h : Consecutive start (bs ++ b :: cs) stop) (hn : n ≤ b.size) :
    Consecutive start (bs ++ ⟨b.addr, n⟩ :: ⟨b.addr + n, b.size - n⟩ :: cs) stop := by
  obtain ⟨mid, h₁, h₂, h₃⟩ := append.mp h
  refine append.mpr ⟨mid, h₁, h₂, rfl, ?_⟩
  have hstop : (⟨b.addr + n, b.size - n⟩ : Blk).stop = b.stop := by
    unfold Blk.stop
    dsimp only
    omega
  rwa [hstop]

end Consecutive

/-- The blocks fill the range from `start` to `stop`. -/
def Tiles (start stop : ℕ) (blocks : List Blk) : Prop :=
  ∃ row : List Blk, row.Perm blocks ∧ Consecutive start row stop

/-- What becomes of the blocks below `stop`: nothing, one of them is split, or one is added behind. -/
inductive Reshaped (unit least : ℕ) : List Blk → ℕ → List Blk → ℕ → Prop
  | same {bs cs : List Blk} {stop : ℕ} : bs.Perm cs → Reshaped unit least bs stop cs stop
  | split {bs cs rest : List Blk} {b : Blk} {n stop : ℕ} : bs.Perm (b :: rest) →
      cs.Perm (⟨b.addr, n⟩ :: ⟨b.addr + n, b.size - n⟩ :: rest) → n % unit = 0 → least ≤ n →
      n + least ≤ b.size → Reshaped unit least bs stop cs stop
  | grow {bs cs : List Blk} {n stop : ℕ} : cs.Perm (⟨stop, n⟩ :: bs) → n % unit = 0 → least ≤ n →
      Reshaped unit least bs stop cs (stop + n)

namespace Reshaped

variable {unit least start stop stop' : ℕ} {bs cs : List Blk}

/-- The end does not move down. -/
lemma stop_le (h : Reshaped unit least bs stop cs stop') : stop ≤ stop' := by
  cases h with
  | same => exact le_rfl
  | split => exact le_rfl
  | grow => exact Nat.le_add_right ..

/-- The order of the blocks afterwards does not matter. -/
lemma trans_perm {ds : List Blk} (h : Reshaped unit least bs stop cs stop') (hp : cs.Perm ds) :
    Reshaped unit least bs stop ds stop' := by
  cases h with
  | same h => exact .same (h.trans hp)
  | split h₁ h₂ h₃ h₄ h₅ => exact .split h₁ (hp.symm.trans h₂) h₃ h₄ h₅
  | grow h₁ h₂ h₃ => exact .grow (hp.symm.trans h₁) h₂ h₃

/-- The order of the blocks before does not matter. -/
lemma of_perm {ds : List Blk} (h : Reshaped unit least bs stop cs stop') (hp : ds.Perm bs) :
    Reshaped unit least ds stop cs stop' := by
  cases h with
  | same h => exact .same (hp.trans h)
  | split h₁ h₂ h₃ h₄ h₅ => exact .split (hp.trans h₁) h₂ h₃ h₄ h₅
  | grow h₁ h₂ h₃ => exact .grow (h₁.trans (hp.symm.cons _)) h₂ h₃

/-- A range apart from all blocks stays so. -/
lemma apart (h : Reshaped unit least bs stop cs stop') {o : Blk} (hstop : o.stop ≤ stop)
    (ho : ∀ b ∈ bs, o.Apart b) : ∀ c ∈ cs, o.Apart c := by
  intro c hc
  cases h with
  | same hp => exact ho c (hp.mem_iff.mpr hc)
  | @split _ rest b n _ hbs hcs _ _ hn =>
    have hb : o.Apart b := ho b (hbs.mem_iff.mpr (List.mem_cons_self ..))
    rcases List.mem_cons.mp (hcs.mem_iff.mp hc) with rfl | hc
    · refine hb.of_part le_rfl ?_
      change b.addr + n ≤ b.addr + b.size
      omega
    rcases List.mem_cons.mp hc with rfl | hc
    · refine hb.of_part (Nat.le_add_right ..) ?_
      change b.addr + n + (b.size - n) ≤ b.addr + b.size
      omega
    · exact ho c (hbs.mem_iff.mpr (List.mem_cons_of_mem _ hc))
  | grow hcs =>
    rcases List.mem_cons.mp (hcs.mem_iff.mp hc) with rfl | hc
    · exact Or.inl hstop
    · exact ho c hc

/-- The blocks still do not overlap. -/
lemma arena (h : Reshaped unit least bs stop cs stop') (hbs : Arena unit least start stop bs)
    (hstart : start ≤ stop) : Arena unit least start stop' cs := by
  cases h with
  | same hp => exact hbs.perm hp
  | @split _ rest b n _ hp hcs hunit hleast hn =>
    have h := hbs.perm hp
    have hsize := (List.forall_mem_cons.mp h.sized).1
    have hlow := (List.forall_mem_cons.mp h.start_le).1
    have hhigh := (List.forall_mem_cons.mp h.stop_le).1
    have hsub : (b.size - n) % unit = 0 := by
      obtain ⟨k, hk⟩ := Nat.dvd_of_mod_eq_zero hsize
      obtain ⟨l, hl⟩ := Nat.dvd_of_mod_eq_zero hunit
      rw [hk, hl, ← Nat.mul_sub]
      exact Nat.mul_mod_right ..
    unfold Blk.stop at hhigh
    have hrest : Arena unit least start stop (⟨b.addr + n, b.size - n⟩ :: rest) := by
      refine h.tail.cons hsub ?_ ?_ ?_ fun c hc => ?_
      · change least ≤ b.size - n
        omega
      · exact hlow.trans (Nat.le_add_right ..)
      · change b.addr + n + (b.size - n) ≤ stop
        omega
      · refine (Blk.Apart.of_part (h.apart_cons hc).symm (Nat.le_add_right ..) ?_).symm
        change b.addr + n + (b.size - n) ≤ b.addr + b.size
        omega
    refine (hrest.cons (b := ⟨b.addr, n⟩) hunit hleast hlow ?_ ?_).perm hcs.symm
    · change b.addr + n ≤ stop
      omega
    · refine List.forall_mem_cons.mpr ⟨Or.inl le_rfl, fun c hc => ?_⟩
      refine (Blk.Apart.of_part (d := ⟨b.addr, n⟩) (h.apart_cons hc).symm le_rfl ?_).symm
      change b.addr + n ≤ b.addr + b.size
      omega
  | @grow _ n _ hcs hunit hleast =>
    have h := hbs.limit fun b hb => (hbs.stop_le b hb).trans (Nat.le_add_right stop n)
    exact (h.cons hunit hleast hstart le_rfl fun c hc => Or.inr (hbs.stop_le c hc)).perm hcs.symm

/-- Addresses and sizes in multiples of `unit` stay so, if the end is one where the blocks grow. -/
lemma aligned (h : Reshaped unit least bs stop cs stop') (hbs : ∀ b ∈ bs, b.addr % unit = 0)
    (hstop : stop < stop' → stop % unit = 0) (hleast : 0 < least) : ∀ c ∈ cs, c.addr % unit = 0 := by
  intro c hc
  cases h with
  | same hp => exact hbs c (hp.mem_iff.mpr hc)
  | @split _ rest b n _ hp hcs hunit =>
    have hb := hbs b (hp.mem_iff.mpr (List.mem_cons_self ..))
    rcases List.mem_cons.mp (hcs.mem_iff.mp hc) with rfl | hc
    · exact hb
    rcases List.mem_cons.mp hc with rfl | hc
    · change (b.addr + n) % unit = 0
      rw [Nat.add_mod, hb, hunit, Nat.add_zero, Nat.zero_mod]
    · exact hbs c (hp.mem_iff.mpr (List.mem_cons_of_mem _ hc))
  | grow hcs _ hn =>
    rcases List.mem_cons.mp (hcs.mem_iff.mp hc) with rfl | hc
    · exact hstop (by omega)
    · exact hbs c hc

/-- The blocks still fill their range. -/
lemma tiles (h : Reshaped unit least bs stop cs stop') (hbs : Tiles start stop bs) :
    Tiles start stop' cs := by
  obtain ⟨row, hrow, hcons⟩ := hbs
  cases h with
  | same hp => exact ⟨row, hrow.trans hp, hcons⟩
  | @split _ rest b n _ hp hcs _ _ hn =>
    obtain ⟨pre, post, rfl⟩ := List.append_of_mem
      ((hrow.trans hp).mem_iff.mpr (List.mem_cons_self (a := b) (l := rest)))
    refine ⟨pre ++ ⟨b.addr, n⟩ :: ⟨b.addr + n, b.size - n⟩ :: post, ?_, hcons.split (by omega)⟩
    have hrest : (pre ++ post).Perm rest :=
      (List.perm_middle.symm.trans (hrow.trans hp)).cons_inv
    refine List.Perm.trans ?_ hcs.symm
    exact List.perm_middle.trans ((List.perm_middle.trans (hrest.cons _)).cons _)
  | @grow _ n _ hcs =>
    have hlast : Consecutive stop [⟨stop, n⟩] (stop + n) := ⟨rfl, rfl⟩
    refine ⟨row ++ [⟨stop, n⟩], ?_, Consecutive.append.mpr ⟨stop, hcons, hlast⟩⟩
    exact (List.perm_append_singleton _ _).trans ((hrow.cons _).trans hcs.symm)

end Reshaped

/-! ### Linked lists -/

/-- Following the links from `a` visits the blocks and arrives at `z`. -/
def Linked (next : ℕ → ℕ) : ℕ → List Blk → ℕ → Prop
  | a, [], z => a = z
  | a, b :: bs, z => a = b.addr ∧ Linked next (next b.addr) bs z

namespace Linked

variable {next next' : ℕ → ℕ} {a x z : ℕ} {bs cs : List Blk} {b : Blk}

/-- One list after the other. -/
lemma append : Linked next a (bs ++ cs) z ↔ ∃ y, Linked next a bs y ∧ Linked next y cs z := by
  induction bs generalizing a with
  | nil => simp [Linked]
  | cons b bs ih =>
    rw [List.cons_append, Linked, ih]
    simp only [Linked]
    constructor
    · rintro ⟨h, y, h₁, h₂⟩
      exact ⟨y, ⟨h, h₁⟩, h₂⟩
    · rintro ⟨y, ⟨h, h₁⟩, h₂⟩
      exact ⟨h, y, h₁, h₂⟩

/-- Only the links of the blocks matter. -/
lemma congr (h : Linked next a bs z) (hnext : ∀ b ∈ bs, next' b.addr = next b.addr) :
    Linked next' a bs z := by
  induction bs generalizing a with
  | nil => exact h
  | cons b bs ih =>
    obtain ⟨hb, hbs⟩ := List.forall_mem_cons.mp hnext
    refine ⟨h.1, ?_⟩
    rw [hb]
    exact ih h.2 hbs

/-- The last link leads somewhere else. -/
lemma relink (h : Linked next a (bs ++ [b]) z) (hnext : ∀ c ∈ bs, next' c.addr = next c.addr)
    (hlast : next' b.addr = x) : Linked next' a (bs ++ [b]) x := by
  obtain ⟨y, h₁, hy, -⟩ := append.mp h
  exact append.mpr ⟨y, h₁.congr hnext, hy, hlast⟩

end Linked

end NekOS
