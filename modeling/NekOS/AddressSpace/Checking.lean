import NekOS.AddressSpace.Overflow

/-!
# Where the checks of the loader strike

The checked loader does what the loader does, as long as it does not halt.  It halts where the file makes
the loader come to a sum that leaves 64 bits, and memory does not run out before.
-/

namespace NekOS

open PageTable

namespace Exec

variable {data : List UInt8} {phdr : Elf64Phdr}

/-! ### The checked loader as the loader with checks -/

/-- Rounding up without an overflow. -/
lemma strictCeil_eq_some {x y : ℕ} :
    strictCeil x = some y ↔ x + pageSize < 2 ^ 64 ∧ pageFloor (x + pageSize - 1) = y := by
  rw [strictCeil, Option.map_eq_some_iff]
  constructor
  · rintro ⟨sum, hsum, rfl⟩
    obtain ⟨hlt, rfl⟩ := checkedAdd_eq_some.mp hsum
    exact ⟨hlt, rfl⟩
  · rintro ⟨hlt, rfl⟩
    exact ⟨_, checkedAdd_eq_some.mpr ⟨hlt, rfl⟩, rfl⟩

/-- The bytes of a page, when the sums of the copy do not overflow. -/
lemma guards_copy (data : List UInt8) (phdr : Elf64Phdr) (pageVa page : ℕ) :
    Fallible.Guards (strictCopy data phdr pageVa page) (Fallible.modify fun ph =>
      ph.copyIn (page + (pageBytes data phdr pageVa).1) (pageBytes data phdr pageVa).2) := by
  refine Fallible.Guards.unwrap_bind fun pageEnd hpage => ?_
  refine Fallible.Guards.unwrap_bind fun fileVaEnd hfile => ?_
  obtain ⟨hpage', rfl⟩ := checkedAdd_eq_some.mp hpage
  obtain ⟨hfile', rfl⟩ := checkedAdd_eq_some.mp hfile
  have hbytes : pageBytes data phdr pageVa = (max pageVa phdr.pVaddr - pageVa,
      (data.drop (wrapSub (wrap (phdr.pOffset + max pageVa phdr.pVaddr)) phdr.pVaddr)).take
        (min (pageVa + pageSize) (phdr.pVaddr + phdr.pFilesz) - max pageVa phdr.pVaddr)) := by
    rw [pageBytes, wrap_of_lt hpage', wrap_of_lt hfile']
  rw [hbytes]
  split_ifs with hcopy
  · refine Fallible.Guards.unwrap_bind fun sum hsum => ?_
    refine Fallible.Guards.unwrap_bind fun srcOffset hsrc => ?_
    refine Fallible.Guards.unwrap_bind fun dstOffset hdst => ?_
    refine Fallible.Guards.unwrap_bind fun len hlen => ?_
    refine Fallible.Guards.unwrap_bind fun bytes hslice => ?_
    obtain ⟨hsum', rfl⟩ := checkedAdd_eq_some.mp hsum
    obtain ⟨hle, rfl⟩ := strictSub_eq_some.mp hsrc
    obtain ⟨-, rfl⟩ := strictSub_eq_some.mp hdst
    obtain ⟨-, rfl⟩ := strictSub_eq_some.mp hlen
    rw [wrap_of_lt hsum', wrapSub_of_le hle hsum']
    obtain rfl : (data.drop (phdr.pOffset + max pageVa phdr.pVaddr - phdr.pVaddr)).take
        (min (pageVa + pageSize) (phdr.pVaddr + phdr.pFilesz) - max pageVa phdr.pVaddr) = bytes := by
      unfold slice at hslice
      split_ifs at hslice
      rw [← Option.some.inj hslice, List.extract_eq_take_drop, Nat.add_sub_cancel_left]
    exact Fallible.Guards.refl _
  · rw [Nat.sub_eq_zero_of_le (Nat.le_of_not_lt hcopy), List.take_zero]
    exact fun s r h => h

/-- A page. -/
lemma guards_loadPage (r : ℕ) (data : List UInt8) (phdr : Elf64Phdr) (j : ℕ) :
    Fallible.Guards (strictLoadPage r data phdr j) (loadPage r data phdr j) := by
  refine (Fallible.Guards.refl _).bind fun page => (Fallible.Guards.refl _).bind fun _ => ?_
  refine Fallible.Guards.unwrap_bind fun offset hoffset => ?_
  refine Fallible.Guards.unwrap_bind fun pageVa hpage => ?_
  obtain ⟨-, rfl⟩ := checkedMul_eq_some.mp hoffset
  obtain ⟨hlt, rfl⟩ := checkedAdd_eq_some.mp hpage
  rw [wrap_of_lt hlt]
  exact (guards_copy data phdr _ page).bind fun _ => Fallible.Guards.refl _

/-- The sums at the end of a segment. -/
lemma strictEnd_eq_some {stop stop' : ℕ} (hstop : checkedAdd phdr.pVaddr phdr.pMemsz = some stop)
    (hceil : strictCeil stop = some stop') :
    phdr.pVaddr + phdr.pMemsz + pageSize < 2 ^ 64 ∧ stop' = vaEnd phdr := by
  obtain ⟨-, rfl⟩ := checkedAdd_eq_some.mp hstop
  obtain ⟨hlt, rfl⟩ := strictCeil_eq_some.mp hceil
  have hfits : Fits phdr := hlt.le
  exact ⟨hlt, by rw [hfits.vaEnd]; rfl⟩

/-- The pages of a segment. -/
lemma guards_loadPages (r : ℕ) (data : List UInt8) (phdr : Elf64Phdr) (image : ℕ × ℕ) :
    Fallible.Guards (strictLoadPages r data phdr image) (do
      Fallible.forRange (numPages phdr) (loadPage r data phdr)
      return (min image.1 (vaStart phdr), max image.2 (vaEnd phdr))) := by
  refine Fallible.Guards.unwrap_bind fun stop hstop => ?_
  refine Fallible.Guards.unwrap_bind fun stop' hceil => ?_
  refine Fallible.Guards.unwrap_bind fun size hsize => ?_
  obtain ⟨hfits, rfl⟩ := strictEnd_eq_some hstop hceil
  obtain ⟨hle, rfl⟩ := strictSub_eq_some.mp hsize
  have hlt : vaEnd phdr < 2 ^ 64 := (segment_bounds (by omega)).2.2.2
  rw [numPages, wrapSub_of_le hle hlt]
  exact (Fallible.Guards.forRange fun j => guards_loadPage r data phdr j).bind fun _ =>
    Fallible.Guards.refl _

/-- A segment. -/
lemma guards_loadSegment (r : ℕ) (data : List UInt8) (ehdr : Elf64Ehdr) (i : ℕ) (image : ℕ × ℕ) :
    Fallible.Guards (strictLoadSegment r data ehdr i image) (loadSegment r data ehdr i image) := by
  refine Fallible.Guards.unwrap_bind fun step hstep => ?_
  refine Fallible.Guards.unwrap_bind fun off hoff => ?_
  refine Fallible.Guards.unwrap_bind fun phdr hphdr => ?_
  obtain ⟨-, rfl⟩ := checkedMul_eq_some.mp hstep
  obtain ⟨hlt, rfl⟩ := checkedAdd_eq_some.mp hoff
  obtain rfl : header data ehdr i = phdr := by
    unfold strictPhdr at hphdr
    split_ifs at hphdr
    rw [← Option.some.inj hphdr, header, phdrOffset, wrap_of_lt hlt]
  rw [loadSegment_eq]
  exact (Fallible.Guards.refl _).ite ((Fallible.Guards.refl _).ite (guards_loadPages r data _ image))

/-- What the outer loop of `elf_load` returns is read off the file. -/
lemma loadSegments_value {r : ℕ} {ehdr : Elf64Ehdr} {count : ℕ} {image : ℕ × ℕ} {ph ph' : Phys}
    (h : Fallible.foldRange count (loadSegment r data ehdr) (usizeMax, 0) ph = some (some image, ph')) :
    image = imageSpan data ehdr count := by
  induction count generalizing image ph' with
  | zero =>
    obtain ⟨rfl, -⟩ : (usizeMax, 0) = image ∧ ph = ph' := by simpa using h
    rfl
  | succ k ih =>
    rw [Fallible.foldRange_succ] at h
    obtain ⟨image₁, ph₁, hrun, hsegment⟩ := Fallible.bind_eq_some.mp h
    rw [imageSpan, extendSpan, ← ih hrun]
    rw [loadSegment_eq] at hsegment
    split_ifs at hsegment ⊢
    · obtain ⟨rfl, -⟩ : image₁ = image ∧ ph₁ = ph' := by simpa using hsegment
      rfl
    · simp at hsegment
    · obtain ⟨_, ph₂, -, hret⟩ := Fallible.bind_eq_some.mp hsegment
      obtain ⟨rfl, -⟩ : _ = image ∧ ph₂ = ph' := by simpa using hret
      rfl

/-- All segments. -/
lemma guards_elfLoad (r : ℕ) (data : List UInt8) (ehdr : Elf64Ehdr) :
    Fallible.Guards (strictElfLoad r data ehdr) (elfLoad r data ehdr) := by
  have hloop : Fallible.Guards
      (Fallible.foldRange ehdr.ePhnum (strictLoadSegment r data ehdr) (usizeMax, 0))
      (Fallible.foldRange ehdr.ePhnum (loadSegment r data ehdr) (usizeMax, 0)) :=
    Fallible.Guards.foldRange fun i image => guards_loadSegment r data ehdr i image
  refine hloop.bind_of fun image ph ph' hrun => (Fallible.Guards.refl _).ite ?_
  refine Fallible.Guards.unwrap_bind fun size hsize => ?_
  obtain ⟨hle, rfl⟩ := strictSub_eq_some.mp hsize
  have hlt := imageSpan_lt data ehdr ehdr.ePhnum
  rw [← loadSegments_value hrun] at hlt
  rw [wrapSub_of_le hle hlt]
  exact Fallible.Guards.refl _

/-- The checks of the header. -/
lemma strictVerify_eq_some {ehdr : Elf64Ehdr} {size : ℕ} {ok : Bool} (h : strictVerify ehdr size = some ok) :
    elfVerify ehdr size = ok := by
  unfold strictVerify at h
  split_ifs at h with hgood
  · obtain ⟨len, hlen, rfl⟩ := Option.map_eq_some_iff.mp h
    obtain ⟨-, rfl⟩ := checkedMul_eq_some.mp hlen
    rw [goodHeader] at hgood
    rw [elfVerify, hgood, Bool.true_and]
  · rw [goodHeader, Bool.not_eq_true] at hgood
    rw [elfVerify, hgood, Bool.false_and]
    exact Option.some.inj h

/-- A file. -/
lemma guards_loadFile (data : List UInt8) :
    Fallible.Guards (strictLoadFile data) (loadFile data) := by
  refine (Fallible.Guards.refl _).ite ?_
  refine Fallible.Guards.unwrap_bind fun ehdr hehdr => ?_
  refine Fallible.Guards.unwrap_bind fun ok hok => ?_
  obtain rfl : Elf64Ehdr.read data = ehdr := by
    unfold strictEhdr at hehdr
    split_ifs at hehdr
    exact Option.some.inj hehdr
  obtain rfl := strictVerify_eq_some hok
  refine (Fallible.Guards.refl _).ite ?_
  refine (Fallible.Guards.refl _).bind fun r => (Fallible.Guards.refl _).bind fun _ => ?_
  exact (guards_elfLoad r data _).bind fun image => Fallible.Guards.refl _

end Exec

namespace Kernel

open TaskManager

/-- Releasing a space. -/
lemma guards_freeUserSpace (r userStack imageBase imageSize heapBase heapEnd : ℕ) :
    Fallible.Guards (strictFreeUserSpace r userStack imageBase imageSize heapBase heapEnd)
      (freeUserSpace r userStack imageBase imageSize heapBase heapEnd) :=
  Fallible.Guards.unwrap_bind fun _ _ => Fallible.Guards.unwrap_bind fun _ _ => Fallible.Guards.refl _

/-- Loading a program. -/
lemma guards_load (name : String) : Fallible.Guards (strictLoad name) (load name) :=
  (Fallible.Guards.refl _).bind fun _ => (Fallible.Guards.refl _).bind fun data =>
    (Exec.guards_loadFile data).zoom

/-- Registering a program. -/
lemma guards_createUserImage (r userStack entry imageBase imageSize : ℕ) : Fallible.Guards
    (strictCreateUserImage r userStack entry imageBase imageSize)
    (Kernel.createUserImage r userStack entry imageBase imageSize) := by
  refine (Fallible.Guards.refl _).bind fun heapBase => ?_
  have hreject : Fallible.Guards (σ := Kernel) (α := ℕ)
      (onPhys (strictFreeUserSpace r userStack imageBase imageSize heapBase heapBase) >>= fun _ => Fallible.fail)
      (onPhys (freeUserSpace r userStack imageBase imageSize heapBase heapBase) >>= fun _ => Fallible.fail) :=
    (guards_freeUserSpace _ _ _ _ _ _).zoom.bind fun _ => Fallible.Guards.refl _
  refine Fallible.Guards.ite hreject ((Fallible.Guards.refl _).bind fun m => ?_)
  cases m.tasks.firstFree with
  | none => exact hreject
  | some slot =>
    refine (Fallible.Guards.refl _).bind fun kernelStack => ?_
    cases kernelStack with
    | none => exact hreject
    | some kernelStack => exact Fallible.Guards.refl _

/-- Replacing a program. -/
lemma guards_replaceCurrent (r userStack entry imageBase imageSize : ℕ) (tf : TrapFrame) : Fallible.Guards
    (strictReplaceCurrent r userStack entry imageBase imageSize tf)
    (Kernel.replaceCurrent r userStack entry imageBase imageSize tf) := by
  refine (Fallible.Guards.refl _).bind fun heapBase => (Fallible.Guards.refl _).ite ?_
  refine (Fallible.Guards.refl _).bind fun m => (Fallible.Guards.refl _).bind fun i => ?_
  refine (Fallible.Guards.refl _).bind fun old => (Fallible.Guards.refl _).bind fun _ => ?_
  exact (guards_freeUserSpace _ _ _ _ _ _).zoom.bind fun _ => Fallible.Guards.refl _

/-- Starting a program. -/
lemma guards_spawn (name : String) : Fallible.Guards (strictSpawn name) (Kernel.spawn name) :=
  (guards_load name).bind fun _ => guards_createUserImage _ _ _ _ _

/-- Going over to a program. -/
lemma guards_exec (name : String) (tf : TrapFrame) : Fallible.Guards (strictExec name tf) (Kernel.exec name tf) :=
  (guards_load name).bind fun _ => guards_replaceCurrent _ _ _ _ _ tf

end Kernel

end NekOS
