import NekOS.AddressSpace.FailedStarts
import NekOS.AddressSpace.Halting
import NekOS.AddressSpace.Progress

/-!
# Programs stay in their images

`spawn` and `exec` of a file whose sums have 64 bits end, read only bytes of the file, and fail or install
a program all of whose pages lie in its image.  Where the pages are left for it, a sum that leaves 64 bits
is met.
-/

namespace NekOS

open PageTable

namespace Exec

variable {data : List UInt8} {image : LoadedImage} {ph ph' : Phys} {own : ℕ → Role}

/-! ### Loaded files -/

/-- What `load` has passed when it returns an image. -/
lemma fits_of_load (hS : Spaces ph own) (hdata : Contained data)
    (hrun : loadFile data ph = some (some image, ph')) :
    headerOk data = true ∧ ∀ phdr ∈ segments data, Fits phdr := by
  rw [loadFile] at hrun
  split_ifs at hrun with hlen hverify
  · simp at hrun
  · simp at hrun
  have hheader : headerOk data = true := by
    rw [headerOk, decide_eq_true (Nat.le_of_not_lt hlen), Bool.true_and]
    simpa using hverify
  obtain ⟨r, ph₁, hcreate, hrun⟩ := Fallible.bind_eq_some.mp hrun
  obtain ⟨_, ph₂, hkernel, hrun⟩ := Fallible.bind_eq_some.mp hrun
  obtain ⟨_, ph₃, helf, -⟩ := Fallible.bind_eq_some.mp hrun
  obtain ⟨_, ph₃', hsegments, -⟩ := Fallible.bind_eq_some.mp helf
  rcases create_mapKernel hS.tables hS.root with ⟨hfail, -⟩ |
    ⟨r', ph₁', o₂, ph₂', own₂, hcreate', hkernel', -, hB₂, -, -, -, hdone, -⟩
  · rw [hcreate] at hfail
    simp at hfail
  rw [hcreate] at hcreate'
  obtain ⟨rfl, rfl⟩ : r = r' ∧ ph₁ = ph₁' := by simpa using hcreate'
  rw [hkernel] at hkernel'
  obtain ⟨rfl, rfl⟩ : o₂ = some () ∧ ph₂ = ph₂' := by simpa [eq_comm] using hkernel'
  refine ⟨hheader, fun phdr hphdr => ?_⟩
  obtain ⟨i, hi, rfl, hskip⟩ := mem_segments.mp hphdr
  exact hB₂.fits_of_contained (hdone rfl).1 hheader hdata le_rfl hsegments i hi hskip

/-- A file whose segments end in the address space. -/
lemma elfOk_of_fits {strict : Bool} (h : ∀ phdr ∈ segments data, Fits phdr) :
    ElfOk strict data (Elf64Ehdr.read data) := fun i hi hskip hwraps => by
  have hle := (h _ (mem_segments.mpr ⟨i, hi, rfl, hskip⟩)).vaStart_le
  rw [wraps, decide_eq_true_eq] at hwraps
  omega

/-- The end of the image can be rounded up, when an image is loaded. -/
def Rounds (data : List UInt8) : Prop := headerOk data = true → Loadable data (Elf64Ehdr.read data) →
  (imageSpan data (Elf64Ehdr.read data) (Elf64Ehdr.read data).ePhnum).2 + pageSize < 2 ^ 64

/-- A file from which an image has been built is loadable, and the image ends with its segments. -/
lemma round_of_load (hS : Spaces ph own) (hdata : Contained data) (hround : Rounds data)
    (hrun : loadFile data ph = some (some image, ph')) :
    image.imageBase + image.imageSize + pageSize < 2 ^ 64 := by
  obtain ⟨hheader, hfits⟩ := fits_of_load hS hdata hrun
  obtain ⟨own', -, hbuilt⟩ := loadFile_built hS hfits hrun
  rw [(hbuilt.span hfits).2]
  refine hround hheader ⟨fun i hi => ?_, hbuilt.nodup, hbuilt.user, ?_⟩
  · by_cases hskip : skipped (header data (Elf64Ehdr.read data) i) = true
    · exact Or.inl hskip
    · rw [Bool.not_eq_true] at hskip
      exact Or.inr (hbuilt.segment _ (mem_segments.mpr ⟨i, hi, rfl, hskip⟩)).1
  · obtain ⟨⟨i, hi, hskip, -⟩, -⟩ := (imageSpan_hull ..).2 hbuilt.some_segment
    exact ⟨i, hi, hskip⟩

end Exec

/-- No sum overflows at the pages to which the loader comes when it has `free` pages: 28 for the kernel, the
stack and the tables above them, and three for each page. -/
def Exec.ContainedWithin (free : ℕ) (data : List UInt8) : Prop :=
  ∀ i j, Exec.Reaches data i j → 28 + 3 * ((Exec.imagePages data (Elf64Ehdr.read data) i).length + j + 1) ≤ free →
    Exec.Sums (Exec.header data (Elf64Ehdr.read data) i) j

/-- **A task stays in its image**: the range of its image ends below `HEAP_LIMIT`, and all pages that it
reaches in user mode, other than its stack, lie in the range. -/
structure Task.Confined (ph : Phys) (t : Task) : Prop where
  limit : t.imageBase + t.imageSize ≤ TaskManager.heapLimit
  pages : ∀ n < 2 ^ 27, ∀ e, lookup ph t.pagetable n = some e → hasFlag e pteU = true → n ≠ stackPage →
    t.imageBase ≤ n * pageSize ∧ (n + 1) * pageSize ≤ t.imageBase + t.imageSize

section Loaded

variable {data : List UInt8} {image : LoadedImage} {ph ph' : Phys} {own own' : ℕ → Role}

/-- A task that gets a loaded program stays in its image. -/
lemma LoadedAfresh.confined (h : LoadedAfresh true data ph own ph' own' image) {t : Task}
    (hpt : t.pagetable = image.pagetable) (hbase : t.imageBase = image.imageBase)
    (hsize : t.imageSize = image.imageSize)
    (hlimit : image.imageBase + image.imageSize ≤ TaskManager.heapLimit) : t.Confined ph' := by
  have hlimit' := hlimit
  simp only [TaskManager.heapLimit, userStackTop, pageSize] at hlimit'
  obtain ⟨hmod, hfits⟩ := h.loaded.fits _ (checkedAdd_eq_some.mpr ⟨by omega, rfl⟩)
  refine ⟨by rw [hbase, hsize]; exact hlimit, fun n hn e he huser hstack => ?_⟩
  rw [hpt] at he
  rw [hbase, hsize]
  rcases hfits n hn e he with hk | hs | hc | ⟨hfalse, -⟩
  · obtain ⟨e', he', hleaf⟩ := h.loaded.kernel n hk
    obtain rfl := Option.some.inj (he.symm.trans he')
    obtain rfl := hleaf.user huser
    rw [h.loaded.closed e he] at huser
    cases huser
  · exact absurd hs hstack
  · obtain ⟨va, halign, hle, hlt, rfl⟩ := hc
    simp only [pageNumber, pageSize] at *
    omega
  · cases hfalse

/-- A loaded program is released when its end can be rounded up. -/
lemma LoadedAfresh.finishes_release (h : LoadedAfresh true data ph own ph' own' image) (hS : Spaces ph own)
    (hround : image.imageBase + image.imageSize + pageSize < 2 ^ 64) : Fallible.Finishes
      (Kernel.strictFreeUserSpace image.pagetable image.userStack image.imageBase image.imageSize
        (image.imageBase + image.imageSize) (image.imageBase + image.imageSize)) ph' := by
  have hlt : (Exec.imageRange data).1 + (Exec.imageRange data).2 < 2 ^ 64 := by
    rw [← h.range]
    exact (Nat.le_add_right ..).trans_lt hround
  obtain ⟨ph'', hrun, -⟩ := h.release_iff hS hlt
  refine Fallible.Finishes.unwrap_bind (checkedAdd_eq_some.mpr ⟨by omega, rfl⟩) ?_
  exact Fallible.Finishes.unwrap_bind (Exec.strictCeil_eq_some.mpr ⟨hround, rfl⟩) ⟨_, hrun⟩

end Loaded

namespace Kernel

open TaskManager

variable {k : Kernel} {name : String} {data : List UInt8}

/-- **`spawn` is safe**: the checked program ends, so that no sum overflows and nothing outside the file is
read, and a task that is created stays in its image. -/
def SafeSpawn (name : String) (k : Kernel) : Prop :=
  ∃ o k', strictSpawn name k = some (o, k') ∧ Kernel.spawn name k = some (o, k') ∧ ∀ pid, o = some pid →
    ∃ i t, k.tm.tasks i = none ∧ k'.tm.tasks i = some t ∧ t.pid = pid ∧ t.Confined k'.phys

/-- **`exec` is safe**: the checked program ends, and the new program stays in its image. -/
def SafeExec (name : String) (tf : TrapFrame) (k : Kernel) : Prop :=
  ∃ o k', strictExec name tf k = some (o, k') ∧ Kernel.exec name tf k = some (o, k') ∧ ∀ fr, o = some fr →
    ∃ i t, k.tm.currentIndex = some i ∧ k'.tm.tasks i = some t ∧ t.Confined k'.phys

/-- `load` with its checks ends when no sum overflows. -/
lemma finishes_strictLoad {own : ℕ → Role} (hS : Spaces k.phys own)
    (hdata : ∀ data, k.findFile name = some data → Exec.Contained data) :
    Fallible.Finishes (strictLoad name) k :=
  (Fallible.Finishes.gets _).bind fun k' t hk => by
    obtain ⟨rfl, rfl⟩ : k = k' ∧ k = t := by simpa using hk
    exact Fallible.Finishes.ofOption_bind fun data hfile =>
      finishes_onPhys (Exec.finishes_strictLoadFile hS (hdata data hfile))

/-- The image that `load` has built when no sum overflows. -/
lemma loadedAfresh_of_contained {own : ℕ → Role} {image : LoadedImage} {k' : Kernel} (hS : Spaces k.phys own)
    (hfile : k.findFile name = some data) (hdata : Exec.Contained data)
    (hload : load name k = some (some image, k')) : Exec.headerOk data = true ∧ ∃ ph own',
      k' = { k with phys := ph } ∧ Exec.loadFile data k.phys = some (some image, ph) ∧
      LoadedAfresh true data k.phys own ph own' image := by
  rcases load_cases hload with ⟨hnone, -⟩ | ⟨data', ph, hfile', hloadFile, rfl⟩
  · cases hnone
  obtain rfl := Option.some.inj (hfile.symm.trans hfile')
  obtain ⟨hheader, hfits⟩ := Exec.fits_of_load hS hdata hloadFile
  obtain ⟨own', hafresh⟩ := loadedAfresh_of_load hS (Exec.elfOk_of_fits hfits) hloadFile
  exact ⟨hheader, ph, own', rfl, hloadFile, hafresh⟩

/-- Registering a program ends when a rejected one can be released. -/
lemma finishes_strictCreateUserImage {r userStack entry imageBase imageSize : ℕ}
    (h : Fallible.Finishes (strictFreeUserSpace r userStack imageBase imageSize (imageBase + imageSize)
      (imageBase + imageSize)) k.phys) :
    Fallible.Finishes (strictCreateUserImage r userStack entry imageBase imageSize) k := by
  refine Fallible.Finishes.ofOption_bind fun heapBase hheap => ?_
  obtain ⟨-, rfl⟩ := checkedAdd_eq_some.mp hheap
  have hreject : Fallible.Finishes (σ := Kernel) (α := ℕ) (onPhys (strictFreeUserSpace r userStack imageBase
      imageSize (imageBase + imageSize) (imageBase + imageSize)) >>= fun _ => Fallible.fail) k :=
    (finishes_onPhys h).bind fun _ _ _ => Fallible.Finishes.fail
  refine Fallible.Finishes.ite (fun _ => hreject) fun _ => finishes_readTm_bind.mpr ?_
  cases k.tm.tasks.firstFree with
  | none => exact hreject
  | some slot =>
    refine (Fallible.Finishes.attempt (finishes_onPhys (finishes_allocPage _))).bind fun page k' halloc => ?_
    cases page with
    | none =>
      obtain ⟨⟨page, k₁⟩, halloc', heq⟩ := Option.map_eq_some_iff.mp halloc
      obtain ⟨rfl, rfl⟩ : page = none ∧ k₁ = k' := by simpa using heq
      obtain ⟨ph, hnone, rfl⟩ := onPhys_eq_some.mp halloc'
      obtain rfl := allocPage_eq_none hnone
      exact hreject
    | some page => exact ⟨_, rfl⟩

/-- **`spawn` is safe** when no sum overflows. -/
lemma safeSpawn_of_contained {own : ℕ → Role} (hS : Spaces k.phys own)
    (hfile : k.findFile name = some data) (hdata : Exec.Contained data) (hround : Exec.Rounds data) :
    SafeSpawn name k := by
  have hfin : Fallible.Finishes (strictSpawn name) k := by
    refine (finishes_strictLoad hS fun data' hfile' => ?_).bind fun image k' hload => ?_
    · obtain rfl := Option.some.inj (hfile.symm.trans hfile')
      exact hdata
    · obtain ⟨-, ph, own', rfl, hloadFile, hafresh⟩ :=
        loadedAfresh_of_contained hS hfile hdata (guards_load name _ _ hload)
      exact finishes_strictCreateUserImage
        (hafresh.finishes_release hS (Exec.round_of_load hS hdata hround hloadFile))
  obtain ⟨⟨o, k'⟩, hstrict⟩ := hfin
  have hrun := guards_spawn name _ _ hstrict
  refine ⟨o, k', hstrict, hrun, fun pid hpid => ?_⟩
  subst hpid
  rcases spawn_cases hrun with ⟨hnone, -⟩ | ⟨image, ph, hload, hcreate⟩
  · cases hnone
  rcases createUserImage_cases hcreate with ⟨hnone, -⟩ |
    ⟨hpid, hlimit, -, slot, kernelStack, ph', hslot, halloc, rfl⟩
  · cases hnone
  obtain ⟨-, ph₁, own', heq, -, hafresh⟩ := loadedAfresh_of_contained hS hfile hdata hload
  obtain rfl : ph = ph₁ := congrArg Kernel.phys heq
  have hmem : ph'.mem = ph.mem := allocPage_mem halloc
  obtain ⟨hlimit', hpages⟩ := hafresh.confined (t := imageTask k.tm image.pagetable image.userStack image.entry
    image.imageBase image.imageSize (image.imageBase + image.imageSize) kernelStack) rfl rfl rfl hlimit
  refine ⟨slot, _, Slots.firstFree_eq_some hslot, Slots.set_self .., ?_, hlimit', fun n hn e he => ?_⟩
  · exact (Option.some.inj hpid).symm
  · exact hpages n hn e (by rwa [lookup_of_mem hmem] at he)

/-- The space of a housed task is released, and no other tree changes. -/
lemma strictRelease {strict : Bool} {m : TaskManager} {ph : Phys} {own : ℕ → Role}
    (h : NekOS.Housed strict m ph own) {i : Fin maxTasks} {t : Task} (ht : m.tasks i = some t) :
    ∃ ph', strictFreeUserSpace t.pagetable t.userStack t.imageBase t.imageSize t.heapBase t.heapEnd ph =
      some (some (), ph') ∧ ∀ r, own r = .root → r ≠ t.pagetable → ∀ n, lookup ph' r n = lookup ph r n := by
  have hhome := h.home i t ht
  obtain ⟨ph', own', hrun, hrel⟩ := hhome.release h.spaces false
  rw [freeUserSpaceWith_false] at hrun
  have hheap := hhome.layout.heap_eq
  have hle := hhome.layout.heap_le
  have hlimit := hhome.layout.limit
  simp only [heapLimit, userStackTop, pageSize] at hlimit
  refine ⟨ph', ?_, fun r hr hne n => hrel.toLocal.lookup_eq h.spaces.tables (hrel.spaces h.spaces).tables hr hne n⟩
  have hsum : checkedAdd t.imageBase t.imageSize = some (t.imageBase + t.imageSize) :=
    checkedAdd_eq_some.mpr ⟨by omega, rfl⟩
  have hceil : Exec.strictCeil (t.imageBase + t.imageSize) =
      some (pageFloor (t.imageBase + t.imageSize + pageSize - 1)) :=
    Exec.strictCeil_eq_some.mpr ⟨by simp only [pageSize]; omega, rfl⟩
  rw [strictFreeUserSpace, hsum, Fallible.unwrap_some_bind, hceil, Fallible.unwrap_some_bind]
  exact hrun

/-- **`exec` is safe** when no sum overflows and the space of the caller is in order. -/
lemma safeExec_of_contained {strict : Bool} {own : ℕ → Role} {tf : TrapFrame}
    (h : NekOS.Housed strict k.tm k.phys own) (hfile : k.findFile name = some data)
    (hdata : Exec.Contained data) : SafeExec name tf k := by
  have hS := h.spaces
  have hload : ∀ {image k'}, load name k = some (some image, k') → ∃ ph own', k' = { k with phys := ph } ∧
      LoadedAfresh true data k.phys own ph own' image ∧ NekOS.Housed strict k.tm ph own' := fun hload => by
    obtain ⟨-, ph, own', hk', -, hafresh⟩ := loadedAfresh_of_contained hS hfile hdata hload
    exact ⟨ph, own', hk', hafresh, h.building hafresh.building hafresh.fresh hafresh.loaded.closed⟩
  have hfin : Fallible.Finishes (strictExec name tf) k := by
    refine (finishes_strictLoad hS fun data' hfile' => ?_).bind fun image k' hstrict => ?_
    · obtain rfl := Option.some.inj (hfile.symm.trans hfile')
      exact hdata
    obtain ⟨ph, own', rfl, hafresh, h'⟩ := hload (guards_load name _ _ hstrict)
    refine Fallible.Finishes.ofOption_bind fun heapBase _ => Fallible.Finishes.guard fun _ =>
      finishes_readTm_bind.mpr (Fallible.Finishes.ofOption_bind fun i _ =>
        Fallible.Finishes.ofOption_bind fun old hold => finishes_onTm_bind.mpr ?_)
    obtain ⟨ph', hrun, -⟩ := strictRelease h' hold
    exact Fallible.Finishes.bind (finishes_onPhys ⟨_, hrun⟩) fun _ _ _ => Fallible.Finishes.pure _
  obtain ⟨⟨o, k'⟩, hstrict⟩ := hfin
  have hrun := guards_exec name tf _ _ hstrict
  refine ⟨o, k', hstrict, hrun, fun fr hfr => ?_⟩
  subst hfr
  rcases exec_cases hrun with ⟨hnone, -⟩ | ⟨image, ph, hload', hreplace⟩
  · cases hnone
  rcases replaceCurrent_cases hreplace with ⟨hnone, -⟩ | ⟨-, hlimit, -, i, old, ph', hi, hold, hfree, rfl⟩
  · cases hnone
  obtain ⟨ph₁, own', heq, hafresh, h'⟩ := hload hload'
  obtain rfl : ph = ph₁ := congrArg Kernel.phys heq
  obtain ⟨ph₂, hrelease, hother⟩ := strictRelease h' hold
  obtain rfl : ph' = ph₂ := by
    simpa using hfree.symm.trans (guards_freeUserSpace _ _ _ _ _ _ _ _ hrelease)
  have hne : image.pagetable ≠ old.pagetable := by
    rintro heq
    have hroot := (h.home i old hold).root
    rw [← heq, hafresh.fresh] at hroot
    cases hroot
  obtain ⟨hlimit', hpages⟩ := hafresh.confined (t := { old with
    pagetable := image.pagetable
    userStack := image.userStack
    entry := image.entry
    imageBase := image.imageBase
    imageSize := image.imageSize
    heapBase := image.imageBase + image.imageSize
    heapEnd := image.imageBase + image.imageSize }) rfl rfl rfl hlimit
  refine ⟨i, _, hi, (Slots.set_self ..).trans (congrArg _ hold), hlimit', fun n hn e he => ?_⟩
  exact hpages n hn e (by rwa [hother _ hafresh.building.root hne] at he)

/-- Where the checked `load` ends, no sum overflows as far as memory goes. -/
lemma contained_of_finishes {own : ℕ → Role} (hS : Spaces k.phys own) (hfile : k.findFile name = some data)
    (hfin : Fallible.Finishes (strictLoad name) k) : Exec.ContainedWithin k.phys.page.freePages data := by
  intro i j hreach hcost
  have hfin' : Fallible.Finishes (Exec.strictLoadFile data) k.phys := by
    obtain ⟨r, hr⟩ := (hfin.parts.2 k k rfl).parts.2 data k (by simp [hfile])
    obtain ⟨res, hres, -⟩ := Option.map_eq_some_iff.mp hr
    exact ⟨res, hres⟩
  obtain ⟨r, ph', own', hB, hkernel, hempty, hpages, hsegments⟩ :=
    Exec.header_of_finishes hS hfin' hreach.header (by omega)
  exact hB.sums_of_finishes hkernel hempty hsegments hreach (by omega)

/-- Where the checked `spawn` ends, the end of the image can be rounded up, as far as memory goes. -/
lemma rounds_of_finishes {own : ℕ → Role} (hS : Spaces k.phys own) (hfile : k.findFile name = some data)
    (hfin : Fallible.Finishes (strictSpawn name) k)
    (hpages : 31 + 3 * (Exec.imagePages data (Elf64Ehdr.read data) (Elf64Ehdr.read data).ePhnum).length ≤
      k.phys.page.freePages) : Exec.Rounds data := by
  intro hheader hloadable
  have hcontained := contained_of_finishes hS hfile hfin.parts.1
  have hfits : ∀ phdr ∈ Exec.segments data, Exec.Fits phdr := fun phdr hphdr => by
    obtain ⟨i, hi, rfl, hskip⟩ := Exec.mem_segments.mp hphdr
    have hsub : List.Sublist (Exec.imagePages data (Elf64Ehdr.read data) i)
        (Exec.imagePages data (Elf64Ehdr.read data) (Elf64Ehdr.read data).ePhnum) :=
      Exec.imagePages_sublist hi.le
    have hreach : Exec.Reaches data i 0 := by
      refine ⟨hheader, hi, hskip, fun k hk hskip' => ?_, ?_, fun n hn => ?_⟩
      · exact (hloadable.segments k (hk.trans_lt hi)).resolve_left (by simp [hskip'])
      · simpa [Exec.firstPages] using hloadable.nodup.sublist hsub
      · exact (hloadable.user n (hsub.subset (by simpa [Exec.firstPages] using hn))).1
    have hlen := hsub.length_le
    exact (hcontained i 0 hreach (by omega)).fits
  have helf : Exec.ElfOk true data (Elf64Ehdr.read data) := Exec.elfOk_of_fits hfits
  obtain ⟨o, ph, own', hload, hfail, -⟩ := loadFile_spec hS helf
  rcases o with _ | image
  · obtain ⟨-, hbad | hbad | hfew⟩ := hfail rfl
    · rw [hheader] at hbad
      cases hbad
    · exact absurd hloadable hbad
    · omega
  obtain ⟨own₁, -, hbuilt⟩ := Exec.loadFile_built hS hfits hload
  rw [← (hbuilt.span hfits).2]
  have hlt := Exec.imageSpan_lt data (Elf64Ehdr.read data) (Elf64Ehdr.read data).ePhnum
  rw [← (hbuilt.span hfits).2] at hlt
  by_cases hlimit : heapLimit < image.imageBase + image.imageSize
  · have hstrict : strictLoad name k = some (some image, { k with phys := ph }) := by
      have hrun : load name k = some (some image, { k with phys := ph }) := by
        rw [load, Fallible.gets_bind, Fallible.ofOption_bind]
        simp only [id, hfile, Option.elim_some]
        exact onPhys_eq_some.mpr ⟨ph, hload, rfl⟩
      obtain ⟨res, hres⟩ := hfin.parts.1
      rw [hres, ← guards_load name _ _ hres, hrun]
    have hcreate := hfin.parts.2 _ _ hstrict
    have hreject := hcreate.parts.2 _ _ (congrArg (fun o => some (o, _)) (checkedAdd_eq_some.mpr ⟨hlt, rfl⟩))
    dsimp only at hreject
    rw [if_pos (Or.inl hlimit)] at hreject
    obtain ⟨r, hr⟩ := hreject.parts.1
    obtain ⟨res, hres, -⟩ := Option.map_eq_some_iff.mp hr
    obtain ⟨sum, hsum, hrelease⟩ := Fallible.Finishes.of_unwrap_bind ⟨res, hres⟩
    obtain ⟨stop, hceil, -⟩ := Fallible.Finishes.of_unwrap_bind hrelease
    obtain ⟨-, rfl⟩ := checkedAdd_eq_some.mp hsum
    exact (Exec.strictCeil_eq_some.mp hceil).1
  · simp only [heapLimit, userStackTop, pageSize] at hlimit ⊢
    omega

end Kernel

namespace System

end System

/-! ### The sample machine -/

/-- No sum of the sample program overflows. -/
lemma sampleProgram_contained : Exec.Contained sampleProgram ∧ Exec.Rounds sampleProgram := by
  obtain ⟨hnum, -, -⟩ := sampleProgram_pages
  have hheader : (Exec.header sampleProgram (Elf64Ehdr.read sampleProgram) 0).pVaddr = 0x10000 ∧
      (Exec.header sampleProgram (Elf64Ehdr.read sampleProgram) 0).pMemsz = 0x1000 ∧
      (Exec.header sampleProgram (Elf64Ehdr.read sampleProgram) 0).pFilesz = 0 := by decide +kernel
  have hspan : (Exec.imageSpan sampleProgram (Elf64Ehdr.read sampleProgram) 1).2 = 0x11000 := by
    decide +kernel
  refine ⟨fun i j hreach => ?_, fun _ _ => ?_⟩
  · have hi := hreach.lt
    rw [hnum] at hi
    obtain rfl : i = 0 := by omega
    obtain ⟨hvaddr, hmemsz, hfilesz⟩ := hheader
    refine ⟨by rw [hvaddr, hmemsz]; decide, fun _ hcopy => ?_⟩
    rw [Exec.Copies, hfilesz, Nat.add_zero] at hcopy
    exact absurd (hcopy.trans_le (min_le_right ..)) (Nat.not_lt.mpr (le_max_right ..))
  · rw [hnum, hspan]
    decide

namespace System

end System

/-- A program with a page in the address space and a segment that wraps around it. -/
def wrappingProgram : List UInt8 :=
  programOf [phdrBytes (pfR ||| pfW) 0 0x10000 0 0x1000, phdrBytes (pfR ||| pfW) 0 (2 ^ 64 - 0x1000) 0 0x2000]

/-- The pages of the program: the image has one, and the other segment has two. -/
lemma wrappingProgram_pages : (Elf64Ehdr.read wrappingProgram).ePhnum = 2 ∧
    Exec.imagePages wrappingProgram (Elf64Ehdr.read wrappingProgram) 2 = [0x10, 0x7ffffff, 0] ∧
    Exec.imageRange wrappingProgram = (0x10000, 0x1000) := by
  decide +kernel

/-- The program is started, since the segment has permissions. -/
lemma wrappingProgram_startable : Exec.Startable false wrappingProgram := by
  obtain ⟨hnum, hpages, hrange⟩ := wrappingProgram_pages
  refine ⟨by decide +kernel, ⟨?_, ?_, ?_, ?_⟩, ?_, ?_, ?_⟩
  · rw [hnum]
    decide +kernel
  · rw [hnum, hpages]
    decide
  · rw [hnum, hpages]
    decide
  · rw [hnum]
    decide +kernel
  · rw [Exec.ElfOk, hnum]
    decide +kernel
  · rw [hrange]
    decide
  · rw [hrange]
    decide

namespace System

end System

end NekOS
