import NekOS.AddressSpace.Checking
import NekOS.AddressSpace.Progress

/-!
# The sums of the loader

The checked loader halts at page `j` of segment `i` only when a sum leaves 64 bits there.  Which pages the
loader comes to is read off the file: the segments before are accepted, and no page has been asked for twice
or belongs to the kernel.
-/

namespace NekOS

open PageTable

namespace Exec

variable {data : List UInt8} {phdr : Elf64Phdr}

/-! ### Places -/

/-- The first pages of a segment. -/
def firstPages (phdr : Elf64Phdr) (j : ℕ) : List ℕ :=
  (List.range j).map fun i => pageNumber (segmentVa phdr i)

/-- The loader comes to page `j` of segment `i` when there is memory enough. -/
structure Reaches (data : List UInt8) (i j : ℕ) : Prop where
  header : headerOk data = true
  lt : i < (Elf64Ehdr.read data).ePhnum
  loaded : skipped (Exec.header data (Elf64Ehdr.read data) i) = false
  ok : ∀ k ≤ i, skipped (Exec.header data (Elf64Ehdr.read data) k) = false →
    segmentOk data (Exec.header data (Elf64Ehdr.read data) k) = true
  nodup : (imagePages data (Elf64Ehdr.read data) i ++
    firstPages (Exec.header data (Elf64Ehdr.read data) i) j).Nodup
  user : ∀ n ∈ imagePages data (Elf64Ehdr.read data) i ++
    firstPages (Exec.header data (Elf64Ehdr.read data) i) j, ¬ KernelPage n

/-- Bytes of the file are copied to the page at `va`. -/
def Copies (phdr : Elf64Phdr) (va : ℕ) : Prop :=
  max va phdr.pVaddr < min (va + pageSize) (phdr.pVaddr + phdr.pFilesz)

/-- The sums at page `j` of a segment have 64 bits: the end of the segment rounded up, and the one by which
the bytes of the page are found in the file. -/
structure Sums (phdr : Elf64Phdr) (j : ℕ) : Prop where
  stop : phdr.pVaddr + phdr.pMemsz + pageSize < 2 ^ 64
  source : j < numPages phdr → Copies phdr (segmentVa phdr j) →
    phdr.pOffset + max (segmentVa phdr j) phdr.pVaddr < 2 ^ 64

/-- **No sum overflows** at the pages that the loader comes to. -/
def Contained (data : List UInt8) : Prop :=
  ∀ i j, Reaches data i j → Sums (Exec.header data (Elf64Ehdr.read data) i) j

/-- The end of a segment whose sums have 64 bits can be rounded up. -/
lemma Sums.fits {j : ℕ} (h : Sums phdr j) : Fits phdr := h.stop.le

/-- What has been checked of the header. -/
lemma headerOk_bounds (h : headerOk data = true) : ehdrSize ≤ data.length ∧
    (Elf64Ehdr.read data).ePhentsize = phdrSize ∧
    (Elf64Ehdr.read data).ePhoff + (Elf64Ehdr.read data).ePhnum * phdrSize < 2 ^ 64 ∧
    (Elf64Ehdr.read data).ePhoff + (Elf64Ehdr.read data).ePhnum * phdrSize ≤ data.length := by
  simp only [headerOk, elfVerify, Bool.and_eq_true, decide_eq_true_eq] at h
  obtain ⟨hlen, ⟨-, hentry⟩, hend⟩ := h
  rw [hentry, Option.any_eq_true] at hend
  obtain ⟨stop, hstop, hle⟩ := hend
  obtain ⟨hlt, rfl⟩ := checkedAdd_eq_some.mp hstop
  exact ⟨hlen, hentry, hlt, by simpa using hle⟩

/-- Later segments add pages. -/
lemma imagePages_sublist {ehdr : Elf64Ehdr} {m n : ℕ} (h : m ≤ n) :
    List.Sublist (imagePages data ehdr m) (imagePages data ehdr n) := by
  induction n, h using Nat.le_induction with
  | base => exact List.Sublist.refl _
  | succ n _ ih => exact ih.trans (List.sublist_append_left ..)

/-- A place before another one. -/
lemma Reaches.before {i j k : ℕ} (h : Reaches data i j) (hk : k < i)
    (hskip : skipped (Exec.header data (Elf64Ehdr.read data) k) = false) : Reaches data k 0 := by
  have hsub' : List.Sublist (imagePages data (Elf64Ehdr.read data) k ++ firstPages (Exec.header data
      (Elf64Ehdr.read data) k) 0) (imagePages data (Elf64Ehdr.read data) i ++ firstPages (Exec.header data
      (Elf64Ehdr.read data) i) j) := by
    rw [firstPages, List.range_zero, List.map_nil, List.append_nil]
    exact (imagePages_sublist hk.le).trans (List.sublist_append_left ..)
  exact ⟨h.header, hk.trans h.lt, hskip, fun l hl => h.ok l (hl.trans hk.le), h.nodup.sublist hsub',
    fun n hn => h.user n (hsub'.subset hn)⟩

/-! ### The checks that cannot fail -/

/-- The program headers lie in the file. -/
lemma strictPhdr_eq {i : ℕ} (h : headerOk data = true) (hi : i < (Elf64Ehdr.read data).ePhnum) :
    ∃ step off, checkedMul i (Elf64Ehdr.read data).ePhentsize = some step ∧
      checkedAdd (Elf64Ehdr.read data).ePhoff step = some off ∧
      strictPhdr data off = some (Exec.header data (Elf64Ehdr.read data) i) := by
  obtain ⟨-, hentry, hlt, hle⟩ := headerOk_bounds h
  have hstep : i * phdrSize + phdrSize ≤ (Elf64Ehdr.read data).ePhnum * phdrSize := by
    rw [← Nat.succ_mul]
    exact Nat.mul_le_mul_right _ hi
  refine ⟨i * phdrSize, (Elf64Ehdr.read data).ePhoff + i * phdrSize, ?_, ?_, ?_⟩
  · rw [hentry, checkedMul_eq_some]
    exact ⟨by omega, rfl⟩
  · rw [checkedAdd_eq_some]
    exact ⟨by omega, rfl⟩
  · rw [strictPhdr, if_pos (by omega), Exec.header, phdrOffset, hentry, wrap_of_lt (by omega)]

/-- The size of the table of the program headers does not overflow. -/
lemma strictVerify_eq (hlen : ehdrSize ≤ data.length) :
    strictVerify (Elf64Ehdr.read data) data.length = some (headerOk data) := by
  obtain ⟨ok, hok⟩ : ∃ ok, strictVerify (Elf64Ehdr.read data) data.length = some ok := by
    unfold strictVerify
    split_ifs with h
    · have hnum : (Elf64Ehdr.read data).ePhnum < 256 ^ 2 := leNat_lt ..
      have hentry : (Elf64Ehdr.read data).ePhentsize < 256 ^ 2 := leNat_lt ..
      have hmul := Nat.mul_lt_mul'' hnum hentry
      exact ⟨_, by rw [checkedMul, if_pos (hmul.trans (by decide))]; rfl⟩
    · exact ⟨_, rfl⟩
  rw [hok, ← strictVerify_eq_some hok, headerOk, decide_eq_true hlen, Bool.true_and]

/-- The sums of a copy. -/
lemma strictCopy_eq {j : ℕ} (hok : segmentOk data phdr = true) (hsums : Sums phdr j) (hj : j < numPages phdr)
    (page : ℕ) : strictCopy data phdr (segmentVa phdr j) page = Fallible.modify fun ph =>
      ph.copyIn (page + (pageBytes data phdr (segmentVa phdr j)).1)
        (pageBytes data phdr (segmentVa phdr j)).2 := by
  refine (guards_copy data phdr _ page).eq_of_finishes fun ph => ?_
  obtain ⟨hsum, hsize, hfile⟩ := segmentOk_iff.mp hok
  obtain ⟨-, hend, hlt⟩ := hsums.fits.segmentVa hj
  have hstop := hsums.stop
  have hsource := hsums.source hj
  rw [Copies] at hsource
  generalize segmentVa phdr j = va at *
  refine Fallible.Finishes.unwrap_bind (checkedAdd_eq_some.mpr ⟨hend.trans_lt hlt, rfl⟩) ?_
  refine Fallible.Finishes.unwrap_bind (checkedAdd_eq_some.mpr ⟨by omega, rfl⟩) ?_
  refine Fallible.Finishes.ite (fun hcopy => ?_) fun _ => Fallible.Finishes.pure ()
  have hsource := hsource hcopy
  have hle : phdr.pVaddr ≤ phdr.pOffset + max va phdr.pVaddr := (le_max_right ..).trans (Nat.le_add_left ..)
  have hstop' : min (va + pageSize) (phdr.pVaddr + phdr.pFilesz) ≤ phdr.pVaddr + phdr.pFilesz := min_le_right ..
  refine Fallible.Finishes.unwrap_bind (checkedAdd_eq_some.mpr ⟨hsource, rfl⟩) ?_
  refine Fallible.Finishes.unwrap_bind (strictSub_eq_some.mpr ⟨hle, rfl⟩) ?_
  refine Fallible.Finishes.unwrap_bind (strictSub_eq_some.mpr ⟨le_max_left .., rfl⟩) ?_
  refine Fallible.Finishes.unwrap_bind (strictSub_eq_some.mpr ⟨hcopy.le, rfl⟩) ?_
  refine Fallible.Finishes.unwrap_bind (slice_eq_some (Nat.le_add_right ..) ?_) (Fallible.Finishes.modify _)
  have hmax : phdr.pVaddr ≤ max va phdr.pVaddr := le_max_right ..
  generalize max va phdr.pVaddr = s at *
  generalize min (va + pageSize) (phdr.pVaddr + phdr.pFilesz) = e at *
  omega

/-- A page whose sums have 64 bits is loaded as without the checks. -/
lemma strictLoadPage_eq (r : ℕ) {j : ℕ} (hok : segmentOk data phdr = true) (hsums : Sums phdr j)
    (hj : j < numPages phdr) : strictLoadPage r data phdr j = loadPage r data phdr j := by
  obtain ⟨hva, hend, hlt⟩ := hsums.fits.segmentVa hj
  have hlt' : vaStart phdr + j * pageSize < 2 ^ 64 := hva ▸ (Nat.le_add_right ..).trans_lt (hend.trans_lt hlt)
  have hmul : checkedMul j pageSize = some (j * pageSize) :=
    checkedMul_eq_some.mpr ⟨(Nat.le_add_left ..).trans_lt hlt', rfl⟩
  have hadd : checkedAdd (vaStart phdr) (j * pageSize) = some (segmentVa phdr j) :=
    checkedAdd_eq_some.mpr ⟨hlt', hva.symm⟩
  rw [strictLoadPage, hmul]
  simp only [Fallible.unwrap_some_bind, hadd, strictCopy_eq hok hsums hj]
  rfl

/-- The pages of a segment whose sums have 64 bits. -/
lemma strictLoadPages_eq (r : ℕ) (data : List UInt8) (image : ℕ × ℕ) (hva : phdr.pVaddr < 2 ^ 64)
    (hstop : phdr.pVaddr + phdr.pMemsz + pageSize < 2 ^ 64) :
    strictLoadPages r data phdr image = (do
      Fallible.forRange (numPages phdr) (strictLoadPage r data phdr)
      return (min image.1 (vaStart phdr), max image.2 (vaEnd phdr))) := by
  have hfits : Fits phdr := hstop.le
  have hadd : checkedAdd phdr.pVaddr phdr.pMemsz = some (phdr.pVaddr + phdr.pMemsz) :=
    checkedAdd_eq_some.mpr ⟨by omega, rfl⟩
  have hceil : strictCeil (phdr.pVaddr + phdr.pMemsz) = some (vaEnd phdr) := by
    rw [strictCeil_eq_some, hfits.vaEnd]
    exact ⟨hstop, rfl⟩
  have hle : vaStart phdr ≤ vaEnd phdr := by
    rw [hfits.vaEnd]
    simp only [vaStart, pageFloor, pageSize]
    omega
  have hsub : strictSub (vaEnd phdr) (vaStart phdr) = some (vaEnd phdr - vaStart phdr) :=
    strictSub_eq_some.mpr ⟨hle, rfl⟩
  rw [strictLoadPages, hadd]
  simp only [Fallible.unwrap_some_bind, hceil, hsub]
  rw [numPages, wrapSub_of_le hle (segment_bounds hva).2.2.2]

/-- A page is loaded or not. -/
lemma finishes_loadPage (r : ℕ) (data : List UInt8) (phdr : Elf64Phdr) (j : ℕ) (ph : Phys) :
    Fallible.Finishes (loadPage r data phdr j) ph := by
  refine (finishes_allocPage ph).bind fun _ _ _ => (Fallible.Finishes.modify _).bind fun _ _ _ => ?_
  exact (Fallible.Finishes.modify _).bind fun _ _ _ => finishes_map ..

end Exec

/-! ### The loops -/

namespace Building

open Exec

variable {r : ℕ} {ph₀ ph ph' : Phys} {own₀ own : ℕ → Role} {data : List UInt8}

/-- The loader comes to the pages before which it has not failed. -/
lemma reaches (h : Building r ph₀ own₀ ph own) (hkernel : KernelMapped ph r) (hheader : headerOk data = true)
    {i : ℕ} (hi : i < (Elf64Ehdr.read data).ePhnum)
    (hskip : skipped (Exec.header data (Elf64Ehdr.read data) i) = false)
    (hok : segmentOk data (Exec.header data (Elf64Ehdr.read data) i) = true)
    (hfits : ∀ k < i, skipped (Exec.header data (Elf64Ehdr.read data) k) = false →
      Fits (Exec.header data (Elf64Ehdr.read data) k)) {image : ℕ × ℕ}
    (hrun : Fallible.foldRange i (Exec.loadSegment r data (Elf64Ehdr.read data)) (usizeMax, 0) ph =
      some (some image, ph')) {j : ℕ}
    (hnew : ∀ l < j, lookup ph' r (pageNumber (segmentVa (Exec.header data (Elf64Ehdr.read data) i) l)) = none ∧
      ∀ m < l, pageNumber (segmentVa (Exec.header data (Elf64Ehdr.read data) i) m) ≠
        pageNumber (segmentVa (Exec.header data (Elf64Ehdr.read data) i) l)) : Reaches data i j := by
  obtain ⟨own', -, hadds, -, hholds, -, hnodup, habsent⟩ := h.loadSegments_built hfits hrun
  have hmapped : ∀ n ∈ imagePages data (Elf64Ehdr.read data) i, ∃ e, lookup ph' r n = some e := fun n hn => by
    obtain ⟨k, hk, hskip', l, hl, rfl⟩ := mem_imagePages.mp hn
    obtain ⟨p, hlookup, -⟩ := (hholds k hk hskip').2 l hl
    exact ⟨_, hlookup⟩
  have hfirst : ∀ n ∈ firstPages (Exec.header data (Elf64Ehdr.read data) i) j, lookup ph' r n = none := fun n hn => by
    obtain ⟨l, hl, rfl⟩ := List.mem_map.mp hn
    exact (hnew l (List.mem_range.mp hl)).1
  refine ⟨hheader, hi, hskip, fun k hk hskip' => ?_, List.nodup_append.mpr ⟨hnodup, ?_, fun n hn m hm heq => ?_⟩,
    fun n hn hk => ?_⟩
  · rcases hk.lt_or_eq with hk | rfl
    · exact (hholds k hk hskip').1
    · exact hok
  · refine List.Nodup.map_on (fun l hl m hm heq => ?_) List.nodup_range
    rcases lt_trichotomy l m with hlt | rfl | hlt
    · exact absurd heq ((hnew m (List.mem_range.mp hm)).2 l hlt)
    · rfl
    · exact absurd heq.symm ((hnew l (List.mem_range.mp hl)).2 m hlt)
  · obtain ⟨e, he⟩ := hmapped n hn
    rw [heq, hfirst m hm] at he
    cases he
  · obtain ⟨e, he, -⟩ := hkernel n hk
    rcases List.mem_append.mp hn with hn | hn
    · rw [habsent n hn] at he
      cases he
    · have hold := hadds.lookups n hk.lt e he
      rw [hfirst n hn] at hold
      cases hold

/-- The loader comes to the segments before which it has not failed, and their ends can be rounded up when
no sum overflows. -/
lemma fits_of_contained (h : Building r ph₀ own₀ ph own) (hkernel : KernelMapped ph r)
    (hheader : headerOk data = true) (hdata : Contained data) {count : ℕ}
    (hcount : count ≤ (Elf64Ehdr.read data).ePhnum) {image : ℕ × ℕ}
    (hrun : Fallible.foldRange count (Exec.loadSegment r data (Elf64Ehdr.read data)) (usizeMax, 0) ph =
      some (some image, ph')) : ∀ i < count, skipped (Exec.header data (Elf64Ehdr.read data) i) = false →
        Fits (Exec.header data (Elf64Ehdr.read data) i) := by
  induction count generalizing image ph' with
  | zero => exact nofun
  | succ k ih =>
    rw [Fallible.foldRange_succ] at hrun
    obtain ⟨image₁, ph₁, hrun₁, hsegment⟩ := Fallible.bind_eq_some.mp hrun
    have hfits := ih (Nat.le_of_succ_le hcount) hrun₁
    intro i hi hskip
    rcases Nat.lt_succ_iff_lt_or_eq.mp hi with hi | rfl
    · exact hfits i hi hskip
    · have hok : segmentOk data (Exec.header data (Elf64Ehdr.read data) i) = true := by
        by_contra hbad
        rw [loadSegment_eq, if_neg (by simp [hskip]), if_pos (by simpa using hbad)] at hsegment
        simp at hsegment
      exact (hdata i 0 (h.reaches hkernel hheader hcount hskip hok hfits hrun₁ nofun)).fits

/-- **The checks of the segments** do not halt the loader when no sum overflows. -/
lemma finishes_segments (h : Building r ph₀ own₀ ph own) (hkernel : KernelMapped ph r)
    (hheader : headerOk data = true) (hdata : Contained data) : Fallible.Finishes
      (Fallible.foldRange (Elf64Ehdr.read data).ePhnum (strictLoadSegment r data (Elf64Ehdr.read data))
        (usizeMax, 0)) ph := by
  refine Fallible.Finishes.foldRange_of fun i hi image ph' hstrict => ?_
  have hrun := Fallible.Guards.foldRange (fun i image => guards_loadSegment r data _ i image) _ _ hstrict
  have hfits := h.fits_of_contained hkernel hheader hdata hi.le hrun
  obtain ⟨own', hB, -⟩ := h.loadSegments_built hfits hrun
  obtain ⟨step, off, hstep, hoff, hphdr⟩ := strictPhdr_eq hheader hi
  refine Fallible.Finishes.unwrap_bind hstep (Fallible.Finishes.unwrap_bind hoff
    (Fallible.Finishes.unwrap_bind hphdr ?_))
  refine Fallible.Finishes.ite (fun _ => Fallible.Finishes.pure _) fun hskip =>
    Fallible.Finishes.guard fun hbad => ?_
  rw [Bool.not_eq_true] at hskip
  have hok : segmentOk data (Exec.header data (Elf64Ehdr.read data) i) = true := by simpa using hbad
  have hsums := hdata i 0 (h.reaches hkernel hheader hi hskip hok hfits hrun nofun)
  rw [strictLoadPages_eq r data image (header_lt ..) hsums.stop]
  refine (Fallible.Finishes.forRange_of fun j hj ph₁ hpages => ?_).bind fun _ _ _ => Fallible.Finishes.pure _
  have hpages' := Fallible.Guards.forRange (fun j => guards_loadPage r data _ j) _ _ hpages
  obtain ⟨-, -, -, -, -, hnew⟩ := hB.loadPages_built hsums.fits hok hj.le hpages'
  rw [strictLoadPage_eq r hok (hdata i j (h.reaches hkernel hheader hi hskip hok hfits hrun hnew)) hj]
  exact finishes_loadPage ..

end Building

namespace Exec

variable {data : List UInt8}

/-- **The checked loader ends** when no sum overflows. -/
lemma finishes_strictLoadFile {ph : Phys} {own : ℕ → Role} (hS : Spaces ph own) (hdata : Contained data) :
    Fallible.Finishes (strictLoadFile data) ph := by
  refine Fallible.Finishes.guard fun hlen => ?_
  rw [Nat.not_lt] at hlen
  refine Fallible.Finishes.unwrap_bind (if_pos hlen) (Fallible.Finishes.unwrap_bind (strictVerify_eq hlen) ?_)
  refine Fallible.Finishes.guard fun hbad => ?_
  have hheader : headerOk data = true := by simpa using hbad
  rcases create_mapKernel hS.tables hS.root with ⟨hcreate, -⟩ |
    ⟨r, ph₁, o, ph₂, own₂, hcreate, hkernel, -, hB, -, -, -, hdone, -⟩
  · exact ⟨_, Fallible.bind_of_none hcreate⟩
  refine Fallible.Finishes.bind ⟨_, hcreate⟩ fun r' ph₁' hcreate' => ?_
  obtain ⟨rfl, rfl⟩ : r = r' ∧ ph₁ = ph₁' := by simpa using hcreate.symm.trans hcreate'
  refine Fallible.Finishes.bind ⟨_, hkernel⟩ fun _ ph₂' hkernel' => ?_
  obtain ⟨rfl, rfl⟩ : o = some () ∧ ph₂ = ph₂' := by simpa using hkernel.symm.trans hkernel'
  obtain ⟨hmapped, -⟩ := hdone rfl
  refine Fallible.Finishes.bind ?_ fun image ph₃ _ => ?_
  · refine (hB.finishes_segments hmapped hheader hdata).bind fun image ph₃ hstrict =>
      Fallible.Finishes.guard fun hnone => ?_
    have hrun := Fallible.Guards.foldRange (fun i image => guards_loadSegment r data _ i image) _ _ hstrict
    have hfits := hB.fits_of_contained hmapped hheader hdata le_rfl hrun
    obtain rfl := loadSegments_value hrun
    exact Fallible.Finishes.unwrap_bind (strictSub_eq_some.mpr ⟨imageSpan_ordered hfits hnone, rfl⟩)
      (Fallible.Finishes.pure _)
  · refine (finishes_allocPage _).bind fun _ _ _ => (Fallible.Finishes.modify _).bind fun _ _ _ => ?_
    exact (finishes_map ..).bind fun _ _ _ => Fallible.Finishes.pure _

/-- Where the checked loader ends, it has passed the header. -/
lemma header_of_finishes {ph : Phys} {own : ℕ → Role} (hS : Spaces ph own)
    (h : Fallible.Finishes (strictLoadFile data) ph) (hheader : headerOk data = true)
    (hpages : 28 ≤ ph.page.freePages) : ∃ r ph' own', Building r ph own ph' own' ∧ KernelMapped ph' r ∧
      (∀ n < 2 ^ 27, ¬ KernelPage n → lookup ph' r n = none) ∧
      ph.page.freePages ≤ ph'.page.freePages + 25 ∧ Fallible.Finishes (Fallible.foldRange
        (Elf64Ehdr.read data).ePhnum (strictLoadSegment r data (Elf64Ehdr.read data)) (usizeMax, 0)) ph' := by
  have hlen := (headerOk_bounds hheader).1
  rw [strictLoadFile, if_neg (by omega), strictEhdr, if_pos hlen, Fallible.unwrap_some_bind,
    strictVerify_eq hlen, Fallible.unwrap_some_bind, if_neg (by simp [hheader])] at h
  rcases create_mapKernel hS.tables hS.root with ⟨-, hzero⟩ |
    ⟨r, ph₁, o, ph₂, own₂, hcreate, hkernel, -, hB, -, -, hempty, hdone, hfail⟩
  · omega
  rcases o with _ | u
  · have := hfail rfl
    omega
  obtain ⟨hmapped, hcost⟩ := hdone rfl
  have hload := (((h.parts).2 _ _ hcreate).parts.2 _ _ hkernel).parts.1.parts.1
  exact ⟨r, ph₂, own₂, hB, hmapped, hempty, hcost, hload⟩

end Exec

namespace Building

open Exec

variable {r : ℕ} {ph₀ ph : Phys} {own₀ own : ℕ → Role} {data : List UInt8}

/-- **Where the checked loader ends**, the sums have 64 bits at the pages that it comes to. -/
lemma sums_of_finishes (h : Building r ph₀ own₀ ph own) (hkernel : KernelMapped ph r)
    (hempty : ∀ n < 2 ^ 27, ¬ KernelPage n → lookup ph r n = none)
    (hfin : Fallible.Finishes (Fallible.foldRange (Elf64Ehdr.read data).ePhnum
      (strictLoadSegment r data (Elf64Ehdr.read data)) (usizeMax, 0)) ph) {i j : ℕ} (hreach : Reaches data i j)
    (hcost : 3 * ((imagePages data (Elf64Ehdr.read data) i).length + j + 1) ≤ ph.page.freePages) :
    Sums (Exec.header data (Elf64Ehdr.read data) i) j := by
  induction i using Nat.strong_induction_on generalizing j with
  | _ i ih =>
  have hwraps : ∀ k < i, skipped (Exec.header data (Elf64Ehdr.read data) k) = false →
      wraps (Exec.header data (Elf64Ehdr.read data) k) = true →
      true = false ∧ isLeaf (segmentFlags (Exec.header data (Elf64Ehdr.read data) k)) = true := fun k hk hskip hw => by
    have hbefore := hreach.before hk hskip
    have hlen : (imagePages data (Elf64Ehdr.read data) k).length ≤
        (imagePages data (Elf64Ehdr.read data) i).length := (imagePages_sublist hk.le).length_le
    have hfits := (ih k hk hbefore (by omega)).fits
    have hle := hfits.vaStart_le
    rw [wraps, decide_eq_true_eq] at hw
    omega
  -- The segments before are loaded.
  obtain ⟨o, ph₁, own₁, hrun, hB, -, hdone, hfail⟩ := h.loadSegments (image_start hkernel hempty) i hwraps
  obtain ⟨hnodup, hnodup', hdisjoint⟩ := List.nodup_append.mp hreach.nodup
  rcases o with _ | image
  · rcases hfail rfl with ⟨k, hk, hskip, hbad⟩ | hdup | ⟨n, hn, hk⟩ | hfew
    · rw [hreach.ok k hk.le hskip] at hbad
      cases hbad
    · exact absurd hnodup hdup
    · exact absurd hk (hreach.user n (List.mem_append_left _ hn))
    · omega
  obtain ⟨-, himage, hcost₁, -⟩ := hdone image rfl
  obtain ⟨hbefore, hbody⟩ := hfin.of_foldRange hreach.lt
  obtain ⟨step, off, hstep, hoff, hphdr⟩ := strictPhdr_eq hreach.header hreach.lt
  have hstrict : Fallible.foldRange i (strictLoadSegment r data (Elf64Ehdr.read data)) (usizeMax, 0) ph =
      some (some image, ph₁) := by
    obtain ⟨res, hres⟩ := hbefore
    rw [hres, ← hrun]
    exact (Fallible.Guards.foldRange (fun i image => guards_loadSegment r data _ i image) _ _ hres).symm
  have hsegment := hbody image ph₁ hstrict
  rw [strictLoadSegment, hstep, Fallible.unwrap_some_bind, hoff, Fallible.unwrap_some_bind, hphdr,
    Fallible.unwrap_some_bind, if_neg (by simp [hreach.loaded]),
    if_neg (by simp [hreach.ok i le_rfl hreach.loaded])] at hsegment
  have hva := header_lt data (Elf64Ehdr.read data) i
  have huser := hreach.user
  generalize Exec.header data (Elf64Ehdr.read data) i = phdr at hsegment hva huser hnodup' hdisjoint ⊢
  have hstop : phdr.pVaddr + phdr.pMemsz + pageSize < 2 ^ 64 := by
    obtain ⟨stop, hstop, hrest⟩ := Fallible.Finishes.of_unwrap_bind hsegment
    obtain ⟨stop', hceil, -⟩ := Fallible.Finishes.of_unwrap_bind hrest
    exact (strictEnd_eq_some hstop hceil).1
  refine ⟨hstop, fun hj hcopy => ?_⟩
  rw [strictLoadPages_eq r data image hva hstop] at hsegment
  -- The pages before are loaded.
  obtain ⟨o, ph₂, own₂, hpages, hB₂, -, -, hcost₂, -, hfail₂⟩ := hB.loadPages data phdr j
  have hfirst : ∀ l < j, pageNumber (segmentVa phdr l) ∈ firstPages phdr j := fun l hl =>
    List.mem_map.mpr ⟨l, List.mem_range.mpr hl, rfl⟩
  rcases o with _ | u
  · rcases hfail₂ rfl with ⟨l, hl, hold | ⟨m, hm, heq⟩⟩ | hfew
    · rcases (himage.mapped _ (pageNumber_lt _)).mp hold with hk | hmem
      · exact absurd hk (huser _ (List.mem_append_right _ (hfirst l hl)))
      · exact absurd rfl (hdisjoint _ hmem _ (hfirst l hl))
    · have := List.inj_on_of_nodup_map hnodup' (List.mem_range.mpr (hm.trans hl)) (List.mem_range.mpr hl) heq
      omega
    · omega
  obtain ⟨hbefore, hbody⟩ := hsegment.parts.1.of_forRange hj
  have hstrict : Fallible.forRange j (strictLoadPage r data phdr) ph₁ = some (some (), ph₂) := by
    obtain ⟨res, hres⟩ := hbefore
    rw [hres, ← hpages]
    exact (Fallible.Guards.forRange (fun j => guards_loadPage r data phdr j) _ _ hres).symm
  have hpage := hbody ph₂ hstrict
  rcases allocPage_cases hB₂.tables with ⟨-, hzero⟩ | ⟨p, ph₃, hsome, -⟩
  · omega
  have hcopies := (hpage.parts.2 _ _ hsome).parts.2 _ _ rfl
  obtain ⟨offset, hoffset, hcopies⟩ := Fallible.Finishes.of_unwrap_bind hcopies
  obtain ⟨va, hsum, hcopies⟩ := Fallible.Finishes.of_unwrap_bind hcopies
  obtain ⟨-, rfl⟩ := checkedMul_eq_some.mp hoffset
  obtain ⟨-, rfl⟩ := checkedAdd_eq_some.mp hsum
  have hfits : Fits phdr := hstop.le
  rw [← (hfits.segmentVa hj).1] at hcopies
  obtain ⟨pageEnd, hpageEnd, hsums⟩ := Fallible.Finishes.of_unwrap_bind hcopies.parts.1
  obtain ⟨fileEnd, hfileEnd, hsums⟩ := Fallible.Finishes.of_unwrap_bind hsums
  obtain ⟨-, rfl⟩ := checkedAdd_eq_some.mp hpageEnd
  obtain ⟨-, rfl⟩ := checkedAdd_eq_some.mp hfileEnd
  rw [Copies] at hcopy
  rw [if_pos hcopy] at hsums
  obtain ⟨source, hsource, -⟩ := Fallible.Finishes.of_unwrap_bind hsums
  exact (checkedAdd_eq_some.mp hsource).1

end Building

end NekOS
