import NekOS.AddressSpace.Contents
import NekOS.AddressSpace.Ground
import NekOS.AddressSpace.Packing

/-!
# What a loaded program looks like

`load` builds a page table from pages that it takes itself, so what it builds does not depend on what
memory has held before, nor on whether the other address spaces are in order.  It needs an allocator whose
counter is right, which no run of the machine changes.
-/

namespace NekOS

open PageTable

/-! ### Memory of which nothing is known -/

open Classical in
/-- The roles of the pages when no more is known of them than which are in use. -/
noncomputable def lostRoles (a : PageAllocator) (p : ℕ) : Role := if a.Allocated p then .lost else .free

/-- Without any table in use all trees are in order. -/
lemma spaces_lost {ph : Phys} (haligned : ph.page.startAddr % pageSize = 0)
    (hbounded : ph.page.startAddr + ph.page.totalPages * pageSize ≤ 2 ^ 56) (hcounted : ph.page.Counted)
    (hstart : kernelStart ≤ ph.page.startAddr) : Spaces ph (lostRoles ph.page) := by
  have hcases : ∀ p, lostRoles ph.page p = .lost ∨ lostRoles ph.page p = .free := fun p => by
    unfold lostRoles
    split_ifs
    · exact Or.inl rfl
    · exact Or.inr rfl
  have hplain : ∀ p ρ, lostRoles ph.page p = ρ → ρ = .lost ∨ ρ = .free := fun p ρ h => h ▸ hcases p
  refine ⟨Tables.of_no_table haligned hbounded hcounted (fun p => ?_) fun p => ?_, hstart, fun r hr => ?_,
    fun p r n hp => ?_⟩
  · unfold lostRoles
    split_ifs with h <;> simp [h]
  · rcases hcases p with h | h <;> rw [h] <;> rfl
  · rcases hplain r _ hr with h | h <;> cases h
  · rcases hplain p _ hp with h | h <;> cases h

/-- In every run the allocator is in order. -/
lemma Config.spaces_run {c : Config} {s₀ s : System} {es : List Event} (hboot : c.boot = some s₀)
    (hrun : nekos.run s₀ es = some s) : Spaces s.kernel.phys (lostRoles s.kernel.phys.page) := by
  have hheld : ∀ {γ : Type} (g : Phys → γ) [Stays g], s.kernel.held g = c.powerOn.held g := fun g _ =>
    Machine.run_keeps (I := fun s : System => s.kernel.held g = c.powerOn.held g)
      (fun s e t hs hstep => (System.step_held g hstep).trans hs) (c.boot_held g hboot) hrun
  have hT := (c.housed_powerOn true).spaces
  have hground : s.kernel.phys.ground = c.powerOn.phys.ground := congrArg Prod.snd (hheld Phys.ground)
  have hstart : s.kernel.phys.page.startAddr = c.powerOn.phys.page.startAddr := congrArg Prod.fst hground
  have htotal : s.kernel.phys.page.totalPages = c.powerOn.phys.page.totalPages := congrArg Prod.snd hground
  have hslack : s.kernel.phys.page.slack = c.powerOn.phys.page.slack := congrArg Prod.snd (hheld Phys.slack)
  refine spaces_lost ?_ ?_ ?_ ?_
  · rw [hstart]
    exact hT.tables.aligned
  · rw [hstart, htotal]
    exact hT.tables.bounded
  · rw [PageAllocator.counted_iff_slack, hslack, ← PageAllocator.counted_iff_slack]
    exact hT.tables.counted
  · rw [hstart]
    exact hT.start_le

/-! ### Files -/

namespace Exec

/-- The segments of a file that are loaded. -/
def segments (data : List UInt8) : List Elf64Phdr :=
  ((List.range (Elf64Ehdr.read data).ePhnum).map (header data (Elf64Ehdr.read data))).filter (!skipped ·)

variable {data : List UInt8} {phdr : Elf64Phdr}

/-- The segments by their numbers. -/
lemma mem_segments : phdr ∈ segments data ↔ ∃ i < (Elf64Ehdr.read data).ePhnum,
    header data (Elf64Ehdr.read data) i = phdr ∧ skipped phdr = false := by
  rw [segments, List.mem_filter, List.mem_map]
  constructor
  · rintro ⟨⟨i, hi, hphdr⟩, hskip⟩
    exact ⟨i, List.mem_range.mp hi, hphdr, by simpa using hskip⟩
  · rintro ⟨i, hi, hphdr, hskip⟩
    exact ⟨⟨i, List.mem_range.mpr hi, hphdr⟩, by simpa using hskip⟩

/-- Without a segment the range of the image is the one that the loop starts with. -/
lemma imageSpan_none {ehdr : Elf64Ehdr} {count : ℕ} (h : (imageSpan data ehdr count).1 = usizeMax) :
    (imageSpan data ehdr count).2 = 0 := by
  induction count with
  | zero => rfl
  | succ k ih =>
    rw [imageSpan, extendSpan] at h ⊢
    split_ifs at h ⊢
    · exact ih h
    · have hlt := (segment_bounds (header_lt data ehdr k)).2.1
      exact absurd h ((min_le_right ..).trans_lt hlt).ne

/-- The range of the image encloses the segments and ends with segments. -/
lemma imageSpan_hull (data : List UInt8) (ehdr : Elf64Ehdr) (count : ℕ) :
    (∀ i < count, skipped (header data ehdr i) = false →
      (imageSpan data ehdr count).1 ≤ vaStart (header data ehdr i) ∧
        vaEnd (header data ehdr i) ≤ (imageSpan data ehdr count).2) ∧
    ((imageSpan data ehdr count).1 ≠ usizeMax → (∃ i < count, skipped (header data ehdr i) = false ∧
        (imageSpan data ehdr count).1 = vaStart (header data ehdr i)) ∧
      ∃ i < count, skipped (header data ehdr i) = false ∧
        (imageSpan data ehdr count).2 = vaEnd (header data ehdr i)) := by
  induction count with
  | zero => exact ⟨nofun, fun h => absurd rfl h⟩
  | succ k ih =>
    obtain ⟨hle, hends⟩ := ih
    rw [imageSpan, extendSpan]
    split_ifs with hskip
    · refine ⟨fun i hi hi' => ?_, fun h => ?_⟩
      · rcases Nat.lt_succ_iff_lt_or_eq.mp hi with hi | rfl
        · exact hle i hi hi'
        · simp [hskip] at hi'
      · obtain ⟨⟨i, hi, hbase⟩, ⟨j, hj, hend⟩⟩ := hends h
        exact ⟨⟨i, Nat.lt_succ_of_lt hi, hbase⟩, ⟨j, Nat.lt_succ_of_lt hj, hend⟩⟩
    · rw [Bool.not_eq_true] at hskip
      refine ⟨fun i hi hi' => ?_, fun _ => ⟨?_, ?_⟩⟩
      · rcases Nat.lt_succ_iff_lt_or_eq.mp hi with hi | rfl
        · obtain ⟨h₁, h₂⟩ := hle i hi hi'
          exact ⟨(min_le_left ..).trans h₁, h₂.trans (le_max_left ..)⟩
        · exact ⟨min_le_right .., le_max_right ..⟩
      · rcases min_choice (imageSpan data ehdr k).1 (vaStart (header data ehdr k)) with heq | heq
        · by_cases hnone : (imageSpan data ehdr k).1 = usizeMax
          · have hlt := (segment_bounds (header_lt data ehdr k)).2.1
            rw [hnone] at heq
            exact absurd heq ((min_le_right ..).trans_lt hlt).ne
          · obtain ⟨⟨i, hi, hi', hbase⟩, -⟩ := hends hnone
            exact ⟨i, Nat.lt_succ_of_lt hi, hi', heq.trans hbase⟩
        · exact ⟨k, Nat.lt_succ_self k, hskip, heq⟩
      · rcases max_choice (imageSpan data ehdr k).2 (vaEnd (header data ehdr k)) with heq | heq
        · by_cases hnone : (imageSpan data ehdr k).1 = usizeMax
          · refine ⟨k, Nat.lt_succ_self k, hskip, ?_⟩
            dsimp only
            rw [imageSpan_none hnone, Nat.zero_max]
          · obtain ⟨-, j, hj, hj', hend⟩ := hends hnone
            exact ⟨j, Nat.lt_succ_of_lt hj, hj', heq.trans hend⟩
        · exact ⟨k, Nat.lt_succ_self k, hskip, heq⟩

/-- The range of the image ends at a 64-bit address. -/
lemma imageSpan_lt (data : List UInt8) (ehdr : Elf64Ehdr) (count : ℕ) :
    (imageSpan data ehdr count).2 < 2 ^ 64 := by
  induction count with
  | zero => exact Nat.two_pow_pos 64
  | succ k ih =>
    rw [imageSpan, extendSpan]
    split_ifs
    · exact ih
    · exact max_lt ih (segment_bounds (header_lt data ehdr k)).2.2.2

/-- A segment starts before it ends. -/
lemma Fits.vaStart_le (hfits : Fits phdr) : vaStart phdr ≤ Exec.vaEnd phdr := by
  rw [hfits.vaEnd]
  simp only [vaStart, pageFloor, pageSize]
  omega

/-- The range of the image starts before it ends. -/
lemma imageSpan_ordered {ehdr : Elf64Ehdr} {count : ℕ}
    (hfits : ∀ i < count, skipped (header data ehdr i) = false → Fits (header data ehdr i))
    (hsome : (imageSpan data ehdr count).1 ≠ usizeMax) :
    (imageSpan data ehdr count).1 ≤ (imageSpan data ehdr count).2 := by
  obtain ⟨hle, hends⟩ := imageSpan_hull data ehdr count
  obtain ⟨-, i, hi, hskip, hend⟩ := hends hsome
  rw [hend]
  exact (hle i hi hskip).1.trans (hfits i hi hskip).vaStart_le

/-! ### The image -/

/-- What `load` has built in a tree with the root `r`. -/
structure Built (data : List UInt8) (image : LoadedImage) (ph : Phys) (own : ℕ → Role) : Prop where
  entry : image.entry = (Elf64Ehdr.read data).eEntry
  range : (image.imageBase, image.imageSize) = imageRange data
  some_segment : (imageSpan data (Elf64Ehdr.read data) (Elf64Ehdr.read data).ePhnum).1 ≠ usizeMax
  closed : UartClosed ph image.pagetable
  segment : ∀ phdr ∈ segments data, segmentOk data phdr = true ∧
    ∀ j < numPages phdr, Holds data phdr image.pagetable ph own (segmentVa phdr j)
  stack : lookup ph image.pagetable stackPage =
    some (paToPte image.userStack (pteR ||| pteW ||| pteU ||| pteV))
  stack_own : own image.userStack = .data image.pagetable stackPage
  stack_zero : ∀ o < pageSize, ph.mem.byteAt (image.userStack + o) = 0
  only : ∀ n < 2 ^ 27, ∀ e, lookup ph image.pagetable n = some e → KernelLeaf n e ∨
    n ∈ imagePages data (Elf64Ehdr.read data) (Elf64Ehdr.read data).ePhnum ∨ n = stackPage
  nodup : (imagePages data (Elf64Ehdr.read data) (Elf64Ehdr.read data).ePhnum).Nodup
  user : ∀ n ∈ imagePages data (Elf64Ehdr.read data) (Elf64Ehdr.read data).ePhnum,
    ¬ KernelPage n ∧ n ≠ stackPage

/-- `load`, when it returns an image and the ends of the segments can be rounded up. -/
lemma loadFile_built {ph ph' : Phys} {own : ℕ → Role} {image : LoadedImage} (hS : Spaces ph own)
    (hfits : ∀ phdr ∈ segments data, Fits phdr) (hrun : loadFile data ph = some (some image, ph')) :
    ∃ own', Building image.pagetable ph own ph' own' ∧ Built data image ph' own' := by
  rw [loadFile] at hrun
  split_ifs at hrun with hlen hverify
  · simp at hrun
  · simp at hrun
  obtain ⟨r, ph₁, hcreate, hrun⟩ := Fallible.bind_eq_some.mp hrun
  obtain ⟨_, ph₂, hkernel, hrun⟩ := Fallible.bind_eq_some.mp hrun
  obtain ⟨⟨entry, imageBase, imageSize⟩, ph₃, helf, hrun⟩ := Fallible.bind_eq_some.mp hrun
  rw [elfLoad] at helf
  obtain ⟨⟨imageStart, imageEnd⟩, ph₃', hsegments, helf⟩ := Fallible.bind_eq_some.mp helf
  dsimp only at helf
  split_ifs at helf with hnone
  · simp at helf
  obtain ⟨⟨rfl, rfl, rfl⟩, rfl⟩ : (entry = (Elf64Ehdr.read data).eEntry ∧ imageBase = imageStart ∧
      imageSize = wrapSub imageEnd imageStart) ∧ ph₃' = ph₃ := by
    simpa [eq_comm] using helf
  dsimp only at hrun
  rcases create_mapKernel hS.tables hS.root with ⟨hfail, -⟩ |
    ⟨r', ph₁', o₂, ph₂', own₂, hcreate', hkernel', -, hB₂, hclosed, -, hempty, hdone, -⟩
  · rw [hcreate] at hfail
    simp at hfail
  rw [hcreate] at hcreate'
  obtain ⟨rfl, rfl⟩ : r = r' ∧ ph₁ = ph₁' := by simpa using hcreate'
  rw [hkernel] at hkernel'
  obtain ⟨rfl, rfl⟩ : o₂ = some () ∧ ph₂ = ph₂' := by simpa [eq_comm] using hkernel'
  obtain ⟨hmapped, -⟩ := hdone rfl
  obtain ⟨own₃, hB₃, hadds₃, hspan, hholds, hnew, hnodup, habsent⟩ := hB₂.loadSegments_built
    (fun i hi hskip => hfits _ (mem_segments.mpr ⟨i, hi, rfl, hskip⟩)) hsegments
  have hva : pageNumber (userStackTop - pageSize) = stackPage := by decide
  rcases hB₃.addPage (fun p ph => ph.zeroPage p) (userStackTop - pageSize) (pteR ||| pteW ||| pteU)
      (fun p ph hp => ⟨rfl, fun w hw => by rw [zeroPage_mem hp, if_neg hw]⟩) (by decide) (by decide)
      (by decide) (Or.inl (by decide)) with ⟨hnopage, -⟩ |
    ⟨p, ph₄, o₅, ph₅, own₅, hsome, -, -, hmap, hB₅, hadds₅, -, hdone₅, -⟩
  · rw [Fallible.bind_of_none hnopage] at hrun
    simp at hrun
  rw [Fallible.bind_of_some hsome, Fallible.modify_bind] at hrun
  obtain ⟨_, ph₅', hmap', hret⟩ := Fallible.bind_eq_some.mp hrun
  rw [hmap] at hmap'
  obtain ⟨rfl, rfl⟩ : o₅ = some () ∧ ph₅ = ph₅' := by simpa using hmap'
  obtain ⟨rfl, rfl⟩ : (⟨r, p, (Elf64Ehdr.read data).eEntry, imageBase,
      wrapSub imageEnd imageBase⟩ : LoadedImage) = image ∧ ph₅ = ph' := by
    simpa using hret
  obtain ⟨hfresh, hown, hlookups, hwords, -⟩ := hdone₅ rfl
  rw [hva] at hfresh hown hlookups
  have hp : p % pageSize = 0 := hB₅.tables.page_aligned (by simp [hown])
  refine ⟨own₅, hB₅, rfl, ?_, ?_, ?_, fun phdr hphdr => ?_, ?_, hown, fun o ho => ?_, fun n hn e he => ?_,
    hnodup, fun n hn => ?_⟩
  · rw [imageRange, ← hspan]
  · rw [← hspan]
    exact hnone
  · exact (hclosed.of_adds hmapped hadds₃).of_adds (hadds₃.kernelMapped hmapped) hadds₅
  · obtain ⟨i, hi, rfl, hskip⟩ := mem_segments.mp hphdr
    obtain ⟨hok, hpages⟩ := hholds i hi hskip
    exact ⟨hok, fun j hj => (hpages j hj).adds hB₃.tables hadds₅⟩
  · dsimp only
    rw [hlookups _ (by decide), if_pos rfl]
  · dsimp only
    have hzero : (ph₄.zeroPage p).mem.byteAt (p + o) = 0 := byteAt_zeroPage hp ho
    exact (byteAt_of_words hp ho hwords).trans hzero
  · dsimp only at he
    rw [hlookups n hn] at he
    split_ifs at he with hstack
    · exact Or.inr (Or.inr hstack)
    · rcases hnew n hn e he with hold | hmem
      · left
        by_cases hk : KernelPage n
        · obtain ⟨e', he', hleaf⟩ := hmapped n hk
          obtain rfl := Option.some.inj (hold.symm.trans he')
          exact hleaf
        · rw [hempty n hn hk] at hold
          cases hold
      · exact Or.inr (Or.inl hmem)
  · have hnone := habsent n hn
    refine ⟨fun hk => ?_, ?_⟩
    · obtain ⟨e, he, -⟩ := hmapped n hk
      rw [hnone] at he
      cases he
    · rintro rfl
      obtain ⟨i, hi, hskip, j, hj, hpage⟩ := mem_imagePages.mp hn
      obtain ⟨q, hq, -⟩ := (hholds i hi hskip).2 j hj
      rw [hpage, hfresh] at hq
      cases hq

/-- The image of a program as its file describes it. -/
structure Describes (data : List UInt8) (image : LoadedImage) (ph : Phys) : Prop where
  /-- Every address of a segment is mapped with the permissions of the segment, to a byte of the file or to
  zero. -/
  segment : ∀ phdr ∈ segments data, ∀ i < phdr.pMemsz, ∃ e,
    lookup ph image.pagetable (pageNumber (phdr.pVaddr + i)) = some e ∧ hasFlag e pteU = true ∧
    hasFlag e pteR = hasFlag phdr.pFlags pfR ∧ hasFlag e pteW = hasFlag phdr.pFlags pfW ∧
    hasFlag e pteX = hasFlag phdr.pFlags pfX ∧ ∃ pa,
      virtToPhys ph image.pagetable (phdr.pVaddr + i) = some pa ∧
      (i < phdr.pFilesz → data[phdr.pOffset + i]? = some (ph.mem.byteAt pa)) ∧
      (phdr.pFilesz ≤ i → ph.mem.byteAt pa = 0)
  /-- All other bytes of the pages are zero. -/
  rest : ∀ n < 2 ^ 27, ∀ e, lookup ph image.pagetable n = some e → hasFlag e pteU = true →
    ∀ o < pageSize, (∀ phdr ∈ segments data, ∀ i < phdr.pMemsz,
      ¬ (pageNumber (phdr.pVaddr + i) = n ∧ (phdr.pVaddr + i) % pageSize = o)) →
        ph.mem.byteAt (pteToPa e + o) = 0
  /-- The stack can be read and written, and is zero. -/
  stack : ∃ e, lookup ph image.pagetable stackPage = some e ∧ pteToPa e = image.userStack ∧
    hasFlag e pteU = true ∧ hasFlag e pteR = true ∧ hasFlag e pteW = true ∧ hasFlag e pteX = false ∧
    ∀ o < pageSize, ph.mem.byteAt (image.userStack + o) = 0
  /-- No two pages are the same physical page. -/
  apart : ∀ n < 2 ^ 27, ∀ m < 2 ^ 27, ∀ e f, lookup ph image.pagetable n = some e →
    lookup ph image.pagetable m = some f → hasFlag e pteU = true → hasFlag f pteU = true →
      pteToPa e = pteToPa f → n = m
  entry : image.entry = (Elf64Ehdr.read data).eEntry
  /-- The range of the image encloses the pages of all segments. -/
  encloses : ∀ phdr ∈ segments data, image.imageBase ≤ pageFloor phdr.pVaddr ∧
    pageFloor (phdr.pVaddr + phdr.pMemsz + (pageSize - 1)) ≤ image.imageBase + image.imageSize
  /-- It starts with a page of a segment. -/
  starts : ∃ phdr ∈ segments data, image.imageBase = pageFloor phdr.pVaddr
  /-- It ends with a page of a segment. -/
  stops : ∃ phdr ∈ segments data,
    image.imageBase + image.imageSize = pageFloor (phdr.pVaddr + phdr.pMemsz + (pageSize - 1))

/-- The permissions of a page of a segment. -/
lemma segmentFlags_eq (phdr : Elf64Phdr) (p : ℕ) :
    hasFlag (paToPte p (segmentFlags phdr ||| pteV)) pteU = true ∧
    hasFlag (paToPte p (segmentFlags phdr ||| pteV)) pteR = hasFlag phdr.pFlags pfR ∧
    hasFlag (paToPte p (segmentFlags phdr ||| pteV)) pteW = hasFlag phdr.pFlags pfW ∧
    hasFlag (paToPte p (segmentFlags phdr ||| pteV)) pteX = hasFlag phdr.pFlags pfX := by
  have hlt := flags_or_lt (segmentFlags_user phdr).1
  rw [hasFlag_paToPte hlt (by decide), hasFlag_paToPte hlt (by decide), hasFlag_paToPte hlt (by decide),
    hasFlag_paToPte hlt (by decide)]
  unfold segmentFlags
  cases hasFlag phdr.pFlags pfR <;> cases hasFlag phdr.pFlags pfW <;>
    cases hasFlag phdr.pFlags pfX <;> decide

section Built

variable {image : LoadedImage} {ph₀ ph : Phys} {own₀ own : ℕ → Role}

/-- An address of a segment. -/
lemma Built.address (h : Built data image ph own) (hB : Building image.pagetable ph₀ own₀ ph own)
    (hfits : Fits phdr) (hphdr : phdr ∈ segments data) {va : ℕ} (hge : vaStart phdr ≤ va)
    (hlt : va < vaEnd phdr) : ∃ p, lookup ph image.pagetable (pageNumber va) =
      some (paToPte p (segmentFlags phdr ||| pteV)) ∧
      pteToPa (paToPte p (segmentFlags phdr ||| pteV)) = p ∧
      ph.mem.byteAt (p + va % pageSize) = segmentByte data phdr va := by
  obtain ⟨j, hj, hpage⟩ := hfits.exists_page hge hlt
  obtain ⟨p, hlookup, hown, hbytes⟩ := (h.segment phdr hphdr).2 j hj
  have hva : segmentVa phdr j + va % pageSize = va := by
    rw [← hpage, pageFloor, Nat.mul_comm, Nat.div_add_mod]
  have hnumber : pageNumber (segmentVa phdr j) = pageNumber va := by
    rw [← hpage, pageNumber, pageNumber, pageFloor, Nat.mul_div_cancel _ (by decide)]
  have hne : own p ≠ .free := by simp [hown]
  refine ⟨p, by rw [← hnumber, hlookup], ?_, ?_⟩
  · exact pteToPa_paToPte (flags_or_lt (segmentFlags_user phdr).1) (hB.tables.page_aligned hne)
      (hB.tables.page_lt hne)
  · rw [hbytes _ (Nat.mod_lt _ (by decide)), hva]

/-- The addresses of a segment lie between its ends. -/
lemma Fits.mem_range (hfits : Fits phdr) {i : ℕ} (hi : i < phdr.pMemsz) :
    vaStart phdr ≤ phdr.pVaddr + i ∧ phdr.pVaddr + i < Exec.vaEnd phdr := by
  rw [hfits.vaEnd]
  simp only [vaStart, pageFloor, pageSize]
  omega

/-- A page that user mode reaches has been put there for the program. -/
lemma Built.owned (h : Built data image ph own) (hB : Building image.pagetable ph₀ own₀ ph own) {n e : ℕ}
    (hn : n < 2 ^ 27) (he : lookup ph image.pagetable n = some e) (huser : hasFlag e pteU = true) :
    own (pteToPa e) = .data image.pagetable n := by
  rcases hB.space.leaf n hn e he with hk | hu
  · obtain rfl := hk.user huser
    rw [h.closed e he] at huser
    cases huser
  · exact hu.owned

/-- A user page other than the stack is a page of a segment. -/
lemma Built.exists_segment (h : Built data image ph own) {n e : ℕ} (hn : n < 2 ^ 27)
    (he : lookup ph image.pagetable n = some e) (huser : hasFlag e pteU = true) (hstack : n ≠ stackPage) :
    ∃ phdr ∈ segments data, ∃ j < numPages phdr, pageNumber (segmentVa phdr j) = n := by
  rcases h.only n hn e he with hk | hmem | hs
  · obtain rfl := hk.user huser
    rw [h.closed e he] at huser
    cases huser
  · obtain ⟨i, hi, hskip, j, hj, hpage⟩ := mem_imagePages.mp hmem
    exact ⟨_, mem_segments.mpr ⟨i, hi, rfl, hskip⟩, j, hj, hpage⟩
  · exact absurd hs hstack

/-- The image starts and ends where its segments do. -/
lemma Built.span (h : Built data image ph own) (hfits : ∀ phdr ∈ segments data, Fits phdr) :
    image.imageBase = (imageSpan data (Elf64Ehdr.read data) (Elf64Ehdr.read data).ePhnum).1 ∧
      image.imageBase + image.imageSize =
        (imageSpan data (Elf64Ehdr.read data) (Elf64Ehdr.read data).ePhnum).2 := by
  have horder := imageSpan_ordered
    (fun i hi hskip => hfits _ (mem_segments.mpr ⟨i, hi, rfl, hskip⟩)) h.some_segment
  have hlt := imageSpan_lt data (Elf64Ehdr.read data) (Elf64Ehdr.read data).ePhnum
  obtain ⟨hbase, hsize⟩ := Prod.mk.inj h.range
  rw [hbase, hsize]
  exact ⟨rfl, by rw [wrapSub_of_le horder hlt, Nat.add_sub_cancel' horder]⟩

/-- What `load` has built is the image that the file describes. -/
lemma Built.describes (h : Built data image ph own) (hB : Building image.pagetable ph₀ own₀ ph own)
    (hfits : ∀ phdr ∈ segments data, Fits phdr) : Describes data image ph where
  segment phdr hphdr i hi := by
    obtain ⟨hge, hlt⟩ := (hfits phdr hphdr).mem_range hi
    obtain ⟨p, hlookup, hpa, hbyte⟩ := h.address hB (hfits phdr hphdr) hphdr hge hlt
    obtain ⟨huser, hr, hw, hx⟩ := segmentFlags_eq phdr p
    obtain ⟨-, -, hfile⟩ := segmentOk_iff.mp (h.segment phdr hphdr).1
    refine ⟨_, hlookup, huser, hr, hw, hx, p + (phdr.pVaddr + i) % pageSize, ?_, fun hin => ?_, fun hout => ?_⟩
    · rw [virtToPhys_eq, hlookup, Option.map_some, hpa]
    · rw [hbyte, segmentByte, if_pos ⟨Nat.le_add_right .., Nat.add_lt_add_left hin _⟩, Nat.add_sub_cancel_left,
        List.getD_eq_getElem?_getD, List.getElem?_eq_getElem (by omega)]
      rfl
    · rw [hbyte, segmentByte, if_neg fun hin => by omega]
  rest n hn e he huser o ho hother := by
    by_cases hstack : n = stackPage
    · subst hstack
      obtain rfl := Option.some.inj (he.symm.trans h.stack)
      have hne : own image.userStack ≠ .free := by simp [h.stack_own]
      rw [pteToPa_paToPte (by decide) (hB.tables.page_aligned hne) (hB.tables.page_lt hne)]
      exact h.stack_zero o ho
    · obtain ⟨phdr, hphdr, j, hj, rfl⟩ := h.exists_segment hn he huser hstack
      obtain ⟨hok, hpages⟩ := h.segment phdr hphdr
      obtain ⟨-, hsize, -⟩ := segmentOk_iff.mp hok
      obtain ⟨p, hlookup, hown, hbytes⟩ := hpages j hj
      obtain rfl := Option.some.inj (he.symm.trans hlookup)
      have hne : own p ≠ .free := by simp [hown]
      rw [pteToPa_paToPte (flags_or_lt (segmentFlags_user phdr).1) (hB.tables.page_aligned hne)
        (hB.tables.page_lt hne), hbytes o ho, segmentByte, if_neg]
      rintro ⟨hge, hlt⟩
      obtain ⟨i, hi⟩ := Nat.exists_eq_add_of_le hge
      have hmod := segmentVa_mod phdr j
      refine hother phdr hphdr i (by omega) ⟨?_, ?_⟩
      · rw [← hi]
        simp only [pageNumber, pageSize] at hmod ho ⊢
        omega
      · rw [← hi]
        simp only [pageSize] at hmod ho ⊢
        omega
  stack := by
    have hne : own image.userStack ≠ .free := by simp [h.stack_own]
    have hflag : ∀ m < 1024, hasFlag (paToPte image.userStack (pteR ||| pteW ||| pteU ||| pteV)) m =
        hasFlag (pteR ||| pteW ||| pteU ||| pteV) m := fun m hm => hasFlag_paToPte (by decide) hm
    refine ⟨_, h.stack, ?_, ?_, ?_, ?_, ?_, h.stack_zero⟩
    · exact pteToPa_paToPte (by decide) (hB.tables.page_aligned hne) (hB.tables.page_lt hne)
    all_goals
      rw [hflag _ (by decide)]
      rfl
  apart n hn m hm e f he hf heu hfu heq := by
    have howned := h.owned hB hn he heu
    rw [heq, h.owned hB hm hf hfu, Role.data.injEq] at howned
    exact howned.2.symm
  entry := h.entry
  encloses phdr hphdr := by
    obtain ⟨i, hi, rfl, hskip⟩ := mem_segments.mp hphdr
    obtain ⟨hbase, hend⟩ := h.span hfits
    rw [hend, hbase, ← (hfits _ hphdr).vaEnd]
    exact (imageSpan_hull ..).1 i hi hskip
  starts := by
    obtain ⟨⟨i, hi, hskip, hstart⟩, -⟩ := (imageSpan_hull ..).2 h.some_segment
    exact ⟨_, mem_segments.mpr ⟨i, hi, rfl, hskip⟩, (h.span hfits).1.trans hstart⟩
  stops := by
    obtain ⟨-, i, hi, hskip, hend⟩ := (imageSpan_hull ..).2 h.some_segment
    have hphdr := mem_segments.mpr ⟨i, hi, rfl, hskip⟩
    exact ⟨_, hphdr, by rw [(h.span hfits).2, hend, (hfits _ hphdr).vaEnd]⟩

end Built

end Exec

namespace System

/-- **The image of a program.**  In every state of every run, `load` of a file the ends of whose segments
can be rounded up without an overflow returns the image that the file describes, when it returns one. -/
theorem load_describes {c : Config} {s₀ s : System} {es : List Event} {name : String} {data : List UInt8}
    {image : LoadedImage} {k' : Kernel} (hboot : c.boot = some s₀) (hrun : nekos.run s₀ es = some s)
    (hfile : s.kernel.findFile name = some data) (hfits : ∀ phdr ∈ Exec.segments data, Exec.Fits phdr)
    (hload : Kernel.load name s.kernel = some (some image, k')) : Exec.Describes data image k'.phys := by
  rcases Kernel.load_cases hload with ⟨hnone, -⟩ | ⟨data', ph, hfile', hloadFile, rfl⟩
  · cases hnone
  obtain rfl := Option.some.inj (hfile.symm.trans hfile')
  obtain ⟨own, hB, hbuilt⟩ := Exec.loadFile_built (Config.spaces_run hboot hrun) hfits hloadFile
  exact hbuilt.describes hB hfits

end System

/-! ### The sample machine -/

/-- A program header. -/
def phdrBytes (flags offset vaddr filesz memsz : ℕ) : List UInt8 :=
  leBytes ptLoad 4 ++ leBytes flags 4 ++ leBytes offset 8 ++ leBytes vaddr 8 ++ leBytes vaddr 8 ++
    leBytes filesz 8 ++ leBytes memsz 8 ++ leBytes pageSize 8

/-- A program with the given program headers. -/
def programOf (phdrs : List (List UInt8)) : List UInt8 :=
  Exec.elfMagic ++ List.replicate 12 0 ++ leBytes etExec 2 ++ leBytes emRiscv 2 ++ leBytes 1 4 ++
    leBytes 0x10000 8 ++ leBytes ehdrSize 8 ++ List.replicate 14 0 ++ leBytes phdrSize 2 ++
    leBytes phdrs.length 2 ++ List.replicate 6 0 ++ phdrs.flatten

/-- A program with a read-only segment that starts in the middle of a page and holds bytes of the file,
and with a cleared segment. -/
def notesProgram : List UInt8 :=
  programOf [phdrBytes (pfR ||| pfX) 0 0x10010 64 0x2000, phdrBytes (pfR ||| pfW) 0 0x20ff8 0 16]

/-- The pages of the program. -/
lemma notesProgram_pages : (Elf64Ehdr.read notesProgram).ePhnum = 2 ∧
    Exec.imagePages notesProgram (Elf64Ehdr.read notesProgram) 2 = [0x10, 0x11, 0x12, 0x20, 0x21] := by
  decide +kernel

/-- The program can be loaded. -/
lemma notesProgram_loadable : Exec.headerOk notesProgram = true ∧
    Exec.Loadable notesProgram (Elf64Ehdr.read notesProgram) ∧
    Exec.ElfOk true notesProgram (Elf64Ehdr.read notesProgram) := by
  obtain ⟨hnum, hpages⟩ := notesProgram_pages
  refine ⟨by decide +kernel, ⟨?_, ?_, ?_, ?_⟩, ?_⟩
  · rw [hnum]
    decide +kernel
  · rw [hnum, hpages]
    decide
  · rw [hnum, hpages]
    decide
  · rw [hnum]
    decide +kernel
  · rw [Exec.ElfOk, hnum]
    decide +kernel

/-- A program that can be loaded is loaded as long as pages are left. -/
lemma Kernel.load_returns {k : Kernel} {own : ℕ → Role} {name : String} {data : List UInt8}
    (h : NekOS.Housed true k.tm k.phys own) (hfile : k.findFile name = some data)
    (hheader : Exec.headerOk data = true) (hload : Exec.Loadable data (Elf64Ehdr.read data))
    (helf : Exec.ElfOk true data (Elf64Ehdr.read data)) (hpages : Exec.cost data ≤ k.phys.page.freePages) :
    ∃ image k', load name k = some (some image, k') := by
  rw [Exec.cost] at hpages
  obtain ⟨o, ph, own', hrun, hfail, -⟩ := loadFile_spec h.spaces helf
  rcases o with _ | image
  · obtain ⟨-, hbad | hbad | hfew⟩ := hfail rfl
    · rw [hheader] at hbad
      cases hbad
    · exact absurd hload hbad
    · omega
  · refine ⟨image, { k with phys := ph }, ?_⟩
    rw [load, Fallible.gets_bind, Fallible.ofOption_bind]
    simp only [id, hfile, Option.elim_some]
    exact onPhys_eq_some.mpr ⟨ph, hrun, rfl⟩

/-- The theorem for a program with two segments on the machine that has just booted. -/
theorem System.load_describes_sample : ∃ (s₀ : System) (image : LoadedImage) (k' : Kernel),
    (sampleConfig [("notes", notesProgram)]).boot = some s₀ ∧
    Kernel.load "notes" s₀.kernel = some (some image, k') ∧ Exec.Describes notesProgram image k'.phys := by
  obtain ⟨x, hboot, hbooted⟩ := Sample.exists_start [("notes", notesProgram)]
  obtain ⟨own, hhoused⟩ := hbooted.housed
  obtain ⟨hnum, himage⟩ := notesProgram_pages
  obtain ⟨hheader, hloadable, helf⟩ := notesProgram_loadable
  have hfile : x.start.kernel.findFile "notes" = some notesProgram := by
    rw [Kernel.findFile, hbooted.files]
    simp [sampleConfig]
  have hpages : Exec.cost notesProgram ≤ x.start.kernel.phys.page.freePages := by
    have hfree := hbooted.pages
    rw [(sampleConfig_page _).2.2, sampleProgram_cost] at hfree
    have hcost : Exec.cost notesProgram = 44 := by
      rw [Exec.cost, hnum, himage]
      rfl
    omega
  obtain ⟨image, k', hload⟩ := Kernel.load_returns hhoused hfile hheader hloadable helf hpages
  have hfits : ∀ phdr ∈ Exec.segments notesProgram, Exec.Fits phdr := by decide +kernel
  exact ⟨x.start, image, k', hboot, hload, load_describes hboot (nekos.run_nil _) hfile hfits hload⟩

end NekOS
