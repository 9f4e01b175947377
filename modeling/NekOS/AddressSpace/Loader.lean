import NekOS.AddressSpace.KernelMap
import NekOS.AddressSpace.Retention

/-!
# Loading programs

What `load` builds: a tree that maps the pages of the kernel, the pages of the segments and the stack.
Where the segments lie is read off the file.  A segment whose end wraps around the address space has
pages outside the image that `load` reports; `ElfOk` says which files are free of such segments, or at
least of those without permissions, whose entries `free_walk` would take for pointers to tables.
-/

namespace NekOS

open PageTable

/-- A page boundary of an address range lies in page `n`. -/
def Covered (start stop n : ℕ) : Prop :=
  ∃ va, va % pageSize = 0 ∧ start ≤ va ∧ va < stop ∧ pageNumber va = n

namespace Exec

/-! ### Segments -/

/-- A number of `n` bytes. -/
lemma leNat_lt (data : List UInt8) (off n : ℕ) : leNat data off n < 256 ^ n := by
  induction n generalizing off with
  | zero => exact Nat.one_pos
  | succ n ih =>
    have hrest := ih (off + 1)
    have hbyte := (data.getD off 0).toNat_lt
    rw [leNat, pow_succ]
    omega

/-- The address of page `j` of a segment. -/
def segmentVa (phdr : Elf64Phdr) (j : ℕ) : ℕ := wrap (vaStart phdr + j * pageSize)

/-- A segment that ends before it starts. -/
def wraps (phdr : Elf64Phdr) : Bool := decide (vaEnd phdr < vaStart phdr)

/-- The pages of a segment lie on page boundaries. -/
lemma segmentVa_mod (phdr : Elf64Phdr) (j : ℕ) : segmentVa phdr j % pageSize = 0 := by
  simp only [segmentVa, wrap, vaStart, pageFloor, pageSize]
  omega

/-- The pages of a segment have 64-bit addresses. -/
lemma segmentVa_lt (phdr : Elf64Phdr) (j : ℕ) : segmentVa phdr j < 2 ^ 64 :=
  Nat.mod_lt _ (by decide)

/-- A segment that does not wrap lies between its start and its end. -/
lemma segmentVa_mem {phdr : Elf64Phdr} (hva : phdr.pVaddr < 2 ^ 64) (hwrap : wraps phdr = false)
    {j : ℕ} (hj : j < numPages phdr) :
    vaStart phdr ≤ segmentVa phdr j ∧ segmentVa phdr j < vaEnd phdr := by
  have hend : vaEnd phdr < 2 ^ 64 ∧ vaEnd phdr % 4096 = 0 := by
    simp only [vaEnd, pageCeil, pageFloor, wrap, pageSize]
    omega
  have hstart : vaStart phdr < 2 ^ 64 ∧ vaStart phdr % 4096 = 0 := by
    simp only [vaStart, pageFloor, pageSize]
    omega
  rw [wraps, decide_eq_false_iff_not] at hwrap
  simp only [numPages, wrapSub, pageSize] at hj
  simp only [segmentVa, wrap, pageSize]
  omega

/-- The bytes copied to a page stay in the page. -/
lemma pageBytes_fits (data : List UInt8) (phdr : Elf64Phdr) (va : ℕ) :
    (pageBytes data phdr va).2 = [] ∨
      (pageBytes data phdr va).1 + (pageBytes data phdr va).2.length ≤ pageSize := by
  simp only [pageBytes]
  by_cases hle : min (wrap (va + pageSize)) (wrap (phdr.pVaddr + phdr.pFilesz)) ≤ max va phdr.pVaddr
  · left
    rw [Nat.sub_eq_zero_of_le hle, List.take_zero]
  · right
    have hlen := List.length_take_le
      (min (wrap (va + pageSize)) (wrap (phdr.pVaddr + phdr.pFilesz)) - max va phdr.pVaddr)
      (data.drop (wrapSub (wrap (phdr.pOffset + max va phdr.pVaddr)) phdr.pVaddr))
    have hwrap : wrap (va + pageSize) ≤ va + pageSize := Nat.mod_le ..
    omega

/-- The contents of a page of a segment. -/
def fillPage (data : List UInt8) (phdr : Elf64Phdr) (va page : ℕ) (ph : Phys) : Phys :=
  (ph.zeroPage page).copyIn (page + (pageBytes data phdr va).1) (pageBytes data phdr va).2

/-- Filling a page changes no other page. -/
lemma fillPage_frame (data : List UInt8) (phdr : Elf64Phdr) (va p : ℕ) (ph : Phys)
    (hp : p % pageSize = 0) : (fillPage data phdr va p ph).page = ph.page ∧
      ∀ w, pageOfWord w ≠ p → (fillPage data phdr va p ph).mem w = ph.mem w := by
  refine ⟨rfl, fun w hw => ?_⟩
  have hout : w < p / 8 ∨ p / 8 + 512 ≤ w := by
    rw [Ne, pageOfWord_eq hp] at hw
    omega
  have hcopy : (fillPage data phdr va p ph).mem w = (ph.zeroPage p).mem w := by
    rcases pageBytes_fits data phdr va with hnil | hfits
    · simp only [fillPage, hnil]
      rfl
    · refine Memory.setBytes_of_not_mem _ ?_
      simp only [pageSize] at hp hfits
      omega
  rw [hcopy, zeroPage_mem hp, if_neg hw]

/-- An iteration of the inner loop takes a page, fills it and maps it. -/
lemma loadPage_eq (r : ℕ) (data : List UInt8) (phdr : Elf64Phdr) (j : ℕ) :
    loadPage r data phdr j = (do
      let page ← allocPage
      Fallible.modify (fillPage data phdr (segmentVa phdr j) page)
      PageTable.map r (segmentVa phdr j) page pageSize (segmentFlags phdr)) :=
  rfl

/-- The permissions of a segment have five bits, one of them for user mode. -/
lemma segmentFlags_user (phdr : Elf64Phdr) :
    segmentFlags phdr < 1024 ∧ hasFlag (segmentFlags phdr) pteU = true := by
  unfold segmentFlags
  cases hasFlag phdr.pFlags pfR <;> cases hasFlag phdr.pFlags pfW <;>
    cases hasFlag phdr.pFlags pfX <;> decide

/-- The entry of a page of a segment is a leaf when the segment has permissions. -/
lemma isLeaf_segment (phdr : Elf64Phdr) (p : ℕ) :
    isLeaf (paToPte p (segmentFlags phdr ||| pteV)) = isLeaf (segmentFlags phdr) := by
  rw [isLeaf, hasFlag_paToPte (flags_or_lt (segmentFlags_user phdr).1) (by decide)]
  unfold segmentFlags
  cases hasFlag phdr.pFlags pfR <;> cases hasFlag phdr.pFlags pfW <;>
    cases hasFlag phdr.pFlags pfX <;> rfl

end Exec

namespace Building

variable {r : ℕ} {ph₀ ph : Phys} {own₀ own : ℕ → Role}

/-- The inner loop of `elf_load`. -/
lemma loadPages (h : Building r ph₀ own₀ ph own) (data : List UInt8) (phdr : Elf64Phdr)
    (count : ℕ) : ∃ o ph' own', Fallible.forRange count (Exec.loadPage r data phdr) ph = some (o, ph') ∧
      Building r ph₀ own₀ ph' own' ∧ Adds r ph own ph' own' ∧
      (∀ m < 2 ^ 27, ∀ e, lookup ph' r m = some e → lookup ph r m = some e ∨
        (∃ j < count, pageNumber (Exec.segmentVa phdr j) = m) ∧
          isLeaf e = isLeaf (Exec.segmentFlags phdr)) ∧
      ph.page.freePages ≤ ph'.page.freePages + 3 * count ∧
      (o = some () → (∀ j < count, (lookup ph' r (pageNumber (Exec.segmentVa phdr j))).isSome = true) ∧
        Settles r ph own own') ∧
      (o = none → (∃ j < count, (lookup ph r (pageNumber (Exec.segmentVa phdr j))).isSome = true ∨
        ∃ i < j, pageNumber (Exec.segmentVa phdr i) = pageNumber (Exec.segmentVa phdr j)) ∨
          ph.page.freePages < 3 * count) := by
  induction count with
  | zero =>
    exact ⟨some (), ph, own, rfl, h, Adds.refl .., fun m _ e he => Or.inl he, Nat.le_add_right ..,
      fun _ => ⟨by simp, Settles.refl ..⟩, by simp⟩
  | succ k ih =>
    obtain ⟨o₁, ph₁, own₁, hrun₁, hB₁, hadds₁, hnew₁, hcost₁, hdone₁, hfail₁⟩ := ih
    rw [Fallible.forRange_succ]
    rcases o₁ with _ | u
    · refine ⟨none, ph₁, own₁, Fallible.bind_of_none hrun₁, hB₁, hadds₁, fun m hm e he => ?_,
        by omega, by simp, fun _ => ?_⟩
      · exact (hnew₁ m hm e he).imp_right fun ⟨⟨j, hj, hjm⟩, hl⟩ =>
          ⟨⟨j, Nat.lt_succ_of_lt hj, hjm⟩, hl⟩
      · rcases hfail₁ rfl with ⟨j, hj, hj'⟩ | hfew
        · exact Or.inl ⟨j, Nat.lt_succ_of_lt hj, hj'⟩
        · exact Or.inr (by omega)
    obtain ⟨hflags, huser⟩ := Exec.segmentFlags_user phdr
    obtain ⟨o₂, ph₂, own₂, hrun₂, hB₂, hadds₂, hcost₂, hdone₂, hfail₂⟩ :=
      hB₁.addPage_run _ _ _ (fun p ph => Exec.fillPage_frame data phdr (Exec.segmentVa phdr k) p ph)
        (Exec.segmentVa_mod phdr k) (Exec.segmentVa_lt phdr k) hflags (Or.inl huser)
    rw [← Exec.loadPage_eq] at hrun₂
    have hn := pageNumber_lt (Exec.segmentVa phdr k)
    refine ⟨o₂, ph₂, own₂, (Fallible.bind_of_some hrun₁).trans hrun₂, hB₂, hadds₁.trans hadds₂,
      fun m hm e he => ?_, by omega, fun ho => ⟨fun j hj => ?_, ?_⟩, fun ho => ?_⟩
    · have hold : lookup ph₁ r m = some e → lookup ph r m = some e ∨
          (∃ j < k + 1, pageNumber (Exec.segmentVa phdr j) = m) ∧
            isLeaf e = isLeaf (Exec.segmentFlags phdr) := fun he₁ =>
        (hnew₁ m hm e he₁).imp_right fun ⟨⟨j, hj, hjm⟩, hl⟩ => ⟨⟨j, Nat.lt_succ_of_lt hj, hjm⟩, hl⟩
      rcases o₂ with _ | u
      · rw [(hfail₂ rfl).1] at he
        exact hold he
      · obtain ⟨-, p, -, -, -, hlookups, -⟩ := hdone₂ rfl
        rw [hlookups m hm] at he
        split at he
        · rename_i hmk
          obtain rfl := Option.some.inj he
          exact Or.inr ⟨⟨k, Nat.lt_succ_self k, hmk.symm⟩, Exec.isLeaf_segment phdr p⟩
        · exact hold he
    · rcases Nat.lt_succ_iff_lt_or_eq.mp hj with hj | rfl
      · obtain ⟨e, he⟩ := Option.isSome_iff_exists.mp ((hdone₁ rfl).1 j hj)
        rw [hadds₂.lookups _ (pageNumber_lt _) e he]
        rfl
      · obtain ⟨-, p, -, -, -, hlookups, -⟩ := hdone₂ ho
        rw [hlookups _ hn, if_pos rfl]
        rfl
    · obtain ⟨-, p, _, -, -, -, -, -, hsettles⟩ := hdone₂ ho
      exact (hdone₁ rfl).2.trans hadds₁ hsettles
    · rcases (hfail₂ ho).2 with hsome | hfew
      · obtain ⟨e, he⟩ := Option.isSome_iff_exists.mp hsome
        rcases hnew₁ _ hn e he with hold | ⟨⟨i, hi, hik⟩, -⟩
        · exact Or.inl ⟨k, Nat.lt_succ_self k, Or.inl (by rw [hold]; rfl)⟩
        · exact Or.inl ⟨k, Nat.lt_succ_self k, Or.inr ⟨i, hi, hik⟩⟩
      · exact Or.inr (by omega)

end Building

namespace Exec

/-! ### Images -/

/-- The program header `i` of a file. -/
def header (data : List UInt8) (ehdr : Elf64Ehdr) (i : ℕ) : Elf64Phdr :=
  Elf64Phdr.read data (phdrOffset ehdr i)

/-- The pages of a segment. -/
def segmentPages (phdr : Elf64Phdr) : List ℕ :=
  (List.range (numPages phdr)).map fun j => pageNumber (segmentVa phdr j)

/-- The pages of the first `i` segments. -/
def imagePages (data : List UInt8) (ehdr : Elf64Ehdr) : ℕ → List ℕ
  | 0 => []
  | i + 1 => imagePages data ehdr i ++
    if skipped (header data ehdr i) then [] else segmentPages (header data ehdr i)

/-- The range of the image after another segment. -/
def extendSpan (phdr : Elf64Phdr) (image : ℕ × ℕ) : ℕ × ℕ :=
  if skipped phdr then image else (min image.1 (vaStart phdr), max image.2 (vaEnd phdr))

/-- The range of the image after the first `i` segments. -/
def imageSpan (data : List UInt8) (ehdr : Elf64Ehdr) : ℕ → ℕ × ℕ
  | 0 => (usizeMax, 0)
  | i + 1 => extendSpan (header data ehdr i) (imageSpan data ehdr i)

/-- The base and the size of the image of a file. -/
def imageRange (data : List UInt8) : ℕ × ℕ :=
  let span := imageSpan data (Elf64Ehdr.read data) (Elf64Ehdr.read data).ePhnum
  (span.1, wrapSub span.2 span.1)

/-- No segment wraps around the address space, or (unless `strict`) those that do have
permissions. -/
def ElfOk (strict : Bool) (data : List UInt8) (ehdr : Elf64Ehdr) : Prop :=
  ∀ i < ehdr.ePhnum, skipped (header data ehdr i) = false → wraps (header data ehdr i) = true →
    strict = false ∧ isLeaf (segmentFlags (header data ehdr i)) = true

/-- The segments are loaded when there is memory enough. -/
structure Loadable (data : List UInt8) (ehdr : Elf64Ehdr) : Prop where
  segments : ∀ i < ehdr.ePhnum, skipped (header data ehdr i) = true ∨
    segmentOk data (header data ehdr i) = true
  nodup : (imagePages data ehdr ehdr.ePhnum).Nodup
  user : ∀ n ∈ imagePages data ehdr ehdr.ePhnum, ¬ KernelPage n ∧ n ≠ stackPage
  exists_segment : ∃ i < ehdr.ePhnum, skipped (header data ehdr i) = false

/-- The image after some segments: what it covers, and what the tree with the root `r` maps. -/
structure Image (strict : Bool) (pages : List ℕ) (image : ℕ × ℕ) (ph : Phys) (r : ℕ) : Prop where
  start : image.1 = usizeMax ∨ image.1 % pageSize = 0
  start_lt : image.1 < 2 ^ 64
  stop : image.2 % pageSize = 0
  stop_lt : image.2 < 2 ^ 64
  mapped : ∀ n < 2 ^ 27, (lookup ph r n).isSome = true ↔ KernelPage n ∨ n ∈ pages
  within : ∀ n < 2 ^ 27, ∀ e, lookup ph r n = some e → KernelPage n ∨ Covered image.1 image.2 n ∨
    strict = false ∧ isLeaf e = true

/-- The range of a segment lies on page boundaries. -/
lemma segment_bounds {phdr : Elf64Phdr} (hva : phdr.pVaddr < 2 ^ 64) :
    vaStart phdr % pageSize = 0 ∧ vaStart phdr < usizeMax ∧ vaEnd phdr % pageSize = 0 ∧
      vaEnd phdr < 2 ^ 64 := by
  simp only [vaStart, vaEnd, pageCeil, pageFloor, wrap, usizeMax, pageSize]
  omega

/-- The addresses of a program header have 64 bits. -/
lemma header_lt (data : List UInt8) (ehdr : Elf64Ehdr) (i : ℕ) :
    (header data ehdr i).pVaddr < 2 ^ 64 :=
  leNat_lt ..

/-- The image before the first segment. -/
lemma image_start {strict : Bool} {ph : Phys} {r : ℕ} (hmapped : KernelMapped ph r)
    (hempty : ∀ n < 2 ^ 27, ¬ KernelPage n → lookup ph r n = none) : Image strict [] (usizeMax, 0) ph r := by
  have hiff : ∀ n < 2 ^ 27, (lookup ph r n).isSome = true → KernelPage n := fun n hn hsome => by
    by_contra hnot
    simp [hempty n hn hnot] at hsome
  refine ⟨Or.inl rfl, by decide, rfl, by decide, fun n hn => ?_, fun n hn e he => ?_⟩
  · exact ⟨fun h => Or.inl (hiff n hn h), fun h => h.elim hmapped.isSome (by simp)⟩
  · exact Or.inl (hiff n hn (by rw [he]; rfl))

/-- A larger image covers more. -/
lemma Covered.mono {start stop start' stop' n : ℕ} (h : Covered start stop n) (h₁ : start' ≤ start)
    (h₂ : stop ≤ stop') : Covered start' stop' n := by
  obtain ⟨va, halign, hle, hlt, hn⟩ := h
  exact ⟨va, halign, h₁.trans hle, hlt.trans_le h₂, hn⟩

end Exec

namespace Building

variable {r : ℕ} {ph₀ ph : Phys} {own₀ own : ℕ → Role}

/-- One segment. -/
lemma loadSegment (h : Building r ph₀ own₀ ph own) {strict : Bool} {data : List UInt8}
    {ehdr : Elf64Ehdr} {i : ℕ} {pages : List ℕ} {image : ℕ × ℕ}
    (hok : Exec.skipped (Exec.header data ehdr i) = false →
      Exec.wraps (Exec.header data ehdr i) = true →
      strict = false ∧ isLeaf (Exec.segmentFlags (Exec.header data ehdr i)) = true)
    (himage : Exec.Image strict pages image ph r) :
    ∃ o ph' own', Exec.loadSegment r data ehdr i image ph = some (o, ph') ∧
      Building r ph₀ own₀ ph' own' ∧ Adds r ph own ph' own' ∧
      (∀ image', o = some image' → image' = Exec.extendSpan (Exec.header data ehdr i) image ∧
        Exec.Image strict (pages ++
        if Exec.skipped (Exec.header data ehdr i) then []
        else Exec.segmentPages (Exec.header data ehdr i)) image' ph' r ∧
        ph.page.freePages ≤ ph'.page.freePages +
          3 * (if Exec.skipped (Exec.header data ehdr i) then []
            else Exec.segmentPages (Exec.header data ehdr i)).length ∧
        (Exec.skipped (Exec.header data ehdr i) = false → image'.1 ≠ usizeMax) ∧
        (image.1 ≠ usizeMax → image'.1 ≠ usizeMax) ∧ Settles r ph own own') ∧
      (o = none → Exec.skipped (Exec.header data ehdr i) = false ∧
        (Exec.segmentOk data (Exec.header data ehdr i) = false ∨
        ¬ (pages ++ Exec.segmentPages (Exec.header data ehdr i)).Nodup ∨
        (∃ n ∈ Exec.segmentPages (Exec.header data ehdr i), KernelPage n) ∨
        ph.page.freePages < 3 * (Exec.segmentPages (Exec.header data ehdr i)).length)) := by
  obtain ⟨phdr, hphdr⟩ : ∃ phdr, phdr = Exec.header data ehdr i := ⟨_, rfl⟩
  have hva : phdr.pVaddr < 2 ^ 64 := by rw [hphdr]; exact Exec.header_lt ..
  have hread : Elf64Phdr.read data (Exec.phdrOffset ehdr i) = phdr := hphdr.symm
  rw [← hphdr] at hok ⊢
  rw [Exec.loadSegment, hread]
  by_cases hskip : Exec.skipped phdr = true
  · rw [if_pos hskip, if_pos hskip, List.append_nil]
    refine ⟨some image, ph, own, rfl, h, Adds.refl .., ?_, by simp⟩
    rintro _ ⟨⟩
    exact ⟨by rw [Exec.extendSpan, if_pos hskip], himage, Nat.le_add_right .., by simp [hskip], id,
      Settles.refl ..⟩
  rw [if_neg hskip, if_neg hskip]
  rw [Bool.not_eq_true] at hskip
  by_cases hseg : Exec.segmentOk data phdr = true
  swap
  · rw [if_pos (by simp [hseg])]
    exact ⟨none, ph, own, rfl, h, Adds.refl .., by simp, fun _ => ⟨hskip, Or.inl (by simpa using hseg)⟩⟩
  rw [if_neg (by simp [hseg])]
  obtain ⟨o, ph', own', hrun, hB, hadds, hnew, hcost, hdone, hfail⟩ :=
    h.loadPages data phdr (Exec.numPages phdr)
  have hlen : (Exec.segmentPages phdr).length = Exec.numPages phdr := by
    simp [Exec.segmentPages]
  have hmem : ∀ n, n ∈ Exec.segmentPages phdr ↔
      ∃ j < Exec.numPages phdr, pageNumber (Exec.segmentVa phdr j) = n := fun n => by
    simp [Exec.segmentPages]
  rcases o with _ | u
  · refine ⟨none, ph', own', Fallible.bind_of_none hrun, hB, hadds, by simp, fun _ => ⟨hskip, ?_⟩⟩
    rcases hfail rfl with ⟨j, hj, hsome | ⟨i', hi', heq⟩⟩ | hfew
    · rw [himage.mapped _ (pageNumber_lt _)] at hsome
      rcases hsome with hk | hold
      · exact Or.inr (Or.inr (Or.inl ⟨_, (hmem _).mpr ⟨j, hj, rfl⟩, hk⟩))
      · refine Or.inr (Or.inl fun hnodup => ?_)
        exact (List.nodup_append.mp hnodup).2.2 _ hold _ ((hmem _).mpr ⟨j, hj, rfl⟩) rfl
    · refine Or.inr (Or.inl fun hnodup => ?_)
      have hinj := List.inj_on_of_nodup_map (List.nodup_append.mp hnodup).2.1
      have := hinj (List.mem_range.mpr (hi'.trans hj)) (List.mem_range.mpr hj) heq
      omega
    · exact Or.inr (Or.inr (Or.inr (by rwa [hlen])))
  obtain ⟨hstart, hstart_lt, hstop, hstop_lt⟩ := Exec.segment_bounds hva
  refine ⟨some (min image.1 (Exec.vaStart phdr), max image.2 (Exec.vaEnd phdr)), ph', own',
    by rw [Fallible.bind_of_some hrun]; rfl, hB, hadds, ?_, by simp⟩
  rintro _ ⟨⟩
  have hmin : min image.1 (Exec.vaStart phdr) ≠ usizeMax := by omega
  refine ⟨by rw [Exec.extendSpan, if_neg (by simp [hskip])], ⟨?_,
    (min_le_left ..).trans_lt himage.start_lt, ?_, max_lt himage.stop_lt hstop_lt,
    fun n hn => ?_, fun n hn e he => ?_⟩, by rw [hlen]; exact hcost, fun _ => hmin, fun _ => hmin,
    (hdone rfl).2⟩
  · right
    have h₁ := himage.start
    simp only [min_def]
    split
    · rcases h₁ with h₁ | h₁
      · omega
      · exact h₁
    · exact hstart
  · rcases max_choice image.2 (Exec.vaEnd phdr) with heq | heq <;> dsimp only <;> rw [heq]
    · exact himage.stop
    · exact hstop
  · rw [List.mem_append, ← or_assoc, ← himage.mapped n hn, hmem]
    constructor
    · intro hsome
      obtain ⟨e, he⟩ := Option.isSome_iff_exists.mp hsome
      rcases hnew n hn e he with hold | ⟨hj, -⟩
      · exact Or.inl (by rw [hold]; rfl)
      · exact Or.inr hj
    · rintro (hsome | ⟨j, hj, rfl⟩)
      · obtain ⟨e, he⟩ := Option.isSome_iff_exists.mp hsome
        rw [hadds.lookups n hn e he]
        rfl
      · exact (hdone rfl).1 j hj
  · rcases hnew n hn e he with hold | ⟨⟨j, hj, hjn⟩, hleaf⟩
    · refine (himage.within n hn e hold).imp_right fun h => h.imp_left fun hc => ?_
      exact Exec.Covered.mono hc (min_le_left ..) (le_max_left ..)
    · right
      by_cases hwrap : Exec.wraps phdr = true
      · right
        rw [hleaf]
        exact hok hskip hwrap
      · left
        obtain ⟨hle, hlt⟩ := Exec.segmentVa_mem hva (by simpa using hwrap) hj
        exact ⟨_, Exec.segmentVa_mod phdr j, (min_le_right ..).trans hle,
          hlt.trans_le (le_max_right ..), hjn⟩

/-- The outer loop of `elf_load`. -/
lemma loadSegments (h : Building r ph₀ own₀ ph own) {strict : Bool} {data : List UInt8}
    {ehdr : Elf64Ehdr} (himage : Exec.Image strict [] (usizeMax, 0) ph r) (count : ℕ)
    (hok : ∀ i < count, Exec.skipped (Exec.header data ehdr i) = false →
      Exec.wraps (Exec.header data ehdr i) = true →
      strict = false ∧ isLeaf (Exec.segmentFlags (Exec.header data ehdr i)) = true) :
    ∃ o ph' own', Fallible.foldRange count (Exec.loadSegment r data ehdr) (usizeMax, 0) ph =
        some (o, ph') ∧ Building r ph₀ own₀ ph' own' ∧ Adds r ph own ph' own' ∧
      (∀ image, o = some image → image = Exec.imageSpan data ehdr count ∧
        Exec.Image strict (Exec.imagePages data ehdr count) image ph' r ∧
        ph.page.freePages ≤ ph'.page.freePages + 3 * (Exec.imagePages data ehdr count).length ∧
        ((∃ i < count, Exec.skipped (Exec.header data ehdr i) = false) → image.1 ≠ usizeMax) ∧
        Settles r ph own own') ∧
      (o = none → (∃ i < count, Exec.skipped (Exec.header data ehdr i) = false ∧
          Exec.segmentOk data (Exec.header data ehdr i) = false) ∨
        ¬ (Exec.imagePages data ehdr count).Nodup ∨
        (∃ n ∈ Exec.imagePages data ehdr count, KernelPage n) ∨
        ph.page.freePages < 3 * (Exec.imagePages data ehdr count).length) := by
  induction count with
  | zero =>
    refine ⟨some (usizeMax, 0), ph, own, rfl, h, Adds.refl .., ?_, by simp⟩
    rintro _ ⟨⟩
    exact ⟨rfl, himage, Nat.le_add_right .., by simp, Settles.refl ..⟩
  | succ k ih =>
    obtain ⟨o₁, ph₁, own₁, hrun₁, hB₁, hadds₁, hdone₁, hfail₁⟩ :=
      ih fun i hi => hok i (Nat.lt_succ_of_lt hi)
    rw [Fallible.foldRange_succ]
    have hlen : (Exec.imagePages data ehdr (k + 1)).length =
        (Exec.imagePages data ehdr k).length + (if Exec.skipped (Exec.header data ehdr k) then []
          else Exec.segmentPages (Exec.header data ehdr k)).length := by
      rw [Exec.imagePages, List.length_append]
    rcases o₁ with _ | image
    · refine ⟨none, ph₁, own₁, Fallible.bind_of_none hrun₁, hB₁, hadds₁, by simp, fun _ => ?_⟩
      rcases hfail₁ rfl with ⟨i, hi, hbad⟩ | hdup | ⟨n, hn, hk⟩ | hfew
      · exact Or.inl ⟨i, Nat.lt_succ_of_lt hi, hbad⟩
      · refine Or.inr (Or.inl fun hnodup => hdup ?_)
        rw [Exec.imagePages] at hnodup
        exact (List.nodup_append.mp hnodup).1
      · exact Or.inr (Or.inr (Or.inl ⟨n, List.mem_append_left _ hn, hk⟩))
      · exact Or.inr (Or.inr (Or.inr (by omega)))
    obtain ⟨hspan₁, himage₁, hcost₁, hstart₁, hsettles₁⟩ := hdone₁ image rfl
    obtain ⟨o₂, ph₂, own₂, hrun₂, hB₂, hadds₂, hdone₂, hfail₂⟩ :=
      hB₁.loadSegment (hok k (Nat.lt_succ_self k)) himage₁
    refine ⟨o₂, ph₂, own₂, (Fallible.bind_of_some hrun₁).trans hrun₂, hB₂, hadds₁.trans hadds₂,
      fun image' ho => ?_, fun ho => ?_⟩
    · obtain ⟨hspan₂, himage₂, hcost₂, hfirst, hlater, hsettles₂⟩ := hdone₂ image' ho
      refine ⟨by rw [hspan₂, hspan₁, Exec.imageSpan], himage₂, by omega, ?_, hsettles₁.trans hadds₁ hsettles₂⟩
      rintro ⟨i, hi, hskip⟩
      rcases Nat.lt_succ_iff_lt_or_eq.mp hi with hi | rfl
      · exact hlater (hstart₁ ⟨i, hi, hskip⟩)
      · exact hfirst hskip
    · obtain ⟨hskip, hwhy⟩ := hfail₂ ho
      rw [hlen]
      rw [Exec.imagePages, hskip]
      rcases hwhy with hbad | hdup | ⟨n, hn, hk⟩ | hfew
      · exact Or.inl ⟨k, Nat.lt_succ_self k, hskip, hbad⟩
      · exact Or.inr (Or.inl hdup)
      · exact Or.inr (Or.inr (Or.inl ⟨n, List.mem_append_right _ hn, hk⟩))
      · refine Or.inr (Or.inr (Or.inr ?_))
        simp only [Bool.false_eq_true, if_false]
        omega

end Building

/-! ### Loaded programs -/

/-- A loaded program: its image, its stack and the pages of the kernel. -/
structure Loaded (strict : Bool) (pages : List ℕ) (ph : Phys) (own : ℕ → Role)
    (image : LoadedImage) : Prop where
  stack : own image.userStack = .data image.pagetable stackPage
  stackLeaf : lookup ph image.pagetable stackPage =
    some (paToPte image.userStack (pteR ||| pteW ||| pteU ||| pteV))
  kernel : KernelMapped ph image.pagetable
  closed : UartClosed ph image.pagetable
  mapped : ∀ n < 2 ^ 27, (lookup ph image.pagetable n).isSome = true ↔
    KernelPage n ∨ n ∈ pages ∨ n = stackPage
  aligned : image.imageBase % pageSize = 0
  fits : ∀ heapBase, checkedAdd image.imageBase image.imageSize = some heapBase →
    heapBase % pageSize = 0 ∧ ∀ n < 2 ^ 27, ∀ e, lookup ph image.pagetable n = some e →
      KernelPage n ∨ n = stackPage ∨ Covered image.imageBase heapBase n ∨
        strict = false ∧ isLeaf e = true

/-- The end of an image, when it is a 64-bit value. -/
lemma Exec.image_end {start stop heapBase : ℕ} (hstart : start < 2 ^ 64) (hstop : stop < 2 ^ 64)
    (h : checkedAdd start (wrapSub stop start) = some heapBase) : heapBase = stop := by
  obtain ⟨hlt, rfl⟩ := checkedAdd_eq_some.mp h
  simp only [wrapSub] at hlt ⊢
  omega

/-- **Loading.**  `load` abandons what it has built, or returns a loaded program.  It takes the pages
of the segments, of the stack and of the tables, and it only fails when the file is not loadable or
there are not enough pages. -/
lemma loadFile_spec {ph : Phys} {own : ℕ → Role} (hS : Spaces ph own) {strict : Bool}
    {data : List UInt8} (hok : Exec.ElfOk strict data (Elf64Ehdr.read data)) :
    ∃ o ph' own', Exec.loadFile data ph = some (o, ph') ∧
      (o = none → Abandoned ph own ph' own' ∧ (Exec.headerOk data = false ∨
        ¬ Exec.Loadable data (Elf64Ehdr.read data) ∨ ph.page.freePages < 28 +
          3 * (Exec.imagePages data (Elf64Ehdr.read data) (Elf64Ehdr.read data).ePhnum).length)) ∧
      (∀ image, o = some image → own image.pagetable = .free ∧
        Building image.pagetable ph own ph' own' ∧
        Loaded strict (Exec.imagePages data (Elf64Ehdr.read data) (Elf64Ehdr.read data).ePhnum) ph'
          own' image ∧ image.entry = (Elf64Ehdr.read data).eEntry ∧
        (image.imageBase, image.imageSize) = Exec.imageRange data ∧
        ph.page.freePages ≤ ph'.page.freePages + (28 +
          3 * (Exec.imagePages data (Elf64Ehdr.read data) (Elf64Ehdr.read data).ePhnum).length) ∧
        ∀ p, own p = .free → own' p = .free ∨
          ((own' p).isTable = true ∧ (own' p).tree p = some image.pagetable) ∨
          ∃ n, own' p = .data image.pagetable n ∧ ¬ KernelPage n ∧
            (n ∈ Exec.imagePages data (Elf64Ehdr.read data) (Elf64Ehdr.read data).ePhnum ∨
              n = stackPage)) := by
  generalize hehdr : Elf64Ehdr.read data = ehdr at *
  generalize hpages : Exec.imagePages data ehdr ehdr.ePhnum = pages
  rw [Exec.loadFile, hehdr]
  by_cases hlen : data.length < ehdrSize
  · rw [if_pos hlen]
    refine ⟨none, ph, own, rfl, fun _ => ⟨Abandoned.refl hS.tables hS.root, Or.inl ?_⟩, by simp⟩
    simp [Exec.headerOk, hlen]
  rw [if_neg hlen]
  by_cases hverify : Exec.elfVerify ehdr data.length = true
  swap
  · rw [if_pos (by simpa using hverify)]
    refine ⟨none, ph, own, rfl, fun _ => ⟨Abandoned.refl hS.tables hS.root, Or.inl ?_⟩, by simp⟩
    simp [Exec.headerOk, hehdr, hverify]
  rw [if_neg (by simp [hverify])]
  rcases create_mapKernel hS.tables hS.root with ⟨hcreate, hzero⟩ |
    ⟨r, ph₁, o₂, ph₂, own₂, hcreate, hkernel, hfree, hB₂, hclosed, honly₂, hempty, hdone₂, hfail₂⟩
  · exact ⟨none, ph, own, Fallible.bind_of_none hcreate,
      fun _ => ⟨Abandoned.refl hS.tables hS.root, Or.inr (Or.inr (by omega))⟩, by simp⟩
  rw [Fallible.bind_of_some hcreate]
  -- Whatever fails from here on leaves a tree that no task uses.
  have hleft : ∀ {ph' own'}, Building r ph own ph' own' → UartClosed ph' r →
      Abandoned ph own ph' own' := fun hB hc => hB.abandoned hfree hc
  rcases o₂ with _ | u
  · exact ⟨none, ph₂, own₂, Fallible.bind_of_none hkernel, fun _ => ⟨hleft hB₂ hclosed,
      Or.inr (Or.inr (by have := hfail₂ rfl; omega))⟩, by simp⟩
  obtain ⟨hmapped, hcost₂⟩ := hdone₂ rfl
  rw [Fallible.bind_of_some hkernel]
  have himage : Exec.Image strict [] (usizeMax, 0) ph₂ r := Exec.image_start hmapped hempty
  obtain ⟨o₃, ph₃, own₃, hsegments, hB₃, hadds₃, hdone₃, hfail₃⟩ :=
    hB₂.loadSegments himage ehdr.ePhnum hok
  rw [hpages] at hdone₃ hfail₃
  have hclosed₃ := hclosed.of_adds hmapped hadds₃
  rw [Exec.elfLoad]
  rcases o₃ with _ | ⟨imageStart, imageEnd⟩
  · refine ⟨none, ph₃, own₃, Fallible.bind_of_none (Fallible.bind_of_none hsegments),
      fun _ => ⟨hleft hB₃ hclosed₃, Or.inr ?_⟩, by simp⟩
    rcases hfail₃ rfl with ⟨i, hi, hskip, hbad⟩ | hdup | ⟨n, hn, hk⟩ | hfew
    · refine Or.inl fun hload => ?_
      rcases hload.segments i hi with h | h
      · simp [hskip] at h
      · simp [hbad] at h
    · exact Or.inl fun hload => hdup (hpages ▸ hload.nodup)
    · exact Or.inl fun hload => (hload.user n (hpages ▸ hn)).1 hk
    · exact Or.inr (by omega)
  obtain ⟨hspan, himage₃, hcost₃, hstart, hsettles₃⟩ := hdone₃ _ rfl
  by_cases hnone : imageStart = usizeMax
  · refine ⟨none, ph₃, own₃, Fallible.bind_of_none ?_, fun _ => ⟨hleft hB₃ hclosed₃, Or.inr (Or.inl
      fun hload => hstart hload.exists_segment hnone)⟩, by simp⟩
    rw [Fallible.bind_of_some hsegments]
    simp only [if_pos hnone]
    rfl
  rw [Fallible.bind_of_some (show _ = some (some (ehdr.eEntry, imageStart, wrapSub imageEnd imageStart), ph₃)
    from (Fallible.bind_of_some hsegments).trans (by simp only [if_neg hnone]; rfl))]
  have hva : pageNumber (userStackTop - pageSize) = stackPage := by decide
  rcases hB₃.addPage (fun p ph => ph.zeroPage p) (userStackTop - pageSize) (pteR ||| pteW ||| pteU)
      (fun p ph hp => ⟨rfl, fun w hw => by rw [zeroPage_mem hp, if_neg hw]⟩) (by decide) (by decide)
      (by decide) (Or.inl (by decide)) with ⟨hnopage, hzero⟩ |
    ⟨p, ph₄, o₅, ph₅, own₅, hsome, hfree₄, -, hmap, hB₅, hadds₅, hcost₅, hdone₅, hfail₅⟩
  · exact ⟨none, ph₃, own₃, Fallible.bind_of_none hnopage, fun _ => ⟨hleft hB₃ hclosed₃,
      Or.inr (Or.inr (by omega))⟩, by simp⟩
  rw [hva] at hdone₅ hfail₅
  have hclosed₅ := hclosed₃.of_adds (hadds₃.kernelMapped hmapped) hadds₅
  rcases o₅ with _ | u
  · refine ⟨none, ph₅, own₅, ?_, fun _ => ⟨hleft hB₅ hclosed₅, Or.inr ?_⟩, by simp⟩
    · refine (Fallible.bind_of_some hsome).trans ?_
      rw [Fallible.modify_bind]
      exact Fallible.bind_of_none hmap
    · rcases (hfail₅ rfl).2.2 with hsome₃ | hfew
      · refine Or.inl fun hload => ?_
        rcases (himage₃.mapped stackPage (by decide)).mp hsome₃ with hk | hmem
        · exact absurd hk (by decide)
        · exact (hload.user _ (hpages ▸ hmem)).2 rfl
      · exact Or.inr (by omega)
  obtain ⟨habsent, hrole, hlookups, -, hsettles₅⟩ := hdone₅ rfl
  refine ⟨some ⟨r, p, ehdr.eEntry, imageStart, wrapSub imageEnd imageStart⟩, ph₅, own₅, ?_, by simp, ?_⟩
  · refine (Fallible.bind_of_some hsome).trans ?_
    rw [Fallible.modify_bind]
    exact Fallible.bind_of_some hmap
  rintro _ ⟨⟩
  have hpagesMapped : ∀ n < 2 ^ 27, (lookup ph₅ r n).isSome = true ↔
      KernelPage n ∨ n ∈ pages ∨ n = stackPage := fun n hn => by
    rw [hlookups n hn, ← or_assoc, ← himage₃.mapped n hn]
    split
    · rename_i h
      simp [h]
    · rename_i h
      simp [h]
  refine ⟨hfree, hB₅, ⟨hrole, ?_, ?_, hclosed₅, hpagesMapped, ?_, fun heapBase hheap => ?_⟩, rfl,
    by rw [Exec.imageRange, hehdr, ← hspan], by omega, fun q hq => ?_⟩
  · rw [hlookups _ (by decide), if_pos rfl]
  · exact hadds₅.kernelMapped (hadds₃.kernelMapped hmapped)
  · exact himage₃.start.resolve_left hnone
  · obtain rfl := Exec.image_end himage₃.start_lt himage₃.stop_lt hheap
    refine ⟨himage₃.stop, fun n hn e he => ?_⟩
    dsimp only at he ⊢
    rw [hlookups n hn] at he
    split at he
    · rename_i h
      exact Or.inr (Or.inl h)
    · exact (himage₃.within n hn e he).imp_right Or.inr
  · have hsettles := hsettles₃.trans hadds₃ hsettles₅
    rcases honly₂ q with heq | ⟨-, htable⟩
    · refine (hsettles.new q (heq.trans hq)).imp_right (Or.imp_right ?_)
      rintro ⟨n, hn, hdata, hnone⟩
      obtain ⟨-, e, he, -⟩ := hB₅.space.data q n hdata
      have hnot : ¬ KernelPage n := fun hk => by
        have hsome := hmapped.isSome hk
        simp [hnone] at hsome
      exact ⟨n, hdata, hnot, ((hpagesMapped n hn).mp (by rw [he]; rfl)).resolve_left hnot⟩
    · have htree : (own₂ q).tree q = some r := by
        rcases (Settles.of_only hB₂.toExtends honly₂).new q hq with hfree₂ | ⟨-, h⟩ | ⟨n, -, hdata, -⟩
        · simp [hfree₂, Role.isTable] at htable
        · exact h
        · simp [hdata, Role.isTable] at htable
      have hkeep := hsettles.keep q htree
      exact Or.inr (Or.inl ⟨by rwa [hkeep], by rwa [hkeep]⟩)

end NekOS
