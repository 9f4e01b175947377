import NekOS.AddressSpace.Loader

/-!
# The contents of a loaded program

`elf_load` copies to each page the part of the file that falls into it and leaves the rest of the page
cleared.  As long as the end of a segment is a 64-bit value, the pages of the segment hold its bytes when
the loop has come to its end, and no page is mapped twice.
-/

namespace NekOS

open PageTable

namespace Exec

/-! ### Segments -/

/-- The byte of a segment at an address: a byte of the file, or zero. -/
def segmentByte (data : List UInt8) (phdr : Elf64Phdr) (va : ℕ) : UInt8 :=
  if phdr.pVaddr ≤ va ∧ va < phdr.pVaddr + phdr.pFilesz then
    data.getD (phdr.pOffset + (va - phdr.pVaddr)) 0
  else 0

/-- The end of a segment can be rounded up to a page boundary. -/
def Fits (phdr : Elf64Phdr) : Prop := phdr.pVaddr + phdr.pMemsz + pageSize ≤ 2 ^ 64

instance (phdr : Elf64Phdr) : Decidable (Fits phdr) := by
  unfold Fits
  infer_instance

variable {data : List UInt8} {phdr : Elf64Phdr}

/-- What `elf_load` has checked about the file range of a segment. -/
lemma segmentOk_iff : segmentOk data phdr = true ↔
    phdr.pOffset + phdr.pFilesz < 2 ^ 64 ∧ phdr.pFilesz ≤ phdr.pMemsz ∧
      phdr.pOffset + phdr.pFilesz ≤ data.length := by
  unfold segmentOk checkedAdd
  split_ifs with h
  · simp
    omega
  · simp
    omega

/-- The end of a segment that can be rounded up. -/
lemma Fits.vaEnd (h : Fits phdr) : vaEnd phdr = pageFloor (phdr.pVaddr + phdr.pMemsz + (pageSize - 1)) := by
  unfold Fits at h
  simp only [pageSize] at h
  rw [Exec.vaEnd, wrap_of_lt (by omega), pageCeil, wrap_of_lt (by simp only [pageSize]; omega)]

/-- The pages of a segment whose end can be rounded up lie one behind the other. -/
lemma Fits.segmentVa (h : Fits phdr) {j : ℕ} (hj : j < numPages phdr) :
    segmentVa phdr j = vaStart phdr + j * pageSize ∧ segmentVa phdr j + pageSize ≤ Exec.vaEnd phdr ∧
      Exec.vaEnd phdr < 2 ^ 64 := by
  have hend := h.vaEnd
  unfold Fits at h
  simp only [numPages, wrapSub, hend] at hj
  rw [hend]
  simp only [Exec.segmentVa, wrap, vaStart, pageFloor, pageSize] at h hj ⊢
  omega

/-- Every address between the ends of a segment lies in one of its pages. -/
lemma Fits.exists_page (h : Fits phdr) {va : ℕ} (hge : vaStart phdr ≤ va) (hlt : va < Exec.vaEnd phdr) :
    ∃ j < numPages phdr, pageFloor va = Exec.segmentVa phdr j := by
  have hend := h.vaEnd
  unfold Fits at h
  refine ⟨(va - vaStart phdr) / pageSize, ?_, ?_⟩
  · simp only [numPages, wrapSub, hend]
    rw [hend] at hlt
    simp only [vaStart, pageFloor, pageSize] at *
    omega
  · rw [hend] at hlt
    simp only [Exec.segmentVa, wrap, vaStart, pageFloor, pageSize] at *
    omega

/-- A cleared byte. -/
lemma byteAt_zeroPage {ph : Phys} {p o : ℕ} (hp : p % pageSize = 0) (ho : o < pageSize) :
    (ph.zeroPage p).mem.byteAt (p + o) = 0 := by
  have hword : pageOfWord ((p + o) / 8) = p := by
    rw [pageOfWord_eq hp]
    simp only [pageSize] at hp ho
    omega
  rw [Memory.byteAt, zeroPage_mem hp, if_pos hword]
  simp [Memory.getDigit]

/-- The bytes of a page that are copied are those of the file range. -/
lemma copied_iff {p va start size o : ℕ} (ho : o < pageSize)
    (hcopy : max va start < min (va + pageSize) (start + size)) :
    (p + (max va start - va) ≤ p + o ∧
      p + o < p + (max va start - va) + (min (va + pageSize) (start + size) - max va start)) ↔
    start ≤ va + o ∧ va + o < start + size := by
  simp only [pageSize] at *
  omega

/-- A page without bytes of the file range. -/
lemma not_copied {va start size o : ℕ} (ho : o < pageSize)
    (hcopy : min (va + pageSize) (start + size) ≤ max va start) : ¬ (start ≤ va + o ∧ va + o < start + size) := by
  simp only [pageSize] at *
  omega

/-- The offset in the file, which may wrap around in between. -/
lemma wrapSub_wrap_add {off s start size : ℕ} (hs : start ≤ s) (hs' : s < start + size)
    (hoff : off + size < 2 ^ 64) (hend : start + size < 2 ^ 64) :
    wrapSub (wrap (off + s)) start = off + (s - start) := by
  unfold wrapSub wrap
  omega

/-- The bytes that are copied are bytes of the file. -/
lemma copied_le {off s start size stop len : ℕ} (hs : start ≤ s) (hstop : stop ≤ start + size)
    (hlen : off + size ≤ len) : stop - s ≤ len - (off + (s - start)) := by
  omega

/-- The copied bytes as bytes of the file. -/
lemma getD_copied {off s start stop va o p : ℕ} (hstart : start ≤ s) (hva : va ≤ s) (hs : s ≤ va + o)
    (hstop : va + o < stop) : ((data.drop (off + (s - start))).take (stop - s)).getD (p + o - (p + (s - va))) 0 =
      data.getD (off + (va + o - start)) 0 := by
  have hpos : p + o - (p + (s - va)) = va + o - s := by omega
  rw [hpos, List.getD_eq_getElem?_getD, List.getD_eq_getElem?_getD, List.getElem?_take, if_pos (by omega),
    List.getElem?_drop]
  congr 2
  omega

/-- A page of a segment is filled with the bytes of the segment. -/
lemma byteAt_fillPage (h : Fits phdr) (hok : segmentOk data phdr = true) {va p o : ℕ} (ph : Phys)
    (hva : va + pageSize ≤ vaEnd phdr) (hp : p % pageSize = 0) (ho : o < pageSize) :
    (fillPage data phdr va p ph).mem.byteAt (p + o) = segmentByte data phdr (va + o) := by
  obtain ⟨hsum, hsize, hfile⟩ := segmentOk_iff.mp hok
  have hend := h.vaEnd
  unfold Fits at h
  rw [hend] at hva
  have hva' : va + pageSize < 2 ^ 64 := by
    simp only [pageFloor, pageSize] at h hva ⊢
    omega
  have hstop : phdr.pVaddr + phdr.pFilesz < 2 ^ 64 := by
    simp only [pageSize] at h
    omega
  have hbyte : (fillPage data phdr va p ph).mem.byteAt (p + o) =
      if p + (pageBytes data phdr va).1 ≤ p + o ∧
          p + o < p + (pageBytes data phdr va).1 + (pageBytes data phdr va).2.length then
        (pageBytes data phdr va).2.getD (p + o - (p + (pageBytes data phdr va).1)) 0
      else (ph.zeroPage p).mem.byteAt (p + o) := Memory.byteAt_setBytes ..
  rw [hbyte, byteAt_zeroPage hp ho, segmentByte]
  have hpageEnd : wrap (va + pageSize) = va + pageSize := wrap_of_lt hva'
  have hfileEnd : wrap (phdr.pVaddr + phdr.pFilesz) = phdr.pVaddr + phdr.pFilesz := wrap_of_lt hstop
  simp only [pageBytes, hpageEnd, hfileEnd]
  by_cases hcopy : min (va + pageSize) (phdr.pVaddr + phdr.pFilesz) ≤ max va phdr.pVaddr
  · rw [Nat.sub_eq_zero_of_le hcopy, List.take_zero, if_neg (by simp),
      if_neg (not_copied ho hcopy)]
  · have hsrc : wrapSub (wrap (phdr.pOffset + max va phdr.pVaddr)) phdr.pVaddr =
        phdr.pOffset + (max va phdr.pVaddr - phdr.pVaddr) := by
      have hcopy' := Nat.lt_of_not_le hcopy
      exact wrapSub_wrap_add (le_max_right ..) (hcopy'.trans_le (min_le_right ..)) hsum hstop
    have hlen : ((data.drop (phdr.pOffset + (max va phdr.pVaddr - phdr.pVaddr))).take
        (min (va + pageSize) (phdr.pVaddr + phdr.pFilesz) - max va phdr.pVaddr)).length =
          min (va + pageSize) (phdr.pVaddr + phdr.pFilesz) - max va phdr.pVaddr := by
      rw [List.length_take, List.length_drop]
      exact Nat.min_eq_left (copied_le (le_max_right ..) (min_le_right ..) hfile)
    rw [hsrc, hlen]
    refine ite_congr (propext (copied_iff ho (Nat.lt_of_not_le hcopy))) (fun hin => ?_) fun _ => rfl
    have hle : max va phdr.pVaddr ≤ va + o := max_le (Nat.le_add_right ..) hin.1
    have hlt : va + o < min (va + pageSize) (phdr.pVaddr + phdr.pFilesz) :=
      lt_min (Nat.add_lt_add_left ho va) hin.2
    exact getD_copied (le_max_right ..) (le_max_left ..) hle hlt

/-- An iteration of the outer loop, in terms of the program header. -/
lemma loadSegment_eq (r : ℕ) (data : List UInt8) (ehdr : Elf64Ehdr) (i : ℕ) (image : ℕ × ℕ) :
    loadSegment r data ehdr i image =
      if skipped (header data ehdr i) then pure image
      else if !segmentOk data (header data ehdr i) then Fallible.fail
      else do
        Fallible.forRange (numPages (header data ehdr i)) (loadPage r data (header data ehdr i))
        return (min image.1 (vaStart (header data ehdr i)), max image.2 (vaEnd (header data ehdr i))) :=
  rfl

/-- The pages of the first segments. -/
lemma mem_imagePages {ehdr : Elf64Ehdr} {count n : ℕ} : n ∈ imagePages data ehdr count ↔
    ∃ i < count, skipped (header data ehdr i) = false ∧
      ∃ j < numPages (header data ehdr i), pageNumber (segmentVa (header data ehdr i) j) = n := by
  induction count with
  | zero => simp [imagePages]
  | succ k ih =>
    have hlast : (n ∈ if skipped (header data ehdr k) = true then [] else segmentPages (header data ehdr k)) ↔
        skipped (header data ehdr k) = false ∧
          ∃ j < numPages (header data ehdr k), pageNumber (segmentVa (header data ehdr k) j) = n := by
      cases skipped (header data ehdr k) <;> simp [segmentPages]
    rw [imagePages, List.mem_append, ih, hlast]
    constructor
    · rintro (⟨i, hi, h⟩ | h)
      · exact ⟨i, Nat.lt_succ_of_lt hi, h⟩
      · exact ⟨k, Nat.lt_succ_self k, h⟩
    · rintro ⟨i, hi, h⟩
      rcases Nat.lt_succ_iff_lt_or_eq.mp hi with hi | rfl
      · exact Or.inl ⟨i, hi, h⟩
      · exact Or.inr h

/-- A page of a segment is mapped for user mode, with the permissions of the segment, and holds its
bytes. -/
def Holds (data : List UInt8) (phdr : Elf64Phdr) (r : ℕ) (ph : Phys) (own : ℕ → Role) (va : ℕ) : Prop :=
  ∃ p, lookup ph r (pageNumber va) = some (paToPte p (segmentFlags phdr ||| pteV)) ∧
    own p = .data r (pageNumber va) ∧
    ∀ o < pageSize, ph.mem.byteAt (p + o) = segmentByte data phdr (va + o)

/-- The bytes of a page depend on its words. -/
lemma byteAt_of_words {m m' : Memory} {p o : ℕ} (hp : p % pageSize = 0) (ho : o < pageSize)
    (h : ∀ w, pageOfWord w = p → m' w = m w) : m'.byteAt (p + o) = m.byteAt (p + o) := by
  have hword : pageOfWord ((p + o) / 8) = p := by
    rw [pageOfWord_eq hp]
    simp only [pageSize] at hp ho
    omega
  rw [Memory.byteAt, Memory.byteAt, h _ hword]

/-- What is added later leaves the page as it is. -/
lemma Holds.adds {r va : ℕ} {ph ph' : Phys} {own own' : ℕ → Role} (h : Holds data phdr r ph own va)
    (hT : Tables ph own) (hadds : Adds r ph own ph' own') : Holds data phdr r ph' own' va := by
  obtain ⟨p, hlookup, hown, hbytes⟩ := h
  have hp : p % pageSize = 0 := hT.page_aligned (by simp [hown])
  refine ⟨p, hadds.lookups _ (pageNumber_lt va) _ hlookup, hadds.data _ _ _ hown, fun o ho => ?_⟩
  rw [← hbytes o ho]
  exact byteAt_of_words hp ho fun w hw => hadds.bytes r (pageNumber va) w (by rw [hw, hown])

end Exec

/-! ### The loops -/

namespace Building

open Exec

variable {r : ℕ} {ph₀ ph ph' : Phys} {own₀ own : ℕ → Role} {data : List UInt8}

/-- The inner loop of `elf_load`, when it has come to its end. -/
lemma loadPages_built (h : Building r ph₀ own₀ ph own) {phdr : Elf64Phdr} (hfits : Fits phdr)
    (hok : segmentOk data phdr = true) {count : ℕ} (hcount : count ≤ numPages phdr)
    (hrun : Fallible.forRange count (loadPage r data phdr) ph = some (some (), ph')) :
    ∃ own', Building r ph₀ own₀ ph' own' ∧ Adds r ph own ph' own' ∧
      (∀ j < count, Holds data phdr r ph' own' (segmentVa phdr j)) ∧
      (∀ m < 2 ^ 27, ∀ e, lookup ph' r m = some e → lookup ph r m = some e ∨
        ∃ j < count, pageNumber (segmentVa phdr j) = m) ∧
      (∀ j < count, lookup ph r (pageNumber (segmentVa phdr j)) = none ∧
        ∀ i < j, pageNumber (segmentVa phdr i) ≠ pageNumber (segmentVa phdr j)) := by
  induction count generalizing ph' with
  | zero =>
    obtain rfl : ph = ph' := by simpa using hrun
    exact ⟨own, h, Adds.refl .., nofun, fun m _ e he => Or.inl he, nofun⟩
  | succ k ih =>
    rw [Fallible.forRange_succ] at hrun
    obtain ⟨_, ph₁, hrun₁, hpage⟩ := Fallible.bind_eq_some.mp hrun
    obtain ⟨own₁, hB₁, hadds₁, hholds₁, hnew₁, habsent₁⟩ := ih (Nat.le_of_succ_le hcount) hrun₁
    obtain ⟨hflags, huser⟩ := segmentFlags_user phdr
    obtain ⟨o, ph₂, own₂, hrun₂, hB₂, hadds₂, -, hdone, -⟩ :=
      hB₁.addPage_run _ _ _ (fun p ph => fillPage_frame data phdr (segmentVa phdr k) p ph)
        (segmentVa_mod phdr k) (segmentVa_lt phdr k) hflags (Or.inl huser)
    rw [← loadPage_eq, hpage] at hrun₂
    obtain ⟨rfl, rfl⟩ : o = some () ∧ ph₂ = ph' := by simpa [eq_comm] using hrun₂
    obtain ⟨habsent, p, ph₃, -, hown, hlookups, -, hwords, -⟩ := hdone rfl
    have hn := pageNumber_lt (segmentVa phdr k)
    have hp : p % pageSize = 0 := hB₂.tables.page_aligned (by simp [hown])
    obtain ⟨-, hend, -⟩ := hfits.segmentVa (Nat.lt_of_succ_le hcount)
    refine ⟨own₂, hB₂, hadds₁.trans hadds₂, fun j hj => ?_, fun m hm e he => ?_, fun j hj => ?_⟩
    · rcases Nat.lt_succ_iff_lt_or_eq.mp hj with hj | rfl
      · exact (hholds₁ j hj).adds hB₁.tables hadds₂
      · refine ⟨p, by rw [hlookups _ hn, if_pos rfl], hown, fun o ho => ?_⟩
        rw [← byteAt_fillPage hfits hok ph₃ hend hp ho]
        exact byteAt_of_words hp ho hwords
    · rw [hlookups m hm] at he
      split_ifs at he with hmk
      · exact Or.inr ⟨k, Nat.lt_succ_self k, hmk.symm⟩
      · exact (hnew₁ m hm e he).imp_right fun ⟨j, hj, hjm⟩ => ⟨j, Nat.lt_succ_of_lt hj, hjm⟩
    · rcases Nat.lt_succ_iff_lt_or_eq.mp hj with hj | rfl
      · exact habsent₁ j hj
      · refine ⟨?_, fun i hi heq => ?_⟩
        · by_contra hsome
          obtain ⟨e, he⟩ := Option.ne_none_iff_exists'.mp hsome
          rw [hadds₁.lookups _ hn e he] at habsent
          cases habsent
        · obtain ⟨q, hq, -⟩ := hholds₁ i hi
          rw [heq, habsent] at hq
          cases hq

/-- The outer loop of `elf_load`, when it has come to its end. -/
lemma loadSegments_built (h : Building r ph₀ own₀ ph own) {ehdr : Elf64Ehdr} {count : ℕ} {image : ℕ × ℕ}
    (hfits : ∀ i < count, skipped (header data ehdr i) = false → Fits (header data ehdr i))
    (hrun : Fallible.foldRange count (Exec.loadSegment r data ehdr) (usizeMax, 0) ph = some (some image, ph')) :
    ∃ own', Building r ph₀ own₀ ph' own' ∧ Adds r ph own ph' own' ∧ image = imageSpan data ehdr count ∧
      (∀ i < count, skipped (header data ehdr i) = false → segmentOk data (header data ehdr i) = true ∧
        ∀ j < numPages (header data ehdr i),
          Holds data (header data ehdr i) r ph' own' (segmentVa (header data ehdr i) j)) ∧
      (∀ m < 2 ^ 27, ∀ e, lookup ph' r m = some e → lookup ph r m = some e ∨
        m ∈ imagePages data ehdr count) ∧
      (imagePages data ehdr count).Nodup ∧ ∀ n ∈ imagePages data ehdr count, lookup ph r n = none := by
  induction count generalizing ph' image with
  | zero =>
    obtain ⟨rfl, rfl⟩ : image = (usizeMax, 0) ∧ ph = ph' := by simpa [eq_comm] using hrun
    exact ⟨own, h, Adds.refl .., rfl, nofun, fun m _ e he => Or.inl he, List.nodup_nil, nofun⟩
  | succ k ih =>
    rw [Fallible.foldRange_succ] at hrun
    obtain ⟨image₁, ph₁, hrun₁, hsegment⟩ := Fallible.bind_eq_some.mp hrun
    obtain ⟨own₁, hB₁, hadds₁, hspan₁, hholds₁, hnew₁, hnodup₁, habsent₁⟩ :=
      ih (fun i hi => hfits i (Nat.lt_succ_of_lt hi)) hrun₁
    rw [loadSegment_eq] at hsegment
    rw [imageSpan, extendSpan, ← hspan₁, imagePages]
    split_ifs at hsegment ⊢ with hskip hbad
    · obtain ⟨rfl, rfl⟩ : image₁ = image ∧ ph₁ = ph' := by simpa using hsegment
      rw [List.append_nil]
      refine ⟨own₁, hB₁, hadds₁, rfl, fun i hi hi' => ?_, hnew₁, hnodup₁, habsent₁⟩
      rcases Nat.lt_succ_iff_lt_or_eq.mp hi with hi | rfl
      · exact hholds₁ i hi hi'
      · simp [hskip] at hi'
    · simp at hsegment
    · rw [Bool.not_eq_true] at hskip
      have hok : segmentOk data (header data ehdr k) = true := by simpa using hbad
      have hfit := hfits k (Nat.lt_succ_self k) hskip
      obtain ⟨_, ph₂, hpages, hret⟩ := Fallible.bind_eq_some.mp hsegment
      obtain ⟨rfl, rfl⟩ : (min image₁.1 (vaStart (header data ehdr k)),
          max image₁.2 (vaEnd (header data ehdr k))) = image ∧ ph₂ = ph' := by
        simpa using hret
      obtain ⟨own₂, hB₂, hadds₂, hholds₂, hnew₂, habsent₂⟩ := hB₁.loadPages_built hfit hok le_rfl hpages
      have hnone : ∀ n ∈ segmentPages (header data ehdr k), lookup ph₁ r n = none := fun n hn => by
        obtain ⟨j, hj, rfl⟩ := List.mem_map.mp hn
        exact (habsent₂ j (List.mem_range.mp hj)).1
      refine ⟨own₂, hB₂, hadds₁.trans hadds₂, rfl, fun i hi hi' => ?_, fun m hm e he => ?_, ?_,
        fun n hn => ?_⟩
      · rcases Nat.lt_succ_iff_lt_or_eq.mp hi with hi | rfl
        · obtain ⟨hok', hpages'⟩ := hholds₁ i hi hi'
          exact ⟨hok', fun j hj => (hpages' j hj).adds hB₁.tables hadds₂⟩
        · exact ⟨hok, hholds₂⟩
      · rw [List.mem_append]
        rcases hnew₂ m hm e he with hold | ⟨j, hj, hjm⟩
        · exact (hnew₁ m hm e hold).imp_right Or.inl
        · exact Or.inr (Or.inr (List.mem_map.mpr ⟨j, List.mem_range.mpr hj, hjm⟩))
      · refine List.nodup_append.mpr ⟨hnodup₁, ?_, fun n hn m hm heq => ?_⟩
        · refine (List.nodup_range).map_on fun i hi j hj heq => ?_
          rw [List.mem_range] at hi hj
          rcases Nat.lt_trichotomy i j with hlt | hij | hlt
          · exact absurd heq ((habsent₂ j hj).2 i hlt)
          · exact hij
          · exact absurd heq.symm ((habsent₂ i hi).2 j hlt)
        · obtain ⟨i, hi, hi', j, hj, rfl⟩ := mem_imagePages.mp hn
          obtain ⟨p, hp, -⟩ := (hholds₁ i hi hi').2 j hj
          rw [heq, hnone m hm] at hp
          cases hp
      · rcases List.mem_append.mp hn with hn | hn
        · exact habsent₁ n hn
        · by_contra hsome
          obtain ⟨e, he⟩ := Option.ne_none_iff_exists'.mp hsome
          have hn' : n < 2 ^ 27 := by
            obtain ⟨j, -, rfl⟩ := List.mem_map.mp hn
            exact pageNumber_lt _
          have hkept := hadds₁.lookups n hn' e he
          rw [hnone n hn] at hkept
          cases hkept

end Building

end NekOS
