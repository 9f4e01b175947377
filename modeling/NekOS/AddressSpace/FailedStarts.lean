import NekOS.AddressSpace.Overreach

/-!
# Programs that fail to start

`load` gives nothing back when it fails after its first page, and neither does `exec` when it rejects
the finished image; `spawn` releases a rejected image, with whatever its pages reach.  So a failing
`exec` leaves the allocator as it was if and only if it stops before it takes a page, and `spawn` if
moreover it rejects an image whose release gives back what was taken and nothing else.
-/

namespace NekOS

open PageTable

variable {strict : Bool} {ph ph' : Phys} {own own' : ℕ → Role}

/-- The roles of the pages of a tree say that its root is in use. -/
lemma Spaces.root_of_tree (hS : Spaces ph own) {p r : ℕ} (h : (own p).tree p = some r) :
    own r ≠ .free := by
  cases hp : own p with
  | root =>
    rw [hp, Role.tree, Option.some.injEq] at h
    simp [← h, hp]
  | mid q i =>
    rw [hp, Role.tree, Option.some.injEq] at h
    simp [← h, (hS.tables.mid_link p q i hp).1]
  | low q i j =>
    rw [hp, Role.tree, Option.some.injEq] at h
    obtain ⟨m, hm, -⟩ := hS.tables.low_link p q i j hp
    simp [← h, (hS.tables.mid_link m q i hm).1]
  | data q n =>
    rw [hp, Role.tree, Option.some.injEq] at h
    simp [← h, hS.root p q n hp]
  | free | stack | lost => simp [hp, Role.tree] at h

namespace Exec

/-- The pages that are visited when the image of the file is released. -/
def releasedPages (data : List UInt8) : Finset ℕ :=
  spacePages (imageRange data).1 (imageRange data).2
    ((imageRange data).1 + (imageRange data).2) ((imageRange data).1 + (imageRange data).2)

/-- The release of the image gives back the pages of the image, and among the pages of the window it
visits none is in use. -/
structure Returnable (ph : Phys) (data : List UInt8) : Prop where
  sum_lt : (imageRange data).1 + (imageRange data).2 < 2 ^ 64
  covers : ∀ n ∈ imagePages data (Elf64Ehdr.read data) (Elf64Ehdr.read data).ePhnum,
    KernelPage n ∨ n = stackPage ∨ n ∈ releasedPages data
  window : ∀ n ∈ releasedPages data, KernelPage n → ¬ ph.page.Allocated (n * pageSize)

/-- The pages of an image have 27-bit numbers. -/
lemma imagePages_lt {data : List UInt8} {ehdr : Elf64Ehdr} {count n : ℕ}
    (hn : n ∈ imagePages data ehdr count) : n < 2 ^ 27 := by
  induction count with
  | zero => simp [imagePages] at hn
  | succ k ih =>
    rw [imagePages, List.mem_append] at hn
    rcases hn with hn | hn
    · exact ih hn
    split at hn
    · simp at hn
    · obtain ⟨j, -, rfl⟩ := List.mem_map.mp hn
      exact pageNumber_lt _

end Exec

section Released

variable {data : List UInt8} {image : LoadedImage}

/-- The roles of the new pages of a loaded program. -/
structure LoadedAfresh (strict : Bool) (data : List UInt8) (ph : Phys) (own : ℕ → Role) (ph' : Phys)
    (own' : ℕ → Role) (image : LoadedImage) : Prop where
  fresh : own image.pagetable = .free
  building : Building image.pagetable ph own ph' own'
  loaded : Loaded strict (Exec.imagePages data (Elf64Ehdr.read data) (Elf64Ehdr.read data).ePhnum)
    ph' own' image
  range : (image.imageBase, image.imageSize) = Exec.imageRange data
  settled : ∀ p, own p = .free → own' p = .free ∨
    ((own' p).isTable = true ∧ (own' p).tree p = some image.pagetable) ∨
    ∃ n, own' p = .data image.pagetable n ∧ ¬ KernelPage n ∧
      (n ∈ Exec.imagePages data (Elf64Ehdr.read data) (Elf64Ehdr.read data).ePhnum ∨ n = stackPage)

namespace LoadedAfresh

/-- The pages that were in use do not belong to the new tree. -/
lemma tree_ne (h : LoadedAfresh strict data ph own ph' own' image) (hS : Spaces ph own) {p : ℕ}
    (hp : own p ≠ .free) : (own' p).tree p ≠ some image.pagetable := by
  rw [h.building.keep p hp]
  intro htree
  exact hS.root_of_tree htree h.fresh

/-- An image without wrapping segments is covered by its range. -/
lemma covers (h : LoadedAfresh true data ph own ph' own' image)
    (hlt : (Exec.imageRange data).1 + (Exec.imageRange data).2 < 2 ^ 64) :
    ∀ n ∈ Exec.imagePages data (Elf64Ehdr.read data) (Elf64Ehdr.read data).ePhnum,
      KernelPage n ∨ n = stackPage ∨ n ∈ Exec.releasedPages data := by
  intro n hn
  have hlt27 := Exec.imagePages_lt hn
  rw [Exec.releasedPages, ← h.range] at *
  obtain ⟨hmod, hfits⟩ := h.loaded.fits _ (checkedAdd_eq_some.mpr ⟨hlt, rfl⟩)
  obtain ⟨e, he⟩ := Option.isSome_iff_exists.mp ((h.loaded.mapped n hlt27).mpr (Or.inr (Or.inl hn)))
  rcases hfits n hlt27 e he with hk | rfl | hc | ⟨hfalse, -⟩
  · exact Or.inl hk
  · exact Or.inr (Or.inl rfl)
  · exact Or.inr (Or.inr (hc.mem_spacePages h.loaded.aligned hmod hlt))
  · simp at hfalse

/-- **Releasing a rejected image.**  The pages are as they were before the program was loaded when the
release gives back the pages of the image and meets no page of the window that is in use.  When they
are, it has met none, and has given back the pages of an image clear of the window. -/
lemma release_iff (h : LoadedAfresh strict data ph own ph' own' image) (hS : Spaces ph own)
    (hlt : (Exec.imageRange data).1 + (Exec.imageRange data).2 < 2 ^ 64) :
    ∃ ph'', Kernel.freeUserSpace image.pagetable image.userStack image.imageBase image.imageSize
        (image.imageBase + image.imageSize) (image.imageBase + image.imageSize) ph' =
          some (some (), ph'') ∧
      (Exec.Returnable ph data → ∀ p, ph''.page.Allocated p ↔ ph.page.Allocated p) ∧
      ((∀ p, ph''.page.Allocated p ↔ ph.page.Allocated p) →
        (∀ n ∈ Exec.releasedPages data, KernelPage n → ¬ ph.page.Allocated (n * pageSize)) ∧
        (Exec.ClearOfWindow data →
          ∀ n ∈ Exec.imagePages data (Elf64Ehdr.read data) (Elf64Ehdr.read data).ePhnum,
            KernelPage n ∨ n = stackPage ∨ n ∈ Exec.releasedPages data)) := by
  have hT := h.building.tables
  have hbase : image.imageBase = (Exec.imageRange data).1 := congrArg Prod.fst h.range
  have hsize : image.imageSize = (Exec.imageRange data).2 := congrArg Prod.snd h.range
  have hstack : own' image.userStack ≠ .free := by simp [h.loaded.stack]
  have hV : spacePages image.imageBase image.imageSize (image.imageBase + image.imageSize)
      (image.imageBase + image.imageSize) = Exec.releasedPages data := by
    rw [Exec.releasedPages, hbase, hsize]
  have hVlt : ∀ n ∈ Exec.releasedPages data, n < 2 ^ 27 := fun n hn => by
    rcases Finset.mem_union.mp hn with hn | hn
    all_goals
      obtain ⟨i, -, rfl⟩ := mem_visited.mp hn
      exact pageNumber_lt _
  have hleaf : ∀ n < 2 ^ 27, n ∉ spacePages image.imageBase image.imageSize
      (image.imageBase + image.imageSize) (image.imageBase + image.imageSize) → ∀ e,
        lookup ph' image.pagetable n = some e → isLeaf e = true := fun n hn hnot e he => by
    obtain ⟨hmod, hfits⟩ := h.loaded.fits _
      (checkedAdd_eq_some.mpr ⟨by rw [hbase, hsize]; exact hlt, rfl⟩)
    rcases hfits n hn e he with hk | rfl | hc | ⟨-, hl⟩
    · obtain ⟨e', he', hleaf⟩ := h.loaded.kernel n hk
      obtain rfl := Option.some.inj (he.symm.trans he')
      exact hleaf.leaf
    · exact (h.loaded.stackEntry hT he).2
    · refine absurd (hc.mem_spacePages h.loaded.aligned hmod ?_) hnot
      rw [hbase, hsize]
      exact hlt
    · exact hl
  obtain ⟨ph'', hrun, hreclaimed, -, -⟩ :=
    freeUserSpace_raw hT h.building.root (hT.page_aligned hstack) hleaf
  rw [hV] at hreclaimed
  have hspace := h.building.space
  refine ⟨ph'', hrun, fun hreturn p => ?_, fun hsame => ⟨fun n hn hk hp => ?_, fun hclear n hn => ?_⟩⟩
  · rw [hreclaimed.allocated]
    have hfree := hS.tables.free_iff p
    have hfree' := hT.free_iff p
    by_cases hp : own p = .free
    · refine ⟨fun hmem => ?_, fun hp' => absurd hp' (hfree.mp hp)⟩
      obtain ⟨hallocated, hnot⟩ := hmem
      refine absurd ?_ hnot
      rcases h.settled p hp with hp' | htable | ⟨n, hdata, hkernel, hmem⟩
      · exact absurd hallocated (hfree'.mp hp')
      · exact Or.inr (Or.inr htable)
      · obtain ⟨hn, e, he, hpa⟩ := hspace.data p n hdata
        have hcovered : n = stackPage ∨ n ∈ Exec.releasedPages data := by
          rcases hmem with hmem | rfl
          · exact (hreturn.covers n hmem).resolve_left hkernel
          · exact Or.inl rfl
        rcases hcovered with rfl | hin
        · have hus := (h.loaded.stackEntry hT he).1
          refine Or.inr (Or.inl ⟨hpa.symm.trans hus, fun hzero => ?_⟩)
          have hmanaged := hT.allocated hstack
          rw [hzero] at hmanaged
          obtain ⟨i, -, hi, -⟩ := hmanaged
          have hstart := hS.start_le
          rw [h.building.start] at hi
          simp only [kernelStart] at hstart
          omega
        · exact Or.inl ⟨n, hin, e, he, hpa⟩
    · have hp' : ph.page.Allocated p := hS.tables.allocated hp
      have htree := h.tree_ne hS hp
      refine ⟨fun _ => hp', fun _ => ⟨hT.allocated (by rwa [h.building.keep p hp]), ?_⟩⟩
      rintro (⟨n, hn, e, he, rfl⟩ | ⟨rfl, -⟩ | ⟨-, htable⟩)
      · rcases hspace.leaf n (hVlt n hn) e he with hk | hu
        · rw [hk.pa] at hp'
          exact hreturn.window n hn hk.page hp'
        · exact htree (by rw [hu.owned, Role.tree])
      · exact htree (by rw [h.loaded.stack, Role.tree])
      · exact htree htable
  · obtain ⟨e, he, hleaf⟩ := h.loaded.kernel n hk
    exact ((hreclaimed.allocated _).mp ((hsame _).mpr hp)).2 (Or.inl ⟨n, hn, e, he, hleaf.pa⟩)
  · have hn27 := Exec.imagePages_lt hn
    obtain ⟨e, he⟩ := Option.isSome_iff_exists.mp
      ((h.loaded.mapped n hn27).mpr (Or.inr (Or.inl hn)))
    rcases hspace.leaf n hn27 e he with hk | hu
    · exact Or.inl hk.page
    have hallocated : ph'.page.Allocated (pteToPa e) := hT.allocated (by simp [hu.owned])
    have hnew : ¬ ph.page.Allocated (pteToPa e) := fun hp => by
      have hp' : own (pteToPa e) ≠ .free := fun hfree => (hS.tables.free_iff _).mp hfree hp
      exact h.tree_ne hS hp' (by rw [hu.owned, Role.tree])
    have hreleased := not_and_not_right.mp
      (fun hmem => hnew ((hsame _).mp ((hreclaimed.allocated _).mpr hmem)))  hallocated
    rcases hreleased with ⟨m, hm, e', he', hpa⟩ | ⟨hpa, -⟩ | ⟨htable, -⟩
    · rcases hspace.leaf m (hVlt m hm) e' he' with hk | hu'
      · have hlow := hclear m hm hk.page
        obtain ⟨i, -, hi, -⟩ := hallocated
        have hstart := hS.start_le
        have hstart' := h.building.start
        rw [← hk.pa, hpa] at hlow
        omega
      · have howned := hu'.owned
        rw [hpa, hu.owned, Role.data.injEq] at howned
        rw [howned.2]
        exact Or.inr (Or.inr hm)
    · have howned := h.loaded.stack
      rw [← hpa, hu.owned, Role.data.injEq] at howned
      exact Or.inr (Or.inl howned.2)
    · rw [hu.owned] at htable
      simp [Role.isTable] at htable

end LoadedAfresh

end Released

namespace Kernel

variable {k k' : Kernel}

/-- `load` stops before it takes a page: there is no such file, its header is none of a program, or no
page is left. -/
def StopsEarly (k : Kernel) (name : String) : Prop :=
  ∀ data, k.findFile name = some data → Exec.headerOk data = false ∨ k.phys.page.alloc = none

/-- The allocated pages are the same. -/
def SamePages (k k' : Kernel) : Prop := ∀ p, k'.phys.page.Allocated p ↔ k.phys.page.Allocated p

/-- After `load` the pages are the same only if it has stopped early. -/
lemma load_atomic {name : String} {o : Option LoadedImage} (hrun : load name k = some (o, k')) :
    k'.tm = k.tm ∧ (SamePages k k' → StopsEarly k name) ∧
      (StopsEarly k name → o = none ∧ k' = k) := by
  rcases load_cases hrun with ⟨rfl, rfl, hfile⟩ | ⟨data, ph, hfile, hload, rfl⟩
  · exact ⟨rfl, fun _ data hdata => by simp [hfile] at hdata, fun _ => ⟨rfl, rfl⟩⟩
  refine ⟨rfl, fun hsame data' hdata => ?_, fun hstops => ?_⟩
  · obtain rfl := Option.some.inj (hfile.symm.trans hdata)
    rcases Exec.loadFile_leaks hload with ⟨hearly, -⟩ | ⟨-, -, p, hfresh, hp⟩
    · exact hearly
    · exact absurd ((hsame p).mp hp) hfresh
  · have hearly := hstops data hfile
    rcases Exec.loadFile_leaks hload with ⟨-, rfl, rfl⟩ | ⟨hheader, hpages, -⟩
    · exact ⟨rfl, rfl⟩
    · rcases hearly with h | h
      · simp [hheader] at h
      · exact absurd h hpages

/-- A failing `exec` leaves the tasks alone.  The allocated pages are the same afterwards if and only if
it stops before it takes one, and then nothing has changed at all. -/
lemma exec_atomic {name : String} {tf : TrapFrame} (hrun : exec name tf k = some (none, k')) :
    k'.tm = k.tm ∧ (SamePages k k' ↔ StopsEarly k name) ∧ (StopsEarly k name → k' = k) := by
  have hload : ∃ o, load name k = some (o, k') := by
    rcases exec_cases hrun with ⟨-, hload⟩ | ⟨image, ph, hload, hreplace⟩
    · exact ⟨_, hload⟩
    · rcases replaceCurrent_cases hreplace with ⟨-, rfl⟩ | ⟨hsome, -⟩
      · exact ⟨_, hload⟩
      · simp at hsome
  obtain ⟨o, hload⟩ := hload
  obtain ⟨htm, hsame, hstops⟩ := load_atomic hload
  refine ⟨htm, ⟨hsame, fun h p => ?_⟩, fun h => (hstops h).2⟩
  rw [(hstops h).2]

/-- A rejected image whose end is a 64-bit value is released. -/
lemma createUserImage_rejects {pagetable userStack entry imageBase imageSize : ℕ}
    (hlt : imageBase + imageSize < 2 ^ 64)
    (hrun : createUserImage pagetable userStack entry imageBase imageSize k = some (none, k')) :
    freeUserSpace pagetable userStack imageBase imageSize (imageBase + imageSize)
      (imageBase + imageSize) k.phys = some (some (), k'.phys) := by
  have hsum : checkedAdd imageBase imageSize = some (imageBase + imageSize) :=
    checkedAdd_eq_some.mpr ⟨hlt, rfl⟩
  rw [createUserImage, hsum, Fallible.ofOption_bind, Option.elim_some] at hrun
  have hreject : (onPhys (freeUserSpace pagetable userStack imageBase imageSize
      (imageBase + imageSize) (imageBase + imageSize)) >>= fun _ =>
        (Fallible.fail : Fallible Kernel ℕ)) k = some (none, k') →
      freeUserSpace pagetable userStack imageBase imageSize (imageBase + imageSize)
        (imageBase + imageSize) k.phys = some (some (), k'.phys) := by
    intro h
    obtain ⟨u, k₁, h₁, h₂⟩ := (noFail_onPhys (noFail_freeUserSpace _ _ _ _ _ _)).bind_cases h
    obtain ⟨ph, hfree, rfl⟩ := onPhys_eq_some.mp h₁
    obtain rfl : { k with phys := ph } = k' := by simpa using h₂
    exact hfree
  by_cases hlimit : TaskManager.heapLimit < imageBase + imageSize ∨
      (imageBase + imageSize) % pageSize ≠ 0
  · rw [if_pos hlimit] at hrun
    exact hreject hrun
  rw [if_neg hlimit, readTm_bind] at hrun
  cases hslot : k.tm.tasks.firstFree with
  | none =>
    simp only [hslot] at hrun
    exact hreject hrun
  | some slot =>
    simp only [hslot, Fallible.attempt_bind, Option.bind_eq_some_iff] at hrun
    obtain ⟨⟨r, k₁⟩, hr, h⟩ := hrun
    obtain ⟨ph, halloc, rfl⟩ := onPhys_eq_some.mp hr
    cases r with
    | none =>
      obtain rfl := allocPage_eq_none halloc
      exact hreject h
    | some kernelStack => simp at h

/-- The pages are the same, and so are the tasks and what the current one reads. -/
structure Untouched (k k' : Kernel) : Prop where
  pages : SamePages k k'
  tasks : k'.tm = k.tm
  translations : ∀ t, k.tm.current = some t → ∀ va,
    virtToPhys k'.phys t.pagetable va = virtToPhys k.phys t.pagetable va
  bytes : ∀ t, k.tm.current = some t → ∀ va pa, virtToPhys k.phys t.pagetable va = some pa →
    k'.phys.mem.byteAt pa = k.phys.mem.byteAt pa

/-- A failing `exec` leaves everything alone if and only if it stops before it takes a page. -/
lemma exec_untouched {name : String} {tf : TrapFrame} (hrun : exec name tf k = some (none, k')) :
    Untouched k k' ↔ StopsEarly k name := by
  obtain ⟨-, hsame, hstops⟩ := exec_atomic hrun
  refine ⟨fun h => hsame.mp h.pages, fun h => ?_⟩
  rw [hstops h]
  exact ⟨fun _ => Iff.rfl, rfl, fun _ _ _ => rfl, fun _ _ _ _ _ => rfl⟩

/-- `spawn` stops before it takes a page, or the image that it has loaded can be given back. -/
def Restores (k : Kernel) (name : String) : Prop :=
  StopsEarly k name ∨ ∃ data image k₁, k.findFile name = some data ∧
    load name k = some (some image, k₁) ∧ Exec.Returnable k.phys data

/-- A file without segments that wrap around the address space, or whose image is clear of the window of
the kernel. -/
def Exec.Tame (data : List UInt8) : Prop :=
  Exec.ElfOk true data (Elf64Ehdr.read data) ∨ Exec.ClearOfWindow data

/-- An image that `load` has just built. -/
lemma loadedAfresh_of_load {ph₁ : Phys} {data : List UInt8} {image : LoadedImage}
    (hS : Spaces ph own) (hok : Exec.ElfOk strict data (Elf64Ehdr.read data))
    (hload : Exec.loadFile data ph = some (some image, ph₁)) :
    ∃ own₁, LoadedAfresh strict data ph own ph₁ own₁ image := by
  obtain ⟨o, ph₂, own₁, hrun, -, hdone⟩ := loadFile_spec hS hok
  obtain ⟨rfl, rfl⟩ : some image = o ∧ ph₁ = ph₂ := by simpa using hload.symm.trans hrun
  obtain ⟨hfree, hB, hL, -, hrange, -, hsettled⟩ := hdone image rfl
  exact ⟨own₁, hfree, hB, hL, hrange, hsettled⟩

/-- A failing `spawn` leaves the tasks alone, and the allocated pages if it stops early or rejects an
image that can be given back.  Otherwise they are not the same, whatever tame file it has found. -/
lemma spawn_atomic {name : String} (hhoused : NekOS.Housed strict k.tm k.phys own)
    (hok : ∀ data, k.findFile name = some data → Exec.ElfOk strict data (Elf64Ehdr.read data))
    (hrun : spawn name k = some (none, k')) :
    k'.tm = k.tm ∧ (Restores k name → SamePages k k') ∧
      ((∀ data, k.findFile name = some data → Exec.Tame data) → SamePages k k' → Restores k name) := by
  rcases spawn_cases hrun with ⟨-, hload⟩ | ⟨image, ph₁, hload, hcreate⟩
  · -- No image has been built.
    obtain ⟨htm, hsame, hstops⟩ := load_atomic hload
    refine ⟨htm, ?_, fun _ h => Or.inl (hsame h)⟩
    rintro (h | ⟨data, image, k₁, -, hload', -⟩)
    · rw [(hstops h).2]
      exact fun _ => Iff.rfl
    · simp [hload] at hload'
  -- An image has been built and is rejected.
  obtain ⟨data, hfile, hloadFile⟩ : ∃ data, k.findFile name = some data ∧
      Exec.loadFile data k.phys = some (some image, ph₁) := by
    rcases load_cases hload with ⟨hnone, -⟩ | ⟨data, ph, hfile, hloadFile, heq⟩
    · simp at hnone
    · obtain rfl : ph₁ = ph := congrArg Kernel.phys heq
      exact ⟨data, hfile, hloadFile⟩
  obtain ⟨own₁, hafresh⟩ := loadedAfresh_of_load hhoused.spaces (hok data hfile) hloadFile
  have hstarted : ¬ StopsEarly k name := fun h =>
    absurd ((load_atomic hload).2.2 h).1 (by simp)
  have htm : k'.tm = k.tm := by
    rcases createUserImage_cases hcreate with ⟨-, ph', rfl, -⟩ | ⟨hsome, -⟩
    · rfl
    · simp at hsome
  have hbase : image.imageBase = (Exec.imageRange data).1 := congrArg Prod.fst hafresh.range
  have hsize : image.imageSize = (Exec.imageRange data).2 := congrArg Prod.snd hafresh.range
  by_cases hlt : (Exec.imageRange data).1 + (Exec.imageRange data).2 < 2 ^ 64
  · obtain ⟨ph'', hrelease, hgive, hgiven⟩ := hafresh.release_iff hhoused.spaces hlt
    have hrejects := createUserImage_rejects (by rw [hbase, hsize]; exact hlt) hcreate
    obtain rfl : k'.phys = ph'' := by simpa using hrejects.symm.trans hrelease
    refine ⟨htm, ?_, fun htame hsame => ?_⟩
    · rintro (h | ⟨data', -, -, hfile', -, hreturn⟩)
      · exact absurd h hstarted
      · obtain rfl := Option.some.inj (hfile.symm.trans hfile')
        exact hgive hreturn
    · obtain ⟨hwindow, hcovers⟩ := hgiven hsame
      refine Or.inr ⟨data, image, _, hfile, hload, hlt, ?_, hwindow⟩
      rcases htame data hfile with hstrict | hclear
      · obtain ⟨own₂, hafresh'⟩ := loadedAfresh_of_load hhoused.spaces hstrict hloadFile
        exact hafresh'.covers hlt
      · exact hcovers hclear
  · have hnone : checkedAdd image.imageBase image.imageSize = none := by
      rw [checkedAdd, if_neg (by rw [hbase, hsize]; exact hlt)]
    rw [createUserImage, hnone, Fallible.ofOption_bind] at hcreate
    obtain rfl : { k with phys := ph₁ } = k' := by simpa using hcreate
    refine ⟨rfl, ?_, fun _ hsame => absurd ((load_atomic hload).2.1 hsame) hstarted⟩
    rintro (h | ⟨data', -, -, hfile', -, hreturn⟩)
    · exact absurd h hstarted
    · obtain rfl := Option.some.inj (hfile.symm.trans hfile')
      exact absurd hreturn.sum_lt hlt

end Kernel

/-! ### The sample machine -/

/-- A program without segments. -/
def emptyProgram : List UInt8 := sampleElf []

/-- The program has a good header, and no image. -/
lemma emptyProgram_facts : Exec.headerOk emptyProgram = true ∧
    (Elf64Ehdr.read emptyProgram).ePhnum = 0 ∧ (Exec.imageRange emptyProgram).1 = usizeMax := by
  decide +kernel

/-- No segment of the program wraps around the address space. -/
lemma emptyProgram_elfOk : Exec.ElfOk strict emptyProgram (Elf64Ehdr.read emptyProgram) := by
  intro i hi
  rw [emptyProgram_facts.2.1] at hi
  exact absurd hi (Nat.not_lt_zero i)

/-- The sample machine with the program in its ramdisk: the attempt to load it fails, after it has taken
a page. -/
lemma Sample.load_empty : ∃ (x : Sample) (k' : Kernel),
    (sampleConfig [("empty", emptyProgram)]).boot = some x.start ∧
    x.start.kernel.findFile "empty" = some emptyProgram ∧
    Kernel.load "empty" x.start.kernel = some (none, k') ∧
    ¬ Kernel.StopsEarly x.start.kernel "empty" := by
  obtain ⟨x, hboot, hbooted⟩ := exists_start [("empty", emptyProgram)]
  obtain ⟨own, hhoused⟩ := hbooted.housed
  obtain ⟨hheader, -, himage⟩ := emptyProgram_facts
  have hfile : x.start.kernel.findFile "empty" = some emptyProgram := by
    rw [Kernel.findFile, hbooted.files]
    simp [sampleConfig]
  have hload : ∃ ph, Exec.loadFile emptyProgram x.start.kernel.phys = some (none, ph) := by
    have hok : Exec.ElfOk true emptyProgram (Elf64Ehdr.read emptyProgram) := emptyProgram_elfOk
    obtain ⟨o, ph, own', hrun, -, hdone⟩ := loadFile_spec hhoused.spaces hok
    rcases o with _ | image
    · exact ⟨ph, hrun⟩
    · obtain ⟨-, -, hL, -, hrange, -⟩ := hdone image rfl
      have halign := hL.aligned
      rw [show image.imageBase = usizeMax from (congrArg Prod.fst hrange).trans himage] at halign
      exact absurd halign (by decide)
  obtain ⟨ph, hload⟩ := hload
  refine ⟨x, { x.start.kernel with phys := ph }, hboot, hfile, ?_, fun hstops => ?_⟩
  · rw [Kernel.load, Fallible.gets_bind, Fallible.ofOption_bind]
    simp only [id, hfile, Option.elim_some]
    exact Kernel.onPhys_eq_some.mpr ⟨ph, hload, rfl⟩
  · rcases hstops _ hfile with h | h
    · simp [hheader] at h
    · have hzero := PageAllocator.freePages_of_alloc_eq_none hhoused.spaces.tables.counted h
      have hpages := hbooted.pages
      rw [(sampleConfig_page _).2.2, sampleProgram_cost] at hpages
      change x.start.kernel.phys.page.freePages = 0 at hzero
      omega

namespace System

open Kernel

end System

end NekOS
