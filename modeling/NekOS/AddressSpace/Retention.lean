import NekOS.Kernel.SyscallSteps

/-!
# Programs that only take pages

Building an address space takes pages from the allocator and never returns one, not even when it
fails half-way.  So the page that a failing `fork` or `exec` has taken first stays allocated.
-/

namespace NekOS

/-- The program gives no page back. -/
def Retains {α : Type} (f : Fallible Phys α) : Prop :=
  ∀ p, Fallible.Keeps (fun ph : Phys => ph.page.Allocated p) f

/-- The program does nothing to the allocator but take pages: it keeps whatever `page::alloc` and
writing to memory keep. -/
def Allocates {α : Type} (f : Fallible Phys α) : Prop :=
  ∀ I : Phys → Prop, (∀ ph ph', ph'.page = ph.page → I ph → I ph') →
    Fallible.Keeps I NekOS.allocPage → Fallible.Keeps I f

namespace Allocates

/-- Allocating. -/
lemma allocPage : Allocates allocPage := fun _ _ h => h

/-- A program that only takes pages gives none back. -/
lemma retains {α : Type} {f : Fallible Phys α} (hf : Allocates f) : Retains f := by
  refine fun p => hf _ (fun ph ph' hpage hp => by rwa [hpage]) ?_
  intro ph hp ph'
  unfold NekOS.allocPage
  rcases h : ph.page.alloc with _ | ⟨q, a⟩
  · simp only [Option.some.injEq, Prod.mk.injEq, reduceCtorEq, false_and, false_implies,
      implies_true, true_and]
    rintro rfl
    exact hp
  · simp only [Option.some.injEq, Prod.mk.injEq, reduceCtorEq, false_and, false_implies, and_true]
    rintro r ⟨rfl, rfl⟩
    exact ((PageAllocator.alloc_eq_some h).2.1 p).mpr (Or.inr hp)

/-- Changing memory alone. -/
lemma modify {φ : Phys → Phys} (h : ∀ ph, (φ ph).page = ph.page) :
    Allocates (Fallible.modify φ) := fun _ hmem _ =>
  Fallible.Spec.modify fun ph hp => hmem _ _ (h ph) hp

/-- Returning. -/
lemma pure {α : Type} (a : α) : Allocates (Pure.pure a : Fallible Phys α) := fun _ _ _ =>
  Fallible.Spec.pure fun _ h => h

/-- Failing. -/
lemma fail {α : Type} : Allocates (Fallible.fail : Fallible Phys α) := fun _ _ _ =>
  Fallible.Spec.fail fun _ h => h

/-- Reading. -/
lemma gets {α : Type} (φ : Phys → α) : Allocates (Fallible.gets φ) := fun _ _ _ =>
  Fallible.Keeps.gets φ

/-- Reading an option. -/
lemma ofOption {α : Type} (o : Option α) : Allocates (Fallible.ofOption o : Fallible Phys α) :=
  fun _ _ _ => Fallible.Spec.ofOption (fun _ h _ _ => h) fun _ h _ => h

/-- One after the other. -/
lemma bind {α β : Type} {f : Fallible Phys α} {g : α → Fallible Phys β} (hf : Allocates f)
    (hg : ∀ a, Allocates (g a)) : Allocates (f >>= g) := fun I hmem halloc =>
  Fallible.Spec.bind (hf I hmem halloc) fun a => hg a I hmem halloc

/-- A branch. -/
lemma ite {α : Type} {c : Prop} [Decidable c] {f g : Fallible Phys α} (hf : Allocates f)
    (hg : Allocates g) : Allocates (if c then f else g) := fun I hmem halloc =>
  Fallible.Spec.ite (fun _ => hf I hmem halloc) fun _ => hg I hmem halloc

/-- A bounded loop. -/
lemma forRange {n : ℕ} {body : ℕ → Fallible Phys Unit} (h : ∀ i, Allocates (body i)) :
    Allocates (Fallible.forRange n body) := fun I hmem halloc =>
  Fallible.Spec.forRange (I := fun _ => I) fun i _ => h i I hmem halloc

/-- A bounded loop with an accumulator. -/
lemma foldRange {α : Type} {n : ℕ} {body : ℕ → α → Fallible Phys α} {a : α}
    (h : ∀ i b, Allocates (body i b)) : Allocates (Fallible.foldRange n body a) :=
  fun I hmem halloc =>
    Fallible.Spec.foldRange (I := fun _ _ => I) fun i _ b => h i b I hmem halloc

/-- A loop over a list. -/
lemma forEach {β : Type} {bs : List β} {body : β → Fallible Phys Unit}
    (h : ∀ b, Allocates (body b)) : Allocates (Fallible.forEach bs body) := fun I hmem halloc =>
  Fallible.Spec.forEach fun b _ => h b I hmem halloc

/-! ### Page tables -/

/-- `create`. -/
lemma create : Allocates PageTable.create :=
  bind allocPage fun _ => bind (modify fun _ => rfl) fun _ => pure _

/-- One level of `walk`. -/
lemma descend (alloc : Bool) (pt : ℕ) (idx : Fin 512) : Allocates (PageTable.descend alloc pt idx) :=
  bind (gets _) fun _ => ite
    (ite (bind create fun _ => bind (modify fun _ => rfl) fun _ => pure _) fail)
    (ite fail (pure _))

/-- `walk`. -/
lemma walk (pt va : ℕ) (alloc : Bool) : Allocates (PageTable.walk pt va alloc) :=
  bind (descend _ _ _) fun _ => bind (descend _ _ _) fun _ => pure _

/-- `map`. -/
lemma map (pt va pa size flags : ℕ) : Allocates (PageTable.map pt va pa size flags) :=
  ite fail <| forRange fun _ => bind (walk _ _ _) fun _ => bind (gets _) fun _ =>
    ite fail (modify fun _ => rfl)

/-- `map_kernel`. -/
lemma mapKernel (pt : ℕ) : Allocates (Vm.mapKernel pt) :=
  bind (map _ _ _ _ _) fun _ => bind (map _ _ _ _ _) fun _ => forEach fun _ => map _ _ _ _ _

/-! ### Address spaces -/

/-- The loops of `fork`. -/
lemma forkRange (required : Bool) (parentPt childPt start stop : ℕ) :
    Allocates (Kernel.forkRange required parentPt childPt start stop) :=
  forRange fun i => bind (gets _) fun o => by
    cases o with
    | none => exact ite fail (pure ())
    | some pte => exact bind allocPage fun _ => bind (modify fun _ => rfl) fun _ => map _ _ _ _ _

/-- The loops of `elf_load`. -/
lemma elfLoad (pagetable : ℕ) (data : List UInt8) (ehdr : Elf64Ehdr) :
    Allocates (Exec.elfLoad pagetable data ehdr) :=
  bind (foldRange fun _ _ => ite (pure _) (ite fail
    (bind (forRange fun _ => bind allocPage fun _ => bind (modify fun _ => rfl) fun _ =>
      bind (modify fun _ => rfl) fun _ => map _ _ _ _ _) fun _ => pure _)))
    fun _ => ite fail (pure _)

/-- The part of `fork` that builds the address space of the child, after the kernel stack. -/
lemma forkSpace_eq (parent : Task) : ∃ g : ℕ → Fallible Phys Kernel.ChildSpace,
    (∀ kernelStack, Allocates (g kernelStack)) ∧
      Kernel.forkSpace parent = NekOS.allocPage >>= g := by
  refine ⟨_, fun kernelStack => ?_, rfl⟩
  refine bind allocPage fun _ => bind create fun _ => bind (mapKernel _) fun _ => ?_
  refine bind (forkRange _ _ _ _ _) fun _ => bind (ofOption _) fun _ => ?_
  refine bind (forkRange _ _ _ _ _) fun _ => bind (modify fun _ => rfl) fun _ => ?_
  exact bind (map _ _ _ _ _) fun _ => pure _

/-- The part of `load` after the checks and the root of the tree. -/
lemma loadFile_eq (data : List UInt8) : ∃ g : ℕ → Fallible Phys LoadedImage,
    (∀ pagetable, Allocates (g pagetable)) ∧
      Exec.loadFile data = if data.length < ehdrSize then Fallible.fail
        else if !Exec.elfVerify (Elf64Ehdr.read data) data.length then Fallible.fail
        else PageTable.create >>= g := by
  refine ⟨_, fun pagetable => ?_, rfl⟩
  refine bind (mapKernel _) fun _ => bind (elfLoad _ _ _) fun _ => bind allocPage fun _ => ?_
  exact bind (modify fun _ => rfl) fun _ => bind (map _ _ _ _ _) fun _ => pure _

/-- The part of `fork` that builds the address space of the child. -/
lemma forkSpace (parent : Task) : Allocates (Kernel.forkSpace parent) := by
  obtain ⟨g, hg, heq⟩ := forkSpace_eq parent
  rw [heq]
  exact bind allocPage hg

/-- `load`, for a file. -/
lemma loadFile (data : List UInt8) : Allocates (Exec.loadFile data) := by
  obtain ⟨g, hg, heq⟩ := loadFile_eq data
  rw [heq]
  exact ite fail (ite fail (bind create hg))

end Allocates

/-- The program fails at once when no page is left, and has otherwise taken a page for good when it
ends. -/
def Takes {α : Type} (f : Fallible Phys α) : Prop :=
  ∀ ph ph' o, f ph = some (o, ph') → (ph.page.alloc = none ∧ o = none ∧ ph' = ph) ∨
    (ph.page.alloc ≠ none ∧ ∃ p, ¬ ph.page.Allocated p ∧ ph'.page.Allocated p)

namespace Takes

/-- Allocating. -/
lemma allocPage : Takes allocPage := by
  intro ph ph' o h
  unfold NekOS.allocPage at h
  rcases halloc : ph.page.alloc with _ | ⟨p, a⟩
  · rw [halloc, Option.some.injEq, Prod.mk.injEq] at h
    exact Or.inl ⟨rfl, h.1.symm, h.2.symm⟩
  · rw [halloc, Option.some.injEq, Prod.mk.injEq] at h
    obtain ⟨-, rfl⟩ := h
    obtain ⟨hfresh, hset, -⟩ := PageAllocator.alloc_eq_some halloc
    exact Or.inr ⟨by simp, p, hfresh, (hset p).mpr (Or.inl rfl)⟩

/-- Going on with a program that only takes pages. -/
lemma bind {α β : Type} {f : Fallible Phys α} {g : α → Fallible Phys β} (hf : Takes f)
    (hg : ∀ a, Allocates (g a)) : Takes (f >>= g) := by
  intro ph ph' o h
  rcases Fallible.bind_eq_iff.mp h with ⟨rfl, h₁⟩ | ⟨a, ph₁, h₁, h₂⟩
  · rcases hf ph ph' none h₁ with ⟨hnone, -, rfl⟩ | htaken
    · exact Or.inl ⟨hnone, rfl, rfl⟩
    · exact Or.inr htaken
  · rcases hf ph ph₁ (some a) h₁ with ⟨-, ha, -⟩ | ⟨hsome, p, hfresh, hp⟩
    · simp at ha
    · exact Or.inr ⟨hsome, p, hfresh, ((hg a).retains p).of_run hp h₂⟩

/-- `create`. -/
lemma create : Takes PageTable.create :=
  bind allocPage fun _ => Allocates.bind (Allocates.modify fun _ => rfl) fun _ => Allocates.pure _

/-- The part of `fork` that builds the address space of the child. -/
lemma forkSpace (parent : Task) : Takes (Kernel.forkSpace parent) := by
  obtain ⟨g, hg, heq⟩ := Allocates.forkSpace_eq parent
  rw [heq]
  exact bind allocPage hg

end Takes

namespace Exec

/-- The header of the file passes the checks of `load`. -/
def headerOk (data : List UInt8) : Bool :=
  decide (ehdrSize ≤ data.length) && elfVerify (Elf64Ehdr.read data) data.length

/-- `load` fails before it has taken a page, or has taken one for good. -/
lemma loadFile_leaks {data : List UInt8} {ph ph' : Phys} {o : Option LoadedImage}
    (h : loadFile data ph = some (o, ph')) :
    ((headerOk data = false ∨ ph.page.alloc = none) ∧ o = none ∧ ph' = ph) ∨
    (headerOk data = true ∧ ph.page.alloc ≠ none ∧
      ∃ p, ¬ ph.page.Allocated p ∧ ph'.page.Allocated p) := by
  obtain ⟨g, hg, heq⟩ := Allocates.loadFile_eq data
  rw [heq] at h
  rcases Fallible.guard_cases h with ⟨hlen, rfl, rfl⟩ | ⟨hlen, h'⟩
  · exact Or.inl ⟨Or.inl (by simp [headerOk, hlen]), rfl, rfl⟩
  rcases Fallible.guard_cases h' with ⟨hverify, rfl, rfl⟩ | ⟨hverify, h''⟩
  · rw [Bool.not_eq_true'] at hverify
    exact Or.inl ⟨Or.inl (by simp [headerOk, hverify]), rfl, rfl⟩
  rw [Bool.not_eq_true, Bool.not_eq_false'] at hverify
  have hok : headerOk data = true := by simp [headerOk, hverify, not_lt.mp hlen]
  rcases Takes.create.bind hg ph ph' o h'' with ⟨hnone, rfl, rfl⟩ | ⟨hsome, hp⟩
  · exact Or.inl ⟨Or.inr hnone, rfl, rfl⟩
  · exact Or.inr ⟨hok, hsome, hp⟩

end Exec

end NekOS
