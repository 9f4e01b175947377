import NekOS.AddressSpace.Copying
import NekOS.AddressSpace.Loader
import NekOS.AddressSpace.Release

/-!
# Homes

A task owns the tree of its page table, the pages mapped in it and its kernel stack.  `Home` says that
the tree maps what the fields of the task say, and `Housed` that all tasks of the table have homes of
their own.  Each way in which the kernel changes the task table or a tree has a lemma here.
-/

namespace NekOS

open PageTable

/-! ### The home of a task -/

/-- The tree of a task maps the pages of the kernel, the heap, and pages of the image and the stack.
Unless `strict`, it may map leaves elsewhere. -/
structure Home (strict : Bool) (ph : Phys) (own : ℕ → Role) (t : Task) : Prop where
  root : own t.pagetable = .root
  kernelStack : own t.kernelStack = .stack
  kernel : KernelMapped ph t.pagetable
  layout : t.Layout
  stack : t.userStack = 0 ∨ own t.userStack = .data t.pagetable stackPage
  heap : ∀ n, t.heapPage ≤ n → n < t.heapTop →
    ¬ KernelPage n ∧ (lookup ph t.pagetable n).isSome = true
  within : ∀ n < 2 ^ 27, ∀ e, lookup ph t.pagetable n = some e →
    KernelPage n ∨ (n = stackPage ∧ pteToPa e = t.userStack ∧ isLeaf e = true) ∨
      (t.imagePage ≤ n ∧ n < t.heapTop) ∨ (strict = false ∧ isLeaf e = true)

/-- A task without the data that scheduling and IPC change. -/
def Task.still (t : Task) : Task :=
  { t with
    state := .unused
    trapFrame := .new
    exitCode := 0
    parentPid := none
    waitingFor := none }

/-- Scheduling and IPC do not change a home. -/
lemma Home.of_still {strict : Bool} {ph : Phys} {own : ℕ → Role} {t u : Task}
    (h : Home strict ph own t) (htu : u.still = t.still) : Home strict ph own u := by
  have hpt : u.pagetable = t.pagetable := (congrArg Task.pagetable htu :)
  have hks : u.kernelStack = t.kernelStack := (congrArg Task.kernelStack htu :)
  have hus : u.userStack = t.userStack := (congrArg Task.userStack htu :)
  have hib : u.imageBase = t.imageBase := (congrArg Task.imageBase htu :)
  have his : u.imageSize = t.imageSize := (congrArg Task.imageSize htu :)
  have hhb : u.heapBase = t.heapBase := (congrArg Task.heapBase htu :)
  have hhe : u.heapEnd = t.heapEnd := (congrArg Task.heapEnd htu :)
  have hip : u.imagePage = t.imagePage := by rw [Task.imagePage, hib, Task.imagePage]
  have hhp : u.heapPage = t.heapPage := by rw [Task.heapPage, hhb, Task.heapPage]
  have hht : u.heapTop = t.heapTop := by rw [Task.heapTop, hhe, Task.heapTop]
  refine ⟨?_, ?_, ?_, ⟨?_, ?_, ?_, ?_, ?_⟩, ?_, ?_, ?_⟩
  · rw [hpt]
    exact h.root
  · rw [hks]
    exact h.kernelStack
  · rw [hpt]
    exact h.kernel
  · rw [hib]
    exact h.layout.base_mod
  · rw [hhb, hib, his]
    exact h.layout.heap_eq
  · rw [hhb]
    exact h.layout.heap_mod
  · rw [hhb, hhe]
    exact h.layout.heap_le
  · rw [hhe]
    exact h.layout.limit
  · rw [hus, hpt]
    exact h.stack
  · rw [hhp, hht, hpt]
    exact h.heap
  · rw [hpt, hip, hht, hus]
    exact h.within

/-- An operation on one tree that leaves the kernel stacks. -/
structure Beside (r : ℕ) (ph : Phys) (own : ℕ → Role) (ph' : Phys) (own' : ℕ → Role) : Prop
    extends Local r ph own ph' own' where
  spaces : Spaces ph' own'
  stack : ∀ p, own p = .stack → own' p = .stack

/-- Homes elsewhere stay. -/
lemma Home.beside {strict : Bool} {r : ℕ} {ph ph' : Phys} {own own' : ℕ → Role} {t : Task}
    (h : Home strict ph own t) (hT : Tables ph own) (hb : Beside r ph own ph' own')
    (hne : t.pagetable ≠ r) : Home strict ph' own' t := by
  have hlookup := hb.toLocal.lookup_eq hT hb.spaces.tables h.root hne
  refine ⟨(hb.role_iff hne (by rfl)).mpr h.root, hb.stack _ h.kernelStack, fun n hn => ?_, h.layout,
    h.stack.imp_right fun hs => (hb.role_iff hne (by rfl)).mpr hs, fun n h₁ h₂ => ?_,
    fun n hn e he => ?_⟩
  · rw [hlookup]
    exact h.kernel n hn
  · rw [hlookup]
    exact h.heap n h₁ h₂
  · rw [hlookup] at he
    exact h.within n hn e he

/-! ### All homes -/

/-- All tasks have homes of their own, and the UART is open to its owner alone. -/
structure Housed (strict : Bool) (m : TaskManager) (ph : Phys) (own : ℕ → Role) : Prop where
  spaces : Spaces ph own
  home : ∀ i t, m.tasks i = some t → Home strict ph own t
  /-- Two tasks share neither their page tables nor their kernel stacks. -/
  apart : ∀ i j t u, m.tasks i = some t → m.tasks j = some u →
    t.pagetable = u.pagetable ∨ t.kernelStack = u.kernelStack → i = j
  uart : ∀ r, own r = .root → UartClosed ph r ∨
    ∃ i t, m.tasks i = some t ∧ t.pagetable = r ∧ m.uartOwner = some t.pid
  /-- The UART is open in one tree at most. -/
  uart_one : ∀ r s, own r = .root → own s = .root → UartClosed ph r ∨ UartClosed ph s ∨ r = s

/-- The task tables agree in the homes. -/
structure TaskManager.SameHomes (m m' : TaskManager) : Prop where
  tasks : ∀ i, (m'.tasks i).map Task.still = (m.tasks i).map Task.still
  uartOwner : m'.uartOwner = m.uartOwner

namespace TaskManager.SameHomes

variable {m m₁ m' : TaskManager}

/-- A task table agrees with itself. -/
lemma refl (m : TaskManager) : SameHomes m m := ⟨fun _ => rfl, rfl⟩

/-- One change after the other. -/
lemma trans (h₁ : SameHomes m m₁) (h₂ : SameHomes m₁ m') : SameHomes m m' :=
  ⟨fun i => (h₂.tasks i).trans (h₁.tasks i), h₂.uartOwner.trans h₁.uartOwner⟩

/-- A task of one table in the other. -/
lemma exists_task (h : SameHomes m m') {i : Fin maxTasks} {t : Task} (ht : m'.tasks i = some t) :
    ∃ u, m.tasks i = some u ∧ t.still = u.still := by
  have hi := h.tasks i
  rw [ht, Option.map_some] at hi
  obtain ⟨u, hu, htu⟩ := Option.map_eq_some_iff.mp hi.symm
  exact ⟨u, hu, htu.symm⟩

/-- The tables agree both ways. -/
lemma symm (h : SameHomes m m') : SameHomes m' m :=
  ⟨fun i => (h.tasks i).symm, h.uartOwner.symm⟩

/-- A task changes in what scheduling and IPC change. -/
lemma update (m : TaskManager) (i : Fin maxTasks) {f : Task → Task}
    (hf : ∀ t, (f t).still = t.still) : SameHomes m (m.updateTask i f) := by
  refine ⟨fun j => ?_, rfl⟩
  simp only [updateTask, setTask, Slots.set_apply]
  split
  · rename_i hji
    rw [hji, Option.map_map]
    exact congrArg (fun g => (m.tasks i).map g) (funext hf)
  · rfl

/-- The tasks stay. -/
lemma of_eq (htasks : m'.tasks = m.tasks) (howner : m'.uartOwner = m.uartOwner) : SameHomes m m' :=
  ⟨fun i => by rw [htasks], howner⟩

end TaskManager.SameHomes

namespace Housed

variable {strict : Bool} {m m' : TaskManager} {ph ph' : Phys} {own own' : ℕ → Role}

/-- Scheduling and IPC keep the homes. -/
lemma of_sameHomes (h : Housed strict m ph own) (hm : m.SameHomes m') : Housed strict m' ph own where
  spaces := h.spaces
  home i t ht := by
    obtain ⟨u, hu, htu⟩ := hm.exists_task ht
    exact (h.home i u hu).of_still htu
  apart i j t u ht hu heq := by
    obtain ⟨t', ht', htt⟩ := hm.exists_task ht
    obtain ⟨u', hu', huu⟩ := hm.exists_task hu
    refine h.apart i j t' u' ht' hu' (heq.imp (fun heq => ?_) fun heq => ?_)
    · have h₁ : t.pagetable = t'.pagetable := (congrArg Task.pagetable htt :)
      have h₂ : u.pagetable = u'.pagetable := (congrArg Task.pagetable huu :)
      rw [← h₁, ← h₂, heq]
    · have h₁ : t.kernelStack = t'.kernelStack := (congrArg Task.kernelStack htt :)
      have h₂ : u.kernelStack = u'.kernelStack := (congrArg Task.kernelStack huu :)
      rw [← h₁, ← h₂, heq]
  uart r hr := by
    refine (h.uart r hr).imp_right ?_
    rintro ⟨i, t, ht, rfl, howner⟩
    obtain ⟨u, hu, htu⟩ := hm.symm.exists_task ht
    exact ⟨i, u, hu, (congrArg Task.pagetable htu :).symm,
      hm.uartOwner.trans (howner.trans (congrArg some (congrArg Task.pid htu :)))⟩
  uart_one := h.uart_one

/-- The UART stays closed in a tree that is not changed. -/
lemma closed_beside {r s : ℕ} (h : Housed strict m ph own) (hL : Local r ph own ph' own')
    (hT' : Tables ph' own') (hs : own' s = .root) (hne : s ≠ r) :
    own s = .root ∧ (UartClosed ph s → UartClosed ph' s) := by
  have hs₀ := (hL.role_iff hne (by rfl)).mp hs
  refine ⟨hs₀, fun hc e he => hc e ?_⟩
  rwa [hL.lookup_eq h.spaces.tables hT' hs₀ hne] at he

/-- The UART stays open in one tree at most when no other tree opens it. -/
lemma uart_one_of (h : Housed strict m ph own) (hkeep : ∀ s, own' s = .root →
    UartClosed ph' s ∨ (own s = .root ∧ (UartClosed ph s → UartClosed ph' s))) (r s : ℕ)
    (hr : own' r = .root) (hs : own' s = .root) : UartClosed ph' r ∨ UartClosed ph' s ∨ r = s := by
  rcases hkeep r hr with hr' | ⟨hr₀, hr'⟩
  · exact Or.inl hr'
  rcases hkeep s hs with hs' | ⟨hs₀, hs'⟩
  · exact Or.inr (Or.inl hs')
  · exact (h.uart_one r s hr₀ hs₀).imp hr' (Or.imp_left hs')

/-- The UART is as open in other trees as it was. -/
lemma uart_beside {r s : ℕ} (h : Housed strict m ph own) (hb : Beside r ph own ph' own')
    (hs : own' s = .root) (hne : s ≠ r) : UartClosed ph' s ∨
      ∃ i t, m.tasks i = some t ∧ t.pagetable = s ∧ m.uartOwner = some t.pid := by
  obtain ⟨hs₀, hclosed⟩ := h.closed_beside hb.toLocal hb.spaces.tables hs hne
  exact (h.uart s hs₀).imp_left hclosed

/-- An operation on a tree in which no task lives. -/
lemma elsewhere {r : ℕ} (h : Housed strict m ph own) (hb : Beside r ph own ph' own')
    (hno : ∀ i t, m.tasks i = some t → t.pagetable ≠ r)
    (hclosed : own' r = .root → UartClosed ph' r) : Housed strict m ph' own' where
  spaces := hb.spaces
  home i t ht := (h.home i t ht).beside h.spaces.tables hb (hno i t ht)
  apart := h.apart
  uart s hs := by
    by_cases hsr : s = r
    · subst hsr
      exact Or.inl (hclosed hs)
    · exact h.uart_beside hb hs hsr
  uart_one := h.uart_one_of fun s hs => by
    by_cases hsr : s = r
    · subst hsr
      exact Or.inl (hclosed hs)
    · exact Or.inr (h.closed_beside hb.toLocal hb.spaces.tables hs hsr)

/-- A task moves into a home that no task has. -/
lemma insert (h : Housed strict m ph own) {i : Fin maxTasks} {t : Task} (hfree : m.tasks i = none)
    (ht : Home strict ph own t) (hnew : ∀ j u, m.tasks j = some u →
      t.pagetable ≠ u.pagetable ∧ t.kernelStack ≠ u.kernelStack) :
    Housed strict (m.setTask i (some t)) ph own := by
  have hcases : ∀ {j u}, (m.setTask i (some t)).tasks j = some u →
      (j = i ∧ u = t) ∨ (j ≠ i ∧ m.tasks j = some u) := fun {j u} hu => by
    simp only [TaskManager.setTask, Slots.set_apply] at hu
    split at hu
    · exact Or.inl ⟨‹_›, (Option.some.inj hu).symm⟩
    · exact Or.inr ⟨‹_›, hu⟩
  refine ⟨h.spaces, fun j u hu => ?_, fun j l u v hu hv heq => ?_, fun r hr => ?_, h.uart_one⟩
  · rcases hcases hu with ⟨-, rfl⟩ | ⟨-, hu⟩
    · exact ht
    · exact h.home j u hu
  · rcases hcases hu with ⟨rfl, rfl⟩ | ⟨hj, hu'⟩ <;> rcases hcases hv with ⟨rfl, rfl⟩ | ⟨hl, hv'⟩
    · rfl
    · exact absurd heq (not_or.mpr (hnew l v hv'))
    · exact absurd (heq.imp Eq.symm Eq.symm) (not_or.mpr (hnew j u hu'))
    · exact h.apart j l u v hu' hv' heq
  · refine (h.uart r hr).imp_right ?_
    rintro ⟨j, u, hu, hur, howner⟩
    refine ⟨j, u, ?_, hur, howner⟩
    rw [TaskManager.setTask]
    exact (Slots.set_of_ne (by rintro rfl; simp [hfree] at hu) _).trans hu

/-- A task leaves, and its tree and its kernel stack are given up. -/
lemma remove (h : Housed strict m ph own) {i : Fin maxTasks} {t : Task} (ht : m.tasks i = some t)
    (hL : Local t.pagetable ph own ph' own') (hS : Spaces ph' own')
    (hstack : ∀ p, p ≠ t.kernelStack → own p = .stack → own' p = .stack)
    (hgone : own' t.pagetable ≠ .root) : Housed strict (m.setTask i none) ph' own' := by
  have hcases : ∀ {j u}, (m.setTask i none).tasks j = some u → j ≠ i ∧ m.tasks j = some u :=
    fun {j u} hu => by
      simp only [TaskManager.setTask, Slots.set_apply] at hu
      split at hu
      · simp at hu
      · exact ⟨‹_›, hu⟩
  have hne : ∀ {r}, own' r = .root → r ≠ t.pagetable := fun hr heq => hgone (heq ▸ hr)
  refine ⟨hS, fun j u hu => ?_, fun j l u v hu hv heq => ?_, fun r hr => ?_,
    h.uart_one_of fun r hr => Or.inr (h.closed_beside hL hS.tables hr (hne hr))⟩
  · obtain ⟨hj, hu⟩ := hcases hu
    have hpt : u.pagetable ≠ t.pagetable := fun heq => hj (h.apart j i u t hu ht (Or.inl heq))
    have hks : u.kernelStack ≠ t.kernelStack := fun heq => hj (h.apart j i u t hu ht (Or.inr heq))
    have hhome := h.home j u hu
    have hlookup := hL.lookup_eq h.spaces.tables hS.tables hhome.root hpt
    refine ⟨(hL.role_iff hpt (by rfl)).mpr hhome.root, hstack _ hks hhome.kernelStack, fun n hn => ?_,
      hhome.layout, hhome.stack.imp_right fun hs => (hL.role_iff hpt (by rfl)).mpr hs,
      fun n h₁ h₂ => ?_, fun n hn e he => ?_⟩
    · rw [hlookup]
      exact hhome.kernel n hn
    · rw [hlookup]
      exact hhome.heap n h₁ h₂
    · rw [hlookup] at he
      exact hhome.within n hn e he
  · exact h.apart j l u v (hcases hu).2 (hcases hv).2 heq
  · obtain ⟨hr₀, hclosed⟩ := h.closed_beside hL hS.tables hr (hne hr)
    rcases h.uart r hr₀ with hc | ⟨j, u, hu, hur, howner⟩
    · exact Or.inl (hclosed hc)
    · refine Or.inr ⟨j, u, ?_, hur, howner⟩
      rw [TaskManager.setTask]
      refine (Slots.set_of_ne ?_ _).trans hu
      rintro rfl
      rw [ht, Option.some.injEq] at hu
      exact hne hr (by rw [← hur, hu])

/-- A task changes its home, in its own tree or by leaving that for a tree in which no task lives. -/
lemma replace (h : Housed strict m ph own) {i : Fin maxTasks} {t : Task} (ht : m.tasks i = some t)
    (hb : Beside t.pagetable ph own ph' own') {f : Task → Task} (hpid : (f t).pid = t.pid)
    (hks : (f t).kernelStack = t.kernelStack) (hhome : Home strict ph' own' (f t))
    (hpt : (f t).pagetable = t.pagetable ∨
      ∀ j u, m.tasks j = some u → (f t).pagetable ≠ u.pagetable)
    (huart : own' t.pagetable = .root → (f t).pagetable = t.pagetable ∧
      (UartClosed ph t.pagetable → UartClosed ph' t.pagetable)) :
    Housed strict (m.updateTask i f) ph' own' := by
  have hcases : ∀ {j u}, (m.updateTask i f).tasks j = some u →
      (j = i ∧ u = f t) ∨ (j ≠ i ∧ m.tasks j = some u) := fun {j u} hu => by
    simp only [TaskManager.updateTask, TaskManager.setTask, Slots.set_apply] at hu
    split at hu
    · rw [ht, Option.map_some, Option.some.injEq] at hu
      exact Or.inl ⟨‹_›, hu.symm⟩
    · exact Or.inr ⟨‹_›, hu⟩
  have hself : (m.updateTask i f).tasks i = some (f t) := by
    simp [TaskManager.updateTask, TaskManager.setTask, ht]
  have hother : ∀ {j}, j ≠ i → (m.updateTask i f).tasks j = m.tasks j := fun hj =>
    Slots.set_of_ne hj _
  have happart : ∀ j u, j ≠ i → m.tasks j = some u →
      ¬ ((f t).pagetable = u.pagetable ∨ (f t).kernelStack = u.kernelStack) := by
    rintro j u hj hu (heq | heq)
    · rcases hpt with hpt | hpt
      · exact hj (h.apart j i u t hu ht (Or.inl (heq.symm.trans hpt)))
      · exact hpt j u hu heq
    · exact hj (h.apart j i u t hu ht (Or.inr (heq.symm.trans hks)))
  refine ⟨hb.spaces, fun j u hu => ?_, fun j l u v hu hv heq => ?_, fun s hs => ?_,
    h.uart_one_of fun s hs => Or.inr ?_⟩
  · rcases hcases hu with ⟨-, rfl⟩ | ⟨hj, hu'⟩
    · exact hhome
    · refine (h.home j u hu').beside h.spaces.tables hb fun heq => hj ?_
      exact h.apart j i u t hu' ht (Or.inl heq)
  · rcases hcases hu with ⟨rfl, rfl⟩ | ⟨hj, hu'⟩ <;> rcases hcases hv with ⟨rfl, rfl⟩ | ⟨hl, hv'⟩
    · rfl
    · exact absurd heq (happart l v hl hv')
    · exact absurd (heq.imp Eq.symm Eq.symm) (happart j u hj hu')
    · exact h.apart j l u v hu' hv' heq
  · by_cases hst : s = t.pagetable
    · subst hst
      obtain ⟨hsame, hclosed⟩ := huart hs
      rcases h.uart _ (h.home i t ht).root with hc | ⟨j, u, hu, hur, howner⟩
      · exact Or.inl (hclosed hc)
      · obtain rfl := h.apart j i u t hu ht (Or.inl hur)
        obtain rfl : t = u := Option.some.inj (ht.symm.trans hu)
        exact Or.inr ⟨j, f t, hself, hsame, howner.trans (congrArg some hpid.symm)⟩
    · refine (h.uart_beside hb hs hst).imp_right ?_
      rintro ⟨j, u, hu, hur, howner⟩
      refine ⟨j, u, ?_, hur, howner⟩
      rw [hother, hu]
      rintro rfl
      rw [ht, Option.some.injEq] at hu
      exact hst (by rw [← hur, hu])
  · by_cases hst : s = t.pagetable
    · subst hst
      exact ⟨(h.home i t ht).root, (huart hs).2⟩
    · exact h.closed_beside hb.toLocal hb.spaces.tables hs hst

/-- The UART is opened to a task when it has no owner yet. -/
lemma grant (h : Housed strict m ph own) {i : Fin maxTasks} {t : Task} (hnone : m.uartOwner = none)
    (ht : m.tasks i = some t) (hb : Beside t.pagetable ph own ph' own')
    (hhome : Home strict ph' own' t) :
    Housed strict { m with uartOwner := some t.pid } ph' own' where
  spaces := hb.spaces
  home j u hu := by
    by_cases hj : j = i
    · subst hj
      obtain rfl : t = u := Option.some.inj (ht.symm.trans hu)
      exact hhome
    · exact (h.home j u hu).beside h.spaces.tables hb fun heq =>
        hj (h.apart j i u t hu ht (Or.inl heq))
  apart := h.apart
  uart s hs := by
    by_cases hst : s = t.pagetable
    · exact Or.inr ⟨i, t, ht, hst.symm, rfl⟩
    · rcases h.uart_beside hb hs hst with hc | ⟨j, u, -, -, howner⟩
      · exact Or.inl hc
      · simp [hnone] at howner
  uart_one r s hr hs := by
    have hother : ∀ s, own' s = .root → s ≠ t.pagetable → UartClosed ph' s := fun s hs hst => by
      rcases h.uart_beside hb hs hst with hc | ⟨j, u, -, -, howner⟩
      · exact hc
      · simp [hnone] at howner
    by_cases hrt : r = t.pagetable
    · by_cases hst : s = t.pagetable
      · exact Or.inr (Or.inr (hrt.trans hst.symm))
      · exact Or.inr (Or.inl (hother s hs hst))
    · exact Or.inl (hother r hr hrt)

end Housed

/-! ### Ways to change trees -/

/-- Adding pages to a tree leaves the kernel stacks. -/
lemma Building.beside {r : ℕ} {ph ph' : Phys} {own own' : ℕ → Role} (h : Building r ph own ph' own')
    (hS : Spaces ph own) : Beside r ph own ph' own' :=
  ⟨h.toExtends.toLocal, h.spaces hS, fun p hp => by rw [h.keep p (by simp [hp]), hp]⟩

/-- An attempt that has failed leaves a tree in which no task lives. -/
lemma Housed.abandoned {strict : Bool} {m : TaskManager} {ph ph' : Phys} {own own' : ℕ → Role}
    (h : Housed strict m ph own) (ha : Abandoned ph own ph' own') : Housed strict m ph' own' := by
  have hS := ha.spaces h.spaces
  obtain ⟨r, hfree, hext, -, hspace, -⟩ := ha
  refine h.elsewhere ⟨hext.toLocal, hS, fun p hp => by rw [hext.keep p (by simp [hp]), hp]⟩ ?_
    fun hr => (hspace hr).2
  rintro i t ht rfl
  have := (h.home i t ht).root
  simp [hfree] at this

/-- A new tree in which no task lives. -/
lemma Housed.building {strict : Bool} {m : TaskManager} {r : ℕ} {ph ph' : Phys} {own own' : ℕ → Role}
    (h : Housed strict m ph own) (hB : Building r ph own ph' own') (hfree : own r = .free)
    (hclosed : UartClosed ph' r) : Housed strict m ph' own' :=
  h.abandoned (hB.abandoned hfree hclosed)

/-- A page is taken for a kernel stack. -/
lemma Housed.takeStack {strict : Bool} {m : TaskManager} {ph ph' : Phys} {own : ℕ → Role} {p : ℕ}
    (h : Housed strict m ph own) (hrun : allocPage ph = some (some p, ph')) :
    own p = .free ∧ ph'.mem = ph.mem ∧ Housed strict m ph' (Function.update own p .stack) := by
  rcases allocPage_cases h.spaces.tables with ⟨hnone, -⟩ |
    ⟨q, ph₁, hsome, hfree, hT, hmem, hstart, -⟩
  · simp [hrun] at hnone
  obtain ⟨rfl, rfl⟩ : p = q ∧ ph' = ph₁ := by simpa using hrun.symm.trans hsome
  have hT' := hT.relabel (p := p) (ρ := .stack) (by simp [Role.plain, Role.isTable])
    (by simp [Role.plain, Role.isTable])
  rw [Function.update_idem] at hT'
  have hlocal : ∀ r, Local r ph own ph' (Function.update own p .stack) := fun r =>
    Local.update r hmem (by rw [hfree]; rfl) rfl
  refine ⟨hfree, hmem, h.elsewhere (r := 1) ⟨hlocal 1, h.spaces.of_quiet hlocal hT' hstart, fun q hq => ?_⟩
    (fun i t ht hpt => ?_) fun hr => ?_⟩
  · rw [Function.update_of_ne (by rintro rfl; simp [hfree] at hq), hq]
  · have := (h.home i t ht).root
    simp [hpt, h.spaces.tables.free_one] at this
  · simp [hT'.free_one] at hr

/-- Writing to a page that is no table changes no translation. -/
lemma lookup_of_write {ph ph' : Phys} {own : ℕ → Role} {p r : ℕ} (hT : Tables ph own)
    (hT' : Tables ph' own) (hp : (own p).isTable = false) (hr : own r = .root)
    (hw : ∀ w, pageOfWord w ≠ p → ph'.mem w = ph.mem w) (n : ℕ) :
    lookup ph' r n = lookup ph r n := by
  refine Option.ext fun e => ?_
  rw [hT.lookup_eq_some hr, hT'.lookup_eq_some hr]
  refine exists_congr fun q => and_congr_right fun hq => ?_
  rw [entry_of_writes (hT.page_aligned (by simp [hq])) fun w hwq => hw w ?_]
  rintro rfl
  rw [hwq, hq] at hp
  simp [Role.isTable] at hp

/-- Pages that are no tables can be written. -/
lemma Housed.write {strict : Bool} {m : TaskManager} {ph ph' : Phys} {own : ℕ → Role} {p : ℕ}
    (h : Housed strict m ph own) (htable : (own p).isTable = false) (hpage : ph'.page = ph.page)
    (hw : ∀ w, pageOfWord w ≠ p → ph'.mem w = ph.mem w) : Housed strict m ph' own := by
  have hT' : Tables ph' own := h.spaces.tables.write hpage htable hw
  have hlookup : ∀ s, own s = .root → ∀ n, lookup ph' s n = lookup ph s n := fun s hs =>
    lookup_of_write h.spaces.tables hT' htable hs hw
  have hclosed : ∀ s, own s = .root → UartClosed ph s → UartClosed ph' s := fun s hs hc e he =>
    hc e (by rwa [hlookup s hs] at he)
  refine ⟨⟨hT', by rw [hpage]; exact h.spaces.start_le, fun s hs => ?_, h.spaces.root⟩,
    fun i t ht => ?_, h.apart, fun s hs => (h.uart s hs).imp_left (hclosed s hs),
    h.uart_one_of fun s hs => Or.inr ⟨hs, hclosed s hs⟩⟩
  · exact (h.spaces.space s hs).of_lookups (fun n _ => hlookup s hs n) fun _ _ => Iff.rfl
  · have hhome := h.home i t ht
    have hl := hlookup _ hhome.root
    refine ⟨hhome.root, hhome.kernelStack, fun n hn => ?_, hhome.layout, hhome.stack,
      fun n h₁ h₂ => ?_, fun n hn e he => ?_⟩
    · rw [hl]
      exact hhome.kernel n hn
    · rw [hl]
      exact hhome.heap n h₁ h₂
    · rw [hl] at he
      exact hhome.within n hn e he

end NekOS
