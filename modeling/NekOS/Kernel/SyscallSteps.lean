import NekOS.Kernel.IpcSteps
import NekOS.Kernel.Syscall

/-!
# What a system call does

The end of each system call in terms of the operation it runs, and the shape of the traps.
-/

namespace NekOS

namespace Kernel

open TaskManager

/-- A system call that returns a value in `a0` ends with the frame to resume. -/
lemma returning_cases {tf : TrapFrame} {f : Fallible Kernel ℕ} {k k' : Kernel}
    {o : Option (FramePtr × TrapFrame)} (h : returning tf f k = some (o, k')) :
    ∃ r, f k = some (r, k') ∧
      o = some (none, match r with | some a => { tf with a0 := a } | none => errorFrame tf) := by
  rw [returning, Fallible.attempt_bind, Option.bind_eq_some_iff] at h
  obtain ⟨⟨r, k₁⟩, hr, h⟩ := h
  cases r with
  | some a =>
    obtain ⟨rfl, rfl⟩ := by simpa using h
    exact ⟨some a, hr, rfl⟩
  | none =>
    obtain ⟨rfl, rfl⟩ := by simpa using h
    exact ⟨none, hr, rfl⟩

/-- A system call that returns zero or the error value. -/
lemma succeeding_cases {tf : TrapFrame} {f : Fallible Kernel Unit} {k k' : Kernel}
    {o : Option (FramePtr × TrapFrame)} (h : succeeding tf f k = some (o, k')) :
    ∃ r, f k = some (r, k') ∧
      o = some (none, match r with | some _ => { tf with a0 := 0 } | none => errorFrame tf) := by
  obtain ⟨r, hr, rfl⟩ := returning_cases h
  rcases Fallible.bind_eq_iff.mp hr with ⟨rfl, h₁⟩ | ⟨u, k₁, h₁, h₂⟩
  · exact ⟨none, h₁, rfl⟩
  · obtain ⟨rfl, rfl⟩ := by simpa using h₂
    exact ⟨some u, h₁, rfl⟩

/-- An IPC operation that may block ends with the frame to resume. -/
lemma blocking_cases {tf : TrapFrame} {f : Fallible Kernel IpcResult} {k k' : Kernel}
    {o : Option (FramePtr × TrapFrame)} (h : blocking tf f k = some (o, k')) :
    ∃ r, f k = some (r, k') ∧
      o = some (match r with
        | some (.resume tf) => (none, tf)
        | some (.blocked next) => (next, tf)
        | none => (none, errorFrame tf)) := by
  rw [blocking, Fallible.attempt_bind, Option.bind_eq_some_iff] at h
  obtain ⟨⟨r, k₁⟩, hr, h⟩ := h
  rcases r with _ | ⟨tf' | next⟩
  all_goals
    obtain ⟨rfl, rfl⟩ := by simpa using h
    exact ⟨_, hr, rfl⟩

/-- A program is looked up and loaded, which touches physical memory only. -/
lemma load_cases {name : String} {k k' : Kernel} {o : Option LoadedImage}
    (h : load name k = some (o, k')) :
    (o = none ∧ k' = k ∧ k.findFile name = none) ∨
    (∃ data ph, k.findFile name = some data ∧ Exec.loadFile data k.phys = some (o, ph) ∧
      k' = { k with phys := ph }) := by
  rw [load, Fallible.gets_bind] at h
  rcases Fallible.ofOption_bind_cases h with ⟨hfile, rfl, rfl⟩ | ⟨data, hdata, h⟩
  · exact Or.inl ⟨rfl, rfl, hfile⟩
  · obtain ⟨ph, hload, rfl⟩ := onPhys_eq_some.mp h
    exact Or.inr ⟨data, ph, hdata, hload, rfl⟩

/-- `spawn` fails in one of its two parts, or registers the loaded image. -/
lemma spawn_cases {name : String} {k k' : Kernel} {o : Option ℕ}
    (h : spawn name k = some (o, k')) :
    (o = none ∧ load name k = some (none, k')) ∨
    (∃ image ph, load name k = some (some image, { k with phys := ph }) ∧
      createUserImage image.pagetable image.userStack image.entry image.imageBase
        image.imageSize { k with phys := ph } = some (o, k')) := by
  rcases Fallible.bind_eq_iff.mp h with ⟨rfl, h₁⟩ | ⟨image, k₁, h₁, h₂⟩
  · exact Or.inl ⟨rfl, h₁⟩
  · rcases load_cases h₁ with ⟨hnone, -⟩ | ⟨data, ph, -, -, rfl⟩
    · simp at hnone
    · exact Or.inr ⟨image, ph, h₁, h₂⟩

/-- `exec` fails in one of its two parts, or gives the current task the loaded image. -/
lemma exec_cases {name : String} {tf : TrapFrame} {k k' : Kernel} {o : Option TrapFrame}
    (h : exec name tf k = some (o, k')) :
    (o = none ∧ load name k = some (none, k')) ∨
    (∃ image ph, load name k = some (some image, { k with phys := ph }) ∧
      replaceCurrent image.pagetable image.userStack image.entry image.imageBase
        image.imageSize tf { k with phys := ph } = some (o, k')) := by
  rcases Fallible.bind_eq_iff.mp h with ⟨rfl, h₁⟩ | ⟨image, k₁, h₁, h₂⟩
  · exact Or.inl ⟨rfl, h₁⟩
  · rcases load_cases h₁ with ⟨hnone, -⟩ | ⟨data, ph, -, -, rfl⟩
    · simp at hnone
    · exact Or.inr ⟨image, ph, h₁, h₂⟩

/-- Reading a byte of the current task records the access. -/
lemma readUser_cases {va : ℕ} {k k' : Kernel} {o : Option UInt8}
    (h : readUser va k = some (o, k')) :
    (o = none ∧ k' = k) ∨ (∃ t pa, k.tm.current = some t ∧
      PageTable.virtToPhys k.phys t.pagetable va = some pa ∧ o = some (k.phys.mem.byteAt pa) ∧
      k' = { k with accesses := k.accessOf t.pagetable va pa false :: k.accesses }) := by
  rw [readUser, readTm_bind] at h
  rcases Fallible.ofOption_bind_cases h with ⟨-, rfl, rfl⟩ | ⟨t, ht, h⟩
  · exact Or.inl ⟨rfl, rfl⟩
  rcases translate_bind_cases h with ⟨-, rfl, rfl⟩ | ⟨pa, hpa, h⟩
  · exact Or.inl ⟨rfl, rfl⟩
  · obtain ⟨rfl, rfl⟩ := readAt_cases h
    exact Or.inr ⟨t, pa, ht, hpa, rfl, rfl⟩

/-- Reading a file name reads a part of the buffer of the current task, and changes nothing but
the record of accesses. -/
lemma readName_cases {va len : ℕ} {k k' : Kernel} {o : Option (List UInt8)}
    (h : readName va len k = some (o, k')) :
    ∃ root n log, (0 < n → ∃ t, k.tm.current = some t ∧ root = t.pagetable) ∧ n ≤ len ∧
      (o.isSome → n = len) ∧ Visited root va n false log ∧
      k' = { k with accesses := log ++ k.accesses } := by
  rw [readName] at h
  induction len generalizing o k' with
  | zero =>
    obtain ⟨rfl, rfl⟩ := by simpa using h
    exact ⟨0, 0, [], fun h => absurd h (lt_irrefl 0), le_rfl, fun _ => rfl, Visited.nil .., rfl⟩
  | succ len ih =>
    rw [Fallible.foldRange_succ] at h
    rcases Fallible.bind_eq_iff.mp h with ⟨rfl, h₁⟩ | ⟨bytes, k₁, h₁, h₂⟩
    · obtain ⟨root, n, log, hroot, hn, -, hvis, rfl⟩ := ih h₁
      exact ⟨root, n, log, hroot, hn.trans (Nat.le_succ _), by simp, hvis, rfl⟩
    · obtain ⟨root, n, log, hroot, -, hn, hvis, rfl⟩ := ih h₁
      obtain rfl := hn rfl
      rcases Fallible.bind_eq_iff.mp h₂ with ⟨rfl, h₃⟩ | ⟨b, k₂, h₃, h₄⟩
      · rcases readUser_cases h₃ with ⟨-, rfl⟩ | ⟨t, pa, -, -, hnone, -⟩
        · exact ⟨root, n, log, hroot, Nat.le_succ _, by simp, hvis, rfl⟩
        · simp at hnone
      · rcases readUser_cases h₃ with ⟨hnone, -⟩ | ⟨t, pa, ht, -, -, rfl⟩
        · simp at hnone
        · obtain ⟨rfl, rfl⟩ := by simpa using h₄
          refine ⟨t.pagetable, n + 1, k.accessOf t.pagetable (wrap (va + n)) pa false :: log,
            fun _ => ⟨t, ht, rfl⟩, le_rfl, fun _ => rfl, ?_, rfl⟩
          have hvis' : Visited t.pagetable va n false log := by
            rcases Nat.eq_zero_or_pos n with rfl | hpos
            · have hlog : log = [] := by simpa using hvis.vas
              subst hlog
              exact Visited.nil ..
            · obtain ⟨t', ht', rfl⟩ := hroot hpos
              have hcurrent : k.tm.current = some t := ht
              rw [ht', Option.some.injEq] at hcurrent
              rw [← hcurrent]
              exact hvis
          exact hvis'.cons rfl rfl rfl

/-- `sys_exec` reads the name and runs `exec`, or fails before. -/
lemma sysExec_cases {va len : ℕ} {tf : TrapFrame} {k k' : Kernel} {o : Option TrapFrame}
    (h : sysExec va len tf k = some (o, k')) :
    ∃ root n log, (0 < n → ∃ t, k.tm.current = some t ∧ root = t.pagetable) ∧ n ≤ min len 63 ∧
      Visited root va n false log ∧
      ((o = none ∧ k' = { k with accesses := log ++ k.accesses }) ∨
       (n = min len 63 ∧ ∃ name,
        exec name tf { k with accesses := log ++ k.accesses } = some (o, k'))) := by
  rcases Fallible.bind_eq_iff.mp h with ⟨rfl, h₁⟩ | ⟨bytes, k₁, h₁, h₂⟩
  · obtain ⟨root, n, log, hroot, hn, -, hvis, rfl⟩ := readName_cases h₁
    exact ⟨root, n, log, hroot, hn, hvis, Or.inl ⟨rfl, rfl⟩⟩
  · obtain ⟨root, n, log, hroot, hn, hlen, hvis, rfl⟩ := readName_cases h₁
    refine ⟨root, n, log, hroot, hn, hvis, ?_⟩
    rcases Fallible.ofOption_bind_cases h₂ with ⟨-, rfl, rfl⟩ | ⟨name, -, h₂⟩
    · exact Or.inl ⟨rfl, rfl⟩
    · exact Or.inr ⟨hlen rfl, name, h₂⟩

end Kernel

namespace System

/-- A system call that the kernel handles. -/
lemma step_ecall {s : System} {tf tf' : TrapFrame} {next : FramePtr} {k' : Kernel}
    (huser : s.hart ≠ idleSlot)
    (h : Kernel.handle tf (storeFrame s.hart tf { s.kernel with accesses := [] }) =
      some (some (next, tf'), k')) :
    s.step (.ecall tf) = some (restore s.hart next tf' k') := by
  have hin : s.inUser = true := by simpa [inUser] using huser
  simp only [step, hin, if_true, trap, h]

end System

end NekOS
