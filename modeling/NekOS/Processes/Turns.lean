import NekOS.Ipc.Returns
import NekOS.Scheduling.RoundRobin

/-!
# Turns on the hart

`schedule` goes round robin in every state reached (`round_robin`): timer interrupts give the hart to
every ready task once before the first one comes again, each saves the registers of the task that it
interrupts, and none of them gets stuck.
-/

namespace NekOS

open TaskManager

namespace TaskManager

/-- The turns depend on which tasks are runnable alone. -/
lemma turns_congr {m m' : TaskManager} (i : Fin maxTasks)
    (h : ∀ j, (m'.tasks j).any Task.runnable = (m.tasks j).any Task.runnable) :
    m'.turns i = m.turns i := by
  rw [turns, turns, funext h]

end TaskManager

/-- The turns at the start of the sample machine. -/
lemma Sample.turns_start (x : Sample) : x.start.kernel.tm.turns x.start.hart =
    [⟨1, by decide⟩, ⟨2, by decide⟩, ⟨3, by decide⟩] := by
  have hrunnable : (fun j => (x.start.kernel.tm.tasks j).any Task.runnable) =
      fun j => decide (1 ≤ j.val ∧ j.val ≤ 3) := funext fun j => by fin_cases j <;> rfl
  rw [turns, hrunnable, show x.start.hart = ⟨3, by decide⟩ from rfl]
  decide

namespace System

variable {strict : Bool} {s : System}

/-- Saving a frame leaves the turns alone. -/
lemma turns_storeFrame (i : Fin maxTasks) (tf : TrapFrame) (k : Kernel) :
    (storeFrame i tf k).tm.turns i = k.tm.turns i := by
  refine turns_congr i fun j => ?_
  by_cases hj : j = i
  · subst hj
    cases ht : k.tm.tasks j <;> simp [storeFrame, updateTask, setTask, ht, Task.runnable]
  · rw [storeFrame, tasks_updateTask_of_ne hj]

/-- **Step lemma.**  A timer interrupt goes through and gives the hart to the task whose turn is
next. -/
lemma Scheduled.timer_turns (hs : s.Scheduled) (hh : s.kernel.Housed strict) (tf : TrapFrame) :
    ∃ t, s.step (.timer tf) = some t ∧ t.Scheduled ∧ t.kernel.Housed strict ∧
      t.hart = (s.kernel.tm.turns s.hart).headD idleSlot ∧
      ∀ j l, s.kernel.tm.turns s.hart = j :: l → t.kernel.tm.turns j = l ++ [j] := by
  have hframed : Framed s.hart s.kernel.tm (storeFrame s.hart tf s.kernel).tm := Or.inr ⟨tf, rfl⟩
  obtain ⟨hcore, hruns⟩ := hframed.core hs.core hs.runs
  have hturns := turns_storeFrame s.hart tf s.kernel
  obtain ⟨next, k', hrun⟩ := (housed_storeFrame hh s.hart tf).schedule_returns tf
  have hhoused := (housed_storeFrame hh s.hart tf).schedule hrun
  obtain ⟨hnext, ph, -, rfl⟩ := Kernel.schedule_cases hrun
  obtain ⟨j, a, hj, -, hsched, -⟩ := hcore.resched_eq hruns tf
  rw [hsched, Option.some.injEq] at hnext
  subst hnext
  obtain ⟨hcore', hruns'⟩ := hcore.runsIn_resched hsched
  refine ⟨⟨_, j⟩, ?_, ⟨hcore', hruns'⟩, hhoused, by rw [← hturns, ← hj], fun l rest hl => ?_⟩
  · rw [step, trap, timerHandler, Fallible.bind_of_some hrun]
    rfl
  · rw [← hturns] at hl
    exact (hcore.turns_resched hruns tf hl).2

/-- **Run lemma.**  Timer interrupts give the hart to the tasks in turn. -/
lemma Scheduled.timers_turn (hs : s.Scheduled) (hh : s.kernel.Housed strict) {tfs : List TrapFrame}
    (hlen : tfs.length ≤ (s.kernel.tm.turns s.hart).length) :
    ∃ t, nekos.run s (tfs.map .timer) = some t ∧ t.Scheduled ∧ t.kernel.Housed strict ∧
      (s.hart :: s.kernel.tm.turns s.hart)[tfs.length]? = some t.hart := by
  induction tfs generalizing s with
  | nil => exact ⟨s, rfl, hs, hh, rfl⟩
  | cons tf tfs ih =>
    obtain ⟨t, hstep, ht, hht, hhart, hturns⟩ := hs.timer_turns hh tf
    cases hl : s.kernel.tm.turns s.hart with
    | nil => simp [hl] at hlen
    | cons j l =>
      rw [hl, List.headD_cons] at hhart
      rw [hl, List.length_cons, List.length_cons, Nat.succ_le_succ_iff] at hlen
      have hnext := hturns j l hl
      rw [← hhart] at hnext
      obtain ⟨u, hrun, hu, hhu, hget⟩ := ih ht hht (by rw [hnext, List.length_append]; omega)
      refine ⟨u, Machine.run_cons_eq_some.mpr ⟨t, hstep, hrun⟩, hu, hhu, ?_⟩
      rw [hnext, ← List.cons_append, List.getElem?_append_left (by rw [List.length_cons]; omega)] at hget
      rw [List.length_cons, List.getElem?_cons_succ, ← hhart, hget]

/-- Timer interrupts put every runnable task on the hart. -/
lemma Scheduled.timers_reach (hs : s.Scheduled) (hh : s.kernel.Housed strict) {j : Fin maxTasks}
    (hj : (s.kernel.tm.tasks j).any Task.runnable = true) : ∃ tfs : List TrapFrame, ∃ t,
      nekos.run s (tfs.map .timer) = some t ∧ t.Scheduled ∧ t.kernel.Housed strict ∧ t.hart = j := by
  obtain ⟨n, hn, hget⟩ := List.mem_iff_getElem.mp (mem_turns (i := s.hart).mpr hj)
  have hlen : (List.replicate (n + 1) TrapFrame.new).length ≤ (s.kernel.tm.turns s.hart).length := by
    simpa [Nat.succ_le_iff] using hn
  obtain ⟨t, hrun, ht, hht, hhart⟩ := hs.timers_turn hh hlen
  rw [List.length_replicate, List.getElem?_cons_succ, List.getElem?_eq_getElem hn, hget] at hhart
  exact ⟨_, t, hrun, ht, hht, (Option.some.inj hhart).symm⟩

/-- Timer interrupts meet every condition that asks nothing of them. -/
lemma runOk_timers {ok : System → Event → Prop} (hok : ∀ t tf, ok t (.timer tf))
    (tfs : List TrapFrame) (s : System) : nekos.RunOk ok s (tfs.map .timer) := by
  refine Machine.RunOk.of_forall (fun e he t => ?_) s
  obtain ⟨tf, -, rfl⟩ := List.mem_map.mp he
  exact hok t tf

/-- A system call that starts no program goes through when all tasks are housed and its buffers are
clear of the kernel. -/
lemma exists_ecall (hs : nekos.Reaches FreshPid s) (hh : s.kernel.Housed strict) (tf : TrapFrame)
    {call : Sysno} (huser : s.inUser = true) (hcall : Sysno.decode tf.a7 = some call)
    (hexec : call ≠ .exec) (hshutdown : call ≠ .shutdown) (hclear : s.KeepsApart (.ecall tf)) :
    ∃ t, s.step (.ecall tf) = some t := by
  have hsched := scheduled_of_reaches hs
  have hframed : Framed s.hart s.kernel.tm (s.entry tf).tm := Or.inr ⟨tf, rfl⟩
  obtain ⟨hcore, hruns⟩ := hframed.core hsched.core hsched.runs
  have hhoused : (s.entry tf).Housed strict :=
    housed_storeFrame (k := { s.kernel with accesses := [] })
      (hh.sameHomes (SameHomes.refl _) rfl) s.hart tf
  exact hsched.step_of_finishes huser <| hhoused.finishes_handle hcore hruns (hsched.onHart.user huser)
    (hframed.payloadsFit (payloadsFit_of_reaches hs)) hclear hcall hexec hshutdown

end System

end NekOS
