import NekOS.Fat32.Adding
import NekOS.Fat32.Deleting

/-!
# Directories without long names

The slots of a directory that has short names alone are free or short entries, and the slots behind its end
mark the end.  All operations with short names keep this.
-/

namespace NekOS

namespace Fs

/-- Slots without parts of long names. -/
structure Plain (es : List DirEntry) : Prop where
  short : ∀ e ∈ es, e.Free ∨ e.attr ≠ attrLfn
  ends : es.Pairwise fun a b => a.byte 0 = slotEnd → b.byte 0 = slotEnd

namespace Plain

variable {e : DirEntry} {es es' ends : List DirEntry}

/-- They are tidy. -/
lemma tidy (h : Plain es) : Tidy none es := by
  obtain ⟨hshort, hends⟩ := h
  induction es with
  | nil => trivial
  | cons e es ih =>
    obtain ⟨he, hes⟩ := List.forall_mem_cons.mp hshort
    obtain ⟨hend, hends⟩ := List.pairwise_cons.mp hends
    rw [Tidy]
    split_ifs with h₁ h₂ h₃
    · exact fun e' he' => hend e' he' h₁
    · exact ih hes hends
    · exact absurd h₃ (he.resolve_left (not_or.mpr ⟨h₁, h₂⟩))
    · exact ih hes hends

/-- Slots that mark the end behind them. -/
lemma append_end (h : Plain es) (hends : ∀ e ∈ ends, e.byte 0 = slotEnd) : Plain (es ++ ends) := by
  refine ⟨fun e he => ?_, List.pairwise_append.mpr ⟨h.ends, ?_, fun _ _ e he _ => hends e he⟩⟩
  · exact (List.mem_append.mp he).elim (h.short e) fun he => Or.inl (Or.inl (hends e he))
  · exact List.pairwise_of_forall_mem_list fun _ _ e he _ => hends e he

/-- What holds of related lists. -/
lemma forall_mem_of {P Q : DirEntry → Prop} {r : DirEntry → DirEntry → Prop} (h : List.Forall₂ r es es')
    (hr : ∀ a b, r a b → P a → Q b) (hP : ∀ a ∈ es, P a) : ∀ b ∈ es', Q b := by
  induction h with
  | nil => exact nofun
  | cons hab _ ih =>
    obtain ⟨ha, has⟩ := List.forall_mem_cons.mp hP
    exact List.forall_mem_cons.mpr ⟨hr _ _ hab ha, ih has⟩

/-- A change of slots that neither changes the end nor adds long names. -/
def Harmless (a b : DirEntry) : Prop :=
  (b.byte 0 = slotEnd ↔ a.byte 0 = slotEnd) ∧ (a.Free ∨ a.attr ≠ attrLfn → b.Free ∨ b.attr ≠ attrLfn)

/-- Such changes keep directories without long names. -/
lemma harmless (h : Plain es) (hchange : List.Forall₂ Harmless es es') : Plain es' := by
  obtain ⟨hshort, hends⟩ := h
  refine ⟨forall_mem_of hchange (fun _ _ hab => hab.2) hshort, ?_⟩
  clear hshort
  induction hchange with
  | nil => exact .nil
  | cons hab htail ih =>
    obtain ⟨hend, hends⟩ := List.pairwise_cons.mp hends
    refine List.pairwise_cons.mpr ⟨fun b' hb' hbe => ?_, ih hends⟩
    exact forall_mem_of htail (fun _ _ hab' => hab'.1.mpr) (fun a' ha' => hend a' ha' (hab.1.mp hbe)) b' hb'

end Plain

/-- Entries are not free. -/
lemma entry_used {q : ℕ × Found} {k : ℕ} {lfn : Lfn} {es : List DirEntry} (hq : q ∈ entriesFrom k lfn es) :
    ¬ q.2.1.Free ∧ q.2.1.attr ≠ attrLfn := by
  induction es generalizing k lfn with
  | nil => cases hq
  | cons e es ih =>
    rw [entriesFrom] at hq
    split_ifs at hq with h₁ h₂ h₃
    · cases hq
    · exact ih hq
    · exact ih hq
    · rcases List.mem_cons.mp hq with rfl | hq
      · exact ⟨not_or.mpr ⟨h₁, h₂⟩, h₃⟩
      · exact ih hq

namespace Fat32Fs

variable {fs : Fat32Fs} {d d' : Disk} {cluster : ℕ} {cs : List ℕ} {longName : Str} {shortName : List UInt8}
  {attr : UInt8} {firstCluster fileSize : ℕ} {e : DirEntry} {name : List UInt8} {es es' : List DirEntry}

/-- A new entry without a long name. -/
lemma EntryPut.plain (h : EntryPut longName shortName attr firstCluster fileSize e name es es')
    (hnone : lfnCount longName = 0) (hplain : Plain es) : Plain es' := by
  obtain ⟨before, old, behind, new, rfl, rfl, hend, -, hitem, hlen, hold⟩ := h.placed
  obtain ⟨x, rfl⟩ : ∃ x, new = [x] := List.length_eq_one_iff.mp (by omega)
  obtain ⟨o, rfl⟩ : ∃ o, old = [o] := List.length_eq_one_iff.mp (by omega)
  obtain ⟨h₁, h₂⟩ := not_or.mp (hitem.used x (List.mem_singleton_self x))
  have hx : x.attr ≠ attrLfn := by
    have hentries := hitem.entries Lfn.init rfl 0
    rw [entriesFrom, if_neg h₁, if_neg h₂] at hentries
    split_ifs at hentries with h₃
    · cases hentries
    · exact h₃
  obtain ⟨hshort, hends⟩ := hplain
  obtain ⟨hbefore, hrest, -⟩ := List.pairwise_append.mp hends
  obtain ⟨-, hbehind⟩ := List.pairwise_cons.mp hrest
  refine ⟨fun y hy => ?_, List.pairwise_append.mpr ⟨hbefore, List.pairwise_cons.mpr
    ⟨fun _ _ hxe => absurd hxe h₁, hbehind⟩, fun y hy _ _ hye => absurd hye (hend y hy)⟩⟩
  rcases List.mem_append.mp hy with hy | hy
  · exact hshort y (List.mem_append_left _ hy)
  · rcases List.mem_cons.mp hy with rfl | hy
    · exact Or.inr hx
    · exact hshort y (List.mem_append_right _ (List.mem_cons_of_mem _ hy))

/-- The slots of a directory on two disks, one by one. -/
lemma slots_forall₂ {r : DirEntry → DirEntry → Prop}
    (h : ∀ p < fs.slotCount cs, r (DirEntry.read d (fs.slotAddr cs p)) (DirEntry.read d' (fs.slotAddr cs p))) :
    List.Forall₂ r (slotsOf d (fs.dirSectors cs)) (slotsOf d' (fs.dirSectors cs)) := by
  rw [dirSlots_eq, dirSlots_eq, List.forall₂_map_left_iff, List.forall₂_map_right_iff, List.forall₂_same]
  intro p hp
  have hlt := (List.mem_range'_1.mp hp).2
  exact h p (by rwa [Nat.zero_add] at hlt)

namespace Directory

/-- A slot that is marked as deleted. -/
lemma plain_marked (h : fs.Directory d cluster cs) (hplain : Plain (slotsOf d (fs.dirSectors cs)))
    {q : ℕ × Found} (hq : q ∈ fs.listing d cs) :
    Plain (slotsOf (d.set (fs.slotAddr cs q.1) slotDeleted) (fs.dirSectors cs)) := by
  obtain ⟨hlt, hread⟩ := position_lt hq
  refine hplain.harmless (slots_forall₂ fun p hp => ?_)
  by_cases hpq : p = q.1
  · subst hpq
    have hmark : (DirEntry.read (d.set (fs.slotAddr cs q.1) slotDeleted) (fs.slotAddr cs q.1)).byte 0 =
        slotDeleted := by rw [DirEntry.byte_read (by omega), Nat.add_zero, Bytes.set_self]
    have hused : (DirEntry.read d (fs.slotAddr cs q.1)).byte 0 ≠ slotEnd := by
      rw [← hread]
      exact fun h => (entry_used hq).1 (Or.inl h)
    refine ⟨⟨fun h => ?_, fun h => absurd h hused⟩, fun _ => Or.inl (Or.inr hmark)⟩
    rw [hmark] at h
    exact absurd h (by decide)
  · have hsame : DirEntry.read (d.set (fs.slotAddr cs q.1) slotDeleted) (fs.slotAddr cs p) =
        DirEntry.read d (fs.slotAddr cs p) := funext fun i => by
      have hi := i.isLt
      have hapart := h.slotAddr_apart hp hlt hpq
      exact Bytes.set_ne (by omega)
    rw [hsame]
    exact ⟨Iff.rfl, id⟩

/-- Entries that get a size and a first cluster. -/
lemma plain_resized (h : fs.Directory d cluster cs) (hplain : Plain (slotsOf d (fs.dirSectors cs)))
    (hbytes : ∀ x, d' x ≠ d x → ∃ q ∈ fs.listing d cs, fs.slotAddr cs q.1 + 20 ≤ x ∧
      x < fs.slotAddr cs q.1 + 32) : Plain (slotsOf d' (fs.dirSectors cs)) := by
  refine hplain.harmless (slots_forall₂ fun p hp => ?_)
  have hsame : ∀ i < 20, (DirEntry.read d' (fs.slotAddr cs p)).byte i =
      (DirEntry.read d (fs.slotAddr cs p)).byte i := fun i hi => by
    rw [DirEntry.byte_read (by omega), DirEntry.byte_read (by omega)]
    by_contra hne
    obtain ⟨q, hq, hle, hlt⟩ := hbytes _ hne
    by_cases hpq : p = q.1
    · subst hpq
      omega
    · have hapart := h.slotAddr_apart hp (position_lt hq).1 hpq
      omega
  have hattr : (DirEntry.read d' (fs.slotAddr cs p)).attr = (DirEntry.read d (fs.slotAddr cs p)).attr :=
    hsame 11 (by decide)
  unfold Plain.Harmless DirEntry.Free
  rw [hsame 0 (by decide), hattr]
  exact ⟨Iff.rfl, id⟩

end Directory

end Fat32Fs

end Fs

end NekOS
