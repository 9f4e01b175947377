import NekOS.Fat32.Reading
import NekOS.Fat32.Table
import Mathlib.Data.Finset.Card

/-!
# Freeing a chain

`free_chain` follows the chain that it destroys.  It visits every cluster that can be reached once, and
notices a cycle because the entry that it comes back to is free.
-/

namespace NekOS

namespace Fs

namespace Fat32Fs

/-- A cluster can be reached by valid links. -/
def LinksTo (fs : Fat32Fs) (d : Disk) : ℕ → ℕ → Prop :=
  Relation.ReflTransGen fun a b => fs.link d a = some b

/-- The disk after the entries of some clusters have been set to free. -/
def freed (fs : Fat32Fs) (d : Disk) (cs : List ℕ) : Disk := fun x =>
  if ∃ c ∈ cs, fs.fatAddr c ≤ x ∧ x < fs.fatAddr c + 4 then 0 else d x

variable {fs : Fat32Fs} {d : Disk} {c cluster x : ℕ} {cs : List ℕ}

/-- Valid links are 32-bit numbers. -/
lemma link_lt (h : fs.link d c = some x) : x < 2 ^ 32 := by
  obtain ⟨o, -, ho⟩ := Option.bind_eq_some_iff.mp h
  cases o with
  | none => cases ho
  | some next =>
    rw [validLink] at ho
    split_ifs at ho with hvalid
    cases ho
    unfold fat32Eoc at hvalid
    omega

/-- What can be reached from a 32-bit number is one. -/
lemma LinksTo.lt (h : fs.LinksTo d cluster c) (hlt : cluster < 2 ^ 32) : c < 2 ^ 32 := by
  cases h with
  | refl => exact hlt
  | tail _ hlink => exact link_lt hlink

/-- The link of a cluster whose entry lies on the disk. -/
lemma link_onDisk (hc : fs.EntryOnDisk c) (d : Disk) :
    fs.link d c = validLink (some (fs.fatEntry d c)) := by
  rw [link, fatNext_onDisk hc, Option.bind_some]

/-- Entries that are not set to free stay as they are. -/
lemma freed_entry (hc : c ∉ cs) : fs.fatEntry (fs.freed d cs) c = fs.fatEntry d c := by
  refine fatEntry_congr fun x hx hlt => if_neg ?_
  rintro ⟨c', hc', hle, hlt'⟩
  refine hc ?_
  obtain rfl : c' = c := by
    unfold fatAddr at *
    omega
  exact hc'

/-- Entries that are set to free are free. -/
lemma freed_entry_mem (hc : c ∈ cs) : fs.fatEntry (fs.freed d cs) c = fat32Free := by
  have hzero : Bytes.Agree Bytes.zero (fs.freed d cs) (fs.fatAddr c) 4 := fun x hx hlt =>
    if_pos ⟨c, hc, hx, hlt⟩
  have hload : Bytes.zero.load (fs.fatAddr c) 4 = 0 := rfl
  rw [fatEntry, hzero.load_eq, hload]
  rfl

/-- Setting an entry to free stores zeros. -/
lemma setEntry_free (x : ℕ) : fs.setEntry d c fat32Free x =
    if fs.fatAddr c ≤ x ∧ x < fs.fatAddr c + 4 then 0 else d x := by
  by_cases hin : fs.fatAddr c ≤ x ∧ x < fs.fatAddr c + 4
  · have hcases : x = fs.fatAddr c ∨ x = fs.fatAddr c + 1 ∨ x = fs.fatAddr c + 1 + 1 ∨
        x = fs.fatAddr c + 1 + 1 + 1 := by omega
    rw [if_pos hin, setEntry]
    rcases hcases with rfl | rfl | rfl | rfl <;> simp [Bytes.store, fat32Free, Function.update_apply]
  · rw [if_neg hin, setEntry_apply (by omega)]

/-- Setting one more entry to free. -/
lemma setEntry_freed : fs.setEntry (fs.freed d cs) c fat32Free = fs.freed d (cs ++ [c]) := by
  funext x
  rw [setEntry_free]
  by_cases hin : fs.fatAddr c ≤ x ∧ x < fs.fatAddr c + 4
  · rw [if_pos hin]
    exact (if_pos ⟨c, by simp, hin⟩).symm
  · rw [if_neg hin]
    refine if_congr ?_ rfl rfl
    constructor
    · rintro ⟨c', hc', h⟩
      exact ⟨c', List.mem_append_left _ hc', h⟩
    · rintro ⟨c', hc', h⟩
      rcases List.mem_append.mp hc' with hc' | hc'
      · exact ⟨c', hc', h⟩
      · rw [List.mem_singleton.mp hc'] at h
        exact absurd h hin

/-- Setting an entry to free a second time. -/
lemma setEntry_freed_mem (hc : c ∈ cs) : fs.setEntry (fs.freed d cs) c fat32Free = fs.freed d cs := by
  funext x
  rw [setEntry_free]
  by_cases hin : fs.fatAddr c ≤ x ∧ x < fs.fatAddr c + 4
  · rw [if_pos hin]
    exact (if_pos ⟨c, hc, hin⟩).symm
  · rw [if_neg hin]

/-- There are not more entries on the disk than it has words. -/
lemma length_onDisk (hnodup : cs.Nodup) (hdisk : ∀ c ∈ cs, fs.EntryOnDisk c) :
    cs.length ≤ ramdiskSize := by
  have hsub : cs.toFinset ⊆ Finset.range ramdiskSize := fun c hc => by
    have hlt := hdisk c (List.mem_toFinset.mp hc)
    unfold EntryOnDisk fatAddr at hlt
    exact Finset.mem_range.mpr (by omega)
  have hcard := Finset.card_le_card hsub
  rwa [List.toFinset_card_of_nodup hnodup, Finset.card_range] at hcard

/-- What `free_chain` has done after some rounds: it has followed a path and set the entries on it to
free. -/
structure FreeAt (fs : Fat32Fs) (d : Disk) (cluster : ℕ) (cs : List ℕ) (s : ℕ × ℕ × Disk) : Prop where
  path : Path (fs.link d) cluster cs s.1
  nodup : cs.Nodup
  onDisk : ∀ c ∈ cs, fs.EntryOnDisk c
  count : s.2.1 = cs.length
  disk : s.2.2 = fs.freed d cs

/-- What `free_chain` has done in the end. -/
structure Freed (fs : Fat32Fs) (d : Disk) (cluster count : ℕ) (d' : Disk) (cs : List ℕ) : Prop where
  disk : d' = fs.freed d cs
  mem_iff : ∀ c, c ∈ cs ↔ fs.LinksTo d cluster c ∧ fs.EntryOnDisk c
  count : ∀ l, Chain (fs.link d) cluster l → cs = l.filter fs.EntryOnDisk ∧ count = cs.length

/-- **Freeing a chain.**  The loop ends, and it sets the entries of the clusters that can be reached to
free. -/
theorem freeChain_spec (hfat : fs.fatStart < 2 ^ 16) (hlt : cluster < 2 ^ 32) (hge : 2 ≤ cluster)
    (d : Disk) : ∃ count d' cs, fs.freeChain d cluster = some (count, d') ∧
      fs.Freed d cluster count d' cs := by
  rw [freeChain, if_neg (by omega)]
  generalize hrun : Flow.loop _ loopRounds (cluster, 0, d) = o
  suffices h : ∃ r, o = some r ∧ ∃ count d' cs, r = some (count, d') ∧ fs.Freed d cluster count d' cs by
    obtain ⟨_, rfl, count, d', cs, rfl, hfreed⟩ := h
    exact ⟨count, d', cs, rfl, hfreed⟩
  rw [← hrun]
  have hsize : ramdiskSize < 2 ^ 31 := by decide
  refine Flow.loop_spec (I := fun k s => ∃ cs, k = ramdiskSize - cs.length ∧ fs.FreeAt d cluster cs s)
    (k := ramdiskSize) ?_ (by unfold loopRounds; omega)
    ⟨[], rfl, .nil, List.nodup_nil, fun c hc => absurd hc List.not_mem_nil, rfl,
      by funext x; exact (if_neg (by simp)).symm⟩
  rintro k ⟨cur, count, d'⟩ ⟨cs, rfl, hpath, hnodup, hdisk, hcount, rfl⟩
  obtain rfl : count = cs.length := hcount
  have hcur : cur < 2 ^ 32 := LinksTo.lt hpath.reach.1 hlt
  have hlen := length_onDisk hnodup hdisk
  have hwrap : wrap32 (cs.length + 1) = cs.length + 1 := wrap32_of_lt (by omega)
  dsimp only
  by_cases hon : fs.EntryOnDisk cur
  · rw [fatNext_onDisk hon]
    dsimp only
    rw [fatSet_onDisk hon]
    dsimp only
    rw [hwrap]
    by_cases hmem : cur ∈ cs
    · -- The chain comes back to a cluster that is free by now.
      rw [freed_entry_mem hmem, setEntry_freed_mem hmem]
      refine ⟨cs.length + 1, _, cs, rfl, rfl, fun c => ⟨fun hc => ⟨hpath.reach.2 c hc, hdisk c hc⟩,
        fun hc => ?_⟩, fun l hl => ?_⟩
      · rcases hpath.reach_mem (Or.inl hmem) hc.1 with hc' | rfl
        · exact hc'
        · exact hmem
      · obtain ⟨rest, rfl, -⟩ := hpath.along_chain hl
        have hnodup' := hl.nodup
        exact absurd rfl ((List.nodup_append.mp hnodup').2.2 cur hmem cur (List.mem_cons_self ..))
    · rw [freed_entry hmem, setEntry_freed, ← link_onDisk hon]
      have hnodup' : (cs ++ [cur]).Nodup :=
        List.nodup_append.mpr ⟨hnodup, List.nodup_singleton _, fun x hx y hy hxy => by
          rw [hxy, List.mem_singleton.mp hy] at hx
          exact hmem hx⟩
      have hdisk' : ∀ c ∈ cs ++ [cur], fs.EntryOnDisk c := fun c hc => by
        rcases List.mem_append.mp hc with hc | hc
        · exact hdisk c hc
        · rw [List.mem_singleton.mp hc]
          exact hon
      have hlen' := length_onDisk hnodup' hdisk'
      rw [List.length_append, List.length_singleton] at hlen'
      cases hlink : fs.link d cur with
      | none =>
        refine ⟨cs.length + 1, _, cs ++ [cur], rfl, rfl, fun c => ⟨fun hc => ⟨?_, hdisk' c hc⟩,
          fun hc => ?_⟩, fun l hl => ?_⟩
        · rcases List.mem_append.mp hc with hc | hc
          · exact hpath.reach.2 c hc
          · rw [List.mem_singleton.mp hc]
            exact hpath.reach.1
        · rcases hpath.reach_mem (Or.inr hlink) hc.1 with hc' | rfl
          · exact List.mem_append_left _ hc'
          · exact List.mem_append_right _ (List.mem_singleton_self _)
        · obtain ⟨rest, rfl, hrest⟩ := hpath.along_chain hl
          cases hrest with
          | last => exact ⟨(List.filter_eq_self.mpr fun c hc => by simpa using hdisk' c hc).symm, by simp⟩
          | link hsome => rw [hlink] at hsome; cases hsome
      | some next =>
        refine ⟨_, ?_, cs ++ [cur], rfl, hpath.snoc hlink, hnodup', hdisk', by simp, rfl⟩
        rw [List.length_append, List.length_singleton]
        omega
  · rw [fatNext_offDisk hon hfat hcur]
    have hlink : fs.link d cur = none := by rw [link, fatNext_offDisk hon hfat hcur]; rfl
    refine ⟨cs.length, _, cs, rfl, rfl, fun c => ⟨fun hc => ⟨hpath.reach.2 c hc, hdisk c hc⟩,
      fun hc => ?_⟩, fun l hl => ?_⟩
    · rcases hpath.reach_mem (Or.inr hlink) hc.1 with hc' | rfl
      · exact hc'
      · exact absurd hc.2 hon
    · obtain ⟨rest, rfl, hrest⟩ := hpath.along_chain hl
      cases hrest with
      | last =>
        rw [List.filter_append, List.filter_cons_of_neg (by simpa using hon), List.filter_nil,
          List.append_nil]
        exact ⟨(List.filter_eq_self.mpr fun c hc => by simpa using hdisk c hc).symm, rfl⟩
      | link hsome => rw [hlink] at hsome; cases hsome

/-- **What `free_chain` frees.**  For every disk it ends; it clears the entries of the clusters that can be
reached by valid links and no other byte, so that it changes no data if those entries lie before the data
area; and for a chain without a cycle it returns the number of entries that it has cleared. -/
theorem free_chain_exact {sector : Bytes} (hopen : openFs sector = some (some fs)) (d : Disk)
    (hlt : cluster < 2 ^ 32) :
    ∃ count d', fs.freeChain d cluster = some (count, d') ∧
      (∀ x, (d' x = 0 ∧ ∃ c, 2 ≤ cluster ∧ fs.LinksTo d cluster c ∧ fs.EntryOnDisk c ∧
          fs.fatAddr c ≤ x ∧ x < fs.fatAddr c + 4) ∨
        (d' x = d x ∧ ¬ ∃ c, 2 ≤ cluster ∧ fs.LinksTo d cluster c ∧ fs.EntryOnDisk c ∧
          fs.fatAddr c ≤ x ∧ x < fs.fatAddr c + 4)) ∧
      ((∀ c, fs.LinksTo d cluster c → fs.fatAddr c + 4 ≤ fs.dataStart * blockSize) →
        ∀ x, fs.dataStart * blockSize ≤ x → d' x = d x) ∧
      ∀ cs, 2 ≤ cluster → Chain (fs.link d) cluster cs →
        count = (cs.filter fs.EntryOnDisk).length := by
  obtain ⟨-, -, hfat, -⟩ := open_spec hopen
  by_cases hge : 2 ≤ cluster
  · obtain ⟨count, d', cs, hrun, rfl, hmem, hcount⟩ := freeChain_spec hfat hlt hge d
    have hbytes : ∀ x, (fs.freed d cs x = 0 ∧ ∃ c, 2 ≤ cluster ∧ fs.LinksTo d cluster c ∧
        fs.EntryOnDisk c ∧ fs.fatAddr c ≤ x ∧ x < fs.fatAddr c + 4) ∨
        (fs.freed d cs x = d x ∧ ¬ ∃ c, 2 ≤ cluster ∧ fs.LinksTo d cluster c ∧ fs.EntryOnDisk c ∧
          fs.fatAddr c ≤ x ∧ x < fs.fatAddr c + 4) := fun x => by
      by_cases hin : ∃ c ∈ cs, fs.fatAddr c ≤ x ∧ x < fs.fatAddr c + 4
      · obtain ⟨c, hc, hx⟩ := hin
        obtain ⟨hreach, hon⟩ := (hmem c).mp hc
        exact Or.inl ⟨if_pos ⟨c, hc, hx⟩, c, hge, hreach, hon, hx⟩
      · refine Or.inr ⟨if_neg hin, ?_⟩
        rintro ⟨c, -, hreach, hon, hx⟩
        exact hin ⟨c, (hmem c).mpr ⟨hreach, hon⟩, hx⟩
    refine ⟨count, fs.freed d cs, hrun, hbytes, fun hinside x hx => ?_, fun l _ hl => ?_⟩
    · rcases hbytes x with ⟨-, c, -, hreach, -, -, hlt'⟩ | ⟨heq, -⟩
      · have := hinside c hreach
        omega
      · exact heq
    · obtain ⟨rfl, rfl⟩ := hcount l hl
      rfl
  · refine ⟨0, d, by rw [freeChain, if_pos (by omega)], fun x => Or.inr ⟨rfl, ?_⟩, fun _ _ _ => rfl,
      fun _ h => absurd h hge⟩
    rintro ⟨c, h, -⟩
    exact hge h

/-- The theorem for the file of the sample. -/
theorem free_chain_exact_sample :
    ∃ count d', pairedFs.freeChain pairedDisk 2 = some (count, d') ∧ count = 1 := by
  obtain ⟨count, d', hrun, -, -, hcount⟩ :=
    free_chain_exact pairedBoot_open pairedDisk (show 2 < 2 ^ 32 by decide)
  exact ⟨count, d', hrun, (hcount [2] le_rfl pairedDisk_chain).trans (by decide)⟩

end Fat32Fs

end Fs

end NekOS
