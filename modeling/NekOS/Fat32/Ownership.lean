import NekOS.Fat32.Keeping
import NekOS.Fat32.FileStore
import NekOS.Fat32.Freeing
import NekOS.Foundation.Owners

/-!
# Who owns the clusters

The clusters in use are divided among the root directory and the files: each belongs to one chain.  What the
operations do to one chain keeps the others.
-/

namespace NekOS

namespace Fs

namespace Fat32Fs

/-- A cluster that the allocator can hand out. -/
def Allocatable (fs : Fat32Fs) (c : ℕ) : Prop := 2 ≤ c ∧ c < fs.totalClusters

/-- The clusters that are in use belong to the root directory, which is the owner `none`, and to the files, whose
numbers are their first clusters. -/
structure Owned (fs : Fat32Fs) (d : Disk) (own : Option ℕ → List ℕ) : Prop where
  sound : fs.Sound
  chain : ∀ o, own o ≠ [] → Chain (fs.link d) (o.getD fs.rootCluster) (own o)
  root : own none ≠ []
  range : ∀ o, ∀ c ∈ own o, fs.Allocatable c
  divides : Divides (fun c => fs.IsCluster c ∧ fs.fatEntry d c ≠ fat32Free) own

/-- The contents of a chain, if there is one. -/
def content (fs : Fat32Fs) (d : Disk) (cs : List ℕ) : Option Content :=
  if cs = [] then none else some ⟨fs.chainLength cs, fs.fileByte d cs⟩

variable {fs : Fat32Fs} {d d' : Disk} {own : Option ℕ → List ℕ} {o o' : Option ℕ} {a c new : ℕ}
  {cs rest tail l : List ℕ}

/-- The contents of a chain that is kept. -/
lemma Kept.content_eq (h : fs.Kept d d' cs) (hs : fs.Sound) : fs.content d' cs = fs.content d cs := by
  have hbyte : fs.fileByte d' cs = fs.fileByte d cs := funext fun p => by
    unfold fileByte
    split_ifs with hp
    · obtain ⟨hlt, hbyte⟩ := chainByte_place (d := d) hp
      obtain ⟨_, hbyte'⟩ := chainByte_place (d := d') hp
      rw [hbyte, hbyte']
      exact (h _ (List.get_mem ..)).2 _ (Nat.mod_lt _ hs.clusterSize_pos)
    · rfl
  rw [content, content, hbyte]

/-- Nothing is freed. -/
lemma freed_nil : fs.freed d [] = d := funext fun x => if_neg fun ⟨c, hc, _⟩ => by cases hc

/-- What is free after some clusters have been freed. -/
lemma freeClusters_freed (hnodup : l.Nodup)
    (hl : ∀ c ∈ l, fs.Allocatable c ∧ fs.fatEntry d c ≠ fat32Free) :
    (fs.freeClusters (fs.freed d l)).length = (fs.freeClusters d).length + l.length := by
  have happend : (fs.freeClusters d ++ l).Nodup := List.nodup_append.mpr ⟨freeClusters_nodup fs d, hnodup,
    fun c hc c' hc' heq => (hl c' hc').2 (heq ▸ (mem_freeClusters.mp hc).2.2)⟩
  have hperm : (fs.freeClusters (fs.freed d l)).Perm (fs.freeClusters d ++ l) := by
    refine (List.perm_ext_iff_of_nodup (freeClusters_nodup fs _) happend).mpr fun c => ?_
    rw [List.mem_append, mem_freeClusters, mem_freeClusters]
    by_cases hc : c ∈ l
    · obtain ⟨⟨h₁, h₂⟩, -⟩ := hl c hc
      exact iff_of_true ⟨h₁, h₂, freed_entry_mem hc⟩ (Or.inr hc)
    · rw [freed_entry hc, or_iff_left hc]
  rw [hperm.length_eq, List.length_append]

/-- What is free if some of the free clusters have been taken. -/
lemma freeClusters_taken {p : ℕ → Prop} [DecidablePred p]
    (h : ∀ c, fs.IsCluster c → (fs.fatEntry d' c = fat32Free ↔ fs.fatEntry d c = fat32Free ∧ p c)) :
    fs.freeClusters d' = (fs.freeClusters d).filter p := by
  rw [freeClusters, freeClusters, List.filter_filter]
  refine List.filter_congr fun c hc => ?_
  rw [List.mem_range'_1] at hc
  rw [decide_eq_decide.mpr (h c ⟨by omega, by omega⟩), Bool.decide_and, Bool.and_comm]

/-- A cluster that is ended and cleared, after some others have been freed. -/
lemma fatEntry_renewed (hs : fs.Sound) (hc : fs.IsCluster c) :
    fs.fatEntry (fs.allocated (fs.freed d tail) a) c =
      if c = a then fat32Eoc else if c ∈ tail then fat32Free else fs.fatEntry d c := by
  rw [hs.fatEntry_allocated hc]
  split_ifs with h₁ h₂
  · rfl
  · exact freed_entry_mem h₂
  · exact freed_entry h₂

/-- The chains of other clusters are kept then. -/
lemma kept_renewed (hs : fs.Sound) (ha : fs.IsCluster a) (htail : ∀ c ∈ tail, fs.IsCluster c)
    (hl : ∀ c ∈ l, fs.IsCluster c) (hapart : l.Disjoint (a :: tail)) :
    fs.Kept d (fs.allocated (fs.freed d tail) a) l := fun c hc => by
  obtain ⟨hne, hnot⟩ := not_or.mp fun hor => hapart hc (List.mem_cons.mpr hor)
  have hdata : fs.dataStart * blockSize ≤ fs.clusterAddr c := le_clusterAddr
  have hentry := hs.fatAddr_le ha
  refine ⟨by rw [fatEntry_renewed hs (hl c hc), if_neg hne, if_neg hnot], fun j hj => ?_⟩
  have haway := hs.clusterAddr_apart (hl c hc) ha hne
  rw [allocated, Bytes.blit_outside (by omega), setEntry_apply (by omega), freed, if_neg]
  rintro ⟨c', hc', hle, hlt⟩
  have hentry' := hs.fatAddr_le (htail c' hc')
  omega

/-- The cleared cluster is a file of zeros. -/
lemma content_renewed (fs : Fat32Fs) (d : Disk) (a : ℕ) :
    fs.content (fs.allocated d a) [a] = some (Store.newFile fs Bytes.zero) := by
  have hbyte : fs.fileByte (fs.allocated d a) [a] = fun p => if p < blockSize then Bytes.zero p else 0 :=
    funext fun p => by
      have hzero : (if p < blockSize then Bytes.zero p else 0) = 0 := by split_ifs <;> rfl
      rw [hzero, fileByte]
      split_ifs with hp
      · rw [chainLength_singleton] at hp
        rw [chainByte, Nat.div_eq_of_lt hp, Nat.mod_eq_of_lt hp, List.getD_cons_zero, allocated,
          Bytes.blit_inside hp]
        rfl
      · rfl
  rw [content, if_neg (List.cons_ne_nil _ _), hbyte, chainLength_singleton, Store.newFile]

namespace Owned

variable (h : fs.Owned d own)

include h

/-- What belongs to an owner is a cluster of the volume. -/
lemma clusters : ∀ c ∈ own o, fs.IsCluster c := fun c hc => by
  obtain ⟨h₁, h₂⟩ := h.range o c hc
  exact ⟨h₁, by omega⟩

/-- It is in use. -/
lemma used : ∀ c ∈ own o, fs.fatEntry d c ≠ fat32Free := fun _ hc => (h.divides.used_of_mem hc).2

/-- What is not free belongs to someone. -/
lemma free_of_not_mem (hc : fs.IsCluster c) (hnot : ∀ o, c ∉ own o) : fs.fatEntry d c = fat32Free := by
  by_contra hne
  obtain ⟨o, ho⟩ := (h.divides.used_iff c).mp ⟨hc, hne⟩
  exact hnot o ho

/-- The root directory. -/
lemma directory : fs.Directory d fs.rootCluster (own none) :=
  ⟨h.sound, h.chain none h.root, h.clusters⟩

/-- A file starts with the cluster that is its number. -/
lemma file_cons (ha : own (some a) ≠ []) : ∃ tail, own (some a) = a :: tail :=
  (h.chain (some a) ha).eq_cons

/-- **A change of one chain**, in which free clusters alone are taken and the others are kept. -/
theorem update (hchain : l ≠ [] → Chain (fs.link d') (o.getD fs.rootCluster) l) (hroot : o = none → l ≠ [])
    (hrange : ∀ c ∈ l, fs.Allocatable c) (hkept : ∀ o', o' ≠ o → fs.Kept d d' (own o'))
    (hfresh : ∀ c ∈ l, c ∈ own o ∨ fs.fatEntry d c = fat32Free)
    (hentries : ∀ c, fs.IsCluster c →
      (fs.fatEntry d' c ≠ fat32Free ↔ c ∈ l ∨ c ∉ own o ∧ fs.fatEntry d c ≠ fat32Free)) :
    fs.Owned d' (Function.update own o l) := by
  refine ⟨h.sound, fun o' hne => ?_, ?_, fun o' c hc => ?_, h.divides.update (fun c hc => ?_) fun c => ?_⟩
  · by_cases heq : o' = o
    · subst heq
      rw [Function.update_self] at hne ⊢
      exact hchain hne
    · rw [Function.update_of_ne heq] at hne ⊢
      exact (hkept o' heq).chain h.sound h.clusters (h.chain o' hne)
  · by_cases heq : none = o
    · subst heq
      rw [Function.update_self]
      exact hroot rfl
    · rw [Function.update_of_ne heq]
      exact h.root
  · by_cases heq : o' = o
    · subst heq
      rw [Function.update_self] at hc
      exact hrange c hc
    · rw [Function.update_of_ne heq] at hc
      exact h.range o' c hc
  · exact (hfresh c hc).imp_right fun hfree hused => hused.2 hfree
  · constructor
    · rintro ⟨hc, hused⟩
      exact ((hentries c hc).mp hused).imp_right fun ⟨hnot, hused⟩ => ⟨hnot, hc, hused⟩
    · rintro (hc | ⟨hnot, hc, hused⟩)
      · have hcluster : fs.IsCluster c := ⟨(hrange c hc).1, by have := (hrange c hc).2; omega⟩
        exact ⟨hcluster, (hentries c hcluster).mpr (Or.inl hc)⟩
      · exact ⟨hc, (hentries c hc).mpr (Or.inr ⟨hnot, hused⟩)⟩

/-- A change that leaves the table alone. -/
lemma congr (hentries : ∀ c, fs.IsCluster c → fs.fatEntry d' c = fs.fatEntry d c) : fs.Owned d' own := by
  refine ⟨h.sound, fun o hne => ?_, h.root, h.range, h.divides.apart, fun c => ?_⟩
  · refine (h.chain o hne).congr fun c hc => ?_
    have hc := h.clusters c hc
    rw [h.sound.link_eq hc, h.sound.link_eq hc, hentries c hc]
  · rw [← h.divides.used_iff c]
    exact and_congr_right fun hc => by rw [hentries c hc]

/-- The chains of different owners have no cluster in common. -/
lemma apart (hne : o ≠ o') : (own o).Disjoint (own o') := h.divides.apart o o' hne

/-- **A chain that is written and grows.** -/
theorem written {news : List ℕ} {f : ℕ → UInt8} {first : ℕ} (hfirst : o.getD fs.rootCluster = first)
    (hw : fs.Written d first (own o) d' news f) :
    fs.Owned d' (Function.update own o (own o ++ news)) ∧ ∀ o', o' ≠ o → fs.Kept d d' (own o') := by
  have hnews : ∀ c ∈ news, fs.Allocatable c ∧ fs.fatEntry d c = fat32Free := fun c hc => by
    obtain ⟨h₁, h₂, h₃⟩ := mem_freeClusters.mp (hw.taken ▸ List.mem_append_left _ hc)
    exact ⟨⟨h₁, h₂⟩, h₃⟩
  have hkept : ∀ o', o' ≠ o → fs.Kept d d' (own o') := fun o' hne =>
    hw.kept h.sound h.clusters h.clusters fun c hc hc' => by
      rcases List.mem_append.mp hc' with hc' | hc'
      · exact h.apart hne hc hc'
      · exact h.used c hc (hnews c hc').2
  refine ⟨h.update (fun _ => hfirst ▸ hw.chain) ?_ (fun c hc => ?_) hkept (fun c hc => ?_)
    (fun c hc => ?_), hkept⟩
  · rintro rfl hnil
    exact h.root (List.append_eq_nil_iff.mp hnil).1
  · exact (List.mem_append.mp hc).elim (h.range o c) fun hc => (hnews c hc).1
  · exact (List.mem_append.mp hc).imp_right fun hc => (hnews c hc).2
  · by_cases hmem : c ∈ own o ++ news
    · exact iff_of_true (hw.used c hmem) (Or.inl hmem)
    · obtain ⟨hnot, -⟩ := not_or.mp fun hor => hmem (List.mem_append.mpr hor)
      have hsame := (hw.kept h.sound h.clusters (l := [c]) (by simpa using hc) (by simpa using hmem) c
        (List.mem_singleton_self c)).1
      rw [hsame]
      constructor
      · exact fun hused => Or.inr ⟨hnot, hused⟩
      · rintro (hmem' | ⟨-, hused⟩)
        · exact absurd hmem' hmem
        · exact hused

/-- **Slots of the root directory that change.** -/
lemma slots_changed (hbytes : ∀ x, d' x ≠ d x → ∃ p < fs.slotCount (own none),
      fs.slotAddr (own none) p ≤ x ∧ x < fs.slotAddr (own none) p + 32) :
    (∀ c, fs.IsCluster c → fs.fatEntry d' c = fs.fatEntry d c) ∧ ∀ o', o' ≠ none → fs.Kept d d' (own o') := by
  have hs := h.sound
  have hentries : ∀ c, fs.IsCluster c → fs.fatEntry d' c = fs.fatEntry d c := fun c hc =>
    fatEntry_congr fun x hle hlt => by
      by_contra hne
      obtain ⟨p, hp, hle', -⟩ := hbytes x hne
      have hentry := hs.fatAddr_le hc
      have hslot : fs.dataStart * blockSize ≤ fs.slotAddr (own none) p := Directory.le_slotAddr hp
      omega
  refine ⟨hentries, fun o' hne c hc => ⟨hentries c (h.clusters c hc), fun j hj => ?_⟩⟩
  by_contra hchange
  obtain ⟨p, hp, hle, hlt⟩ := hbytes _ hchange
  obtain ⟨c', hc', i, haddr, hi⟩ := h.directory.slotAddr_cluster hp
  have haway := hs.clusterAddr_apart (h.clusters c hc) (h.clusters c' hc') fun heq =>
    h.apart hne hc (heq ▸ hc')
  omega

/-- **A file that is freed.** -/
theorem freed (ha : own (some a) = cs) :
    fs.Owned (fs.freed d cs) (Function.update own (some a) []) ∧
      (∀ o', o' ≠ some a → fs.Kept d (fs.freed d cs) (own o')) ∧
      (fs.freeClusters (fs.freed d cs)).length = (fs.freeClusters d).length + cs.length := by
  subst ha
  have hkept : ∀ o', o' ≠ some a → fs.Kept d (fs.freed d (own (some a))) (own o') := fun o' hne c hc => by
    have hdata : fs.dataStart * blockSize ≤ fs.clusterAddr c := le_clusterAddr
    refine ⟨freed_entry fun hmem => h.apart hne hc hmem, fun j _ => if_neg ?_⟩
    rintro ⟨c', hc', hle, hlt⟩
    have hentry := h.sound.fatAddr_le (h.clusters c' hc')
    omega
  refine ⟨h.update (fun hne => absurd rfl hne) nofun nofun hkept nofun fun c _ => ?_, hkept,
    freeClusters_freed ?_ fun c hc => ⟨h.range _ c hc, h.used c hc⟩⟩
  · by_cases hc : c ∈ own (some a)
    · rw [freed_entry_mem hc]
      exact iff_of_false (fun hne => hne rfl) (not_or.mpr ⟨nofun, fun hand => hand.1 hc⟩)
    · rw [freed_entry hc]
      exact ⟨fun hused => Or.inr ⟨hc, hused⟩, fun hor => (hor.resolve_left nofun).2⟩
  · by_cases hnil : own (some a) = []
    · rw [hnil]
      exact List.nodup_nil
    · exact (h.chain (some a) hnil).nodup

/-- A file with one cluster, which is cleared: its other clusters, if it has any, have been freed. -/
lemma renewed (hold : own (some a) = a :: tail ∨ own (some a) = [] ∧ tail = [] ∧ fs.fatEntry d a = fat32Free)
    (ha : fs.Allocatable a) :
    fs.Owned (fs.allocated (fs.freed d tail) a) (Function.update own (some a) [a]) ∧
      ∀ o', o' ≠ some a → fs.Kept d (fs.allocated (fs.freed d tail) a) (own o') := by
  have hs := h.sound
  have hcluster : fs.IsCluster a := ⟨ha.1, by have := ha.2; omega⟩
  have htail : ∀ c ∈ tail, c ∈ own (some a) := fun c hc => by
    rcases hold with hold | ⟨-, rfl, -⟩
    · rw [hold]
      exact List.mem_cons_of_mem _ hc
    · cases hc
  have hmem : ∀ c, c ∈ own (some a) → c = a ∨ c ∈ tail := fun c hc => by
    rcases hold with hold | ⟨hnil, -⟩
    · rwa [hold, List.mem_cons] at hc
    · rw [hnil] at hc
      cases hc
  have hother : ∀ o', o' ≠ some a → (own o').Disjoint (a :: tail) := fun o' hne c hc hc' => by
    rcases List.mem_cons.mp hc' with rfl | hc'
    · rcases hold with hold | ⟨-, -, hfree⟩
      · exact h.apart hne hc (hold ▸ List.mem_cons_self ..)
      · exact h.used c hc hfree
    · exact h.apart hne hc (htail c hc')
  have hkept : ∀ o', o' ≠ some a → fs.Kept d (fs.allocated (fs.freed d tail) a) (own o') := fun o' hne =>
    kept_renewed hs hcluster (fun c hc => h.clusters c (htail c hc)) h.clusters (hother o' hne)
  refine ⟨h.update (fun _ => .last ?_) nofun (fun c hc => ?_) hkept (fun c hc => ?_) (fun c hc => ?_), hkept⟩
  · rw [Option.getD_some, hs.link_eq hcluster, fatEntry_renewed hs hcluster, if_pos rfl]
    rfl
  · rwa [List.mem_singleton.mp hc]
  · rw [List.mem_singleton.mp hc]
    rcases hold with hold | ⟨-, -, hfree⟩
    · exact Or.inl (hold ▸ List.mem_cons_self ..)
    · exact Or.inr hfree
  · rw [fatEntry_renewed hs hc, List.mem_singleton]
    by_cases hca : c = a
    · rw [if_pos hca]
      exact iff_of_true (by decide) (Or.inl hca)
    · rw [if_neg hca, or_iff_right hca]
      split_ifs with hct
      · exact iff_of_false (fun hne => hne rfl) fun hand => hand.1 (htail c hct)
      · exact ⟨fun hused => ⟨fun hown => (hmem c hown).elim hca hct, hused⟩, And.right⟩

/-- **A new file.**  It gets the first free cluster. -/
theorem made (hfree : fs.freeClusters d = new :: rest) : own (some new) = [] ∧ 2 ≤ new ∧ new < 2 ^ 32 ∧
    fs.Owned (fs.allocated d new) (Function.update own (some new) [new]) ∧
    (∀ o', o' ≠ some new → fs.Kept d (fs.allocated d new) (own o')) ∧
    fs.freeClusters (fs.allocated d new) = rest := by
  have hs := h.sound
  obtain ⟨h₁, h₂, h₃⟩ := mem_freeClusters.mp (hfree ▸ List.mem_cons_self (a := new) (l := rest))
  have hnil : own (some new) = [] := by
    by_contra hne
    obtain ⟨tail, htail⟩ := h.file_cons hne
    exact h.used new (htail ▸ List.mem_cons_self ..) h₃
  obtain ⟨howned, hkept⟩ := h.renewed (Or.inr ⟨hnil, rfl, h₃⟩) ⟨h₁, h₂⟩
  rw [freed_nil] at howned hkept
  have hle := hs.clusters_le
  have hsmall : ramdiskSectors < 2 ^ 14 := by decide
  refine ⟨hnil, h₁, by omega, howned, hkept, ?_⟩
  rw [freeClusters_taken (d := d) (p := fun c => c ≠ new) fun c hc => ?_, hfree,
    List.filter_cons_of_neg (by simp)]
  · have hnodup := freeClusters_nodup fs d
    rw [hfree, List.nodup_cons] at hnodup
    exact List.filter_eq_self.mpr fun c hc => decide_eq_true fun heq => hnodup.1 (heq ▸ hc)
  · rw [hs.fatEntry_allocated hc]
    split_ifs with hcn
    · exact iff_of_false (by decide) fun hand => hand.2 hcn
    · exact ⟨fun hzero => ⟨hzero, hcn⟩, And.left⟩

end Owned

end Fat32Fs

end Fs

end NekOS
