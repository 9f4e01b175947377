import NekOS.Fat32.Table

/-!
# Chains that are written and grow

The two changes that a write makes to a chain of clusters: a sector of it is written, and a free cluster is
linked to its end.  `Written` says what a sequence of such changes leaves of the disk.
-/

namespace NekOS

namespace Fs

namespace Fat32Fs

/-- The clusters whose entries change when a chain grows: the new ones, and the one before them. -/
def Relinked (cs news : List ℕ) (c : ℕ) : Prop :=
  c ∈ news ∨ news ≠ [] ∧ cs.getLast? = some c

/-- The bytes of a file: those of its chain, and zero behind its end. -/
def fileByte (fs : Fat32Fs) (d : Disk) (cs : List ℕ) (p : ℕ) : UInt8 :=
  if p < fs.chainLength cs then fs.chainByte d cs p else 0

/-- A disk after a chain has been written and has grown: its bytes are those of `f`, and nothing else has
changed. -/
structure Written (fs : Fat32Fs) (d : Disk) (cluster : ℕ) (cs : List ℕ) (d' : Disk) (news : List ℕ)
    (f : ℕ → UInt8) : Prop where
  chain : Chain (fs.link d') cluster (cs ++ news)
  used : ∀ c ∈ cs ++ news, fs.fatEntry d' c ≠ fat32Free
  taken : fs.freeClusters d = news ++ fs.freeClusters d'
  bytes : ∀ p < fs.chainLength (cs ++ news), fs.chainByte d' (cs ++ news) p = f p
  frame : ∀ x, d' x ≠ d x →
    (∃ c ∈ cs ++ news, fs.clusterAddr c ≤ x ∧ x < fs.clusterAddr c + fs.clusterSize) ∨
    ∃ c, Relinked cs news c ∧ fs.fatAddr c ≤ x ∧ x < fs.fatAddr c + 4

variable {fs : Fat32Fs} {d d' d'' : Disk} {cluster c c' s p new : ℕ} {cs news pre suf rest : List ℕ}
  {f : ℕ → UInt8} {b : Bytes}

/-- More clusters relink more. -/
lemma Relinked.snoc (h : Relinked cs news c) : Relinked cs (news ++ [new]) c := by
  rcases h with h | ⟨-, h⟩
  · exact Or.inl (List.mem_append_left _ h)
  · exact Or.inr ⟨by simp, h⟩

/-- The entries of the last cluster and of the new one change. -/
lemma relinked_last (h : cs ++ news = pre ++ [c]) (hc : c' = c ∨ c' = new) :
    Relinked cs (news ++ [new]) c' := by
  rcases hc with rfl | rfl
  · rcases List.eq_nil_or_concat news with rfl | ⟨news, b, rfl⟩
    · refine Or.inr ⟨by simp, ?_⟩
      rw [List.append_nil] at h
      rw [h, List.getLast?_concat]
    · rw [List.concat_eq_append, ← List.append_assoc] at h
      obtain rfl := List.singleton_inj.mp (List.append_inj_right' h rfl)
      exact Or.inl (by simp)
  · exact Or.inl (by simp)

/-- Where a byte of a chain lies. -/
lemma chainByte_place (hp : p < fs.chainLength cs) :
    ∃ h : p / fs.clusterSize < cs.length,
      fs.chainByte d cs p = d (fs.clusterAddr (cs.get ⟨_, h⟩) + p % fs.clusterSize) := by
  have hpos : 0 < fs.clusterSize := Nat.pos_of_ne_zero fun hzero => by
    rw [chainLength, hzero, Nat.mul_zero] at hp
    exact absurd hp (Nat.not_lt_zero _)
  have hlt : p / fs.clusterSize < cs.length := (Nat.div_lt_iff_lt_mul hpos).mpr hp
  refine ⟨hlt, ?_⟩
  rw [chainByte, List.getD_eq_getElem _ _ hlt]
  rfl

namespace Sound

variable (hs : fs.Sound)

include hs

/-- The bytes of a chain after one of its sectors has been written. -/
lemma chainByte_blit (hcs : ∀ x ∈ pre ++ c :: suf, fs.IsCluster x) (hnodup : (pre ++ c :: suf).Nodup)
    (hsec : s < fs.spc) (hp : p < fs.chainLength (pre ++ c :: suf)) :
    fs.chainByte (d.blit (fs.clusterAddr c + s * blockSize) b 0 blockSize) (pre ++ c :: suf) p =
      if fs.chainLength pre + s * blockSize ≤ p ∧ p < fs.chainLength pre + s * blockSize + blockSize then
        b (p - (fs.chainLength pre + s * blockSize))
      else fs.chainByte d (pre ++ c :: suf) p := by
  obtain ⟨hlt, hbyte⟩ := chainByte_place (d := d) hp
  obtain ⟨_, hbyte'⟩ := chainByte_place
    (d := d.blit (fs.clusterAddr c + s * blockSize) b 0 blockSize) hp
  have hfits : s * blockSize + blockSize ≤ fs.clusterSize := by
    rw [hs.size_eq, ← Nat.succ_mul]
    exact Nat.mul_le_mul_right _ hsec
  have hmod := Nat.mod_lt p hs.clusterSize_pos
  have hdiv := Nat.div_add_mod' p fs.clusterSize
  have hmem : (pre ++ c :: suf).get ⟨_, hlt⟩ ∈ pre ++ c :: suf := List.get_mem ..
  have hlen : pre.length < (pre ++ c :: suf).length := by simp
  have hget : (pre ++ c :: suf).get ⟨_, hlen⟩ = c := by simp
  rw [hbyte, hbyte', chainLength]
  by_cases hq : p / fs.clusterSize = pre.length
  · have hc : (pre ++ c :: suf).get ⟨_, hlt⟩ = c := (congrArg _ (Fin.ext hq)).trans hget
    rw [hc]
    rw [hq] at hdiv
    generalize pre.length * fs.clusterSize = base at *
    rw [Bytes.blit]
    by_cases hin : base + s * blockSize ≤ p ∧ p < base + s * blockSize + blockSize
    · rw [if_pos (by omega), if_pos hin]
      congr 1
      omega
    · rw [if_neg (by omega), if_neg hin]
  · have hne : (pre ++ c :: suf).get ⟨_, hlt⟩ ≠ c := fun heq =>
      hq (congrArg Fin.val (hnodup.get_inj_iff.mp (heq.trans hget.symm)))
    have hapart := hs.clusterAddr_apart (hcs _ hmem) (hcs c (by simp)) hne
    have houtside : ¬ (pre.length * fs.clusterSize + s * blockSize ≤ p ∧
        p < pre.length * fs.clusterSize + s * blockSize + blockSize) := fun hin => by
      refine hq (Nat.div_eq_of_lt_le (by omega) ?_)
      rw [Nat.add_mul, Nat.one_mul]
      omega
    rw [if_neg houtside, Bytes.blit_outside (by omega)]

end Sound

namespace Written

/-- Nothing has been written yet. -/
lemma refl (hchain : Chain (fs.link d) cluster cs)
    (hused : ∀ c ∈ cs, fs.fatEntry d c ≠ fat32Free) :
    fs.Written d cluster cs d [] (fs.fileByte d cs) := by
  refine ⟨?_, ?_, rfl, fun p hp => ?_, fun x hx => absurd rfl hx⟩
  · rwa [List.append_nil]
  · rwa [List.append_nil]
  · rw [List.append_nil] at hp ⊢
    exact (if_pos hp).symm

/-- Another way to write down the bytes. -/
lemma congr {g : ℕ → UInt8} (hw : fs.Written d cluster cs d' news f)
    (h : ∀ p < fs.chainLength (cs ++ news), f p = g p) : fs.Written d cluster cs d' news g :=
  { hw with bytes := fun p hp => (hw.bytes p hp).trans (h p hp) }

variable (hw : fs.Written d cluster cs d' news f)

include hw

/-- All clusters of the chain are clusters of the volume. -/
lemma clusters (hcs : ∀ c ∈ cs, fs.IsCluster c) : ∀ c ∈ cs ++ news, fs.IsCluster c := by
  intro c hc
  rcases List.mem_append.mp hc with hc | hc
  · exact hcs c hc
  · have hmem : c ∈ fs.freeClusters d := by
      rw [hw.taken]
      exact List.mem_append_left _ hc
    obtain ⟨h₁, h₂, -⟩ := mem_freeClusters.mp hmem
    exact ⟨h₁, by omega⟩

/-- The number of clusters that the chain has and can get. -/
lemma length_eq : (cs ++ news).length + (fs.freeClusters d').length =
    cs.length + (fs.freeClusters d).length := by
  rw [hw.taken, List.length_append, List.length_append, Nat.add_assoc]

/-- A sector of the chain is written. -/
lemma write (hs : fs.Sound) (hcs : ∀ c ∈ cs, fs.IsCluster c) (h : cs ++ news = pre ++ c :: suf)
    (hsec : s < fs.spc) :
    fs.Written d cluster cs (d'.blit (fs.clusterAddr c + s * blockSize) b 0 blockSize) news fun p =>
      if fs.chainLength pre + s * blockSize ≤ p ∧ p < fs.chainLength pre + s * blockSize + blockSize then
        b (p - (fs.chainLength pre + s * blockSize))
      else f p := by
  have hclusters := hw.clusters hcs
  have hmem : c ∈ cs ++ news := by simp [h]
  have hentry : ∀ c', fs.IsCluster c' →
      fs.fatEntry (d'.blit (fs.clusterAddr c + s * blockSize) b 0 blockSize) c' = fs.fatEntry d' c' :=
    fun c' hc' => hs.fatEntry_blit hc' (le_clusterAddr.trans (Nat.le_add_right _ _))
  have hfits : s * blockSize + blockSize ≤ fs.clusterSize := by
    rw [hs.size_eq, ← Nat.succ_mul]
    exact Nat.mul_le_mul_right _ hsec
  refine ⟨hw.chain.congr fun c' hc' => ?_, fun c' hc' => ?_, ?_, fun p hp => ?_, fun x hx => ?_⟩
  · rw [hs.link_eq (hclusters c' hc'), hs.link_eq (hclusters c' hc'), hentry c' (hclusters c' hc')]
  · rw [hentry c' (hclusters c' hc')]
    exact hw.used c' hc'
  · rw [freeClusters_congr hentry]
    exact hw.taken
  · have hbytes := hw.bytes p hp
    have hnodup := hw.chain.nodup
    rw [h] at hp hbytes hclusters hnodup ⊢
    rw [hs.chainByte_blit hclusters hnodup hsec hp, hbytes]
  · by_cases hin : fs.clusterAddr c + s * blockSize ≤ x ∧
        x < fs.clusterAddr c + s * blockSize + blockSize
    · exact Or.inl ⟨c, hmem, by omega, by omega⟩
    · rw [Bytes.blit, if_neg hin] at hx
      exact hw.frame x hx

/-- A cluster is linked to the end of the chain. -/
lemma grow (hs : fs.Sound) (hcs : ∀ c ∈ cs, fs.IsCluster c) (h : cs ++ news = pre ++ [c])
    (hfree : fs.freeClusters d' = new :: rest)
    (hzero : ∀ p, fs.chainLength (cs ++ news) ≤ p → f p = 0) :
    fs.Written d cluster cs (fs.grown d' c new) (news ++ [new]) f := by
  have hclusters := hw.clusters hcs
  obtain ⟨h₁, h₂, hnew⟩ := mem_freeClusters.mp (hfree ▸ List.mem_cons_self (a := new) (l := rest))
  have hnew' : fs.IsCluster new := ⟨h₁, by omega⟩
  have hmem : c ∈ cs ++ news := by simp [h]
  have hunused : ∀ c' ∈ cs ++ news, c' ≠ new := fun c' hc' heq => hw.used c' hc' (heq ▸ hnew)
  have hsmall : ramdiskSectors < 2 ^ 14 := by decide
  have hle := hs.clusters_le
  have hentry : ∀ c', fs.IsCluster c' → fs.fatEntry (fs.grown d' c new) c' =
      if c' = c then new else if c' = new then fat32Eoc else fs.fatEntry d' c' :=
    fun c' hc' => hs.fatEntry_grown hc' (by omega)
  have hfits : fs.chainLength (cs ++ (news ++ [new])) =
      fs.chainLength (cs ++ news) + fs.clusterSize := by
    rw [← List.append_assoc, chainLength_append, chainLength_singleton]
  refine ⟨?_, fun c' hc' => ?_, ?_, fun p hp => ?_, fun x hx => ?_⟩
  · have hlast : Chain (fs.link (fs.grown d' c new)) new [new] := by
      refine .last ?_
      rw [hs.link_eq hnew', hentry new hnew', if_neg (hunused c hmem).symm, if_pos rfl]
      rfl
    have hchain := hw.chain
    rw [h] at hchain
    have hkeep : ∀ x ∈ pre, fs.link (fs.grown d' c new) x = fs.link d' x := fun x hx => by
      have hx' : x ∈ cs ++ news := by simp [h, hx]
      have hnodup := hchain.nodup
      have hne : x ≠ c := by
        rintro rfl
        exact (List.nodup_append.mp hnodup).2.2 x hx x (List.mem_singleton_self _) rfl
      rw [hs.link_eq (hclusters x hx'), hs.link_eq (hclusters x hx'), hentry x (hclusters x hx'),
        if_neg hne, if_neg (hunused x hx')]
    have hlink : fs.link (fs.grown d' c new) c = some new := by
      rw [hs.link_eq (hclusters c hmem), hentry c (hclusters c hmem), if_pos rfl, validLink,
        if_pos ⟨h₁, by unfold fat32Eoc; omega⟩]
    have hgrown := hchain.extend hkeep hlink hlast
    rwa [← List.append_assoc, h, List.append_assoc]
  · rw [← List.append_assoc, List.mem_append, List.mem_singleton] at hc'
    have hc'' : fs.IsCluster c' := by
      rcases hc' with hc' | rfl
      · exact hclusters c' hc'
      · exact hnew'
    rw [hentry c' hc'']
    split_ifs with hcc hcn
    · unfold fat32Free
      omega
    · decide
    · exact hw.used c' (hc'.resolve_right hcn)
  · rw [hs.freeClusters_grown hfree (hw.used c hmem), hw.taken, hfree, List.append_assoc,
      List.singleton_append]
  · obtain ⟨hlt, hbyte⟩ := chainByte_place (d := fs.grown d' c new) hp
    have hdata : ∀ c' j, fs.IsCluster c' → j < fs.clusterSize →
        fs.grown d' c new (fs.clusterAddr c' + j) =
          if c' = new then 0 else d' (fs.clusterAddr c' + j) := fun c' j hc' hj => by
      have hbehind : fs.dataStart * blockSize ≤ fs.clusterAddr c' := le_clusterAddr
      have hentry₁ := hs.fatAddr_le (hclusters c hmem)
      have hentry₂ := hs.fatAddr_le hnew'
      rw [grown, setEntry_apply (by omega), allocated]
      split_ifs with hcn
      · rw [hcn, Bytes.blit_inside hj, Bytes.zero]
      · have hapart := hs.clusterAddr_apart hc' hnew' hcn
        rw [Bytes.blit_outside (by omega), setEntry_apply (by omega)]
    have hmod := Nat.mod_lt p hs.clusterSize_pos
    rw [hbyte]
    by_cases hold : p < fs.chainLength (cs ++ news)
    · obtain ⟨hlt', hbyte'⟩ := chainByte_place (d := d') hold
      have hget : (cs ++ (news ++ [new])).get ⟨_, hlt⟩ = (cs ++ news).get ⟨_, hlt'⟩ := by
        simp only [List.get_eq_getElem, ← List.append_assoc]
        exact List.getElem_append_left hlt'
      have hmem' : (cs ++ news).get ⟨_, hlt'⟩ ∈ cs ++ news := List.get_mem ..
      rw [hget, hdata _ _ (hclusters _ hmem') hmod, if_neg (hunused _ hmem'), ← hbyte',
        hw.bytes p hold]
    · have hq : p / fs.clusterSize = (cs ++ news).length := by
        refine Nat.div_eq_of_lt_le (Nat.le_of_not_lt hold) ?_
        rw [hfits, chainLength] at hp
        rwa [Nat.add_mul, Nat.one_mul]
      have hget : (cs ++ (news ++ [new])).get ⟨_, hlt⟩ = new := by
        simp only [List.get_eq_getElem, ← List.append_assoc, hq]
        exact List.getElem_concat_length rfl _
      rw [hget, hdata _ _ hnew' hmod, if_pos rfl, hzero p (Nat.le_of_not_lt hold)]
  · have hentries : (fs.fatAddr c ≤ x ∧ x < fs.fatAddr c + 4) ∨
        (fs.fatAddr new ≤ x ∧ x < fs.fatAddr new + 4) ∨
        (fs.clusterAddr new ≤ x ∧ x < fs.clusterAddr new + fs.clusterSize) ∨ d' x ≠ d x := by
      by_contra hnone
      push Not at hnone
      obtain ⟨ha, hb, hc, hd⟩ := hnone
      refine hx ?_
      rw [grown, setEntry_apply (by omega), allocated, Bytes.blit_outside (by omega),
        setEntry_apply (by omega), hd]
    rcases hentries with hin | hin | hin | hne
    · exact Or.inr ⟨c, relinked_last h (Or.inl rfl), hin⟩
    · exact Or.inr ⟨new, relinked_last h (Or.inr rfl), hin⟩
    · exact Or.inl ⟨new, by simp, hin⟩
    · rcases hw.frame x hne with ⟨c', hc', hin⟩ | ⟨c', hc', hin⟩
      · refine Or.inl ⟨c', ?_, hin⟩
        rw [← List.append_assoc]
        exact List.mem_append_left _ hc'
      · exact Or.inr ⟨c', hc'.snoc, hin⟩

/-- The next cluster of the chain, or a new one. -/
lemma advance (hs : fs.Sound) (hcs : ∀ c ∈ cs, fs.IsCluster c) (h : cs ++ news = pre ++ c :: suf)
    (hzero : ∀ p, fs.chainLength (cs ++ news) ≤ p → f p = 0) :
    (fs.nextOrNew d' c = some (none, d') ∧ suf = [] ∧ fs.freeClusters d' = []) ∨
    ∃ new d'' news' suf', fs.nextOrNew d' c = some (some new, d'') ∧
      fs.Written d cluster cs d'' news' f ∧ cs ++ news' = (pre ++ [c]) ++ new :: suf' := by
  have hmem : c ∈ cs ++ news := by simp [h]
  have hc := hw.clusters hcs c hmem
  have hlink := hs.link_eq hc d'
  have hchain := hw.chain
  rw [h] at hchain
  replace hchain := hchain.suffix
  unfold nextOrNew
  rw [hs.fatNext_eq hc]
  dsimp only
  rw [← hlink]
  cases hchain with
  | last hnone =>
    rw [hnone]
    cases hfree : fs.freeClusters d' with
    | nil =>
      refine Or.inl ⟨?_, rfl, rfl⟩
      dsimp only
      rw [hs.allocCluster_nil hfree]
    | cons new rest =>
      refine Or.inr ⟨new, fs.grown d' c new, news ++ [new], [], ?_, hw.grow hs hcs h hfree hzero, ?_⟩
      · dsimp only
        rw [hs.allocCluster_cons hfree]
        dsimp only
        rw [hs.fatSet_eq hc, Option.map_some, grown]
      · rw [← List.append_assoc, h]
  | link hsome htail =>
    rw [hsome]
    obtain ⟨t, rfl⟩ := htail.eq_cons
    exact Or.inr ⟨_, d', news, t, rfl, hw, by rw [h, List.append_assoc, List.singleton_append]⟩

end Written

end Fat32Fs

end Fs

end NekOS
