import NekOS.Fat32.Writing

/-!
# Writes to the first cluster

`write_file` returns the cluster that it has written last.  That is the first cluster of the file if the bytes
fit in it.
-/

namespace NekOS

namespace Fs

namespace Fat32Fs

variable {fs : Fat32Fs} {d : Disk} {cluster offset len : ℕ} {cs : List ℕ} {buf : Bytes}

/-- A sector is written in the current cluster. -/
lemma writeSector_last (fs : Fat32Fs) (offset skip len s : ℕ) (buf : Bytes) (st : WriteState) :
    (fs.writeSector offset skip len buf s st).Post
      (fun r => ∀ n last d', r = some ((n, last), d') → last = st.curCluster) fun _ => True := by
  unfold writeSector
  dsimp only
  split
  · exact nofun
  · split_ifs with hnone hdone
    · trivial
    · split
      · exact nofun
      · rintro n last d' ⟨⟩
        rfl
      · rintro n last d' ⟨⟩
        rfl
    · split
      · exact nofun
      · rintro n last d' ⟨⟩
        rfl
      · trivial

/-- **A write that fits in the first cluster** of a file returns this cluster. -/
theorem writeFile_first (hs : fs.Sound) (hcs : ∀ c ∈ cs, fs.IsCluster c) (hchain : Chain (fs.link d) cluster cs)
    (hused : ∀ c ∈ cs, fs.fatEntry d c ≠ fat32Free) (hoffset : offset < fs.clusterSize)
    (hfits : fs.transferStart offset + len ≤ fs.clusterSize) (buf : Bytes) :
    ∃ n d', fs.writeFile d cluster offset len buf = some ((n, cluster), d') := by
  obtain ⟨rest, rfl⟩ := hchain.eq_cons
  have hcluster := (hcs cluster (List.mem_cons_self ..)).1
  have hmod : offset % fs.clusterSize = offset := Nat.mod_eq_of_lt hoffset
  have hwrap : wrap32 (0 + fs.clusterSize) = fs.clusterSize := by
    rw [Nat.zero_add, clusterSize]
    exact Nat.mod_mod ..
  have hseek : fs.writeSeekRound cluster offset ⟨cluster, 0, 0, d⟩ = .ret (.next ⟨cluster, 0, 0, d⟩) := by
    unfold writeSeekRound
    dsimp only
    rw [hwrap, if_neg (Nat.not_le_of_lt hoffset)]
  rw [writeFile, if_neg (by omega), Flow.loop_ret hseek (by decide)]
  dsimp only
  rw [Nat.sub_zero]
  by_cases hmore : 0 < len
  swap
  · have hround : fs.writeCluster offset offset len buf ⟨cluster, 0, 0, d⟩ = .ret (some ((0, cluster), d)) :=
      if_neg hmore
    rw [Flow.loop_ret hround (by decide)]
    exact ⟨0, d, rfl⟩
  have hat : fs.WriteAt d cluster (cluster :: rest) offset len buf [] cluster (fs.chainLength [])
      (fs.chainLength [] + 0 * blockSize) ⟨cluster, 0, 0, d⟩ := by
    refine ⟨rfl, chainLength_nil.symm, hmore, Or.inr ⟨rfl, ?_, ?_⟩,
      (Written.refl hchain hused).congr fun p _ => landed_zero.symm⟩
    · rw [chainLength_nil, Nat.zero_mul]
      exact Nat.zero_le _
    · rw [Nat.div_eq_of_lt hoffset, Nat.zero_mul]
      exact Nat.zero_le _
  have hsectors : (Flow.forEach (fs.writeSector offset offset len buf) (List.range fs.spc)
      ⟨cluster, 0, 0, d⟩).Post (fun r => ∃ n d', r = some ((n, cluster), d'))
        (fs.WriteAt d cluster (cluster :: rest) offset len buf [] cluster (fs.chainLength [])
          (fs.chainLength [] + fs.spc * blockSize)) := Flow.forRange_post
    (I := fun s => fs.WriteAt d cluster (cluster :: rest) offset len buf [] cluster (fs.chainLength [])
      (fs.chainLength [] + s * blockSize)) (fun s hsec st hat => ?_) hat
  rotate_left
  · have hsplit : (cluster :: rest) ++ [] = [] ++ cluster :: rest := List.append_nil _
    have hpost := writeSector_post hs hcs hsplit hsec hat
    have hlast := writeSector_last fs offset offset len s buf st
    rw [hmod] at hpost
    cases hrun : fs.writeSector offset offset len buf s st with
    | ret r =>
      rw [hrun] at hpost hlast
      obtain ⟨n, last, d', news, rfl, -⟩ := hpost
      have heq := hlast n last d' rfl
      rw [heq, hat.curCluster]
      exact ⟨n, d', rfl⟩
    | next st' =>
      rw [hrun] at hpost
      exact hpost
  have hround : fs.writeCluster offset offset len buf ⟨cluster, 0, 0, d⟩ =
      (Flow.forEach (fs.writeSector offset offset len buf) (List.range fs.spc) ⟨cluster, 0, 0, d⟩).andThen _ :=
    if_pos hmore
  cases hrun : Flow.forEach (fs.writeSector offset offset len buf) (List.range fs.spc) ⟨cluster, 0, 0, d⟩ with
  | ret r =>
    rw [hrun] at hsectors hround
    obtain ⟨n, d', rfl⟩ := hsectors
    rw [Flow.loop_ret hround (by decide)]
    exact ⟨n, d', rfl⟩
  | next st =>
    -- The whole buffer has been written before the end of the cluster.
    rw [hrun, chainLength_nil, Nat.zero_add, ← hs.size_eq] at hsectors
    have hplace := hsectors.place
    have hleft := hsectors.more
    omega

end Fat32Fs

end Fs

end NekOS
