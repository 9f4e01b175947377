import NekOS.Fat32.Clusters

/-!
# What `read_file` reads

`read_file` reads the bytes of a chain from `readStart` on.  That is the offset it was asked for, if the
offset lies in the first sector of its cluster; otherwise the sector of the offset is skipped as a whole.
-/

namespace NekOS

namespace Fs

namespace Fat32Fs

/-- Where `read_file` and `write_file` start. -/
def transferStart (fs : Fat32Fs) (offset : ℕ) : ℕ :=
  if offset % fs.clusterSize < blockSize then offset
  else offset / fs.clusterSize * fs.clusterSize +
    (offset % fs.clusterSize / blockSize + 1) * blockSize

section Reading

variable {fs : Fat32Fs} {d : Disk} {cs pre suf : List ℕ} {c cluster offset : ℕ}

/-- What holds of the volume and of the chain that is read. -/
structure Readable (fs : Fat32Fs) (d : Disk) (cluster : ℕ) (cs : List ℕ) : Prop where
  spc_pos : 0 < fs.spc
  spc_lt : fs.spc < 256
  fat_lt : fs.fatStart < 2 ^ 16
  data : fs.DataOnDisk
  chain : Chain (fs.link d) cluster cs
  clusters : ∀ c ∈ cs, fs.IsCluster c

namespace Readable

variable (hr : fs.Readable d cluster cs)

include hr

/-- The chain is not longer than the disk. -/
lemma length_le : fs.chainLength cs ≤ ramdiskSize :=
  chainLength_le hr.spc_lt hr.data hr.clusters hr.chain.nodup

/-- A cluster has bytes. -/
lemma clusterSize_pos : 0 < fs.clusterSize := by
  rw [clusterSize_eq hr.spc_lt]
  exact Nat.mul_pos hr.spc_pos (by decide)

/-- The clusters of the chain are 32-bit numbers. -/
lemma cluster_lt (hc : c ∈ cs) : c < 2 ^ 32 := by
  have hle : fs.totalClusters * 1 ≤ fs.totalClusters * fs.spc := Nat.mul_le_mul_left _ hr.spc_pos
  have hdata := hr.data
  have hsmall : ramdiskSectors < 2 ^ 14 := by decide
  have hlt := (hr.clusters c hc).2
  unfold DataOnDisk at hdata
  omega

/-- Looking for the cluster of an offset. -/
lemma seek (offset : ℕ) : ∃ r, Flow.loop (fs.seekRound d offset) loopRounds (cluster, 0) = some r ∧
    (fs.chainLength cs ≤ offset → r = some none) ∧
    (offset < fs.chainLength cs → ∃ pre suf c, cs = pre ++ suf ∧ Chain (fs.link d) c suf ∧
      r = some (some (c, fs.chainLength pre)) ∧ pre.length = offset / fs.clusterSize) := by
  have hlen := hr.length_le
  have hsize : ramdiskSize < 2 ^ 31 := by decide
  have hpos := hr.clusterSize_pos
  refine Flow.loop_spec (I := fun k s => ∃ pre suf, cs = pre ++ suf ∧ suf.length = k ∧
    Chain (fs.link d) s.1 suf ∧ s.2 = fs.chainLength pre ∧ fs.chainLength pre ≤ offset)
    (k := cs.length) ?_ ?_ ⟨[], cs, rfl, rfl, hr.chain, by simp [chainLength], by simp [chainLength]⟩
  · rintro k ⟨cur, off⟩ ⟨pre, suf, hcs, hk, hchain, hoff, hle⟩
    dsimp only at hchain hoff
    obtain ⟨rest, rfl⟩ := hchain.eq_cons
    have hcur : cur ∈ cs := by simp [hcs]
    obtain ⟨next, hnext, hlink⟩ := fatNext_total hr.fat_lt (hr.cluster_lt hcur) d
    have htotal : fs.chainLength cs = off + fs.clusterSize + fs.chainLength rest := by
      rw [hcs, chainLength_append, chainLength_cons, hoff, Nat.add_assoc]
    have hwrap : wrap32 (off + fs.clusterSize) = off + fs.clusterSize :=
      wrap32_of_lt (by omega)
    unfold seekRound
    dsimp only
    rw [hwrap]
    by_cases hgo : off + fs.clusterSize ≤ offset
    · rw [if_pos hgo, hnext]
      dsimp only
      rw [← hlink]
      cases hchain with
      | last hnone =>
        rw [hnone]
        refine ⟨fun _ => rfl, fun hlt => ?_⟩
        rw [htotal] at hlt
        rw [chainLength_nil] at hlt
        omega
      | link hsome htail =>
        rw [hsome]
        refine ⟨rest.length, by simp at hk; omega, pre ++ [cur], rest, by simp [hcs], rfl, htail, ?_, ?_⟩
        · dsimp only
          rw [chainLength_append, ← hoff, chainLength_singleton]
        · rw [chainLength_append, ← hoff, chainLength_singleton]
          exact hgo
    · rw [if_neg hgo]
      refine ⟨fun hge => by omega, fun _ => ⟨pre, cur :: rest, cur, hcs, hchain, by rw [hoff], ?_⟩⟩
      refine (Nat.div_eq_of_lt_le ?_ ?_).symm
      · rwa [chainLength] at hle
      · rw [hoff, chainLength] at hgo
        rw [Nat.add_mul, Nat.one_mul]
        omega
  · have hcount : cs.length * 1 ≤ fs.chainLength cs := Nat.mul_le_mul_left _ hpos
    unfold loopRounds
    omega

end Readable

/-- The offset of a position in its cluster, and where a transfer starts. -/
lemma transferStart_spec (hspc : fs.spc < 256) (offset : ℕ) :
    offset / fs.clusterSize * fs.clusterSize % 512 = 0 ∧
      offset = offset / fs.clusterSize * fs.clusterSize + offset % fs.clusterSize ∧
      ((offset % fs.clusterSize < 512 ∧ fs.transferStart offset = offset) ∨
        (512 ≤ offset % fs.clusterSize ∧ fs.transferStart offset =
          offset / fs.clusterSize * fs.clusterSize +
            (offset % fs.clusterSize / 512 + 1) * 512)) := by
  refine ⟨?_, (Nat.div_add_mod' _ _).symm, ?_⟩
  · have hdvd : 512 ∣ fs.clusterSize := ⟨fs.spc, by rw [clusterSize_eq hspc, blockSize, mul_comm]⟩
    exact Nat.mod_eq_zero_of_dvd (hdvd.mul_left _)
  · unfold transferStart blockSize
    by_cases h : offset % fs.clusterSize < 512
    · rw [if_pos h]
      exact Or.inl ⟨h, rfl⟩
    · rw [if_neg h]
      exact Or.inr ⟨by omega, rfl⟩

/-- Where in a sector a transfer starts: either the sector is skipped as a whole, or the transfer goes on
there. -/
lemma sectorSkip_spec (hspc : fs.spc < 256) {pos off s moved : ℕ} (hpos : pos = off + s * 512)
    (hmod : pos % 512 = 0) (hlt : pos < 2 ^ 32)
    (hplace : pos = fs.transferStart offset + moved ∨
      moved = 0 ∧ pos ≤ offset ∧ offset / fs.clusterSize * fs.clusterSize ≤ pos) :
    (sectorSkip offset (offset % fs.clusterSize) off s moved = 512 ∧ moved = 0 ∧
      (pos + 512 = fs.transferStart offset ∨
        pos + 512 ≤ offset ∧ offset / fs.clusterSize * fs.clusterSize ≤ pos + 512)) ∨
    (sectorSkip offset (offset % fs.clusterSize) off s moved < 512 ∧
      pos + sectorSkip offset (offset % fs.clusterSize) off s moved =
        fs.transferStart offset + moved ∧
      (0 < sectorSkip offset (offset % fs.clusterSize) off s moved → moved = 0)) := by
  obtain ⟨hbase, hoffset, hstart⟩ := transferStart_spec hspc offset
  have hskip : sectorSkip offset (offset % fs.clusterSize) off s moved =
      if pos ≤ offset ∧ moved = 0 then min (offset % fs.clusterSize) 512 else 0 := by
    rw [sectorSkip, blockSize, wrap32_of_lt (x := s * 512) (by omega), ← hpos, wrap32_of_lt hlt]
  rw [hskip]
  generalize offset / fs.clusterSize * fs.clusterSize = base at *
  generalize offset % fs.clusterSize = skip at *
  by_cases hgo : pos ≤ offset ∧ moved = 0
  · rw [if_pos hgo]
    omega
  · rw [if_neg hgo]
    omega

/-- A read at a position of the chain: the bytes before it have been read, or it lies in the part of the
cluster that is skipped. -/
structure ReadAt (fs : Fat32Fs) (d : Disk) (cs : List ℕ) (offset toRead : ℕ) (buf : Bytes) (c off pos : ℕ)
    (st : ReadState) : Prop where
  curCluster : st.curCluster = c
  curOffset : st.curOffset = off
  more : st.bytesRead < toRead
  filled : ∀ i, st.buf i =
    if i < st.bytesRead then fs.chainByte d cs (fs.transferStart offset + i) else buf i
  place : pos = fs.transferStart offset + st.bytesRead ∨
    st.bytesRead = 0 ∧ pos ≤ offset ∧ offset / fs.clusterSize * fs.clusterSize ≤ pos

/-- What `read_file` returns. -/
def ReadDone (fs : Fat32Fs) (d : Disk) (cs : List ℕ) (offset toRead : ℕ) (buf : Bytes)
    (r : Option (ℕ × Bytes)) : Prop :=
  ∃ n buf', r = some (n, buf') ∧ n = min toRead (fs.chainLength cs - fs.transferStart offset) ∧
    ∀ i, buf' i = if i < n then fs.chainByte d cs (fs.transferStart offset + i) else buf i

namespace Readable

/-- One sector. -/
lemma readSector_post (hr : fs.Readable d cluster cs) {rest : List ℕ} {toRead s : ℕ} {buf : Bytes}
    (hcs : cs = pre ++ c :: rest) (hs : s < fs.spc) {st : ReadState}
    (hat : fs.ReadAt d cs offset toRead buf c (fs.chainLength pre)
      (fs.chainLength pre + s * blockSize) st) :
    (fs.readSector d offset (offset % fs.clusterSize) toRead s st).Post
      (fs.ReadDone d cs offset toRead buf)
      (fs.ReadAt d cs offset toRead buf c (fs.chainLength pre)
        (fs.chainLength pre + (s + 1) * blockSize)) := by
  obtain ⟨hcur, hoff, hmore, hfilled, hplace⟩ := hat
  have hc : c ∈ cs := by simp [hcs]
  have hlen := hr.length_le
  have hsize : ramdiskSize < 2 ^ 31 := by decide
  have hfits : fs.chainLength pre + s * 512 + 512 ≤ fs.chainLength cs := by
    have hle : (s + 1) * 512 ≤ fs.spc * 512 := Nat.mul_le_mul_right _ hs
    rw [hcs, chainLength_append, chainLength_cons, clusterSize_eq hr.spc_lt, blockSize]
    omega
  have hmod : (fs.chainLength pre + s * 512) % 512 = 0 := by
    have hdvd : 512 ∣ fs.clusterSize :=
      ⟨fs.spc, by rw [clusterSize_eq hr.spc_lt, blockSize, mul_comm]⟩
    have hpre : fs.chainLength pre % 512 = 0 := Nat.mod_eq_zero_of_dvd (hdvd.mul_left _)
    omega
  have hbyte : ∀ j < 512, d (fs.clusterAddr c + s * 512 + j) =
      fs.chainByte d cs (fs.chainLength pre + s * 512 + j) := fun j hj => by
    rw [hcs]
    exact (chainByte_sector hr.spc_lt hs hj).symm
  have hpos : fs.chainLength pre + s * 512 = st.curOffset + s * 512 := by rw [hoff]
  have hskip := sectorSkip_spec hr.spc_lt hpos hmod (by omega) hplace
  have hnext : (s + 1) * blockSize = s * 512 + 512 := by rw [Nat.add_mul, Nat.one_mul]
  rw [readSector, hcur, diskRead_cluster hr.data (hr.clusters c hc) hs, hnext]
  dsimp only
  simp only [blockSize]
  generalize sectorSkip offset (offset % fs.clusterSize) st.curOffset s st.bytesRead = start
    at hskip ⊢
  rcases hskip with ⟨hskip, hzero, hplace'⟩ | ⟨hskip, hplace', hfirst⟩
  · -- The offset lies in this sector or behind it, and not in the first sector of its cluster.
    rw [if_pos (by omega)]
    refine ⟨hcur, hoff, hmore, hfilled, ?_⟩
    rw [← Nat.add_assoc]
    omega
  · rw [if_neg (by omega)]
    have hfull : min (512 - start) (toRead - st.bytesRead) < toRead - st.bytesRead →
        fs.chainLength pre + (s * 512 + 512) = fs.transferStart offset +
          (st.bytesRead + min (512 - start) (toRead - st.bytesRead)) := by omega
    set n := min (512 - start) (toRead - st.bytesRead) with hn
    have hread : ∀ i, st.buf.blit st.bytesRead
        (fun i => d (fs.clusterAddr c + s * 512 + i)) start n i =
        if i < st.bytesRead + n then fs.chainByte d cs (fs.transferStart offset + i) else buf i :=
      fun i => by
        by_cases hin : st.bytesRead ≤ i ∧ i < st.bytesRead + n
        · rw [Bytes.blit, if_pos hin, if_pos hin.2]
          rw [hbyte _ (by omega)]
          congr 1
          omega
        · rw [Bytes.blit, if_neg hin, hfilled]
          by_cases hlt : i < st.bytesRead
          · rw [if_pos hlt, if_pos (by omega)]
          · rw [if_neg hlt, if_neg (by omega)]
    by_cases hdone : toRead ≤ st.bytesRead + n
    · rw [if_pos hdone]
      exact ⟨st.bytesRead + n, _, rfl, by omega, hread⟩
    · rw [if_neg hdone]
      exact ⟨rfl, hoff, Nat.lt_of_not_le hdone, hread, Or.inl (hfull (by omega))⟩

/-- The clusters from one of the chain on. -/
lemma readClusters (hr : fs.Readable d cluster cs) {toRead : ℕ} (buf : Bytes) (st : ReadState) {n : ℕ}
    (hcs : cs = pre ++ suf) (hchain : Chain (fs.link d) c suf) (hoffset : offset < fs.chainLength cs)
    (hat : fs.ReadAt d cs offset toRead buf c (fs.chainLength pre) (fs.chainLength pre) st)
    (hn : suf.length < n) :
    ∃ r, Flow.loop (fs.readCluster d offset (offset % fs.clusterSize) toRead) n st = some r ∧
      fs.ReadDone d cs offset toRead buf r := by
  have hlen := hr.length_le
  have hsize : ramdiskSize < 2 ^ 31 := by decide
  refine Flow.loop_spec (I := fun k st => ∃ pre suf c, cs = pre ++ suf ∧ suf.length = k ∧
    Chain (fs.link d) c suf ∧
    fs.ReadAt d cs offset toRead buf c (fs.chainLength pre) (fs.chainLength pre) st)
    ?_ hn ⟨pre, suf, c, hcs, rfl, hchain, hat⟩
  rintro k st ⟨pre, suf, c, hcs, rfl, hchain, hat⟩
  obtain ⟨rest, rfl⟩ := hchain.eq_cons
  have hc : c ∈ cs := by simp [hcs]
  have htotal : fs.chainLength cs = fs.chainLength pre + (fs.clusterSize + fs.chainLength rest) := by
    rw [hcs, chainLength_append, chainLength_cons]
  rw [readCluster, if_pos hat.more]
  have hsectors := Flow.forRange_post (n := fs.spc)
    (I := fun s => fs.ReadAt d cs offset toRead buf c (fs.chainLength pre)
      (fs.chainLength pre + s * blockSize))
    (fun s hs st hat => hr.readSector_post hcs hs hat) (s := st) (by simpa using hat)
  refine hsectors.andThen fun st hat => ?_
  rw [← clusterSize_eq hr.spc_lt] at hat
  obtain ⟨next, hnext, hlink⟩ := fatNext_total hr.fat_lt (hr.cluster_lt hc) d
  rw [hat.curCluster, hnext]
  dsimp only
  rw [← hlink]
  cases hchain with
  | last hnone =>
    rw [hnone]
    have hend : fs.chainLength cs = fs.chainLength pre + fs.clusterSize := by
      rw [htotal, chainLength_nil, Nat.add_zero]
    refine ⟨st.bytesRead, st.buf, rfl, ?_, hat.filled⟩
    have hmore := hat.more
    have hplace := hat.place
    omega
  | @link _ b _ hsome htail =>
    rw [hsome]
    have hpre : fs.chainLength (pre ++ [c]) = fs.chainLength pre + fs.clusterSize := by
      rw [chainLength_append, chainLength_singleton]
    have hwrap : wrap32 (st.curOffset + fs.clusterSize) = fs.chainLength (pre ++ [c]) := by
      rw [hat.curOffset, hpre]
      exact wrap32_of_lt (by omega)
    refine ⟨rest.length, Nat.lt_succ_self _, pre ++ [c], rest, b, by simp [hcs], rfl, htail, rfl,
      hwrap, hat.more, hat.filled, ?_⟩
    rw [hpre]
    exact hat.place

/-- **What `read_file` does.**  It reads the bytes of the chain from `transferStart` on, up to the end of the
chain or of what was asked for, and leaves the rest of the buffer alone. -/
theorem readFile_spec (hr : fs.Readable d cluster cs) (offset fileSize len : ℕ) (buf : Bytes) :
    ∃ n buf', fs.readFile d cluster offset fileSize len buf = some (n, buf') ∧
      n = (if offset < fs.chainLength cs then
        min (min len (fileSize - offset)) (fs.chainLength cs - fs.transferStart offset) else 0) ∧
      ∀ i, buf' i = if i < n then fs.chainByte d cs (fs.transferStart offset + i) else buf i := by
  have hcluster : 2 ≤ cluster := by
    obtain ⟨rest, rfl⟩ := hr.chain.eq_cons
    exact (hr.clusters cluster (List.mem_cons_self ..)).1
  rw [readFile]
  by_cases hpast : fileSize ≤ offset
  · rw [if_pos (Or.inl hpast)]
    refine ⟨0, buf, rfl, ?_, fun i => rfl⟩
    split <;> omega
  rw [if_neg (by omega)]
  dsimp only
  obtain ⟨r, hr', hout, hin⟩ := hr.seek offset
  rw [hr']
  by_cases hlt : offset < fs.chainLength cs
  · obtain ⟨pre, suf, c, hcs, hchain, rfl, hpre⟩ := hin hlt
    have hskip : offset - fs.chainLength pre = offset % fs.clusterSize := by
      rw [chainLength, hpre, ← Nat.mod_eq_sub_div_mul]
    have hle : fs.chainLength pre ≤ offset := by
      rw [chainLength, hpre]
      exact Nat.div_mul_le_self _ _
    rw [if_pos hlt, Option.join_some]
    dsimp only
    rw [hskip]
    by_cases hmore : 0 < min len (fileSize - offset)
    · have hcount : suf.length * 1 ≤ suf.length * fs.clusterSize :=
        Nat.mul_le_mul_left _ hr.clusterSize_pos
      have hshort : suf.length < loopRounds := by
        have hlen := hr.length_le
        have hsize : ramdiskSize < 2 ^ 31 := by decide
        rw [hcs, chainLength_append, chainLength, chainLength] at hlen
        unfold loopRounds
        omega
      obtain ⟨r, hloop, n, buf', rfl, hn, hbuf⟩ := hr.readClusters buf
        ⟨c, fs.chainLength pre, 0, buf⟩ hcs hchain hlt
        ⟨rfl, rfl, hmore, fun i => rfl, Or.inr ⟨rfl, hle, by rw [chainLength, hpre]⟩⟩ hshort
      exact ⟨n, buf', by rw [hloop]; rfl, hn, hbuf⟩
    · refine ⟨0, buf, ?_, by omega, fun i => rfl⟩
      have hround : fs.readCluster d offset (offset % fs.clusterSize) (min len (fileSize - offset))
          ⟨c, fs.chainLength pre, 0, buf⟩ = .ret (some (0, buf)) := if_neg hmore
      rw [Flow.loop_ret hround (by decide)]
      rfl
  · rw [hout (by omega), if_neg hlt]
    exact ⟨0, buf, rfl, rfl, fun i => rfl⟩

end Readable

/-- What `read_file` is for: it reads the bytes of the chain from the offset on. -/
def ReadsFile (fs : Fat32Fs) (d : Disk) (cs : List ℕ) (cluster offset fileSize len : ℕ) (buf : Bytes) :
    Prop :=
  ∃ n buf', fs.readFile d cluster offset fileSize len buf = some (n, buf') ∧
    n = min len (min (fileSize - offset) (fs.chainLength cs - offset)) ∧
    ∀ i, buf' i = if i < n then fs.chainByte d cs (offset + i) else buf i

/-- **Reading a file.**  `read_file` reads the bytes from the offset on if and only if there are none to
read, the offset lies in the first sector of its cluster, or the bytes of the sectors behind the one of the
offset happen to be the same. -/
theorem read_file_exact {sector : Bytes} (hopen : openFs sector = some (some fs))
    (hdata : fs.DataOnDisk) (hchain : Chain (fs.link d) cluster cs) (hcs : ∀ c ∈ cs, fs.IsCluster c)
    (offset fileSize len : ℕ) (buf : Bytes) :
    fs.ReadsFile d cs cluster offset fileSize len buf ↔
      len = 0 ∨ fileSize ≤ offset ∨ fs.chainLength cs ≤ offset ∨
      offset % fs.clusterSize < blockSize ∨
      let n := min len (min (fileSize - offset) (fs.chainLength cs - offset))
      fs.transferStart offset + n ≤ fs.chainLength cs ∧
        ∀ i < n, fs.chainByte d cs (fs.transferStart offset + i) = fs.chainByte d cs (offset + i) := by
  obtain ⟨hspc, hspc', hfat, -⟩ := open_spec hopen
  have hr : fs.Readable d cluster cs := ⟨hspc, hspc', hfat, hdata, hchain, hcs⟩
  obtain ⟨m, buf', hrun, hm, hbuf⟩ := hr.readFile_spec offset fileSize len buf
  dsimp only
  set n := min len (min (fileSize - offset) (fs.chainLength cs - offset)) with hn
  obtain ⟨-, -, hstart⟩ := transferStart_spec hspc' offset
  have hle : offset ≤ fs.transferStart offset := by
    have := Nat.div_add_mod' offset fs.clusterSize
    omega
  constructor
  · rintro ⟨m', buf'', hrun', hm', hbuf'⟩
    rw [hrun] at hrun'
    cases hrun'
    by_cases hn₀ : n = 0
    · omega
    · right; right; right; right
      rw [if_pos (by omega)] at hm
      refine ⟨by omega, fun i hi => ?_⟩
      have hi : i < m := by omega
      have h₁ := hbuf i
      rw [hbuf' i, if_pos hi, if_pos hi] at h₁
      exact h₁.symm
  · intro hcases
    have hsame : m = n ∧ ∀ i < n, fs.chainByte d cs (fs.transferStart offset + i) =
        fs.chainByte d cs (offset + i) := by
      by_cases hn₀ : n = 0
      · refine ⟨?_, fun i hi => absurd hi (by omega)⟩
        split at hm <;> omega
      have hlt : offset < fs.chainLength cs := by omega
      rw [if_pos hlt] at hm
      rcases hcases with h | h | h | h | ⟨h₁, h₂⟩
      · omega
      · omega
      · omega
      · have heq : fs.transferStart offset = offset := by
          rcases hstart with ⟨-, h'⟩ | ⟨h', -⟩
          · exact h'
          · exact absurd h (Nat.not_lt_of_le h')
        rw [heq] at hm ⊢
        exact ⟨by omega, fun i _ => rfl⟩
      · exact ⟨by omega, h₂⟩
    obtain ⟨rfl, hbytes⟩ := hsame
    refine ⟨n, buf', hrun, rfl, fun i => ?_⟩
    rw [hbuf i]
    by_cases hi : i < n
    · rw [if_pos hi, if_pos hi, hbytes i hi]
    · rw [if_neg hi, if_neg hi]

end Reading

/-! ### A volume with two sectors in a cluster -/

/-- The boot sector of a small volume: one table of one sector, and 126 clusters of two sectors. -/
def pairedBoot : Bytes :=
  (((((Bytes.zero.store 11 512 2).store 13 2 1).store 14 1 2).store 16 1 1).store 32 254 4).store 36 1 4

/-- The volume. -/
def pairedFs : Fat32Fs :=
  ⟨⟨512, 2, 1, 1, 0, 0, 254, 1, 0⟩, 1, 2, 126, 0⟩

/-- A disk with a file of one cluster, whose byte 600 is 7. -/
def pairedDisk : Disk :=
  Function.update (Bytes.zero.store 520 fat32Eoc 4) (1024 + 600) 7

/-- Mounting the volume. -/
lemma pairedBoot_open : openFs pairedBoot = some (some pairedFs) := by decide +kernel

/-- The file. -/
lemma pairedDisk_chain : Chain (pairedFs.link pairedDisk) 2 [2] := by
  have hlink : pairedFs.link pairedDisk 2 = none := by decide +kernel
  exact .last hlink

/-- Its cluster. -/
lemma pairedDisk_clusters : ∀ c ∈ [2], pairedFs.IsCluster c := by
  intro c hc
  obtain rfl := List.mem_singleton.mp hc
  exact ⟨by decide, by decide⟩

/-- The volume lies on the disk. -/
lemma pairedFs_onDisk : pairedFs.DataOnDisk := by
  unfold DataOnDisk
  decide

/-- The theorem for the first byte of the file. -/
theorem read_file_exact_sample :
    pairedFs.ReadsFile pairedDisk [2] 2 0 1024 1 Bytes.zero := by
  have hfirst : 0 % pairedFs.clusterSize < blockSize := by decide
  exact (read_file_exact pairedBoot_open pairedFs_onDisk pairedDisk_chain pairedDisk_clusters 0 1024 1
    Bytes.zero).mpr (Or.inr (Or.inr (Or.inr (Or.inl hfirst))))

/-- Byte 600 of the file is not read: the second sector of the cluster is skipped. -/
theorem read_file_skips : openFs pairedBoot = some (some pairedFs) ∧ pairedFs.DataOnDisk ∧
    Chain (pairedFs.link pairedDisk) 2 [2] ∧ (∀ c ∈ [2], pairedFs.IsCluster c) ∧
    ¬ pairedFs.ReadsFile pairedDisk [2] 2 600 1024 1 Bytes.zero := by
  refine ⟨pairedBoot_open, pairedFs_onDisk, pairedDisk_chain, pairedDisk_clusters, ?_⟩
  rintro ⟨n, buf', hrun, hn, -⟩
  have hzero : (pairedFs.readFile pairedDisk 2 600 1024 1 Bytes.zero).map Prod.fst = some 0 := by
    decide +kernel
  have hlen : pairedFs.chainLength [2] = 1024 := by decide
  rw [hrun] at hzero
  obtain rfl : n = 0 := Option.some.inj hzero
  rw [hlen] at hn
  exact absurd hn (by decide)

end Fat32Fs

end Fs

end NekOS
