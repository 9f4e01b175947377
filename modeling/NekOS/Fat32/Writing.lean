import NekOS.Fat32.Growing
import NekOS.Fat32.Reading

/-!
# What `write_file` writes

`write_file` starts where `read_file` does.  It writes whole sectors and reads the old contents of a sector
only if it starts in its middle, so that the rest of the last sector becomes zero.
-/

namespace NekOS

namespace Fs

namespace Fat32Fs

/-- The bytes of a file after `n` bytes of a buffer have been written to `start` on.  If the last sector
has not been read first, its rest is zero. -/
def landed (old : ℕ → UInt8) (start n : ℕ) (buf : Bytes) (p : ℕ) : UInt8 :=
  if start ≤ p ∧ p < start + n then buf (p - start)
  else if 0 < n ∧ start + n ≤ p ∧ p / blockSize = (start + n - 1) / blockSize ∧
    start ≤ (start + n - 1) / blockSize * blockSize then 0
  else old p

/-- The number of bytes that `write_file` writes. -/
def writable (fs : Fat32Fs) (d : Disk) (cs : List ℕ) (offset len : ℕ) : ℕ :=
  min len ((cs.length + (fs.freeClusters d).length) * fs.clusterSize - fs.transferStart offset)

/-- A write at a position of the chain: the bytes before it have been written, or it lies in the part of the
cluster that is skipped. -/
structure WriteAt (fs : Fat32Fs) (d : Disk) (cluster : ℕ) (cs : List ℕ) (offset len : ℕ) (buf : Bytes)
    (news : List ℕ) (c off pos : ℕ) (st : WriteState) : Prop where
  curCluster : st.curCluster = c
  curOffset : st.curOffset = off
  more : st.bytesWritten < len
  place : pos = fs.transferStart offset + st.bytesWritten ∨
    st.bytesWritten = 0 ∧ pos ≤ offset ∧ offset / fs.clusterSize * fs.clusterSize ≤ pos
  written : fs.Written d cluster cs st.disk news
    (landed (fs.fileByte d cs) (fs.transferStart offset) st.bytesWritten buf)

/-- What `write_file` returns, and what it has written. -/
def WriteDone (fs : Fat32Fs) (d : Disk) (cluster : ℕ) (cs : List ℕ) (offset len : ℕ) (buf : Bytes)
    (r : WriteResult) : Prop :=
  ∃ n last d' news, r = some ((n, last), d') ∧ n = fs.writable d cs offset len ∧
    (0 < n → fs.transferStart offset + n ≤ fs.chainLength (cs ++ news)) ∧
    fs.Written d cluster cs d' news (landed (fs.fileByte d cs) (fs.transferStart offset) n buf)

variable {fs : Fat32Fs} {d d' : Disk} {cluster c s p offset len : ℕ} {cs news pre suf : List ℕ}
  {buf : Bytes}

/-- Nothing has been written yet. -/
lemma landed_zero {old : ℕ → UInt8} {start : ℕ} : landed old start 0 buf p = old p := by
  rw [landed, if_neg (by omega), if_neg (by omega)]

/-- Behind the last sector the old bytes are left. -/
lemma landed_behind {old : ℕ → UInt8} {start n pos : ℕ} (hmod : pos % 512 = 0)
    (hle : 0 < n → start + n ≤ pos) (hp : pos ≤ p) : landed old start n buf p = old p := by
  unfold landed blockSize
  rw [if_neg (by omega), if_neg (by omega)]

/-- One more sector. -/
lemma landed_step {old : ℕ → UInt8} {sec : Bytes} {start w n pos k : ℕ} (hmod : pos % 512 = 0)
    (hpos : pos + k = start + w) (hk : 0 < k → w = 0) (hn : 0 < n) (hfits : k + n ≤ 512)
    (hsec : ∀ j < 512, sec j = if 0 < k then old (pos + j) else 0) :
    (if pos ≤ p ∧ p < pos + 512 then sec.blit k buf w n (p - pos) else landed old start w buf p) =
      landed old start (w + n) buf p := by
  by_cases hin : pos ≤ p ∧ p < pos + 512
  · rw [if_pos hin, Bytes.blit]
    by_cases hbuf : k ≤ p - pos ∧ p - pos < k + n
    · rw [if_pos hbuf, landed, if_pos (by omega)]
      congr 1
      omega
    · rw [if_neg hbuf, hsec _ (by omega), landed]
      unfold blockSize
      by_cases hk₀ : 0 < k
      · rw [if_pos hk₀, if_neg (by omega), if_neg (by omega), Nat.add_sub_cancel' hin.1]
      · rw [if_neg hk₀, if_neg (by omega), if_pos (by omega)]
  · rw [if_neg hin, landed, landed]
    unfold blockSize
    by_cases hbuf : start ≤ p ∧ p < start + w
    · rw [if_pos hbuf, if_pos (by omega)]
    · rw [if_neg hbuf, if_neg (by omega), if_neg (by omega), if_neg (by omega)]

/-- Behind the chain a write has left zeros. -/
lemma WriteAt.behind {st : WriteState} {off pos : ℕ}
    (hat : fs.WriteAt d cluster cs offset len buf news c off pos st) (hmod : pos % 512 = 0)
    (hspc : fs.spc < 256) (hle : pos ≤ fs.chainLength (cs ++ news)) :
    ∀ p, fs.chainLength (cs ++ news) ≤ p →
      landed (fs.fileByte d cs) (fs.transferStart offset) st.bytesWritten buf p = 0 := by
  intro p hp
  obtain ⟨-, -, hstart⟩ := transferStart_spec hspc offset
  have hplace := hat.place
  have hlen : fs.chainLength cs ≤ fs.chainLength (cs ++ news) := by
    rw [chainLength_append]
    exact Nat.le_add_right _ _
  rw [landed_behind hmod (by omega) (hle.trans hp)]
  exact if_neg (by omega)

/-- Sectors start at multiples of their size. -/
lemma Sound.chainLength_mod (hs : fs.Sound) (s : ℕ) : (fs.chainLength pre + s * 512) % 512 = 0 := by
  have hdvd : 512 ∣ fs.clusterSize := ⟨fs.spc, by rw [hs.size_eq, blockSize, mul_comm]⟩
  have hpre : fs.chainLength pre % 512 = 0 := Nat.mod_eq_zero_of_dvd (hdvd.mul_left _)
  omega

section Steps

variable (hs : fs.Sound) (hcs : ∀ c ∈ cs, fs.IsCluster c)

include hs hcs

/-- The clusters that a chain can get are not many. -/
lemma Written.length_le {f : ℕ → UInt8} (hw : fs.Written d cluster cs d' news f) :
    fs.chainLength (cs ++ news) ≤ ramdiskSize :=
  chainLength_le hs.spc_lt hs.data (hw.clusters hcs) hw.chain.nodup

/-- One sector. -/
lemma writeSector_post (h : cs ++ news = pre ++ c :: suf) (hsec : s < fs.spc) {st : WriteState}
    (hat : fs.WriteAt d cluster cs offset len buf news c (fs.chainLength pre)
      (fs.chainLength pre + s * blockSize) st) :
    (fs.writeSector offset (offset % fs.clusterSize) len buf s st).Post
      (fs.WriteDone d cluster cs offset len buf)
      (fs.WriteAt d cluster cs offset len buf news c (fs.chainLength pre)
        (fs.chainLength pre + (s + 1) * blockSize)) := by
  obtain ⟨hcur, hoff, hmore, hplace, hw⟩ := hat
  have hc : fs.IsCluster c := hw.clusters hcs c (by simp [h])
  have hlen := hw.length_le hs hcs
  have hsize : ramdiskSize < 2 ^ 31 := by decide
  have hfits : fs.chainLength pre + s * 512 + 512 ≤ fs.chainLength (cs ++ news) := by
    have hle : (s + 1) * 512 ≤ fs.spc * 512 := Nat.mul_le_mul_right _ hsec
    rw [h, chainLength_append, chainLength_cons, hs.size_eq, blockSize]
    omega
  have hmod : (fs.chainLength pre + s * 512) % 512 = 0 := hs.chainLength_mod s
  have hnext : (s + 1) * blockSize = s * 512 + 512 := by rw [Nat.add_mul, Nat.one_mul]
  have hpos : fs.chainLength pre + s * 512 = st.curOffset + s * 512 := by rw [hoff]
  have hskip := sectorSkip_spec hs.spc_lt hpos hmod (by omega) hplace
  have hwrite := fun b => hw.write hs hcs (b := b) h hsec
  rw [writeSector, hcur, hnext]
  dsimp only
  generalize sectorSkip offset (offset % fs.clusterSize) st.curOffset s st.bytesWritten = k at hskip ⊢
  rcases hskip with ⟨hk, hzero, hplace'⟩ | ⟨hk, hpos, hfirst⟩
  · -- The sector is skipped as a whole.
    have hold : (if 0 < k then diskRead st.disk (wrap (fs.clusterToSector c + s)) else some none) =
        some (some fun i => st.disk (fs.clusterAddr c + s * blockSize + i)) := by
      rw [if_pos (by omega), diskRead_cluster hs.data hc hsec]
    have hnone : min (blockSize - k) (len - st.bytesWritten) = 0 := by
      unfold blockSize
      omega
    rw [hold]
    dsimp only
    rw [if_pos hnone]
    refine ⟨hcur, hoff, hmore, ?_, hw⟩
    rw [← Nat.add_assoc]
    omega
  · have hold : ∃ old : Option Bytes,
        (if 0 < k then diskRead st.disk (wrap (fs.clusterToSector c + s)) else some none) = some old ∧
        ∀ j < 512, old.getD Bytes.zero j =
          if 0 < k then fs.fileByte d cs (fs.chainLength pre + s * 512 + j) else 0 := by
      by_cases hk₀ : 0 < k
      · refine ⟨some fun i => st.disk (fs.clusterAddr c + s * blockSize + i), ?_, fun j hj => ?_⟩
        · rw [if_pos hk₀, diskRead_cluster hs.data hc hsec]
        · have hbyte := hw.bytes (fs.chainLength pre + s * 512 + j) (by omega)
          rw [h, chainByte_sector hs.spc_lt hsec hj, hfirst hk₀, landed_zero] at hbyte
          rw [if_pos hk₀]
          exact hbyte
      · exact ⟨none, if_neg hk₀, fun j _ => (if_neg hk₀).symm⟩
    obtain ⟨old, hold, hsecBytes⟩ := hold
    have hn : min (blockSize - k) (len - st.bytesWritten) ≠ 0 := by
      unfold blockSize
      omega
    have haddr : (fs.dataStart + (c - 2) * fs.spc + s) * blockSize =
        fs.clusterAddr c + s * blockSize := by rw [Nat.add_mul, clusterAddr]
    rw [hold]
    dsimp only
    rw [if_neg hn, clusterToSector_eq hs.data hc hsec,
      diskWrite_of_lt (cluster_sectors hs.data hc hsec), haddr]
    dsimp only
    have hle : min (blockSize - k) (len - st.bytesWritten) ≤ 512 - k := Nat.min_le_left _ _
    have hle' : min (blockSize - k) (len - st.bytesWritten) ≤ len - st.bytesWritten :=
      Nat.min_le_right _ _
    have hfull : min (blockSize - k) (len - st.bytesWritten) < len - st.bytesWritten →
        min (blockSize - k) (len - st.bytesWritten) = 512 - k := by
      unfold blockSize
      omega
    generalize min (blockSize - k) (len - st.bytesWritten) = n at hn hle hle' hfull ⊢
    have hwritten := (hwrite ((old.getD Bytes.zero).blit k buf st.bytesWritten n)).congr fun p _ =>
      landed_step hmod hpos hfirst (by omega) (by omega) hsecBytes
    by_cases hdone : len ≤ st.bytesWritten + n
    · rw [if_pos hdone]
      have htotal := hw.length_eq
      have hroom : fs.chainLength (cs ++ news) ≤
          (cs.length + (fs.freeClusters d).length) * fs.clusterSize :=
        Nat.mul_le_mul_right _ (by omega)
      refine ⟨_, c, _, news, rfl, ?_, fun _ => ?_, hwritten⟩
      · rw [writable]
        omega
      · omega
    · rw [if_neg hdone]
      refine ⟨rfl, hoff, Nat.lt_of_not_le hdone, ?_, hwritten⟩
      dsimp only
      rw [← Nat.add_assoc]
      omega

/-- The clusters from one of the chain on. -/
lemma writeClusters (h : cs ++ news = pre ++ c :: suf) {st : WriteState}
    (hat : fs.WriteAt d cluster cs offset len buf news c (fs.chainLength pre) (fs.chainLength pre) st) :
    ∃ r, Flow.loop (fs.writeCluster offset (offset % fs.clusterSize) len buf) loopRounds st = some r ∧
      fs.WriteDone d cluster cs offset len buf r := by
  have hsize : ramdiskSize < 2 ^ 31 := by decide
  refine Flow.loop_spec (I := fun k st => ∃ news pre suf c, cs ++ news = pre ++ c :: suf ∧
    k = cs.length + (fs.freeClusters d).length - pre.length ∧
    fs.WriteAt d cluster cs offset len buf news c (fs.chainLength pre) (fs.chainLength pre) st)
    ?_ (k := cs.length + (fs.freeClusters d).length - pre.length) ?_ ⟨news, pre, suf, c, h, rfl, hat⟩
  · rintro k st ⟨news, pre, suf, c, h, rfl, hat⟩
    rw [writeCluster, if_pos hat.more]
    have hsectors := Flow.forRange_post (n := fs.spc)
      (I := fun s => fs.WriteAt d cluster cs offset len buf news c (fs.chainLength pre)
        (fs.chainLength pre + s * blockSize))
      (fun s hsec st hat => writeSector_post hs hcs h hsec hat) (s := st) (by simpa using hat)
    refine hsectors.andThen fun st hat => ?_
    have hmod : (fs.chainLength pre + fs.spc * blockSize) % 512 = 0 := hs.chainLength_mod fs.spc
    have hend : fs.chainLength (pre ++ [c]) = fs.chainLength pre + fs.spc * blockSize := by
      rw [chainLength_append, chainLength_singleton, hs.size_eq]
    have hle : fs.chainLength pre + fs.spc * blockSize ≤ fs.chainLength (cs ++ news) := by
      rw [h, chainLength_append, chainLength_cons, hs.size_eq]
      omega
    have hlen := hat.written.length_le hs hcs
    have htotal := hat.written.length_eq
    rw [h, List.length_append, List.length_cons] at htotal
    rcases hat.written.advance hs hcs h (hat.behind hmod hs.spc_lt hle) with
      ⟨hnone, rfl, hfree⟩ | ⟨new, d'', news', suf', hsome, hw, h'⟩
    · rw [hat.curCluster, hnone]
      dsimp only
      rw [hfree, List.length_nil] at htotal
      have hroom : (cs.length + (fs.freeClusters d).length) * fs.clusterSize =
          fs.chainLength pre + fs.spc * blockSize := by
        rw [← hend, chainLength, List.length_append, List.length_singleton]
        congr 1
        omega
      obtain ⟨-, hoffset, hstart⟩ := transferStart_spec hs.spc_lt offset
      have hplace := hat.place
      have hmore := hat.more
      refine ⟨st.bytesWritten, c, st.disk, news, rfl, ?_, fun _ => ?_, hat.written⟩
      · rw [writable, hroom]
        omega
      · omega
    · rw [hat.curCluster, hsome]
      dsimp only
      have hwrap : wrap32 (st.curOffset + fs.clusterSize) = fs.chainLength (pre ++ [c]) := by
        rw [hat.curOffset, hend, ← hs.size_eq]
        refine wrap32_of_lt ?_
        rw [hs.size_eq]
        omega
      have htotal' := hw.length_eq
      rw [h', List.length_append, List.length_append, List.length_singleton, List.length_cons] at htotal'
      refine ⟨_, ?_, news', pre ++ [c], suf', new, h', rfl, rfl, hwrap, hat.more, ?_, hw⟩
      · rw [List.length_append, List.length_singleton]
        omega
      · rw [hend]
        exact hat.place
  · have hroom := freeClusters_length fs d
    have hle := hs.clusters_le
    have hsmall : ramdiskSectors < 2 ^ 14 := by decide
    have htotal := hat.written.length_eq
    have hfree := freeClusters_length fs st.disk
    have hlen := hat.written.length_le hs hcs
    have hcount : (cs ++ news).length * 1 ≤ fs.chainLength (cs ++ news) :=
      Nat.mul_le_mul_left _ hs.clusterSize_pos
    unfold loopRounds
    omega

/-- Looking for the cluster of an offset. -/
lemma writeSeek (offset : ℕ) (st : WriteState) (pre suf : List ℕ)
    (h : cs ++ news = pre ++ c :: suf) (hcur : st.curCluster = c)
    (hoff : st.curOffset = fs.chainLength pre) (hnone : st.bytesWritten = 0)
    (hle : fs.chainLength pre ≤ offset) (hw : fs.Written d cluster cs st.disk news (fs.fileByte d cs)) :
    ∃ r, Flow.loop (fs.writeSeekRound cluster offset) loopRounds st = some r ∧
      ((∃ d' news', r = .ret (some ((0, cluster), d')) ∧
        fs.Written d cluster cs d' news' (fs.fileByte d cs) ∧
        (cs.length + (fs.freeClusters d).length) * fs.clusterSize ≤ offset) ∨
      ∃ news' pre' suf' st', cs ++ news' = pre' ++ st'.curCluster :: suf' ∧ r = .next st' ∧
        st'.curOffset = fs.chainLength pre' ∧ st'.bytesWritten = 0 ∧
        pre'.length = offset / fs.clusterSize ∧
        fs.Written d cluster cs st'.disk news' (fs.fileByte d cs)) := by
  have hsize : ramdiskSize < 2 ^ 31 := by decide
  refine Flow.loop_spec (I := fun k (st : WriteState) => ∃ news pre suf,
    cs ++ news = pre ++ st.curCluster :: suf ∧
    k = cs.length + (fs.freeClusters d).length - pre.length ∧ st.curOffset = fs.chainLength pre ∧
    st.bytesWritten = 0 ∧ fs.chainLength pre ≤ offset ∧
    fs.Written d cluster cs st.disk news (fs.fileByte d cs)) ?_
    (k := cs.length + (fs.freeClusters d).length - pre.length) ?_
    ⟨news, pre, suf, hcur ▸ h, rfl, hoff, hnone, hle, hw⟩
  · rintro k st ⟨news, pre, suf, h, rfl, hoff, hnone, hle, hw⟩
    have hlen := hw.length_le hs hcs
    have htotal := hw.length_eq
    have hend : fs.chainLength (pre ++ [st.curCluster]) = fs.chainLength pre + fs.clusterSize := by
      rw [chainLength_append, chainLength_singleton]
    have hwrap : wrap32 (st.curOffset + fs.clusterSize) = fs.chainLength pre + fs.clusterSize := by
      rw [hoff]
      refine wrap32_of_lt ?_
      rw [h, chainLength_append, chainLength_cons] at hlen
      omega
    have hzero : ∀ p, fs.chainLength (cs ++ news) ≤ p → fs.fileByte d cs p = 0 := fun p hp => by
      rw [chainLength_append] at hp
      exact if_neg (by omega)
    unfold writeSeekRound
    rw [hwrap]
    by_cases hgo : fs.chainLength pre + fs.clusterSize ≤ offset
    · rw [if_pos hgo]
      rcases hw.advance hs hcs h hzero with
        ⟨hstop, rfl, hfree⟩ | ⟨new, d'', news', suf', hsome, hw', h'⟩
      · rw [hstop]
        refine Or.inl ⟨st.disk, news, by rw [hnone], hw, ?_⟩
        rw [h, hfree, List.length_append, List.length_singleton, List.length_nil] at htotal
        rw [← htotal, Nat.add_zero, Nat.add_mul, Nat.one_mul]
        exact hgo
      · rw [hsome]
        have htotal' := hw'.length_eq
        rw [h', List.length_append, List.length_append, List.length_singleton,
          List.length_cons] at htotal'
        refine ⟨_, ?_, news', pre ++ [st.curCluster], suf', h', rfl, hend.symm, hnone, ?_, hw'⟩
        · rw [List.length_append, List.length_singleton]
          omega
        · rw [hend]
          exact hgo
    · rw [if_neg hgo]
      refine Or.inr ⟨news, pre, suf, st, h, rfl, hoff, hnone, ?_, hw⟩
      refine (Nat.div_eq_of_lt_le hle ?_).symm
      rw [Nat.add_mul, Nat.one_mul]
      exact Nat.lt_of_not_le hgo
  · have hroom := freeClusters_length fs d
    have hle := hs.clusters_le
    have hsmall : ramdiskSectors < 2 ^ 14 := by decide
    have hlen := hw.length_le hs hcs
    have hcount : (cs ++ news).length * 1 ≤ fs.chainLength (cs ++ news) :=
      Nat.mul_le_mul_left _ hs.clusterSize_pos
    rw [List.length_append] at hcount
    unfold loopRounds
    omega

/-- **What `write_file` does.** -/
theorem writeFile_spec (hchain : Chain (fs.link d) cluster cs)
    (hused : ∀ c ∈ cs, fs.fatEntry d c ≠ fat32Free) (offset len : ℕ) (buf : Bytes) :
    fs.WriteDone d cluster cs offset len buf (fs.writeFile d cluster offset len buf) := by
  obtain ⟨rest, rfl⟩ := hchain.eq_cons
  obtain ⟨-, hoffset, hstart⟩ := transferStart_spec hs.spc_lt offset
  have hcluster := (hcs cluster (List.mem_cons_self ..)).1
  have hw := Written.refl hchain hused
  have hdone : ∀ {d' : Disk} {news : List ℕ} (last : ℕ),
      fs.Written d cluster (cluster :: rest) d' news (fs.fileByte d (cluster :: rest)) →
      fs.writable d (cluster :: rest) offset len = 0 →
      fs.WriteDone d cluster (cluster :: rest) offset len buf (some ((0, last), d')) :=
    fun last hw hzero => ⟨0, last, _, _, rfl, hzero.symm, fun h => absurd h (Nat.lt_irrefl 0),
      hw.congr fun p _ => landed_zero.symm⟩
  obtain ⟨r, hr, hcases⟩ := writeSeek hs hcs offset ⟨cluster, 0, 0, d⟩
    ([] : List ℕ) rest (List.append_nil _) rfl chainLength_nil.symm rfl
    (chainLength_nil.trans_le (Nat.zero_le _)) hw
  rw [writeFile, if_neg (by omega), hr]
  rcases hcases with ⟨d', news', rfl, hw', hfull⟩ |
    ⟨news', pre', suf', st', h', rfl, hoff, hnone, hpre, hw'⟩
  · refine hdone cluster hw' ?_
    rw [writable]
    omega
  · dsimp only
    have hskip : offset - st'.curOffset = offset % fs.clusterSize := by
      rw [hoff, chainLength, hpre]
      omega
    rw [hskip]
    by_cases hmore : 0 < len
    · have hat : fs.WriteAt d cluster (cluster :: rest) offset len buf news' st'.curCluster
          (fs.chainLength pre') (fs.chainLength pre') st' := by
        refine ⟨rfl, hoff, by omega, Or.inr ⟨hnone, ?_, ?_⟩, hw'.congr fun p _ => ?_⟩
        · rw [chainLength, hpre]
          omega
        · rw [chainLength, hpre]
        · rw [hnone, landed_zero]
      obtain ⟨r, hloop, hdone'⟩ := writeClusters hs hcs h' hat
      rw [hloop]
      exact hdone'
    · have hround : fs.writeCluster offset (offset % fs.clusterSize) len buf st' =
          .ret (some ((st'.bytesWritten, st'.curCluster), st'.disk)) := if_neg (by omega)
      rw [Flow.loop_ret hround (by decide), hnone]
      refine hdone _ hw' ?_
      rw [writable]
      omega

end Steps

/-! ### Writes that touch their own range alone -/

/-- What `write_file` is for: it writes the buffer to the chain from the offset on, and nothing else
changes.  All of the buffer is written if there is room for it in the chain and in the free clusters. -/
def WritesFile (fs : Fat32Fs) (d : Disk) (cluster : ℕ) (cs : List ℕ) (offset len : ℕ) (buf : Bytes) :
    Prop :=
  ∃ n last d' news, fs.writeFile d cluster offset len buf = some ((n, last), d') ∧ n ≤ len ∧
    (offset + len ≤ (cs.length + (fs.allFree d).length) * fs.clusterSize → n = len) ∧
    Chain (fs.link d') cluster (cs ++ news) ∧ (∀ c ∈ news, c ∈ fs.allFree d) ∧
    (0 < n → offset + n ≤ fs.chainLength (cs ++ news)) ∧
    (∀ p, p < fs.chainLength cs ∨ p < offset + n → fs.fileByte d' (cs ++ news) p =
      if offset ≤ p ∧ p < offset + n then buf (p - offset) else fs.chainByte d cs p) ∧
    ∀ x, d' x ≠ d x →
      (∃ c ∈ cs ++ news, fs.clusterAddr c ≤ x ∧ x < fs.clusterAddr c + fs.clusterSize) ∨
      ∃ c, Relinked cs news c ∧ fs.fatAddr c ≤ x ∧ x < fs.fatAddr c + 4

/-- If the transfer starts at the offset, only the rest of the last sector can be lost. -/
lemma landed_aligned {old : ℕ → UInt8} {n bound : ℕ} :
    (∀ p, p < bound ∨ p < offset + n → landed old offset n buf p =
      if offset ≤ p ∧ p < offset + n then buf (p - offset) else old p) ↔
    n = 0 ∨ ∀ p < bound, offset + n ≤ p → p / blockSize = (offset + n - 1) / blockSize →
      offset ≤ (offset + n - 1) / blockSize * blockSize → old p = 0 := by
  constructor
  · intro h
    refine or_iff_not_imp_left.mpr fun hn p hp hle hsame hstart => ?_
    have heq := h p (Or.inl hp)
    rw [if_neg (by omega), landed, if_neg (by omega), if_pos ⟨by omega, hle, hsame, hstart⟩] at heq
    exact heq.symm
  · intro h p hp
    rw [landed]
    by_cases hin : offset ≤ p ∧ p < offset + n
    · rw [if_pos hin, if_pos hin]
    · rw [if_neg hin, if_neg hin]
      by_cases hrest : 0 < n ∧ offset + n ≤ p ∧ p / blockSize = (offset + n - 1) / blockSize ∧
          offset ≤ (offset + n - 1) / blockSize * blockSize
      · rw [if_pos hrest]
        obtain ⟨hn, hle, hsame, hstart⟩ := hrest
        exact ((h.resolve_left (by omega)) p (by omega) hle hsame hstart).symm
      · rw [if_neg hrest]

/-- The table of the volume of the sample has an entry for every cluster. -/
lemma pairedFs_covers : pairedFs.TableCovers := by
  unfold TableCovers
  decide

/-- The file of the sample is not free. -/
lemma pairedDisk_used : ∀ c ∈ [2], pairedFs.fatEntry pairedDisk c ≠ fat32Free := by
  intro c hc
  obtain rfl := List.mem_singleton.mp hc
  decide +kernel

end Fat32Fs

end Fs

end NekOS
