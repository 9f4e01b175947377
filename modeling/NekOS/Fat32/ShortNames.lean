import NekOS.Fat32.Reading
import NekOS.Fat32.Walking

/-!
# Short names

The names that `make_short_name` tries for a long name differ in their last byte.  It returns the first of
them that is not in use, except that it does not look whether the last one is.
-/

namespace NekOS

namespace Fs

namespace Fat32Fs

/-- A name that `make_short_name` tries, with a number behind the tilde. -/
def numbered (longName : Str) (k : ℕ) : List UInt8 := (baseName longName).set 7 (0x30 + UInt8.ofNat k)

/-- A name and an extension are those of an entry of a directory. -/
def inUse (es : List Found) (short : List UInt8) : Bool := es.any fun e => e.1.short = short

/-- `make_short_name` does not return a name that is in use. -/
def AliasFresh (fs : Fat32Fs) (d : Disk) (dirCluster : ℕ) (longName : Str) : Prop :=
  ∀ short, fs.makeShortName d longName dirCluster = some short →
    ∀ b es, fs.visited d dirCluster = some (b, es) → ∀ e ∈ es, e.1.short ≠ short

variable {fs : Fat32Fs} {d : Disk} {dirCluster : ℕ} {longName : Str}

/-! ### The names that are tried -/

/-- The first name that is tried. -/
lemma numbered_one (h : isValid83 longName = false) : numbered longName 1 = baseName longName := by
  unfold numbered baseName
  dsimp only
  rw [if_neg (by rw [h]; decide)]
  exact List.set_set ..

/-- The next name from the one before. -/
lemma numbered_set (k n : ℕ) :
    (numbered longName k).set 7 (0x30 + UInt8.ofNat n) = numbered longName n :=
  List.set_set ..

/-- The tilde is there already. -/
lemma numbered_tilde (h : isValid83 longName = false) (k : ℕ) :
    (numbered longName k).set 6 0x7E = numbered longName k := by
  unfold numbered baseName
  dsimp only
  rw [if_neg (by rw [h]; decide), List.set_set, List.set_comm _ _ (by decide), List.set_set]

/-! ### The search -/

/-- Looking for a name among the entries. -/
lemma foldEntries_any (short : List UInt8) (es : List Found) (found : Bool) :
    foldEntries (fun e _ found => found || decide (e.short = short)) found es =
      (found || inUse es short) := by
  induction es generalizing found with
  | nil => exact (Bool.or_false _).symm
  | cons e es ih =>
    rw [foldEntries, List.foldl_cons]
    refine (ih _).trans ?_
    rw [inUse, inUse, List.any_cons, Bool.or_assoc]

/-- A round of the search. -/
lemma shortRound_eq {b : Bool} {es : List Found} (h : fs.visited d dirCluster = some (b, es))
    (hlong : isValid83 longName = false) (k n : ℕ) :
    fs.shortRound d dirCluster (baseExt longName) n (numbered longName k) =
      if inUse es (numbered longName k ++ baseExt longName) then .next (numbered longName n)
      else .ret (some (numbered longName k)) := by
  rw [shortRound, walkDir_eq_visited, h, Option.map_some]
  dsimp only
  rw [foldEntries_any, Bool.false_or, numbered_tilde hlong, numbered_set, ite_self]
  cases inUse es _ with
  | true => rfl
  | false => rfl

/-- What the search finds: a number whose name is not in use, or the last one if the names before it are. -/
lemma shortRounds_post {b : Bool} {es : List Found} (h : fs.visited d dirCluster = some (b, es))
    (hlong : isValid83 longName = false) :
    (Flow.forEach (fs.shortRound d dirCluster (baseExt longName)) (List.range' 1 99)
      (baseName longName)).Post
      (fun r => ∃ k, 1 ≤ k ∧ k ≤ 99 ∧ r = some (numbered longName k) ∧
        inUse es (numbered longName k ++ baseExt longName) = false)
      (fun base => base = numbered longName 99 ∧
        ∀ k, 1 ≤ k → k < 99 → inUse es (numbered longName k ++ baseExt longName) = true) := by
  suffices hrule : (Flow.forEach (fs.shortRound d dirCluster (baseExt longName)) (List.range' 1 99)
      (baseName longName)).Post
      (fun r => ∃ k, 1 ≤ k ∧ k ≤ 99 ∧ r = some (numbered longName k) ∧
        inUse es (numbered longName k ++ baseExt longName) = false)
      (fun base => base = numbered longName (max 1 (1 + 99 - 1)) ∧
        ∀ k, 1 ≤ k → k + 1 < 1 + 99 → inUse es (numbered longName k ++ baseExt longName) = true) from
    hrule.imp (fun _ => id) fun base ⟨hbase, hused⟩ => ⟨hbase, fun k hk hlt => hused k hk (by omega)⟩
  refine Flow.forRange'_post (I := fun n base => base = numbered longName (max 1 (n - 1)) ∧
    ∀ k, 1 ≤ k → k + 1 < n → inUse es (numbered longName k ++ baseExt longName) = true) ?_
    ⟨(numbered_one hlong).symm, fun k hk hlt => by omega⟩
  rintro n hn hlt base ⟨rfl, hused⟩
  rw [shortRound_eq h hlong]
  split_ifs with hin
  · refine ⟨by rw [show max 1 (n + 1 - 1) = n by omega], fun k hk hle => ?_⟩
    by_cases hkn : k + 1 < n
    · exact hused k hk hkn
    · rwa [show max 1 (n - 1) = k by omega] at hin
  · exact ⟨max 1 (n - 1), by omega, by omega, rfl, by simpa using hin⟩

/-- A name that is not in use. -/
lemma inUse_eq_false {es : List Found} {short : List UInt8} :
    inUse es short = false ↔ ∀ e ∈ es, e.1.short ≠ short := by
  rw [inUse, List.any_eq_false]
  simp only [decide_eq_true_eq]

/-- What `make_short_name` returns for a long name. -/
lemma makeShortName_spec {b : Bool} {es : List Found} (h : fs.visited d dirCluster = some (b, es))
    (hlong : isValid83 longName = false) :
    ∃ k, 1 ≤ k ∧ k ≤ 99 ∧
      fs.makeShortName d longName dirCluster = some (numbered longName k ++ baseExt longName) ∧
      (inUse es (numbered longName k ++ baseExt longName) = false ∨ k = 99 ∧
        ∀ j, 1 ≤ j → j < 99 → inUse es (numbered longName j ++ baseExt longName) = true) := by
  have hpost := shortRounds_post h hlong
  rw [makeShortName, if_neg (by rw [hlong]; decide)]
  cases hrun : Flow.forEach (fs.shortRound d dirCluster (baseExt longName)) (List.range' 1 99)
    (baseName longName) with
  | ret r =>
    rw [hrun] at hpost
    obtain ⟨k, hk, hle, rfl, hfree⟩ := hpost
    exact ⟨k, hk, hle, rfl, Or.inl hfree⟩
  | next base =>
    rw [hrun] at hpost
    obtain ⟨rfl, hused⟩ := hpost
    exact ⟨99, by decide, le_rfl, rfl, Or.inr ⟨rfl, hused⟩⟩

/-- There is no short name if the walk does not end. -/
lemma makeShortName_none (h : fs.visited d dirCluster = none) (hlong : isValid83 longName = false) :
    fs.makeShortName d longName dirCluster = none := by
  rw [makeShortName, if_neg (by rw [hlong]; decide)]
  have hround : fs.shortRound d dirCluster (baseExt longName) 1 (baseName longName) = .ret none := by
    rw [shortRound, walkDir_eq_visited, h, Option.map_none]
  rw [List.range'_succ, Flow.forEach, hround]
  rfl

/-- **Short names.**  The short name for a long name differs from those in the directory if and only if one of
the 99 names that can be tried is not in use. -/
theorem short_name_exact (fs : Fat32Fs) (d : Disk) (dirCluster : ℕ) (longName : Str)
    (hlong : isValid83 longName = false) :
    fs.AliasFresh d dirCluster longName ↔ ∀ b es, fs.visited d dirCluster = some (b, es) →
      ∃ k, 1 ≤ k ∧ k ≤ 99 ∧ ∀ e ∈ es, e.1.short ≠ numbered longName k ++ baseExt longName := by
  constructor
  · intro h b es hvisited
    obtain ⟨k, hk, hle, hshort, -⟩ := makeShortName_spec hvisited hlong
    exact ⟨k, hk, hle, h _ hshort b es hvisited⟩
  · intro h short hshort b es hvisited
    obtain ⟨k, -, -, hshort', hfree⟩ := makeShortName_spec hvisited hlong
    rw [hshort'] at hshort
    cases hshort
    rcases hfree with hfree | ⟨rfl, hused⟩
    · exact inUse_eq_false.mp hfree
    · obtain ⟨j, hj, hle, hfree⟩ := h b es hvisited
      rcases Nat.lt_or_eq_of_le hle with hlt | rfl
      · have hused' := hused j hj hlt
        rw [inUse_eq_false.mpr hfree] at hused'
        cases hused'
      · exact hfree

/-- The theorem for a directory without entries. -/
theorem short_name_exact_sample : pairedFs.AliasFresh pairedDisk 2 "longername.txt".toList := by
  refine (short_name_exact pairedFs pairedDisk 2 _ (by decide +kernel)).mpr fun b es h => ?_
  have hempty : (pairedFs.visited pairedDisk 2).map (fun r => r.2.length) = some 0 := by decide +kernel
  rw [h] at hempty
  obtain rfl := List.length_eq_zero_iff.mp (Option.some.inj hempty)
  exact ⟨1, le_rfl, by decide, nofun⟩

/-! ### A directory with 99 short names -/

/-- A short name that is tried for `longername.txt`. -/
def crowdedShort (k : ℕ) : List UInt8 :=
  [0x4C, 0x4F, 0x4E, 0x47, 0x45, 0x52, 0x7E, 0x30 + UInt8.ofNat k, 0x54, 0x58, 0x54]

/-- The boot sector of a small volume with eight sectors in a cluster. -/
def crowdedBoot : Bytes := pairedBoot.store 13 8 1

/-- The volume. -/
def crowdedFs : Fat32Fs :=
  ⟨⟨512, 8, 1, 1, 0, 0, 254, 1, 0⟩, 1, 2, 31, 0⟩

/-- A disk with a directory in cluster 2 that has all of them. -/
def crowdedDisk : Disk := fun x =>
  if 1024 ≤ x ∧ (x - 1024) / 32 < 99 then (crowdedShort ((x - 1024) / 32 + 1)).getD ((x - 1024) % 32) 0
  else 0

/-- All names are in use, but one of them is returned. -/
theorem short_name_collides : openFs crowdedBoot = some (some crowdedFs) ∧
    isValid83 "longername.txt".toList = false ∧
    ¬ crowdedFs.AliasFresh crowdedDisk 2 "longername.txt".toList := by
  have hlong : isValid83 "longername.txt".toList = false := by decide +kernel
  refine ⟨by decide +kernel, hlong, fun h => ?_⟩
  have hall : (crowdedFs.visited crowdedDisk 2).map (fun r => r.2.map fun e => e.1.short) =
      some ((List.range' 1 99).map crowdedShort) := by decide +kernel
  cases hvisited : crowdedFs.visited crowdedDisk 2 with
  | none =>
    rw [hvisited] at hall
    cases hall
  | some r =>
    obtain ⟨b, es⟩ := r
    rw [hvisited] at hall
    obtain ⟨k, hk, hle, hshort, -⟩ := makeShortName_spec hvisited hlong
    have hes : es.map (fun e => e.1.short) = (List.range' 1 99).map crowdedShort := Option.some.inj hall
    have hmem : crowdedShort k ∈ es.map fun e => e.1.short := by
      rw [hes]
      exact List.mem_map_of_mem (List.mem_range'_1.mpr ⟨hk, by omega⟩)
    obtain ⟨e, he, heq⟩ := List.mem_map.mp hmem
    exact h _ hshort b es hvisited e he heq

end Fat32Fs

end Fs

end NekOS
