import NekOS.Fat32.Listing
import NekOS.Fat32.Resolution

/-!
# Updating an entry

`update_dir_entry_size` changes all entries with the name in the sector of the first one.  It writes the
sector back after it has looked at all slots of it, but it returns at once at the slot that ends the
directory.
-/

namespace NekOS

namespace Fs

/-! ### Entries with another size -/

/-- An entry with another size and another first cluster. -/
def DirEntry.resized (size first : ℕ) (e : DirEntry) : DirEntry :=
  DirEntry.read (Fat32Fs.putSize size first 0 fun j => e.byte j) 0

namespace DirEntry

variable {m : Bytes} {a b i size first : ℕ} {e : DirEntry}

/-- A byte of a slot that is read. -/
lemma byte_read (hi : i < 32) : (read m a).byte i = m (a + i) := by
  rw [byte, dif_pos hi, read]

/-- Two bytes of a slot that is read. -/
lemma half_read (hi : i + 1 < 32) : (read m a).half i = m.load (a + i) 2 := by
  rw [half, byte_read (by omega), byte_read hi]
  simp only [Bytes.load, Nat.mul_zero, Nat.add_zero]
  rfl

/-- The bytes that are not changed. -/
lemma byte_resized (hi : i < 20 ∨ 22 ≤ i ∧ i < 26) : (e.resized size first).byte i = e.byte i := by
  rw [resized, byte_read (by omega), Fat32Fs.putSize, Bytes.store_apply (by omega),
    Bytes.store_apply (by omega), Bytes.store_apply (by omega), Nat.zero_add]

/-- The size of the entry. -/
lemma fileSize_resized (hsize : size < 2 ^ 32) : (e.resized size first).fileSize = size := by
  have hload : ∀ {i}, 28 ≤ i → (Fat32Fs.putSize size first 0 fun j => e.byte j).load i 2 =
      (Bytes.store (fun j => e.byte j) 28 size 4).load i 2 := fun hi => by
    rw [Fat32Fs.putSize, (Bytes.agree_store (by omega)).load_eq, (Bytes.agree_store (by omega)).load_eq,
      Nat.zero_add]
  have hstore : (Bytes.store (fun j => e.byte j) 28 size 4).load 28 4 = size :=
    Bytes.load_store_of_lt hsize
  rw [fileSize, resized, half_read (by omega), half_read (by omega), Nat.zero_add, Nat.zero_add,
    hload le_rfl, hload (by omega)]
  simp only [Bytes.load, Nat.reduceAdd] at hstore ⊢
  omega

/-- Its first cluster. -/
lemma firstCluster_resized (hfirst : first < 2 ^ 32) :
    (e.resized size first).firstCluster = first := by
  rw [firstCluster, resized, half_read (by omega), half_read (by omega), Fat32Fs.putSize, Nat.zero_add,
    Nat.zero_add, Nat.zero_add, Bytes.load_store_of_lt (by omega),
    (Bytes.agree_store (by omega)).load_eq, Bytes.load_store]
  omega

/-- The name, the attribute and the state of the slot stay. -/
lemma resized_keeps (size first : ℕ) (e : DirEntry) : (e.resized size first).byte 0 = e.byte 0 ∧
    (e.resized size first).attr = e.attr ∧ (e.resized size first).shortName = e.shortName := by
  have hbyte : ∀ i < 20, (e.resized size first).byte i = e.byte i := fun i hi =>
    byte_resized (Or.inl hi)
  refine ⟨hbyte 0 (by omega), hbyte 11 (by omega), ?_⟩
  have hname : (List.range 8).map (e.resized size first).byte = (List.range 8).map e.byte :=
    List.map_congr_left fun i hi => hbyte i (by have := List.mem_range.mp hi; omega)
  have hext : ((List.range 3).map fun j => (e.resized size first).byte (8 + j)) =
      (List.range 3).map fun j => e.byte (8 + j) :=
    List.map_congr_left fun j hj => hbyte (8 + j) (by have := List.mem_range.mp hj; omega)
  rw [shortName, shortName, hname, hext, hbyte 8 (by omega)]

/-- The slot that is written. -/
lemma read_putSize (size first a : ℕ) (m : Bytes) :
    read (Fat32Fs.putSize size first a m) a = (read m a).resized size first := by
  have hpart : ∀ (m : Bytes) (b v n : ℕ), (fun j => m.store (a + b) v n (a + j)) =
      Bytes.store (fun j => m (a + j)) b v n := fun m b v n => funext fun j => Bytes.store_shift.symm
  have hsame : ∀ j < 32, (fun j => (read m a).byte j) j = m (a + j) := fun j hj => byte_read hj
  funext i
  rw [resized, read, read, Nat.zero_add]
  have hstore : ∀ (m m' : Bytes) (b v n : ℕ), (∀ j < 32, m j = m' j) →
      ∀ j < 32, m.store b v n j = m'.store b v n j := fun m m' b v n => by
    induction n generalizing m m' b v with
    | zero => exact id
    | succ n ih =>
      intro h
      refine ih _ _ _ _ fun j hj => ?_
      by_cases hjb : j = b
      · rw [hjb, Function.update_self, Function.update_self]
      · rw [Function.update_of_ne hjb, Function.update_of_ne hjb, h j hj]
  have h₁ := hpart m 28 size 4
  have h₂ := hpart (m.store (a + 28) size 4) 26 first 2
  have h₃ := hpart ((m.store (a + 28) size 4).store (a + 26) first 2) 20 (first / 2 ^ 16) 2
  rw [h₁] at h₂
  rw [h₂] at h₃
  refine (congrFun h₃ i).trans ?_
  rw [Fat32Fs.putSize, Nat.zero_add, Nat.zero_add, Nat.zero_add]
  exact (hstore _ _ _ _ _ (hstore _ _ _ _ _ (hstore _ _ _ _ _ hsame)) i i.isLt).symm

/-- Another slot. -/
lemma read_putSize_ne (hapart : a + 32 ≤ b ∨ b + 32 ≤ a) :
    read (Fat32Fs.putSize size first a m) b = read m b := by
  funext i
  have hi := i.isLt
  rw [read, read, Fat32Fs.putSize, Bytes.store_apply (by omega), Bytes.store_apply (by omega),
    Bytes.store_apply (by omega)]

end DirEntry

/-! ### Entries with a name -/

/-- The positions of the entries with a name among some slots. -/
def hits (search : List UInt8) (k : ℕ) (lfn : Lfn) (es : List DirEntry) : List ℕ :=
  ((entriesFrom k lfn es).filter fun p => nameMatches p.2.2 search).map Prod.fst

section Hits

variable {search : List UInt8} {k : ℕ} {lfn : Lfn} {es es' : List DirEntry}

/-- The first slot and the others. -/
lemma hits_cons (search : List UInt8) (k : ℕ) (lfn : Lfn) (e : DirEntry) (es : List DirEntry) :
    hits search k lfn (e :: es) =
      if e.byte 0 = slotEnd then []
      else if e.byte 0 = slotDeleted then hits search (k + 1) lfn.reset es
      else if e.attr = attrLfn then hits search (k + 1) (lfn.push e) es
      else if nameMatches (lfn.entryName e) search then k :: hits search (k + 1) lfn.reset es
      else hits search (k + 1) lfn.reset es := by
  rw [hits, entriesFrom]
  split_ifs with h₁ h₂ h₃ h₄
  · rfl
  · rfl
  · rfl
  · rw [List.filter_cons, if_pos h₄, List.map_cons, hits]
  · rw [List.filter_cons, if_neg h₄, hits]

/-- The positions in two lists. -/
lemma hits_append (search : List UInt8) (k : ℕ) (lfn : Lfn) (es es' : List DirEntry) :
    hits search k lfn (es ++ es') = hits search k lfn es ++
      ((carry lfn es).map fun lfn => hits search (k + es.length) lfn es').getD [] := by
  rw [hits, entriesFrom_append, List.filter_append, List.map_append, hits]
  cases carry lfn es <;> rfl

/-- A position is that of an entry with the name. -/
lemma mem_hits {p : ℕ} : p ∈ hits search k lfn es ↔
    ∃ q ∈ entriesFrom k lfn es, nameMatches q.2.2 search = true ∧ q.1 = p := by
  simp only [hits, List.mem_map, List.mem_filter, and_assoc]

/-- The positions are different. -/
lemma hits_nodup (search : List UInt8) (k : ℕ) (lfn : Lfn) (es : List DirEntry) :
    (hits search k lfn es).Nodup := by
  rw [hits, List.Nodup, List.pairwise_map]
  exact ((positions_sorted k lfn es).filter _).imp Nat.ne_of_lt

/-- The end of the directory is among the slots. -/
lemma carry_eq_none : carry lfn es = none ↔ ∃ e ∈ es, e.byte 0 = slotEnd := by
  induction es generalizing lfn with
  | nil => simp [carry]
  | cons e es ih =>
    rw [carry, List.exists_mem_cons_iff]
    split_ifs with h₁ h₂ h₃
    · simp only [h₁, true_or]
    all_goals simp only [h₁, false_or, ih]

end Hits

namespace Fat32Fs

variable {fs : Fat32Fs} {d : Disk} {cluster : ℕ} {cs : List ℕ} {search : List UInt8} {size first : ℕ}

/-- The entries at some addresses with another size. -/
def resizeAll (size first : ℕ) (addrs : List ℕ) (m : Bytes) : Bytes :=
  addrs.foldl (fun m a => putSize size first a m) m

/-! ### The loop over the slots of a sector -/

/-- The slots of a sector in an update. -/
lemma updateSlots_eq (search : List UInt8) (size first : ℕ) (buf : Bytes) (k a n : ℕ) (st : UpdateState)
    (hread : ∀ i, a ≤ i → DirEntry.read st.buf (i * 32) = DirEntry.read buf (i * 32)) :
    Flow.forEach (updateSlot search size first) (List.range' a n) st =
      match carry st.lfn (slotsIn buf a n) with
      | none => .ret (st.found || !(hits search (k + a) st.lfn (slotsIn buf a n)).isEmpty)
      | some lfn => .next
        ⟨lfn, st.found || !(hits search (k + a) st.lfn (slotsIn buf a n)).isEmpty,
          resizeAll size first
            ((hits search (k + a) st.lfn (slotsIn buf a n)).map fun p => (p - k) * 32) st.buf,
          st.modified || !(hits search (k + a) st.lfn (slotsIn buf a n)).isEmpty⟩ := by
  induction n generalizing a st with
  | zero =>
    rw [slotsIn, List.range'_zero, List.map_nil, carry, hits, entriesFrom]
    simp only [List.filter_nil, List.map_nil, List.isEmpty_nil, Bool.not_true, Bool.or_false]
    rfl
  | succ n ih =>
    have hlater : ∀ i, a + 1 ≤ i → DirEntry.read st.buf (i * 32) = DirEntry.read buf (i * 32) :=
      fun i hi => hread i (by omega)
    rw [List.range'_succ, Flow.forEach, updateSlot, slotsIn_succ, carry, hits_cons, hread a le_rfl]
    split_ifs with h₁ h₂ h₃ h₄
    · simp only [List.isEmpty_nil, Bool.not_true, Bool.or_false]
      rfl
    · exact ih (a + 1) _ hlater
    · exact ih (a + 1) _ hlater
    · refine (ih (a + 1) _ fun i hi => ?_).trans ?_
      · exact (DirEntry.read_putSize_ne (by omega)).trans (hlater i hi)
      · simp only [Bool.true_or, List.isEmpty_cons, Bool.not_false, Bool.or_true, List.map_cons,
          Nat.add_sub_cancel_left]
        rfl
    · exact ih (a + 1) _ hlater

/-! ### The loop over the sectors -/

/-- The slots of a sector before others. -/
lemma slotsOf_cons (d : Disk) (sector : ℕ) (sectors : List ℕ) : slotsOf d (sector :: sectors) =
    slotsIn (sectorBytes d sector) 0 entriesPerSector ++ slotsOf d sectors := by
  rw [slotsOf, List.flatMap_cons, slotsOf]

/-- A sector without an entry with the name. -/
lemma updateSector_none {sector : ℕ} (hon : sector < ramdiskSectors) (k : ℕ) (lfn : Lfn)
    (hnone : hits search k lfn (slotsIn (sectorBytes d sector) 0 entriesPerSector) = []) :
    updateSector search size first sector (lfn, false, d) =
      match carry lfn (slotsIn (sectorBytes d sector) 0 entriesPerSector) with
      | none => .ret (some (false, d))
      | some lfn' => .next (lfn', false, d) := by
  have hloop := updateSlots_eq search size first (sectorBytes d sector) k 0 entriesPerSector
    ⟨lfn, false, sectorBytes d sector, false⟩ fun _ _ => rfl
  rw [Nat.add_zero] at hloop
  simp only [hnone, List.isEmpty_nil, Bool.not_true, Bool.or_false, List.map_nil] at hloop
  rw [updateSector, diskRead_of_lt hon, List.range_eq_range']
  dsimp only
  rw [show (fun i => d (sector * blockSize + i)) = sectorBytes d sector from rfl, hloop]
  cases carry lfn (slotsIn (sectorBytes d sector) 0 entriesPerSector) <;> rfl

/-- Writing a sector back after entries in it have been changed. -/
lemma blit_resizeAll (size first sector : ℕ) (offs : List ℕ) (hoffs : ∀ a ∈ offs, a + 32 ≤ blockSize)
    (d : Disk) : d.blit (sector * blockSize) (resizeAll size first offs (sectorBytes d sector)) 0
      blockSize = resizeAll size first (offs.map (sector * blockSize + ·)) d := by
  induction offs generalizing d with
  | nil =>
    funext x
    rw [Bytes.blit]
    split_ifs with hx
    · rw [resizeAll, List.foldl_nil, sectorBytes, Nat.zero_add, Nat.add_sub_cancel' hx.1]
      rfl
    · rfl
  | cons a offs ih =>
    obtain ⟨ha, hoffs⟩ := List.forall_mem_cons.mp hoffs
    have hput : putSize size first a (sectorBytes d sector) =
        sectorBytes (putSize size first (sector * blockSize + a) d) sector := by
      funext j
      simp only [putSize, sectorBytes, Nat.add_assoc]
      rw [← Bytes.store_shift]
      refine congrFun (congrArg (fun m => Bytes.store m _ _ _) (funext fun j => ?_)) j
      rw [← Bytes.store_shift]
      refine congrFun (congrArg (fun m => Bytes.store m _ _ _) (funext fun j => ?_)) j
      exact Bytes.store_shift
    have hin : ∀ x, x < sector * blockSize ∨ sector * blockSize + blockSize ≤ x →
        putSize size first (sector * blockSize + a) d x = d x := fun x hx => by
      clear hput ih hoffs
      generalize sector * blockSize = b at hx ⊢
      unfold blockSize at ha hx
      rw [putSize, Bytes.store_apply (by omega), Bytes.store_apply (by omega),
        Bytes.store_apply (by omega)]
    rw [List.map_cons, resizeAll, resizeAll, List.foldl_cons, List.foldl_cons, hput]
    refine Eq.trans ?_ (ih hoffs (putSize size first (sector * blockSize + a) d))
    funext x
    rw [Bytes.blit, Bytes.blit]
    split_ifs with hx
    · rfl
    · exact (hin x (by omega)).symm

/-- A sector with an entry with the name. -/
lemma updateSector_some {sector : ℕ} (hon : sector < ramdiskSectors) (k : ℕ) (lfn : Lfn)
    (hsome : hits search k lfn (slotsIn (sectorBytes d sector) 0 entriesPerSector) ≠ []) :
    updateSector search size first sector (lfn, false, d) =
      .ret (some (true,
        match carry lfn (slotsIn (sectorBytes d sector) 0 entriesPerSector) with
        | none => d
        | some _ => resizeAll size first
          ((hits search k lfn (slotsIn (sectorBytes d sector) 0 entriesPerSector)).map fun p =>
            sector * blockSize + (p - k) * 32) d)) := by
  have hloop := updateSlots_eq search size first (sectorBytes d sector) k 0 entriesPerSector
    ⟨lfn, false, sectorBytes d sector, false⟩ fun _ _ => rfl
  have hempty : (hits search k lfn (slotsIn (sectorBytes d sector) 0 entriesPerSector)).isEmpty = false :=
    List.isEmpty_eq_false_iff.mpr hsome
  rw [Nat.add_zero] at hloop
  simp only [hempty, Bool.not_false, Bool.or_true] at hloop
  rw [updateSector, diskRead_of_lt hon, List.range_eq_range']
  dsimp only
  rw [show (fun i => d (sector * blockSize + i)) = sectorBytes d sector from rfl, hloop]
  cases carry lfn (slotsIn (sectorBytes d sector) 0 entriesPerSector) with
  | none => rfl
  | some lfn' =>
    dsimp only
    rw [if_pos rfl, diskWrite_of_lt hon, blit_resizeAll, List.map_map]
    · rfl
    · intro a ha
      obtain ⟨p, hp, rfl⟩ := List.mem_map.mp ha
      obtain ⟨q, hq, -, rfl⟩ := mem_hits.mp hp
      obtain ⟨-, hget⟩ := position_of_mem hq
      have hlt := (List.getElem?_eq_some_iff.mp hget).1
      rw [slotsIn_length] at hlt
      unfold entriesPerSector blockSize at hlt
      unfold blockSize
      omega

/-- The sectors before an entry with the name. -/
lemma updateSectors_none {sectors : List ℕ} (hon : ∀ sector ∈ sectors, sector < ramdiskSectors) (k : ℕ)
    (lfn : Lfn) (hnone : hits search k lfn (slotsOf d sectors) = []) :
    Flow.forEach (updateSector search size first) sectors (lfn, false, d) =
      match carry lfn (slotsOf d sectors) with
      | none => .ret (some (false, d))
      | some lfn' => .next (lfn', false, d) := by
  induction sectors generalizing k lfn with
  | nil => rfl
  | cons sector sectors ih =>
    obtain ⟨hsector, hsectors⟩ := List.forall_mem_cons.mp hon
    rw [slotsOf_cons, hits_append, List.append_eq_nil_iff] at hnone
    rw [Flow.forEach, updateSector_none hsector k lfn hnone.1, slotsOf_cons, carry_append]
    have hrest := hnone.2
    cases hcarry : carry lfn (slotsIn (sectorBytes d sector) 0 entriesPerSector) with
    | none => rfl
    | some lfn' =>
      rw [hcarry, Option.map_some, Option.getD_some] at hrest
      exact ih hsectors _ lfn' hrest

/-- The first sector with an entry with the name. -/
lemma exists_sector {sectors : List ℕ} {k : ℕ} {lfn : Lfn}
    (h : hits search k lfn (slotsOf d sectors) ≠ []) :
    ∃ pre sector suf lfn', sectors = pre ++ sector :: suf ∧ hits search k lfn (slotsOf d pre) = [] ∧
      carry lfn (slotsOf d pre) = some lfn' ∧
      hits search (k + pre.length * entriesPerSector) lfn'
        (slotsIn (sectorBytes d sector) 0 entriesPerSector) ≠ [] := by
  induction sectors generalizing k lfn with
  | nil => exact absurd rfl h
  | cons sector sectors ih =>
    by_cases hfirst : hits search k lfn (slotsIn (sectorBytes d sector) 0 entriesPerSector) = []
    · rw [slotsOf_cons, hits_append, hfirst, List.nil_append] at h
      cases hcarry : carry lfn (slotsIn (sectorBytes d sector) 0 entriesPerSector) with
      | none =>
        rw [hcarry] at h
        exact absurd rfl h
      | some lfn₁ =>
        rw [hcarry, Option.map_some, Option.getD_some, slotsIn_length] at h
        obtain ⟨pre, sector', suf, lfn', rfl, hnone, hcarry', hsome⟩ := ih h
        refine ⟨sector :: pre, sector', suf, lfn', rfl, ?_, ?_, ?_⟩
        · rw [slotsOf_cons, hits_append, hfirst, hcarry, Option.map_some, Option.getD_some,
            slotsIn_length, hnone, List.append_nil]
        · rw [slotsOf_cons, carry_append, hcarry, Option.bind_some, hcarry']
        · rw [List.length_cons, Nat.add_mul, Nat.one_mul, Nat.add_comm (pre.length * _), ← Nat.add_assoc]
          exact hsome
    · exact ⟨[], sector, sectors, lfn, rfl, rfl, rfl, by rwa [List.length_nil, Nat.zero_mul, Nat.add_zero]⟩

/-! ### The entries afterwards -/

/-- The sector of a slot of a directory. -/
def slotSector (fs : Fat32Fs) (cs : List ℕ) (p : ℕ) : ℕ :=
  (fs.dirSectors cs).getD (p / entriesPerSector) 0

/-- The end of the directory is marked in the sector. -/
lemma carry_sector {sector : ℕ} (lfn : Lfn) :
    carry lfn (slotsIn (sectorBytes d sector) 0 entriesPerSector) = none ↔ EndMarked d sector := by
  rw [carry_eq_none]
  constructor
  · rintro ⟨e, he, hend⟩
    obtain ⟨j, hj, rfl⟩ := List.mem_map.mp he
    exact ⟨j, by have := (List.mem_range'_1.mp hj).2; omega, hend⟩
  · rintro ⟨j, hj, hend⟩
    exact ⟨_, List.mem_map.mpr ⟨j, List.mem_range'_1.mpr ⟨by omega, by omega⟩, rfl⟩, hend⟩

/-- Changing entries changes the bytes of their sizes and first clusters alone. -/
lemma resizeAll_apply {addrs : List ℕ} {x : ℕ} (hx : ∀ a ∈ addrs, x < a + 20 ∨ a + 32 ≤ x)
    (m : Bytes) : resizeAll size first addrs m x = m x := by
  induction addrs generalizing m with
  | nil => rfl
  | cons a addrs ih =>
    obtain ⟨ha, hx⟩ := List.forall_mem_cons.mp hx
    refine (ih hx _).trans ?_
    dsimp only
    rw [putSize, Bytes.store_apply (by omega), Bytes.store_apply (by omega), Bytes.store_apply (by omega)]

/-- The entries of a directory that `update_dir_entry_size` changes: those with the name in the sector of the
entry at the position `p`. -/
def Resizes (search : List UInt8) (p : ℕ) (q : ℕ × Found) : Prop :=
  nameMatches q.2.2 search = true ∧ q.1 / entriesPerSector = p / entriesPerSector

instance (search : List UInt8) (p : ℕ) : DecidablePred (Resizes search p) := fun _ => inferInstanceAs (Decidable (_ ∧ _))

/-- Names are compared as an equivalence. -/
lemma nameMatches_iff {a b : List UInt8} :
    nameMatches a b = true ↔ a.map toAsciiLowercase = b.map toAsciiLowercase := by
  induction a generalizing b with
  | nil => cases b <;> simp [nameMatches]
  | cons x a ih =>
    cases b with
    | nil => simp [nameMatches]
    | cons y b =>
      have hih := @ih b
      simp only [nameMatches, Bool.and_eq_true, decide_eq_true_eq, List.length_cons, List.zip_cons_cons,
        List.all_cons, List.map_cons, List.cons.injEq, Nat.add_right_cancel_iff] at hih ⊢
      rw [← hih]
      tauto

namespace Directory

variable {p q : ℕ}

/-- A slot that is read after entries have been changed. -/
lemma read_resizeAll (h : fs.Directory d cluster cs) {ps : List ℕ} (hps : ∀ p ∈ ps, p < fs.slotCount cs)
    (hnodup : ps.Nodup) (hq : q < fs.slotCount cs) (m : Bytes) :
    DirEntry.read (resizeAll size first (ps.map (fs.slotAddr cs)) m) (fs.slotAddr cs q) =
      if q ∈ ps then (DirEntry.read m (fs.slotAddr cs q)).resized size first
      else DirEntry.read m (fs.slotAddr cs q) := by
  induction ps generalizing m with
  | nil => rfl
  | cons p ps ih =>
    obtain ⟨hp, hps⟩ := List.forall_mem_cons.mp hps
    obtain ⟨hnotin, hnodup⟩ := List.nodup_cons.mp hnodup
    rw [List.map_cons, resizeAll, List.foldl_cons]
    refine (ih hps hnodup _).trans ?_
    by_cases hqp : q = p
    · subst hqp
      rw [if_neg hnotin, if_pos List.mem_cons_self, DirEntry.read_putSize]
    · rw [DirEntry.read_putSize_ne (h.slotAddr_apart hp hq (Ne.symm hqp))]
      simp only [List.mem_cons, hqp, false_or]

/-- The positions of the listing are those of slots. -/
lemma position_lt {r : ℕ × Found} (hr : r ∈ fs.listing d cs) :
    r.1 < fs.slotCount cs ∧ r.2.1 = DirEntry.read d (fs.slotAddr cs r.1) := by
  obtain ⟨-, hget⟩ := position_of_mem hr
  obtain ⟨hlt, hget⟩ := List.getElem?_eq_some_iff.mp hget
  rw [Nat.sub_zero] at hlt
  rw [dirSlots_eq, List.length_map, List.length_range'] at hlt
  refine ⟨hlt, hget.symm.trans ?_⟩
  simp only [dirSlots_eq, List.getElem_map, List.getElem_range', Nat.sub_zero, Nat.zero_add, Nat.one_mul]

/-- A position has one entry. -/
lemma listing_inj {q r : ℕ × Found} (hq : q ∈ fs.listing d cs) (hr : r ∈ fs.listing d cs)
    (heq : q.1 = r.1) : q = r := by
  refine List.inj_on_of_nodup_map ?_ hq hr heq
  rw [List.Nodup, List.pairwise_map]
  exact (positions_sorted ..).imp Nat.ne_of_lt

/-- The listing before a sector, in it and behind it. -/
lemma listing_split {pre suf : List ℕ} {sector : ℕ} {lfn : Lfn}
    (hsplit : fs.dirSectors cs = pre ++ sector :: suf)
    (hcarry : carry Lfn.init (slotsOf d pre) = some lfn) :
    ∃ rest, fs.listing d cs = entriesFrom 0 Lfn.init (slotsOf d pre) ++
        (entriesFrom (pre.length * entriesPerSector) lfn
          (slotsIn (sectorBytes d sector) 0 entriesPerSector) ++ rest) ∧
      (∀ q ∈ entriesFrom (pre.length * entriesPerSector) lfn
        (slotsIn (sectorBytes d sector) 0 entriesPerSector), q.1 / entriesPerSector = pre.length) ∧
      (∀ q ∈ entriesFrom 0 Lfn.init (slotsOf d pre), q.1 / entriesPerSector < pre.length) ∧
      ∀ q ∈ rest, pre.length < q.1 / entriesPerSector := by
  have hslots : slotsOf d (fs.dirSectors cs) = slotsOf d pre ++
      (slotsIn (sectorBytes d sector) 0 entriesPerSector ++ slotsOf d suf) := by
    rw [hsplit, slotsOf, List.flatMap_append, List.flatMap_cons, slotsOf, slotsOf]
  rw [listing, hslots, entriesFrom_append, hcarry, Option.map_some, Option.getD_some, entriesFrom_append,
    slotsOf_length, Nat.zero_add]
  refine ⟨_, rfl, fun q hq => ?_, fun q hq => ?_, fun q hq => ?_⟩
  · obtain ⟨hle, hget⟩ := position_of_mem hq
    have hlt := (List.getElem?_eq_some_iff.mp hget).1
    rw [slotsIn_length] at hlt
    refine Nat.div_eq_of_lt_le hle ?_
    rw [Nat.add_mul, Nat.one_mul]
    omega
  · obtain ⟨-, hget⟩ := position_of_mem hq
    have hlt := (List.getElem?_eq_some_iff.mp hget).1
    rw [slotsOf_length, Nat.sub_zero, Nat.mul_comm] at hlt
    exact Nat.div_lt_of_lt_mul hlt
  · cases hc : carry lfn (slotsIn (sectorBytes d sector) 0 entriesPerSector) with
    | none =>
      rw [hc] at hq
      cases hq
    | some lfn' =>
      rw [hc, Option.map_some, Option.getD_some, slotsIn_length] at hq
      have hle := (position_of_mem hq).1
      refine (Nat.le_div_iff_mul_le (by decide)).mpr ?_
      rw [Nat.succ_mul]
      exact hle

/-- The run of an update over the sectors of a directory. -/
lemma update_run (h : fs.Directory d cluster cs) (name : Str) (size first : ℕ) :
    fs.updateDirEntrySize d cluster name size first =
      match Flow.forEach (updateSector name.asBytes size first) (fs.dirSectors cs)
        (Lfn.init, false, d) with
      | .ret r => r
      | .next t => some t.2 := by
  refine (h.forSectors_eq (σ := Lfn × Bool × Disk) (J := fun s => s.2 = (false, d))
    (fun s hs => congrArg Prod.snd hs) (fun x hx s hs => ?_) rfl).trans ?_
  rotate_left
  · cases Flow.forEach (updateSector name.asBytes size first) (fs.dirSectors cs) (Lfn.init, false, d) <;>
      rfl
  obtain ⟨lfn, found, d'⟩ := s
  obtain ⟨rfl, rfl⟩ := Prod.mk.inj hs
  by_cases hempty : hits name.asBytes 0 lfn (slotsIn (sectorBytes d' x) 0 entriesPerSector) = []
  · rw [updateSector_none hx 0 lfn hempty]
    cases carry lfn (slotsIn (sectorBytes d' x) 0 entriesPerSector) with
    | none => trivial
    | some lfn' => exact rfl
  · rw [updateSector_some hx 0 lfn hempty]
    trivial

/-- **Updating.**  The entries with the name in the sector of the first one get the size and the first
cluster, unless the end of the directory is marked in this sector: then nothing is changed. -/
theorem update_spec (h : fs.Directory d cluster cs) (size first : ℕ) {name : Str} {r : ℕ × Found}
    (hr : (fs.listing d cs).find? (fun q => nameMatches q.2.2 name.asBytes) = some r) :
    ∃ d', fs.updateDirEntrySize d cluster name size first = some (true, d') ∧
      (EndMarked d (fs.slotSector cs r.1) → d' = d) ∧
      (¬ EndMarked d (fs.slotSector cs r.1) →
        fs.Directory d' cluster cs ∧
        fs.listing d' cs = (fs.listing d cs).map (fun q =>
          if Resizes name.asBytes r.1 q then (q.1, q.2.1.resized size first, q.2.2) else q) ∧
        ∀ x, d' x ≠ d x → ∃ q ∈ fs.listing d cs, Resizes name.asBytes r.1 q ∧
          fs.slotAddr cs q.1 + 20 ≤ x ∧ x < fs.slotAddr cs q.1 + 32) := by
  have hmem := List.mem_of_find?_eq_some hr
  have hmatch := List.find?_some hr
  have hhits : hits name.asBytes 0 Lfn.init (slotsOf d (fs.dirSectors cs)) ≠ [] :=
    List.ne_nil_of_mem (mem_hits.mpr ⟨r, hmem, hmatch, rfl⟩)
  obtain ⟨pre, sector, suf, lfn, hsplit, hnone, hcarry, hsome⟩ := exists_sector hhits
  have hon : ∀ x ∈ fs.dirSectors cs, x < ramdiskSectors := fun x hx => h.sector_lt hx
  have hsector : sector < ramdiskSectors := hon sector (by simp [hsplit])
  -- The run.
  have hrun : fs.updateDirEntrySize d cluster name size first = some (true,
      match carry lfn (slotsIn (sectorBytes d sector) 0 entriesPerSector) with
      | none => d
      | some _ => resizeAll size first ((hits name.asBytes (0 + pre.length * entriesPerSector) lfn
          (slotsIn (sectorBytes d sector) 0 entriesPerSector)).map fun p =>
            sector * blockSize + (p - (0 + pre.length * entriesPerSector)) * 32) d) := by
    rw [h.update_run, hsplit, Flow.forEach_append,
      updateSectors_none (fun x hx => hon x (by simp [hsplit, hx])) 0 Lfn.init hnone, hcarry]
    simp only [Flow.andThen, Flow.forEach]
    rw [updateSector_some hsector _ lfn hsome]
  obtain ⟨rest, hlisting, hin, hbefore, hbehind⟩ := listing_split (d := d) hsplit hcarry
  rw [Nat.zero_add] at hsome hrun
  -- The first entry with the name lies in this sector.
  have hplace : r.1 / entriesPerSector = pre.length := by
    rw [hlisting, List.find?_append, List.find?_eq_none.mpr fun q hq hq' =>
      List.ne_nil_of_mem (mem_hits.mpr ⟨q, hq, hq', rfl⟩) hnone, Option.none_or, List.find?_append] at hr
    obtain ⟨p, hp⟩ := List.exists_mem_of_ne_nil _ hsome
    obtain ⟨q, hq, hq', -⟩ := mem_hits.mp hp
    obtain ⟨r', hr'⟩ := Option.ne_none_iff_exists'.mp fun hnone : List.find?
        (fun q => nameMatches q.2.2 name.asBytes) (entriesFrom (pre.length * entriesPerSector) lfn
          (slotsIn (sectorBytes d sector) 0 entriesPerSector)) = none =>
      List.find?_eq_none.mp hnone q hq hq'
    rw [hr', Option.some_or, Option.some.injEq] at hr
    exact hr ▸ hin r' (List.mem_of_find?_eq_some hr')
  have hslot : fs.slotSector cs r.1 = sector := by
    rw [slotSector, hplace, hsplit, List.getD_append_right _ _ _ _ le_rfl, Nat.sub_self,
      List.getD_cons_zero]
  have hms : ∀ p, p ∈ hits name.asBytes (pre.length * entriesPerSector) lfn
      (slotsIn (sectorBytes d sector) 0 entriesPerSector) ↔
        ∃ q ∈ fs.listing d cs, Resizes name.asBytes r.1 q ∧ q.1 = p := fun p => by
    rw [mem_hits]
    constructor
    · rintro ⟨q, hq, hq', rfl⟩
      exact ⟨q, by simp [hlisting, hq], ⟨hq', (hin q hq).trans hplace.symm⟩, rfl⟩
    · rintro ⟨q, hq, ⟨hq', hsame⟩, rfl⟩
      rw [hplace] at hsame
      rw [hlisting, List.mem_append, List.mem_append] at hq
      rcases hq with hq | hq | hq
      · exact absurd hsame (hbefore q hq).ne
      · exact ⟨q, hq, hq', rfl⟩
      · exact absurd hsame (hbehind q hq).ne'
  refine ⟨_, hrun, fun hend => ?_, fun hend => ?_⟩
  · rw [hslot, ← carry_sector lfn] at hend
    rw [hend]
  rw [hslot, ← carry_sector lfn] at hend
  obtain ⟨lfn', hlfn⟩ := Option.ne_none_iff_exists'.mp hend
  have hnodup := hits_nodup name.asBytes (pre.length * entriesPerSector) lfn
    (slotsIn (sectorBytes d sector) 0 entriesPerSector)
  rw [hlfn]
  dsimp only
  generalize hits name.asBytes (pre.length * entriesPerSector) lfn
    (slotsIn (sectorBytes d sector) 0 entriesPerSector) = ms at hms hnodup ⊢
  have haddr : (ms.map fun p => sector * blockSize + (p - pre.length * entriesPerSector) * 32) =
      ms.map (fs.slotAddr cs) := List.map_congr_left fun p hp => by
    obtain ⟨q, -, ⟨-, hsame⟩, rfl⟩ := (hms p).mp hp
    have hsector' : fs.slotSector cs q.1 = sector := by rw [slotSector, hsame, ← slotSector, hslot]
    have hmod : q.1 - pre.length * entriesPerSector = q.1 % entriesPerSector := by
      rw [← hplace, ← hsame, Nat.mod_eq_sub_div_mul]
    rw [hmod, slotAddr, ← slotSector, hsector']
  have hlt : ∀ p ∈ ms, p < fs.slotCount cs := fun p hp => by
    obtain ⟨q, hq, -, rfl⟩ := (hms p).mp hp
    exact (position_lt hq).1
  rw [haddr]
  refine ⟨h.congr fun x hx => resizeAll_apply (fun a ha => ?_) d, ?_, fun x hx => ?_⟩
  · obtain ⟨p, hp, rfl⟩ := List.mem_map.mp ha
    exact Or.inl (by have := le_slotAddr (hlt p hp); omega)
  · rw [listing, listing, dirSlots_eq, dirSlots_eq,
      entriesFrom_alter (M := fun p => p ∈ ms) (DirEntry.resized_keeps size first)
        (fun p _ hp => h.read_resizeAll hlt hnodup (by omega) d) fun p _ _ hp => ?_]
    · refine List.map_congr_left fun q hq => ?_
      rw [← dirSlots_eq] at hq
      refine if_congr ⟨fun hq' => ?_, fun hq' => (hms _).mpr ⟨q, hq, hq', rfl⟩⟩ rfl rfl
      obtain ⟨q', hmem', hq'', heq⟩ := (hms _).mp hq'
      exact listing_inj hmem' hq heq ▸ hq''
    · obtain ⟨q, hq, -, rfl⟩ := (hms p).mp hp
      rw [listing, dirSlots_eq] at hq
      exact ⟨q, hq, rfl⟩
  · by_contra hnot
    refine hx (resizeAll_apply (fun a ha => ?_) d)
    obtain ⟨p, hp, rfl⟩ := List.mem_map.mp ha
    obtain ⟨q, hq, hq', rfl⟩ := (hms p).mp hp
    by_contra hin
    exact hnot ⟨q, hq, hq', by omega, by omega⟩

/-- Without an entry with the name nothing is changed. -/
lemma update_missing (h : fs.Directory d cluster cs) (size first : ℕ) {name : Str}
    (hr : (fs.listing d cs).find? (fun q => nameMatches q.2.2 name.asBytes) = none) :
    fs.updateDirEntrySize d cluster name size first = some (false, d) := by
  have hnone : hits name.asBytes 0 Lfn.init (slotsOf d (fs.dirSectors cs)) = [] := by
    rw [List.eq_nil_iff_forall_not_mem]
    rintro p hp
    obtain ⟨q, hq, hq', -⟩ := mem_hits.mp hp
    exact List.find?_eq_none.mp hr q hq hq'
  rw [h.update_run, updateSectors_none (fun x hx => h.sector_lt hx) 0 Lfn.init hnone]
  cases carry Lfn.init (slotsOf d (fs.dirSectors cs)) <;> rfl

end Directory

/-! ### Updating as it is seen by name -/

/-- What `update_dir_entry_size` does.  It succeeds if and only if `find_entry` finds an entry with the name.
Then this entry has the size and the first cluster, the entries with other names are as they were, and
nothing else on the disk is changed; but if the end of the directory is marked in the sector of the entry, the
disk is not changed at all. -/
def UpdatesEntry (fs : Fat32Fs) (d : Disk) (cluster : ℕ) (cs : List ℕ) (name : Str) (size first : ℕ) :
    Prop :=
  ∃ b d', fs.updateDirEntrySize d cluster name size first = some (b, d') ∧
    (fs.findEntry d cluster name = some none → b = false ∧ d' = d) ∧
    ∀ e found, fs.findEntry d cluster name = some (some (e, found)) → b = true ∧
      ∃ p < fs.slotCount cs, DirEntry.read d (fs.slotAddr cs p) = e ∧
        (EndMarked d (fs.slotSector cs p) → d' = d) ∧
        (¬ EndMarked d (fs.slotSector cs p) →
          (∃ e', fs.findEntry d' cluster name = some (some (e', found)) ∧ e'.fileSize = size ∧
            e'.firstCluster = first ∧ e'.attr = e.attr) ∧
          (∀ other : Str, nameMatches found other.asBytes = false →
            fs.findEntry d' cluster other = fs.findEntry d cluster other) ∧
          ∀ x, d' x ≠ d x → ∃ q ∈ fs.listing d cs, Resizes name.asBytes p q ∧
            fs.slotAddr cs q.1 + 20 ≤ x ∧ x < fs.slotAddr cs q.1 + 32)

/-- An entry that keeps its name is found as before. -/
lemma find_changed {l : List (ℕ × Found)} {g : ℕ × Found → ℕ × Found} (hname : ∀ q, (g q).2.2 = q.2.2)
    (search : List UInt8) : (l.map g).find? (fun q => nameMatches q.2.2 search) =
      (l.find? fun q => nameMatches q.2.2 search).map g := by
  rw [List.find?_map]
  simp only [Function.comp_def, hname]

/-- The root directory of the volume with a root directory. -/
lemma rootedDirectory : rootedFs.Directory nestedDisk 2 [2] := by
  have hopen : openFs rootedBoot = some (some rootedFs) := by decide +kernel
  have hdata : rootedFs.DataOnDisk := by
    unfold DataOnDisk
    decide
  have hcovers : rootedFs.TableCovers := by
    unfold TableCovers
    decide
  have hlink : rootedFs.link nestedDisk 2 = none := by decide +kernel
  refine ⟨⟨.of_open hopen hdata, hcovers⟩, .last hlink, fun c hc => ?_⟩
  obtain rfl := List.mem_singleton.mp hc
  exact ⟨by decide, by decide⟩

end Fat32Fs

end Fs

end NekOS
