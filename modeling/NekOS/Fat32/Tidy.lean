import NekOS.Fat32.Entries

/-!
# Tidy directories

A tidy directory is a list of deleted slots and of entries, each behind all parts of its long name, and the
slots behind its end mark the end, too.  Entries can be added to it without a change to the others.
-/

namespace NekOS

namespace Fs

/-- A slot can be taken. -/
def DirEntry.Free (e : DirEntry) : Prop := e.byte 0 = slotEnd ∨ e.byte 0 = slotDeleted

/-- A list of slots is tidy.  If a long name is open, the number of its parts that are still to come before its
entry is given. -/
def Tidy : Option ℕ → List DirEntry → Prop
  | none, [] => True
  | some _, [] => False
  | none, e :: es =>
    if e.byte 0 = slotEnd then ∀ e' ∈ es, e'.byte 0 = slotEnd
    else if e.byte 0 = slotDeleted then Tidy none es
    else if e.attr = attrLfn then e.lfnIdx < 19 ∧ Tidy (some e.lfnIdx) es
    else Tidy none es
  | some 0, e :: es => ¬ e.Free ∧ e.attr ≠ attrLfn ∧ Tidy none es
  | some (n + 1), e :: es => ¬ e.Free ∧ e.attr = attrLfn ∧ e.lfnIdx = n ∧ Tidy (some n) es

namespace Tidy

variable {s : Option ℕ} {e : DirEntry} {a b c es : List DirEntry} {lfn lfn' : Lfn} {k : ℕ}

/-- Slots that mark the end. -/
lemma of_end (h : ∀ e ∈ es, e.byte 0 = slotEnd) : Tidy none es := by
  cases es with
  | nil => trivial
  | cons e es =>
    obtain ⟨he, hes⟩ := List.forall_mem_cons.mp h
    rw [Tidy, if_pos he]
    exact hes

/-- A tidy list is divided at a slot that can be taken. -/
lemma split (h : Tidy s (a ++ e :: b)) (he : e.Free) : Tidy s a ∧ Tidy none (e :: b) := by
  induction a generalizing s with
  | nil =>
    cases s with
    | none => exact ⟨trivial, h⟩
    | some n =>
      cases n with
      | zero => exact absurd he h.1
      | succ n => exact absurd he h.1
  | cons f a ih =>
    rw [List.cons_append] at h
    cases s with
    | none =>
      rw [Tidy] at h ⊢
      split_ifs at h ⊢ with h₁ h₂ h₃
      · refine ⟨fun x hx => h x (List.mem_append_left _ hx), of_end fun x hx => ?_⟩
        exact h x (List.mem_append_right _ hx)
      · exact ih h
      · exact ⟨⟨h.1, (ih h.2).1⟩, (ih h.2).2⟩
      · exact ih h
    | some n =>
      cases n with
      | zero =>
        obtain ⟨hused, hattr, h⟩ := h
        exact ⟨⟨hused, hattr, (ih h).1⟩, (ih h).2⟩
      | succ n =>
        obtain ⟨hused, hattr, hidx, h⟩ := h
        exact ⟨⟨hused, hattr, hidx, (ih h).1⟩, (ih h).2⟩

/-- Behind a slot that marks the end all slots do. -/
lemma tail_end (h : Tidy s (a ++ e :: b)) (he : e.byte 0 = slotEnd) : ∀ x ∈ b, x.byte 0 = slotEnd := by
  have htail := (h.split (Or.inl he)).2
  rw [Tidy, if_pos he] at htail
  exact htail

/-- Slots that mark the end behind a tidy list. -/
lemma append_end (ha : Tidy s a) (hb : ∀ x ∈ b, x.byte 0 = slotEnd) : Tidy s (a ++ b) := by
  induction a generalizing s with
  | nil =>
    cases s with
    | none => exact of_end hb
    | some n => exact absurd ha id
  | cons f a ih =>
    rw [List.cons_append]
    cases s with
    | none =>
      rw [Tidy] at ha ⊢
      split_ifs at ha ⊢ with h₁ h₂ h₃
      · exact fun x hx => (List.mem_append.mp hx).elim (ha x) (hb x)
      · exact ih ha
      · exact ⟨ha.1, ih ha.2⟩
      · exact ih ha
    | some n =>
      cases n with
      | zero =>
        obtain ⟨hused, hattr, ha⟩ := ha
        exact ⟨hused, hattr, ih ha⟩
      | succ n =>
        obtain ⟨hused, hattr, hidx, ha⟩ := ha
        exact ⟨hused, hattr, hidx, ih ha⟩

/-- Two tidy lists one after the other. -/
lemma append (ha : Tidy s a) (hend : ∀ e ∈ a, e.byte 0 ≠ slotEnd) (hb : Tidy none b) :
    Tidy s (a ++ b) := by
  induction a generalizing s with
  | nil =>
    cases s with
    | none => exact hb
    | some n => exact absurd ha id
  | cons f a ih =>
    obtain ⟨hf, hend⟩ := List.forall_mem_cons.mp hend
    rw [List.cons_append]
    cases s with
    | none =>
      rw [Tidy] at ha ⊢
      rw [if_neg hf] at ha ⊢
      split_ifs at ha ⊢ with h₂ h₃
      · exact ih ha hend
      · exact ⟨ha.1, ih ha.2 hend⟩
      · exact ih ha hend
    | some n =>
      cases n with
      | zero =>
        obtain ⟨hused, hattr, ha⟩ := ha
        exact ⟨hused, hattr, ih ha hend⟩
      | succ n =>
        obtain ⟨hused, hattr, hidx, ha⟩ := ha
        exact ⟨hused, hattr, hidx, ih ha hend⟩

/-- The slots behind some that can be taken. -/
lemma behind (hfree : ∀ e ∈ b, e.Free) (h : Tidy none (b ++ c)) : Tidy none c := by
  induction b with
  | nil => exact h
  | cons f b ih =>
    obtain ⟨hf, hfree⟩ := List.forall_mem_cons.mp hfree
    rw [List.cons_append, Tidy] at h
    split_ifs at h with h₁ h₂ h₃
    · exact of_end fun x hx => h x (List.mem_append_right _ hx)
    · exact ih hfree h
    · exact absurd hf (not_or.mpr ⟨h₁, h₂⟩)
    · exact absurd hf (not_or.mpr ⟨h₁, h₂⟩)

/-- Two buffers hold the same of a long name: what has come before the parts that are still to come. -/
def Agrees : Option ℕ → Lfn → Lfn → Prop
  | none, lfn, lfn' => lfn.len = 0 ∧ lfn'.len = 0
  | some n, lfn, lfn' => lfn.len = lfn'.len ∧ n * 13 < lfn.len ∧ lfn.len ≤ 247 ∧
    ∀ j, n * 13 ≤ j → j < lfn.len → lfn.buf j = lfn'.buf j

/-- The text depends on what is in the buffer alone. -/
lemma text_congr (h : Agrees (some 0) lfn lfn') : lfn.text = lfn'.text := by
  obtain ⟨hlen, -, -, hbuf⟩ := h
  have hmap : (List.range lfn.len).map lfn.buf = (List.range lfn'.len).map lfn'.buf := by
    rw [← hlen]
    exact List.map_congr_left fun j hj => hbuf j (by omega) (List.mem_range.mp hj)
  rw [Lfn.text, Lfn.text, hmap]

/-- The buffers after the first part that comes. -/
lemma agrees_first (hidx : e.lfnIdx < 19) (h : Agrees none lfn lfn') :
    Agrees (some e.lfnIdx) (lfn.push e) (lfn'.push e) := by
  unfold Lfn.push
  dsimp only
  rw [if_pos (by omega), if_pos (by omega), if_pos (by omega), if_pos (by omega)]
  obtain ⟨h₁, h₂⟩ := h
  refine ⟨by dsimp only; omega, by dsimp only; omega, by dsimp only; omega, fun j hle hj => ?_⟩
  dsimp only at hj ⊢
  rw [if_pos (by omega), if_pos (by omega)]

/-- The buffers after the next part. -/
lemma agrees_push {n : ℕ} (hidx : e.lfnIdx = n) (h : Agrees (some (n + 1)) lfn lfn') :
    Agrees (some n) (lfn.push e) (lfn'.push e) := by
  obtain ⟨hlen, hpos, hle, hbuf⟩ := h
  unfold Lfn.push
  rw [hidx]
  dsimp only
  rw [if_pos (by omega), if_pos (by omega), if_pos (by omega), if_pos (by omega)]
  refine ⟨by dsimp only; omega, by dsimp only; omega, by dsimp only; omega, fun j hj hlt => ?_⟩
  dsimp only at hlt ⊢
  split_ifs with hin
  · rfl
  · exact hbuf j (by omega) (by omega)

/-- **The entries of a tidy list** do not depend on what a buffer without a name in it holds, and no name is
in it behind them. -/
theorem congr (h : Tidy s es) (hagree : Agrees s lfn lfn') (k : ℕ) :
    entriesFrom k lfn es = entriesFrom k lfn' es ∧
      ((∃ e ∈ es, e.byte 0 = slotEnd) ∨
        ∃ l l', carry lfn es = some l ∧ carry lfn' es = some l' ∧ Agrees none l l') := by
  induction es generalizing s lfn lfn' k with
  | nil =>
    cases s with
    | none => exact ⟨rfl, Or.inr ⟨lfn, lfn', rfl, rfl, hagree⟩⟩
    | some n => exact absurd h id
  | cons e es ih =>
    have hmore : ∀ {s lfn lfn'}, Tidy s es → Agrees s lfn lfn' →
        entriesFrom (k + 1) lfn es = entriesFrom (k + 1) lfn' es ∧
          ((∃ e' ∈ e :: es, e'.byte 0 = slotEnd) ∨
            ∃ l l', carry lfn es = some l ∧ carry lfn' es = some l' ∧ Agrees none l l') :=
      fun h hagree => by
        obtain ⟨heq, hend⟩ := ih h hagree (k + 1)
        refine ⟨heq, hend.imp (fun ⟨e', he', hend⟩ => ?_) id⟩
        exact ⟨e', List.mem_cons_of_mem _ he', hend⟩
    have hreset : ∀ lfn lfn' : Lfn, Agrees none lfn.reset lfn'.reset := fun _ _ => ⟨rfl, rfl⟩
    rw [entriesFrom, entriesFrom, carry, carry]
    cases s with
    | none =>
      rw [Tidy] at h
      split_ifs at h ⊢ with h₁ h₂ h₃
      · exact ⟨rfl, Or.inl ⟨e, List.mem_cons_self .., h₁⟩⟩
      · exact hmore h (hreset ..)
      · exact hmore h.2 (agrees_first h.1 hagree)
      · have hname : lfn.entryName e = lfn'.entryName e := by
          rw [Lfn.entryName, Lfn.entryName, if_neg (by rw [hagree.1]; decide),
            if_neg (by rw [hagree.2]; decide)]
        obtain ⟨heq, hend⟩ := hmore h (hreset lfn lfn')
        rw [hname, heq]
        exact ⟨rfl, hend⟩
    | some n =>
      cases n with
      | zero =>
        obtain ⟨hused, hattr, h⟩ := h
        obtain ⟨h₁, h₂⟩ := not_or.mp hused
        simp only [if_neg h₁, if_neg h₂, if_neg hattr]
        have hname : lfn.entryName e = lfn'.entryName e := by
          have hpos := hagree.2.1
          rw [Lfn.entryName, Lfn.entryName, if_pos (by omega), if_pos (by rw [← hagree.1]; omega),
            text_congr hagree]
        obtain ⟨heq, hend⟩ := hmore h (hreset lfn lfn')
        rw [hname, heq]
        exact ⟨rfl, hend⟩
      | succ n =>
        obtain ⟨hused, hattr, hidx, h⟩ := h
        obtain ⟨h₁, h₂⟩ := not_or.mp hused
        simp only [if_neg h₁, if_neg h₂, if_pos hattr]
        exact hmore h (agrees_push hidx hagree)

/-- No entry is behind the end. -/
lemma entries_end (h : ∀ e ∈ es, e.byte 0 = slotEnd) : entriesFrom k lfn es = [] := by
  cases es with
  | nil => rfl
  | cons e es => rw [entriesFrom, if_pos (h e (List.mem_cons_self ..))]

/-- Slots that mark the end add no entries. -/
lemma entries_append_end (h : ∀ e ∈ b, e.byte 0 = slotEnd) :
    entriesFrom k lfn (a ++ b) = entriesFrom k lfn a := by
  rw [entriesFrom_append]
  cases carry lfn a with
  | none => rw [Option.map_none, Option.getD_none, List.append_nil]
  | some lfn' => rw [Option.map_some, Option.getD_some, entries_end h, List.append_nil]

/-- Slots that can be taken are passed over. -/
lemma entries_free (hfree : ∀ e ∈ b, e.Free) (h : Tidy none (b ++ c)) (hlen : lfn.len = 0) (k : ℕ) :
    entriesFrom k lfn (b ++ c) = entriesFrom (k + b.length) lfn c := by
  induction b generalizing lfn k with
  | nil => rfl
  | cons f b ih =>
    have hc := behind hfree h
    obtain ⟨hf, hfree⟩ := List.forall_mem_cons.mp hfree
    rw [List.cons_append, Tidy] at h
    rw [List.cons_append, entriesFrom, List.length_cons, show k + (b.length + 1) = k + 1 + b.length by omega]
    split_ifs at h ⊢ with h₁ h₂ h₃
    · exact (entries_end fun x hx => h x (List.mem_append_right _ hx)).symm
    · rw [ih hfree h rfl]
      exact (congr hc ⟨rfl, hlen⟩ _).1
    · exact absurd hf (not_or.mpr ⟨h₁, h₂⟩)
    · exact absurd hf (not_or.mpr ⟨h₁, h₂⟩)

end Tidy

/-! ### Adding an entry -/

/-- Some slots are one entry: the parts of its long name, and its short slot. -/
structure Item (new : List DirEntry) (e : DirEntry) (name : List UInt8) : Prop where
  entries : ∀ lfn : Lfn, lfn.len = 0 → ∀ k, entriesFrom k lfn new = [(k + (new.length - 1), e, name)]
  tidy : Tidy none new
  used : ∀ x ∈ new, ¬ x.Free

/-- **Adding an entry.**  An entry that takes the place of free slots before the end of a tidy list is added
to its entries. -/
theorem Tidy.insert {a b c new : List DirEntry} {e : DirEntry} {name : List UInt8}
    (h : Tidy none (a ++ (b ++ c))) (hend : ∀ x ∈ a, x.byte 0 ≠ slotEnd) (hfree : ∀ x ∈ b, x.Free)
    (hnew : Item new e name) (hlen : new.length = b.length) (hpos : b ≠ []) :
    ∃ before behind p, entriesFrom 0 Lfn.init (a ++ (b ++ c)) = before ++ behind ∧
      entriesFrom 0 Lfn.init (a ++ (new ++ c)) = before ++ (p, e, name) :: behind ∧
      Tidy none (a ++ (new ++ c)) := by
  obtain ⟨ha, hbc⟩ : Tidy none a ∧ Tidy none (b ++ c) := by
    cases b with
    | nil => exact absurd rfl hpos
    | cons f b => exact h.split (hfree f (List.mem_cons_self ..))
  have hc := hbc.behind hfree
  have hnot : ∀ {es : List DirEntry}, (∀ x ∈ es, x.byte 0 ≠ slotEnd) →
      ¬ ∃ x ∈ es, x.byte 0 = slotEnd := fun hes ⟨x, hx, hxe⟩ => hes x hx hxe
  have hused : ∀ x ∈ new, x.byte 0 ≠ slotEnd := fun x hx hxe => hnew.used x hx (Or.inl hxe)
  have hinit : Agrees none Lfn.init Lfn.init := ⟨rfl, rfl⟩
  obtain ⟨l, _, hl, _, hagree⟩ := (ha.congr hinit 0).2.resolve_left (hnot hend)
  obtain ⟨l', _, hl', _, hagree'⟩ :=
    (hnew.tidy.congr (⟨hagree.1, hagree.1⟩ : Agrees none l l) 0).2.resolve_left (hnot hused)
  refine ⟨entriesFrom 0 Lfn.init a, entriesFrom (a.length + b.length) l c, a.length + (b.length - 1), ?_, ?_,
    ha.append hend (hnew.tidy.append hused hc)⟩
  · rw [entriesFrom_append, hl, Option.map_some, Option.getD_some, Nat.zero_add,
      hbc.entries_free hfree hagree.1]
  · rw [entriesFrom_append, hl, Option.map_some, Option.getD_some, Nat.zero_add, entriesFrom_append,
      hnew.entries l hagree.1, hl', Option.map_some, Option.getD_some, hlen, List.singleton_append]
    exact congrArg (fun es => entriesFrom 0 Lfn.init a ++ (_ :: es))
      (hc.congr (⟨hagree'.1, hagree.1⟩ : Agrees none l' l) _).1

namespace Fat32Fs

variable {longName : Str} {e : DirEntry} {ls : List DirEntry} {n : ℕ}

/-- The parts of a long name and the entry behind them. -/
lemma LfnSlots.tidy (h : LfnSlots longName n ls) (hn : n < 20) (hused : ¬ e.Free) (hattr : e.attr ≠ attrLfn) :
    Tidy (some n) (ls ++ [e]) := by
  induction n generalizing ls with
  | zero =>
    cases h
    exact ⟨hused, hattr, trivial⟩
  | succ n ih =>
    rw [LfnSlots, List.range_succ, List.reverse_append, List.reverse_singleton, List.singleton_append] at h
    cases h with
    | cons he hls =>
      refine ⟨not_or.mpr he.used, he.attr, ?_, ih hls (by omega)⟩
      rw [DirEntry.lfnIdx, he.order, Nat.add_sub_cancel]

/-- The parts of a long name are in use. -/
lemma LfnSlots.used (h : LfnSlots longName n ls) : ∀ x ∈ ls, ¬ x.Free := by
  induction n generalizing ls with
  | zero =>
    cases h
    exact nofun
  | succ n ih =>
    rw [LfnSlots, List.range_succ, List.reverse_append, List.reverse_singleton, List.singleton_append] at h
    cases h with
    | cons he hls => exact List.forall_mem_cons.mpr ⟨not_or.mpr he.used, ih hls⟩

/-- **The slots that are written for a name are one entry.**  It has the name that its short slot spells if no
long name is written, and a long name of ASCII characters is its name. -/
theorem item_written (h : LfnSlots longName (lfnCount longName) ls) (hcount : lfnCount longName < 19)
    (hused : ¬ e.Free) (hattr : e.attr ≠ attrLfn) :
    ∃ name, Item (ls ++ [e]) e name ∧ (lfnCount longName = 0 → name = e.shortName) ∧
      (LongAscii longName → name = longName.asBytes) := by
  obtain ⟨h₁, h₂⟩ := not_or.mp hused
  have hlen : ls.length = lfnCount longName := by
    rw [h.length_eq, List.length_reverse, List.length_range]
  have hfirst : Loaded Lfn.init longName (lfnCount longName) := ⟨(if_pos rfl).symm, fun j _ _ => by omega⟩
  obtain ⟨-, l, hcarry, hl⟩ := h.load le_rfl (by omega) hfirst 0
  have htidy : Tidy none (ls ++ [e]) := by
    cases hm : lfnCount longName with
    | zero =>
      rw [hm] at h
      cases h
      rw [List.nil_append, Tidy, if_neg h₁, if_neg h₂, if_neg hattr]
      trivial
    | succ n =>
      rw [hm] at h
      have hopen := h.tidy (by omega) hused hattr
      rw [LfnSlots, List.range_succ, List.reverse_append, List.reverse_singleton, List.singleton_append] at h
      cases h with
      | @cons e' _ ls' _ he hls =>
        obtain ⟨hused', hattr', hidx, hrest⟩ := hopen
        obtain ⟨h₁', h₂'⟩ := not_or.mp hused'
        rw [List.cons_append, Tidy, if_neg h₁', if_neg h₂', if_pos hattr', hidx]
        exact ⟨by omega, hrest⟩
  refine ⟨l.entryName e, ⟨fun lfn hzero k => ?_, htidy, ?_⟩, fun hnone => ?_, fun hascii => ?_⟩
  · have hagree : Tidy.Agrees none lfn Lfn.init := ⟨hzero, rfl⟩
    rw [(htidy.congr hagree k).1, entriesFrom_append, (h.load le_rfl (by omega) hfirst k).1, hcarry,
      Option.map_some, Option.getD_some, List.nil_append, entriesFrom, if_neg h₁, if_neg h₂, if_neg hattr,
      entriesFrom, List.length_append, List.length_singleton, Nat.add_sub_cancel]
  · intro x hx
    rcases List.mem_append.mp hx with hx | hx
    · exact h.used x hx
    · rwa [List.mem_singleton.mp hx]
  · rw [Lfn.entryName, if_neg]
    rw [hl.len, if_pos hnone.symm]
    exact Nat.lt_irrefl 0
  · have hpos := hascii.count.1
    rw [Lfn.entryName, if_pos, hascii.text_eq hl]
    rw [hl.len, if_neg (by omega)]
    omega

end Fat32Fs

end Fs

end NekOS
