import NekOS.Foundation.Loops
import NekOS.Ramdisk.Archive

/-!
# The parser of the ramdisk is safe

`init` once more, with every operation that can panic: a slice that is not in range, a sum or a difference
of positions that overflows.  On no archive does one of them panic, the loop ends, and what the parser
registers are ranges of the archive, one behind the other.
-/

namespace NekOS

/-! ### Operations that panic or leave a loop -/

/-- The result of an operation: without a value it panics, with the value `none` it leaves the loop. -/
abbrev Strict (α : Type) := Option (Option α)

namespace Strict

variable {α β : Type}

/-- An operation that panics without a value. -/
def panics (x : Option α) : Strict α := x.map some

/-- An operation that leaves the loop without a value. -/
def breaks (x : Option α) : Strict α := some x

/-- Go on with the value of an operation. -/
def andThen (x : Strict α) (f : α → Strict β) : Strict β :=
  match x with
  | none => none
  | some none => some none
  | some (some a) => f a

/-- An operation that does not panic. -/
lemma andThen_panics {x : Option α} {a : α} {f : α → Strict β} {y : Strict β} (hx : x = some a) (h : f a = y) :
    andThen (panics x) f = y := by
  rw [hx]
  exact h

/-- An operation that leaves the loop or not. -/
lemma andThen_breaks {x : Option α} {f : α → Strict β} {g : α → Option β}
    (h : ∀ a, x = some a → f a = some (g a)) : andThen (breaks x) f = some (x >>= g) := by
  cases x with
  | none => rfl
  | some a => exact h a rfl

end Strict

/-- `align4`, where the sum must not overflow. -/
def strictAlign4 (value : ℕ) : Option ℕ := (checkedAdd value 3).map (· / 4 * 4)

/-- Rounding up without an overflow. -/
lemma strictAlign4_of_lt {value : ℕ} (h : value + 3 < 2 ^ 64) : strictAlign4 value = some (align4 value) := by
  rw [strictAlign4, checkedAdd, if_pos h, align4, wrap_of_lt h]
  rfl

namespace Initrd

open Strict

/-! ### The parser with all its checks -/

/-- A file in the table, with the range of the archive that holds its data. -/
structure Placement where
  entry : InitrdEntry
  start : ℕ
  stop : ℕ

/-- `nameAt`, with the operations that can panic. -/
def strictNameAt (archive : List UInt8) (pos : ℕ) : Strict (String × ℕ × ℕ) :=
  andThen (breaks (checkedAdd pos headerSize)) fun headerEnd =>
  andThen (breaks (guard (headerEnd ≤ archive.length))) fun _ =>
  andThen (panics (checkedAdd pos headerSize)) fun headerEnd =>
  andThen (panics (slice archive pos headerEnd)) fun header =>
  andThen (panics (slice header 0 6)) fun magic =>
  andThen (breaks (guard (magic = newcMagic))) fun _ =>
  andThen (panics (slice header 94 102)) fun namesizeField =>
  andThen (breaks (hex namesizeField)) fun namesize =>
  andThen (panics (slice header 54 62)) fun filesizeField =>
  andThen (breaks (hex filesizeField)) fun filesize =>
  andThen (panics (checkedAdd pos headerSize)) fun nameStart =>
  andThen (breaks (checkedAdd nameStart namesize)) fun nameEnd =>
  andThen (breaks (guard (namesize ≠ 0 ∧ nameEnd ≤ archive.length))) fun _ =>
  andThen (panics (strictSub nameEnd 1)) fun nameStop =>
  andThen (panics (slice archive nameStart nameStop)) fun nameBytes =>
  andThen (breaks (String.fromUTF8? ⟨nameBytes.toArray⟩)) fun name =>
  some (some (name, nameEnd, filesize))

/-- `entryAt`, with the operations that can panic: the name, the range of the data and the next position. -/
def strictEntryAt (archive : List UInt8) (pos : ℕ) : Strict (String × ℕ × ℕ × ℕ) :=
  andThen (strictNameAt archive pos) fun (name, nameEnd, filesize) =>
  andThen (breaks (guard (name ≠ trailerName))) fun _ =>
  andThen (panics (strictAlign4 nameEnd)) fun dataStart =>
  andThen (breaks (checkedAdd dataStart filesize)) fun dataEnd =>
  andThen (breaks (guard (dataEnd ≤ archive.length))) fun _ =>
  andThen (panics (strictAlign4 dataEnd)) fun next =>
  some (some (name, dataStart, dataEnd, next))

/-- `register`, with the slice that can panic. -/
def strictRegister (archive : List UInt8) (table : List Placement) (name : String) (start stop : ℕ) :
    Option (List Placement) :=
  if table.length < maxFiles ∧ name ≠ "." then
    (slice archive start stop).map fun data => table ++ [⟨⟨name, data⟩, start, stop⟩]
  else some table

/-- A round of the loop of `init`.  It returns the table, or nothing if it panics. -/
def strictRound (archive : List UInt8) (s : ℕ × List Placement) :
    Flow (Option (List Placement)) (ℕ × List Placement) :=
  match strictEntryAt archive s.1 with
  | none => .ret none
  | some none => .ret (some s.2)
  | some (some (name, start, stop, next)) =>
    match strictRegister archive s.2 name start stop with
    | none => .ret none
    | some table => .next (next, table)

/-! ### What the parser reads -/

/-- Nothing panics while a name is read. -/
lemma strictNameAt_eq (archive : List UInt8) (pos : ℕ) :
    strictNameAt archive pos = some (nameAt archive pos) := by
  refine andThen_breaks fun headerEnd hend => andThen_breaks fun _ hin => ?_
  obtain ⟨-, hpos⟩ := checkedAdd_eq_some.mp hend
  have hbound : headerEnd ≤ archive.length := (Option.guard_eq_some' ..).mp hin
  have hheader : (archive.extract pos headerEnd).length = 110 := by
    rw [headerSize] at hpos
    rw [List.extract_eq_take_drop, List.length_take, List.length_drop]
    omega
  refine andThen_panics hend (andThen_panics (slice_eq_some (by omega) hbound) ?_)
  refine andThen_panics (slice_eq_some (by omega) (by omega)) ?_
  have hmagic : (archive.extract pos headerEnd).extract 0 6 = (archive.extract pos headerEnd).take 6 := by
    rw [List.extract_eq_take_drop, List.drop_zero]
  rw [hmagic]
  refine andThen_breaks fun _ _ => ?_
  refine andThen_panics (slice_eq_some (by omega) (by omega)) (andThen_breaks fun namesize _ => ?_)
  refine andThen_panics (slice_eq_some (by omega) (by omega)) (andThen_breaks fun filesize _ => ?_)
  refine andThen_panics (hpos ▸ hend) (andThen_breaks fun nameEnd hname => andThen_breaks fun _ hnext => ?_)
  obtain ⟨-, hnameEnd⟩ := checkedAdd_eq_some.mp hname
  obtain ⟨hsize, hnameEnd_le⟩ := (Option.guard_eq_some' ..).mp hnext
  refine andThen_panics (if_pos (by omega)) (andThen_panics (slice_eq_some (by omega) (by omega)) ?_)
  exact andThen_breaks fun name _ => rfl

/-- What is read at a position: the name, the range of the data and the next position. -/
def rangeAt (archive : List UInt8) (pos : ℕ) : Option (String × ℕ × ℕ × ℕ) := do
  let (name, nameEnd, filesize) ← nameAt archive pos
  guard (name ≠ trailerName)
  let dataStart := align4 nameEnd
  let dataEnd ← checkedAdd dataStart filesize
  guard (dataEnd ≤ archive.length)
  return (name, dataStart, dataEnd, align4 dataEnd)

/-- An entry is read from its range. -/
lemma entryAt_eq (archive : List UInt8) (pos : ℕ) :
    entryAt archive pos = (rangeAt archive pos).map fun (name, start, stop, next) =>
      (⟨name, archive.extract start stop⟩, next) := by
  rw [entryAt, rangeAt]
  cases nameAt archive pos with
  | none => rfl
  | some r =>
    obtain ⟨name, nameEnd, filesize⟩ := r
    dsimp only [Option.bind_eq_bind, Option.bind_some]
    cases (guard (name ≠ trailerName) : Option Unit) with
    | none => rfl
    | some u =>
      dsimp only [Option.bind_some]
      cases checkedAdd (align4 nameEnd) filesize with
      | none => rfl
      | some dataEnd =>
        dsimp only [Option.bind_some]
        cases (guard (dataEnd ≤ archive.length) : Option Unit) with
        | none => rfl
        | some u => rfl

/-- Where the range of an entry lies. -/
lemma rangeAt_bounds {archive : List UInt8} (hlen : archive.length ≤ isizeMax) {pos start stop next : ℕ}
    {name : String} (h : rangeAt archive pos = some (name, start, stop, next)) :
    pos < start ∧ start ≤ stop ∧ stop ≤ archive.length ∧ stop ≤ next := by
  simp only [rangeAt, Option.bind_eq_bind, Option.bind_eq_some_iff, Option.guard_eq_some',
    checkedAdd_eq_some, Option.pure_def, Option.some.injEq, Prod.mk.injEq] at h
  obtain ⟨⟨_, nameEnd, filesize⟩, hname, _, -, _, ⟨-, rfl⟩, _, hstop, -, rfl, rfl, rfl⟩ := h
  obtain ⟨hpos, hend⟩ := nameAt_bounds hname
  simp only [isizeMax, align4, wrap] at *
  omega

/-- Nothing panics while an entry is read. -/
lemma strictEntryAt_eq {archive : List UInt8} (hlen : archive.length ≤ isizeMax) (pos : ℕ) :
    strictEntryAt archive pos = some (rangeAt archive pos) := by
  rw [strictEntryAt, strictNameAt_eq, rangeAt]
  refine andThen_breaks fun r hr => andThen_breaks fun _ _ => ?_
  obtain ⟨name, nameEnd, filesize⟩ := r
  obtain ⟨-, hnameEnd⟩ := nameAt_bounds hr
  dsimp only
  refine andThen_panics (strictAlign4_of_lt ?_) ?_
  · rw [isizeMax] at hlen
    omega
  refine andThen_breaks fun dataEnd _ => andThen_breaks fun _ hin => ?_
  have hdataEnd : dataEnd ≤ archive.length := (Option.guard_eq_some' ..).mp hin
  refine andThen_panics (strictAlign4_of_lt ?_) rfl
  rw [isizeMax] at hlen
  omega

/-! ### The loop -/

/-- The table of `FILES` and `FILE_COUNT` that holds some files. -/
def tableOf (table : List Placement) : Initrd :=
  ⟨table.map (fun p => some p.entry) ++ List.replicate (maxFiles - table.length) none, table.length⟩

/-- What the loop keeps: the table has room for its files, and their ranges lie in the part of the archive
that has been read, one behind the other. -/
structure Tidy (archive : List UInt8) (pos : ℕ) (table : List Placement) : Prop where
  count : table.length ≤ maxFiles
  inside : ∀ p ∈ table, p.start ≤ p.stop ∧ p.stop ≤ archive.length ∧ p.stop ≤ pos ∧
    p.entry.data = archive.extract p.start p.stop
  increasing : table.Pairwise fun p q => p.stop < q.start

/-- Entering a file. -/
lemma register_tableOf (table : List Placement) (p : Placement) :
    (tableOf table).register p.entry =
      tableOf (if table.length < maxFiles ∧ p.entry.name ≠ "." then table ++ [p] else table) := by
  by_cases hroom : table.length < maxFiles ∧ p.entry.name ≠ "."
  · have hset : (table.map (fun p : Placement => some p.entry) ++ List.replicate (maxFiles - table.length) none).set
        table.length (some p.entry) =
        (table ++ [p]).map (fun p : Placement => some p.entry) ++
          List.replicate (maxFiles - (table ++ [p]).length) none := by
      obtain ⟨n, hn⟩ : ∃ n, maxFiles - table.length = n + 1 := ⟨maxFiles - table.length - 1, by omega⟩
      have hn' : maxFiles - (table ++ [p]).length = n := by
        rw [List.length_append, List.length_singleton]
        omega
      rw [hn, hn', List.set_append_right _ _ (by rw [List.length_map]), List.length_map, Nat.sub_self,
        List.replicate_succ, List.set_cons_zero, List.map_append, List.append_assoc]
      rfl
    have hcode : (tableOf table).fileCount < maxFiles ∧ p.entry.name ≠ "." := hroom
    rw [register, if_pos hcode, if_pos hroom]
    have hcount : table.length + 1 = (table ++ [p]).length := by
      rw [List.length_append, List.length_singleton]
    exact congrArg₂ Initrd.mk hset hcount
  · have hcode : ¬ ((tableOf table).fileCount < maxFiles ∧ p.entry.name ≠ ".") := hroom
    rw [register, if_neg hcode, if_neg hroom]

/-- A round that reads an entry. -/
lemma Tidy.register {archive : List UInt8} {pos next : ℕ} {table : List Placement} (ht : Tidy archive pos table)
    {p : Placement} (hpos : pos < p.start) (hstart : p.start ≤ p.stop) (hstop : p.stop ≤ archive.length)
    (hnext : p.stop ≤ next) (hdata : p.entry.data = archive.extract p.start p.stop) :
    Tidy archive next (if table.length < maxFiles ∧ p.entry.name ≠ "." then table ++ [p] else table) := by
  have hinside : ∀ q ∈ table, q.start ≤ q.stop ∧ q.stop ≤ archive.length ∧ q.stop ≤ next ∧
      q.entry.data = archive.extract q.start q.stop := fun q hq => by
    obtain ⟨h₁, h₂, h₃, h₄⟩ := ht.inside q hq
    exact ⟨h₁, h₂, by omega, h₄⟩
  by_cases hroom : table.length < maxFiles ∧ p.entry.name ≠ "."
  · rw [if_pos hroom]
    refine ⟨?_, fun q hq => ?_, List.pairwise_append.mpr ⟨ht.increasing, List.pairwise_singleton .., ?_⟩⟩
    · rw [List.length_append, List.length_singleton]
      exact hroom.1
    · rcases List.mem_append.mp hq with hq | hq
      · exact hinside q hq
      · rw [List.mem_singleton.mp hq]
        exact ⟨hstart, hstop, hnext, hdata⟩
    · intro q hq q' hq'
      rw [List.mem_singleton.mp hq']
      exact (ht.inside q hq).2.2.1.trans_lt hpos
  · rw [if_neg hroom]
    exact ⟨ht.count, hinside, ht.increasing⟩

/-- Registering a range does not panic. -/
lemma strictRegister_eq {archive : List UInt8} {start stop : ℕ} (h : start ≤ stop)
    (hstop : stop ≤ archive.length) (table : List Placement) (name : String) :
    strictRegister archive table name start stop =
      some (if table.length < maxFiles ∧ name ≠ "." then
        table ++ [⟨⟨name, archive.extract start stop⟩, start, stop⟩] else table) := by
  rw [strictRegister, slice_eq_some h hstop]
  by_cases hroom : table.length < maxFiles ∧ name ≠ "."
  · rw [if_pos hroom, if_pos hroom]
    rfl
  · rw [if_neg hroom, if_neg hroom]

/-- **The parser is safe.**  On every archive the loop of `init` ends and no operation panics.  The table that it
leaves has the ranges of at most 16 files, which lie inside the archive and one behind the other. -/
theorem init_safe (archive : ByteSlice) :
    ∃ table : List Placement,
      (∀ n > archive.bytes.length,
        Flow.loop (strictRound archive.bytes) n (0, []) = some (some table)) ∧
      init archive = tableOf table ∧ table.length ≤ 16 ∧
      (∀ p ∈ table, p.start ≤ p.stop ∧ p.stop ≤ archive.bytes.length ∧
        p.entry.data = archive.bytes.extract p.start p.stop) ∧
      table.Pairwise fun p q => p.stop < q.start := by
  have hrun : ∃ r, Flow.loop (strictRound archive.bytes) (archive.bytes.length + 1) (0, []) = some r ∧
      ∃ table pos, r = some table ∧ Tidy archive.bytes pos table ∧ init archive = tableOf table := by
    refine Flow.loop_spec (I := fun k s => k = archive.bytes.length - s.1 ∧ Tidy archive.bytes s.1 s.2 ∧
      initLoop archive s.1 (tableOf s.2) = init archive) ?_ (Nat.lt_succ_self _)
      ⟨rfl, ⟨Nat.zero_le _, by simp, .nil⟩, rfl⟩
    rintro k ⟨pos, table⟩ ⟨rfl, htidy, hinit⟩
    have hentry := entryAt_eq archive.bytes pos
    rw [strictRound, strictEntryAt_eq archive.length_le]
    cases hrange : rangeAt archive.bytes pos with
    | none =>
      rw [hrange] at hentry
      rw [initLoop_of_none hentry] at hinit
      exact ⟨table, pos, rfl, htidy, hinit.symm⟩
    | some r =>
      obtain ⟨name, start, stop, next⟩ := r
      rw [hrange] at hentry
      obtain ⟨hpos, hstart, hstop, hnext⟩ := rangeAt_bounds archive.length_le hrange
      dsimp only
      rw [strictRegister_eq hstart hstop]
      rw [initLoop_of_some hentry, register_tableOf table
        ⟨⟨name, archive.bytes.extract start stop⟩, start, stop⟩] at hinit
      obtain ⟨hlt, -⟩ := entryAt_lt archive.length_le hentry
      refine ⟨archive.bytes.length - next, by omega, rfl, ?_, hinit⟩
      exact htidy.register (p := ⟨⟨name, archive.bytes.extract start stop⟩, start, stop⟩) hpos hstart hstop
        hnext rfl
  obtain ⟨r, hrun, table, pos, rfl, htidy, hinit⟩ := hrun
  refine ⟨table, fun n hn => Flow.loop_mono hrun hn, hinit, htidy.count, fun p hp => ?_,
    htidy.increasing⟩
  obtain ⟨h₁, h₂, -, h₄⟩ := htidy.inside p hp
  exact ⟨h₁, h₂, h₄⟩

end Initrd

end NekOS
