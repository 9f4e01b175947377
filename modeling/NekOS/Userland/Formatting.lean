import Mathlib.Data.Nat.Digits.Defs
import NekOS.Userland.Printf

/-!
# The expansion of a format

What a format means: its conversions are replaced by the numerals and texts of the arguments, and everything
else is copied.  `printf` emits this expansion, up to the first call of `write` that fails.
-/

namespace NekOS

namespace Printf

/-! ### The reference expansion -/

/-- The conversions. -/
inductive Conv
  | c | s | d | u | x | p | ld | lu | lx
  deriving DecidableEq

/-- A part of a format: a byte that is copied, or a conversion. -/
inductive Item
  | raw (byte : UInt8)
  | conv (k : Conv)
  deriving DecidableEq

/-- The conversion with a letter. -/
def shortConv (byte : UInt8) : Option Conv :=
  if byte = 0x63 then some .c
  else if byte = 0x73 then some .s
  else if byte = 0x64 then some .d
  else if byte = 0x75 then some .u
  else if byte = 0x78 then some .x
  else if byte = 0x70 then some .p
  else none

/-- The conversion with a letter behind `l`. -/
def longConv (byte : UInt8) : Option Conv :=
  if byte = 0x64 then some .ld
  else if byte = 0x75 then some .lu
  else if byte = 0x78 then some .lx
  else none

/-- What a sequence means: a conversion, or its bytes if it is none. -/
def itemsOr (k : Option Conv) (bytes : List UInt8) : List Item :=
  match k with
  | some k => [.conv k]
  | none => bytes.map .raw

/-- The parts of a format. -/
def items : List UInt8 → List Item
  | [] => []
  | [a] => [.raw a]
  | a :: b :: rest =>
    if a ≠ 0x25 then .raw a :: items (b :: rest)
    else if b = 0x25 then .raw 0x25 :: items rest
    else if b = 0x6C then
      match rest with
      | [] => [.raw 0x25, .raw 0x6C]
      | c :: rest => itemsOr (longConv c) [0x25, 0x6C, c] ++ items rest
    else itemsOr (shortConv b) [0x25, b] ++ items rest

/-- The parts of a format of two bytes or more. -/
lemma items_cons (a b : UInt8) (rest : List UInt8) : items (a :: b :: rest) =
    if a ≠ 0x25 then .raw a :: items (b :: rest)
    else if b = 0x25 then .raw 0x25 :: items rest
    else if b = 0x6C then
      match rest with
      | [] => [.raw 0x25, .raw 0x6C]
      | c :: rest => itemsOr (longConv c) [0x25, 0x6C, c] ++ items rest
    else itemsOr (shortConv b) [0x25, b] ++ items rest := by
  rw [items.eq_def]

/-- A digit, in lower case. -/
def digitByte (d : ℕ) : UInt8 := if d < 10 then 0x30 + UInt8.ofNat d else 0x61 + UInt8.ofNat (d - 10)

/-- The numeral of a number: its digits, the most significant one first, without zeros before it. -/
def numeral (base n : ℕ) : List UInt8 :=
  (if n = 0 then [0] else (Nat.digits base n).reverse).map digitByte

/-- The decimal numeral of an integer. -/
def signedNumeral (v : ℤ) : List UInt8 :=
  if v < 0 then 0x2D :: numeral 10 v.natAbs else numeral 10 v.natAbs

/-- A text with a terminator, at the start of what can be read. -/
structure CString (text : Readable) (s : List UInt8) : Prop where
  nonzero : 0 ∉ s
  read : ∀ i ≤ s.length, text i = (s ++ [0])[i]?
  short : s.length < addressSpace

/-- A text at an address of the memory. -/
def StringAt (m : Readable) (p : ℕ) (s : List UInt8) : Prop := CString (fun i => m (p + i)) s

/-- What a conversion makes of an argument. -/
inductive Renders (m : Readable) : Conv → Arg → List UInt8 → Prop
  | c (v : Int32) : Renders m .c (.int v) [v.toUInt32.toUInt8]
  | null : Renders m .s (.ptr 0) nullText
  | s {v : UInt64} {bytes : List UInt8} : v ≠ 0 → StringAt m v.toNat bytes →
      Renders m .s (.ptr v) bytes
  | d (v : Int32) : Renders m .d (.int v) (signedNumeral v.toInt)
  | u (v : UInt32) : Renders m .u (.uint v) (numeral 10 v.toNat)
  | x (v : UInt32) : Renders m .x (.uint v) (numeral 16 v.toNat)
  | p (v : UInt64) : Renders m .p (.ptr v) ([0x30, 0x78] ++ numeral 16 v.toNat)
  | ld (v : Int64) : Renders m .ld (.long v) (signedNumeral v.toInt)
  | lu (v : UInt64) : Renders m .lu (.ulong v) (numeral 10 v.toNat)
  | lx (v : UInt64) : Renders m .lx (.ulong v) (numeral 16 v.toNat)

/-- The arguments match the conversions, and this is the expansion. -/
inductive Expands (m : Readable) : List Item → List Arg → List UInt8 → Prop
  | nil (args : List Arg) : Expands m [] args []
  | raw {is : List Item} {args : List Arg} {out : List UInt8} (byte : UInt8) :
      Expands m is args out → Expands m (.raw byte :: is) args (byte :: out)
  | conv {k : Conv} {arg : Arg} {bytes : List UInt8} {is : List Item} {args : List Arg}
      {out : List UInt8} : Renders m k arg bytes → Expands m is args out →
      Expands m (.conv k :: is) (arg :: args) (bytes ++ out)

/-! ### Sending bytes to the console -/

/-- Send bytes until a call of `write` fails, and whether none did. -/
def send (ok : ℕ → Bool) : List UInt8 → Console → Bool × Console
  | [], c => (true, c)
  | byte :: rest, c =>
    if ok c.calls then send ok rest ⟨c.emitted ++ [byte], c.calls + 1⟩
    else (false, ⟨c.emitted, c.calls + 1⟩)

variable {ok : ℕ → Bool} {m : Readable} {a b bytes out : List UInt8} {c : Console} {x y : Print}

/-- Sending two texts. -/
lemma send_append (ok : ℕ → Bool) (a b : List UInt8) (c : Console) :
    send ok (a ++ b) c = if (send ok a c).1 then send ok b (send ok a c).2 else send ok a c := by
  induction a generalizing c with
  | nil => rfl
  | cons byte a ih =>
    rw [List.cons_append, send, send]
    by_cases hok : ok c.calls = true
    · rw [if_pos hok, if_pos hok]
      exact ih _
    · rw [if_neg hok, if_neg hok]
      rfl

/-- What the console has been sent afterwards. -/
lemma send_emitted (ok : ℕ → Bool) (bytes : List UInt8) (c : Console) :
    ∃ n ≤ bytes.length, (send ok bytes c).2.emitted = c.emitted ++ bytes.take n ∧
      ((send ok bytes c).1 = true → n = bytes.length) := by
  induction bytes generalizing c with
  | nil => exact ⟨0, le_rfl, (List.append_nil _).symm, fun _ => rfl⟩
  | cons byte bytes ih =>
    rw [send]
    split_ifs with hok
    · obtain ⟨n, hn, heq, hall⟩ := ih ⟨c.emitted ++ [byte], c.calls + 1⟩
      refine ⟨n + 1, Nat.succ_le_succ hn, ?_, fun h => congrArg Nat.succ (hall h)⟩
      rw [heq, List.take_succ_cons, List.append_assoc]
      rfl
    · exact ⟨0, Nat.zero_le _, (List.append_nil _).symm, nofun⟩

/-- The console is not sent less afterwards. -/
lemma send_length (ok : ℕ → Bool) (bytes : List UInt8) (c : Console) :
    c.emitted.length ≤ (send ok bytes c).2.emitted.length := by
  obtain ⟨n, -, heq, -⟩ := send_emitted ok bytes c
  rw [heq, List.length_append]
  exact Nat.le_add_right _ _

/-- What a function that prints a text returns, and the console afterwards. -/
def outcome (ok : ℕ → Bool) (bytes : List UInt8) (c : Console) : ℤ × Console :=
  (if (send ok bytes c).1 then (bytes.length : ℤ) else eof, (send ok bytes c).2)

/-- The function prints the text, unless it has too many bytes for an `int`. -/
def Prints (ok : ℕ → Bool) (x : Print) (bytes : List UInt8) : Prop :=
  ∀ c, (send ok bytes c).2.emitted.length ≤ c.emitted.length + intMax → x c = some (outcome ok bytes c)

/-- A length is not `EOF`. -/
lemma length_ne_eof (n : ℕ) : (n : ℤ) ≠ eof := by
  unfold eof
  omega

/-- `emit_char` prints its byte. -/
lemma prints_emitChar (ok : ℕ → Bool) (byte : UInt8) : Prints ok (emitChar ok byte) [byte] := by
  intro c _
  rw [emitChar, outcome, send]
  by_cases hok : ok c.calls = true
  · rw [if_pos hok, if_pos hok]
    rfl
  · rw [if_neg hok, if_neg hok]
    rfl

/-- The outcome if no call of `write` fails. -/
lemma outcome_sent (h : (send ok bytes c).1 = true) :
    outcome ok bytes c = ((bytes.length : ℤ), (send ok bytes c).2) := by
  rw [outcome, if_pos h]

/-- The outcome if a call of `write` fails. -/
lemma outcome_failed (h : ¬ (send ok bytes c).1 = true) :
    outcome ok bytes c = (eof, (send ok bytes c).2) := by
  rw [outcome, if_neg h]

/-- The number of bytes that have been sent if no call of `write` fails. -/
lemma send_all (h : (send ok bytes c).1 = true) :
    (send ok bytes c).2.emitted.length = c.emitted.length + bytes.length := by
  obtain ⟨n, -, hn, hall⟩ := send_emitted ok bytes c
  rw [hn, hall h, List.take_length, List.length_append]

/-- Two texts one after the other. -/
lemma Prints.addTo (hx : Prints ok x a) (hy : Prints ok y b) :
    Prints ok (orEof x fun n => addTo n y) (a ++ b) := by
  intro c hsmall
  have happend := send_append ok a b c
  rw [happend] at hsmall
  by_cases hall : (send ok a c).1 = true
  · rw [if_pos hall] at hsmall happend
    have hle := send_length ok a c
    have hle' := send_length ok b (send ok a c).2
    rw [orEof, hx c (by omega), outcome_sent hall]
    dsimp only
    rw [if_neg (length_ne_eof _), Printf.addTo, orEof, hy _ (by omega)]
    by_cases hall' : (send ok b (send ok a c).2).1 = true
    · have hsum : (a.length : ℤ) + b.length ≤ intMax := by
        rw [send_all hall', send_all hall] at hsmall
        omega
      rw [outcome_sent hall', outcome_sent (by rw [happend]; exact hall'), happend, List.length_append]
      dsimp only
      rw [if_neg (length_ne_eof _), addInt, if_pos hsum]
      push_cast
      rfl
    · rw [outcome_failed hall', outcome_failed (by rw [happend]; exact hall'), happend]
      rfl
  · rw [if_neg hall] at hsmall happend
    rw [orEof, hx c hsmall, outcome_failed hall, outcome_failed (by rw [happend]; exact hall), happend]
    rfl

/-- The value is returned as it is. -/
lemma Prints.done (hx : Prints ok x a) : Prints ok (orEof x Printf.done) a := by
  intro c hsmall
  rw [orEof, hx c hsmall, outcome]
  by_cases hall : (send ok a c).1 = true
  · rw [if_pos hall]
    dsimp only
    rw [if_neg (length_ne_eof _)]
    rfl
  · rw [if_neg hall]
    rfl

/-! ### Texts -/

/-- The byte at a position of a text, or its terminator. -/
lemma CString.read_drop {text : Readable} {s rest : List UInt8} {i : ℕ} (h : CString text s)
    (hi : s.drop i = rest) (hle : i ≤ s.length) :
    text i = match rest with
      | [] => some 0
      | byte :: _ => some byte := by
  rw [h.read i hle]
  cases rest with
  | nil =>
    have hlen := List.drop_eq_nil_iff.mp hi
    obtain rfl : i = s.length := Nat.le_antisymm hle hlen
    simp
  | cons byte rest =>
    have hget : (s.drop i)[0]? = s[i + 0]? := List.getElem?_drop
    rw [hi, List.getElem?_cons_zero, Nat.add_zero] at hget
    have hlt : i < s.length := by
      by_contra hge
      rw [List.drop_eq_nil_of_le (by omega)] at hi
      cases hi
    rw [List.getElem?_append_left hlt, ← hget]

/-- A literal can be read. -/
lemma cstring_literal {s : List UInt8} (hs : 0 ∉ s) (hlen : s.length < addressSpace) :
    CString (literal s) s :=
  ⟨hs, fun _ _ => rfl, hlen⟩

/-- `emit_string` prints its text. -/
lemma prints_emitText {text : Readable} {s : List UInt8} (h : CString text s) :
    Prints ok (emitText ok text) s := by
  intro c hsmall
  have hrun : ∃ r, Flow.loop (emitRound ok text) addressSpace (0, 0, c) = some r ∧
      r = some (outcome ok s c) := by
    refine Flow.loop_spec (I := fun k t => ∃ rest, s.drop t.1 = rest ∧ k = rest.length ∧ t.1 ≤ s.length ∧
      send ok s c = send ok rest t.2.2 ∧ t.2.1 = t.1 ∧
      t.2.2.emitted.length = c.emitted.length + t.1) ?_ h.short ⟨s, rfl, rfl, Nat.zero_le _, rfl, rfl, rfl⟩
    rintro k ⟨i, count, c'⟩ ⟨rest, hrest, rfl, hi, hsend, hcount, hlen⟩
    dsimp only at hrest hi hsend hcount hlen
    subst hcount
    unfold emitRound
    dsimp only
    rw [h.read_drop hrest hi]
    cases rest with
    | nil =>
      have hle := List.drop_eq_nil_iff.mp hrest
      obtain rfl : i = s.length := Nat.le_antisymm hi hle
      dsimp only
      rw [if_pos rfl, outcome, hsend, send]
      exact rfl
    | cons byte rest =>
      have hmem : byte ∈ s := List.mem_of_mem_drop (hrest ▸ List.mem_cons_self (a := byte) (l := rest))
      have hne : byte ≠ 0 := fun h0 => h.nonzero (h0 ▸ hmem)
      dsimp only
      rw [if_neg hne, emitChar]
      rw [send] at hsend
      by_cases hok : ok c'.calls = true
      · rw [if_pos hok] at hsend ⊢
        have hcount : ((i : ℤ) + 1) ≤ intMax := by
          have hle := send_length ok rest ⟨c'.emitted ++ [byte], c'.calls + 1⟩
          rw [← hsend, List.length_append, List.length_singleton] at hle
          omega
        dsimp only
        rw [if_neg (by decide), addInt, if_pos hcount]
        refine ⟨rest.length, Nat.lt_succ_self _, rest, ?_, rfl, ?_, hsend, by push_cast; rfl, ?_⟩
        · rw [← List.tail_drop, hrest, List.tail_cons]
        · have hlt : i < s.length := by
            by_contra hge
            rw [List.drop_eq_nil_of_le (by omega)] at hrest
            cases hrest
          exact hlt
        · rw [List.length_append, List.length_singleton, hlen, Nat.add_assoc]
      · rw [if_neg hok] at hsend ⊢
        dsimp only
        rw [if_pos rfl, outcome, hsend]
        exact rfl
  obtain ⟨r, hr, rfl⟩ := hrun
  rw [emitText, hr]
  rfl

/-- The text of an argument of `%s`. -/
lemma prints_emitString {p : ℕ} {s : List UInt8} (hp : p ≠ 0) (h : StringAt m p s) :
    Prints ok (emitString ok m p) s := by
  rw [emitString, if_neg hp]
  exact prints_emitText h

/-- A null pointer as an argument of `%s`. -/
lemma prints_emitNull : Prints ok (emitString ok m 0) nullText := by
  rw [emitString, if_pos rfl]
  exact prints_emitText (cstring_literal (by decide) (by decide))

/-! ### Numerals -/

/-- The digits of a number, the least significant one first. -/
def lowDigits (base n : ℕ) : List UInt8 := (if n = 0 then [0] else Nat.digits base n).map digitByte

/-- The numeral is the digits backwards. -/
lemma reverse_lowDigits (base n : ℕ) : (lowDigits base n).reverse = numeral base n := by
  rw [lowDigits, numeral, ← List.map_reverse]
  split_ifs <;> rfl

/-- The table of digits. -/
lemma digits_getD {d : ℕ} (h : d < 16) : digits.getD d 0 = digitByte d := by
  revert h
  revert d
  decide

/-- The buffer is large enough for the digits. -/
lemma digitsLoop_eq {base : ℕ} (hbase : 2 ≤ base) (hbase' : base ≤ 16) {room value : ℕ} (hroom : 0 < room)
    (hvalue : value < base ^ room) (buffer : List UInt8) :
    digitsLoop base room value buffer = some (buffer ++ lowDigits base value) := by
  induction room generalizing value buffer with
  | zero => omega
  | succ room ih =>
    have hmod : value % base < base := Nat.mod_lt _ (by omega)
    rw [digitsLoop, digits_getD (by omega)]
    by_cases hlast : value / base = 0
    · have hlt : value < base := (Nat.div_eq_zero_iff_lt (by omega)).mp hlast
      rw [if_pos hlast, Nat.mod_eq_of_lt hlt, lowDigits]
      by_cases hzero : value = 0
      · rw [if_pos hzero, hzero]
        rfl
      · rw [if_neg hzero, Nat.digits_of_lt base value hzero hlt]
        rfl
    · have hpos : 0 < room := by
        rcases Nat.eq_zero_or_pos room with rfl | hpos
        · rw [zero_add, pow_one] at hvalue
          exact absurd (Nat.div_eq_of_lt hvalue) hlast
        · exact hpos
      have hne : value ≠ 0 := fun h => hlast (by rw [h, Nat.zero_div])
      have hdiv : value / base < base ^ room := Nat.div_lt_of_lt_mul (by rwa [← pow_succ'])
      have hdigits : Nat.digits base value = value % base :: Nat.digits base (value / base) :=
        Nat.digits_def' (by omega) (Nat.pos_of_ne_zero hne)
      rw [if_neg hlast, ih hpos hdiv, lowDigits, lowDigits, if_neg hlast, if_neg hne, hdigits,
        List.map_cons, List.append_assoc]
      rfl

/-- Printing digits that have been counted from some number on. -/
lemma emitDigits_eq (bytes : List UInt8) (count : ℕ) (c : Console) :
    emitDigits ok count bytes c =
      some (if (send ok bytes c).1 then ((count + bytes.length : ℕ) : ℤ) else eof, (send ok bytes c).2) := by
  induction bytes generalizing count c with
  | nil => rfl
  | cons byte bytes ih =>
    rw [emitDigits, orEof, emitChar, send]
    by_cases hok : ok c.calls = true
    · rw [if_pos hok, if_pos hok]
      dsimp only
      rw [if_neg (by decide)]
      refine (ih (count + 1) _).trans ?_
      rw [List.length_cons, show count + 1 + bytes.length = count + (bytes.length + 1) by omega]
    · rw [if_neg hok, if_neg hok]
      rfl

/-- `print_unsigned` prints the numeral. -/
lemma prints_printUnsigned {base value : ℕ} (hbase : 2 ≤ base) (hbase' : base ≤ 16)
    (hvalue : value < 2 ^ 64) : Prints ok (printUnsigned ok value base) (numeral base value) := by
  intro c _
  have hpow : (2 : ℕ) ^ 64 ≤ base ^ 64 := Nat.pow_le_pow_left hbase 64
  rw [printUnsigned, digitsLoop_eq hbase hbase' (by decide) (hvalue.trans_le hpow), List.nil_append]
  dsimp only
  rw [reverse_lowDigits]
  refine (emitDigits_eq _ 0 c).trans ?_
  rw [Nat.zero_add, outcome]

/-- `emit_char` returns one or `EOF`. -/
lemma orEof_emitChar (byte : UInt8) (f : ℤ → Print) :
    orEof (emitChar ok byte) f = orEof (emitChar ok byte) fun _ => f 1 := by
  funext c
  rw [orEof, orEof, emitChar]
  by_cases hok : ok c.calls = true
  · rw [if_pos hok]
  · rw [if_neg hok]
    rfl

/-- Adding nothing to what is printed. -/
lemma Prints.addZero (hx : Prints ok x a) : Prints ok (Printf.addTo 0 x) a := by
  intro c hsmall
  have hle : (send ok a c).1 = true → (a.length : ℤ) ≤ intMax := fun hall => by
    rw [send_all hall] at hsmall
    omega
  rw [Printf.addTo, orEof, hx c hsmall]
  by_cases hall : (send ok a c).1 = true
  · rw [outcome_sent hall]
    dsimp only
    rw [if_neg (length_ne_eof _), addInt, zero_add, if_pos (hle hall)]
    rfl
  · rw [outcome_failed hall]
    rfl

/-- `print_signed` prints the numeral. -/
lemma prints_printSigned {v : ℤ} (hge : -2 ^ 63 ≤ v) (hlt : v < 2 ^ 63) :
    Prints ok (printSigned ok v) (signedNumeral v) := by
  rw [printSigned, signedNumeral]
  by_cases hneg : v < 0
  · have habs : wrap (2 ^ 64 - asUsize v) = v.natAbs := by
      unfold wrap asUsize
      omega
    rw [if_pos hneg, if_pos hneg, habs]
    have hnumber : Prints ok (printUnsigned ok v.natAbs 10) (numeral 10 v.natAbs) :=
      prints_printUnsigned (by decide) (by decide) (by omega)
    have hprints := (prints_emitChar ok 0x2D).addTo hnumber
    rwa [orEof_emitChar] at hprints
  · have habs : asUsize v = v.natAbs := by
      unfold asUsize
      omega
    rw [if_neg hneg, if_neg hneg, habs]
    exact (prints_printUnsigned (by decide) (by decide) (by omega)).addZero

/-! ### Conversions -/

variable {args : List Arg} {rest : List Item}

/-- Bytes that are copied. -/
lemma Expands.raws (bytes : List UInt8) (h : Expands m (bytes.map .raw ++ rest) args out) :
    ∃ out', out = bytes ++ out' ∧ Expands m rest args out' := by
  induction bytes generalizing out with
  | nil => exact ⟨out, rfl, h⟩
  | cons byte bytes ih =>
    cases h with
    | raw _ h =>
      obtain ⟨out', rfl, h'⟩ := ih h
      exact ⟨out', rfl, h'⟩

/-- The cases of the outer `switch` print what the sequence means. -/
lemma conversion_steps (byte : UInt8) (h : Expands m (itemsOr (shortConv byte)
    (if byte = 0 ∨ byte = 0x25 then [0x25] else [0x25, byte]) ++ rest) args out) :
    ∃ print args' bytes out', conversion ok m byte args = some (print, args') ∧ Prints ok print bytes ∧
      out = bytes ++ out' ∧ Expands m rest args' out' := by
  unfold shortConv at h
  unfold conversion
  by_cases hpercent : byte = 0 ∨ byte = 0x25
  · have hnone : ∀ n : UInt8, n ≠ 0 → n ≠ 0x25 → byte ≠ n := fun n h₀ h₁ => by
      rcases hpercent with rfl | rfl
      · exact h₀.symm
      · exact h₁.symm
    rw [if_pos hpercent, if_neg (hnone _ (by decide) (by decide)), if_neg (hnone _ (by decide) (by decide)),
      if_neg (hnone _ (by decide) (by decide)), if_neg (hnone _ (by decide) (by decide)),
      if_neg (hnone _ (by decide) (by decide)), if_neg (hnone _ (by decide) (by decide))] at h
    obtain ⟨out', rfl, h'⟩ := Expands.raws [0x25] h
    rw [if_pos hpercent]
    exact ⟨_, _, _, out', rfl, prints_emitChar ok 0x25, rfl, h'⟩
  rw [if_neg hpercent] at h ⊢
  by_cases hc : byte = 0x63
  · rw [if_pos hc] at h ⊢
    cases h with
    | conv hr h =>
      cases hr with
      | c v => exact ⟨_, _, _, _, rfl, prints_emitChar ok _, rfl, h⟩
  rw [if_neg hc] at h ⊢
  by_cases hs : byte = 0x73
  · rw [if_pos hs] at h ⊢
    cases h with
    | conv hr h =>
      cases hr with
      | null => exact ⟨_, _, _, _, rfl, prints_emitNull, rfl, h⟩
      | s hv hstr =>
        refine ⟨_, _, _, _, rfl, prints_emitString (fun hz => hv ?_) hstr, rfl, h⟩
        exact UInt64.toNat_inj.mp hz
  rw [if_neg hs] at h ⊢
  by_cases hd : byte = 0x64
  · rw [if_pos hd] at h ⊢
    cases h with
    | conv hr h =>
      cases hr with
      | d v =>
        have hge := Int32.le_toInt v
        have hlt := Int32.toInt_lt v
        exact ⟨_, _, _, _, rfl, prints_printSigned (by omega) (by omega), rfl, h⟩
  rw [if_neg hd] at h ⊢
  by_cases hu : byte = 0x75
  · rw [if_pos hu] at h ⊢
    cases h with
    | conv hr h =>
      cases hr with
      | u v =>
        have hlt := v.toNat_lt
        exact ⟨_, _, _, _, rfl, prints_printUnsigned (by decide) (by decide) (by omega), rfl, h⟩
  rw [if_neg hu] at h ⊢
  by_cases hx : byte = 0x78
  · rw [if_pos hx] at h ⊢
    cases h with
    | conv hr h =>
      cases hr with
      | x v =>
        have hlt := v.toNat_lt
        exact ⟨_, _, _, _, rfl, prints_printUnsigned (by decide) (by decide) (by omega), rfl, h⟩
  rw [if_neg hx] at h ⊢
  by_cases hp : byte = 0x70
  · rw [if_pos hp] at h ⊢
    cases h with
    | conv hr h =>
      cases hr with
      | p v =>
        have htext : Prints ok (emitText ok (literal [0x30, 0x78])) [0x30, 0x78] :=
          prints_emitText (cstring_literal (by decide) (by decide))
        exact ⟨_, _, _, _, rfl, htext.addTo (prints_printUnsigned (by decide) (by decide) v.toNat_lt), rfl, h⟩
  rw [if_neg hp] at h ⊢
  obtain ⟨out', rfl, h'⟩ := h.raws
  exact ⟨_, _, _, out', rfl, (prints_emitChar ok 0x25).addTo (prints_emitChar ok byte), rfl, h'⟩

/-- The cases of the inner `switch` print what the sequence means. -/
lemma longConversion_steps (byte : UInt8) (h : Expands m (itemsOr (longConv byte)
    (if byte = 0 then [0x25, 0x6C] else [0x25, 0x6C, byte]) ++ rest) args out) :
    ∃ print args' bytes out', longConversion ok byte args = some (print, args') ∧ Prints ok print bytes ∧
      out = bytes ++ out' ∧ Expands m rest args' out' := by
  unfold longConv at h
  unfold longConversion
  by_cases hd : byte = 0x64
  · rw [if_pos hd] at h ⊢
    cases h with
    | conv hr h =>
      cases hr with
      | ld v =>
        exact ⟨_, _, _, _, rfl, prints_printSigned (Int64.le_toInt v) (Int64.toInt_lt v), rfl, h⟩
  rw [if_neg hd] at h ⊢
  by_cases hu : byte = 0x75
  · rw [if_pos hu] at h ⊢
    cases h with
    | conv hr h =>
      cases hr with
      | lu v => exact ⟨_, _, _, _, rfl, prints_printUnsigned (by decide) (by decide) v.toNat_lt, rfl, h⟩
  rw [if_neg hu] at h ⊢
  by_cases hx : byte = 0x78
  · rw [if_pos hx] at h ⊢
    cases h with
    | conv hr h =>
      cases hr with
      | lx v => exact ⟨_, _, _, _, rfl, prints_printUnsigned (by decide) (by decide) v.toNat_lt, rfl, h⟩
  rw [if_neg hx] at h ⊢
  obtain ⟨out', rfl, h'⟩ := h.raws
  have htext : Prints ok (emitText ok (literal [0x25, 0x6C])) [0x25, 0x6C] :=
    prints_emitText (cstring_literal (by decide) (by decide))
  by_cases hzero : byte = 0
  · rw [if_pos hzero]
    refine ⟨_, _, _, out', rfl, ?_, rfl, h'⟩
    simp only [hzero, ne_eq, not_true_eq_false, if_false]
    exact htext.done
  · rw [if_neg hzero]
    refine ⟨_, _, _, out', rfl, ?_, rfl, h'⟩
    simp only [ne_eq, hzero, not_false_eq_true, if_true]
    exact htext.addTo (prints_emitChar ok byte)

/-! ### The loop -/

/-- What `printf` keeps: the rest of the expansion is still to be sent, and `total` counts what has been. -/
structure Going (ok : ℕ → Bool) (whole : List UInt8) (total : ℤ) (c : Console) (out : List UInt8) : Prop where
  sent : send ok whole .new = send ok out c
  total : total = c.emitted.length
  length : c.emitted.length + out.length = whole.length

variable {whole : List UInt8} {total : ℤ}

/-- The end of a round. -/
lemma Going.finish (hsmall : (send ok whole .new).2.emitted.length ≤ intMax)
    (h : Going ok whole total c (bytes ++ out)) {print : Print} (hprint : Prints ok print bytes)
    {byte : UInt8} (hzero : byte = 0 → out = []) (pos : ℕ) :
    (finish pos byte total c (some (print, args))).Post (· = some (outcome ok whole .new)) fun t =>
      t.pos = pos + 1 ∧ t.args = args ∧ byte ≠ 0 ∧ Going ok whole t.total t.console out := by
  have hsent := h.sent
  rw [send_append ok] at hsent
  by_cases hall : (send ok bytes c).1 = true
  · rw [if_pos hall] at hsent
    have hle := send_length ok out (send ok bytes c).2
    have hcount := send_all hall
    rw [← hsent, hcount] at hle
    have hsum : total + bytes.length ≤ intMax := by
      rw [h.total]
      omega
    have hlength := h.length
    rw [List.length_append] at hlength
    unfold Printf.finish
    dsimp only
    rw [hprint c (by omega), outcome_sent hall]
    dsimp only
    rw [if_neg (length_ne_eof _), addInt, if_pos hsum]
    dsimp only
    have hgoing : Going ok whole (total + bytes.length) (send ok bytes c).2 out :=
      ⟨hsent, by rw [h.total, hcount]; push_cast; rfl, by omega⟩
    by_cases hb : byte = 0
    · obtain rfl := hzero hb
      have hwhole : (send ok whole .new).1 = true := by rw [hsent]; rfl
      rw [if_pos hb, outcome_sent hwhole, hsent, hgoing.total]
      refine congrArg some (Prod.ext ?_ rfl)
      rw [← hgoing.length]
      rfl
    · rw [if_neg hb]
      exact ⟨rfl, rfl, hb, hgoing⟩
  · rw [if_neg hall] at hsent
    unfold Printf.finish
    dsimp only
    have hle : (send ok bytes c).2.emitted.length ≤ c.emitted.length + intMax := by
      rw [hsent] at hsmall
      omega
    rw [hprint c hle, outcome_failed hall]
    dsimp only
    rw [if_pos rfl, outcome_failed (by rw [hsent]; exact hall), hsent]
    rfl

/-- The end of a round, where `format` points into the format or to its terminator. -/
lemma finish_post (hsmall : (send ok whole .new).2.emitted.length ≤ intMax) {fmt : List UInt8} {pos q : ℕ}
    (h : Going ok whole total c out) {byte : UInt8} {step : Option (Print × List Arg)}
    (hstep : ∃ print args' bytes out', step = some (print, args') ∧ Prints ok print bytes ∧
      out = bytes ++ out' ∧ Expands m (items (fmt.drop (q + 1))) args' out')
    (hend : byte = 0 → fmt.length ≤ q) (hin : byte ≠ 0 → q < fmt.length) (hpos : pos ≤ q) :
    (finish q byte total c step).Post (· = some (outcome ok whole .new)) fun t =>
      pos < t.pos ∧ t.pos ≤ fmt.length ∧ ∃ out', Going ok whole t.total t.console out' ∧
        Expands m (items (fmt.drop t.pos)) t.args out' := by
  obtain ⟨print, args', bytes, out', rfl, hprint, rfl, hout⟩ := hstep
  refine (h.finish hsmall hprint (fun hzero => ?_) q).imp (fun _ => id) fun t ⟨ht, hargs, hne, hgoing⟩ => ?_
  · rw [List.drop_eq_nil_of_le (by have := hend hzero; omega)] at hout
    cases hout with
    | nil => rfl
  · rw [ht, hargs]
    exact ⟨by omega, hin hne, out', hgoing, hout⟩

/-- The rest of a text behind one of its bytes. -/
lemma drop_cons {s rest : List UInt8} {i : ℕ} {byte : UInt8} (h : s.drop i = byte :: rest) :
    i < s.length ∧ s.drop (i + 1) = rest ∧ byte ∈ s := by
  refine ⟨?_, ?_, List.mem_of_mem_drop (h ▸ List.mem_cons_self (a := byte) (l := rest))⟩
  · by_contra hge
    rw [List.drop_eq_nil_of_le (by omega)] at h
    cases h
  · rw [← List.tail_drop, h, List.tail_cons]

/-- A round of `printf`. -/
lemma round_post (hsmall : (send ok whole .new).2.emitted.length ≤ intMax) {format pos : ℕ}
    {fmt : List UInt8} (hfmt : StringAt m format fmt) (hpos : pos ≤ fmt.length)
    (h : Going ok whole total c out) (hout : Expands m (items (fmt.drop pos)) args out) :
    (round ok m format ⟨pos, args, total, c⟩).Post (· = some (outcome ok whole .new)) fun t =>
      pos < t.pos ∧ t.pos ≤ fmt.length ∧ ∃ out', Going ok whole t.total t.console out' ∧
        Expands m (items (fmt.drop t.pos)) t.args out' := by
  unfold round
  dsimp only
  cases hdrop : fmt.drop pos with
  | nil =>
    rw [hdrop] at hout
    rw [hfmt.read_drop hdrop hpos]
    dsimp only
    cases hout with
    | nil =>
      have hwhole : (send ok whole .new).1 = true := by rw [h.sent]; rfl
      rw [if_pos rfl, outcome_sent hwhole, h.sent, h.total]
      refine congrArg some (Prod.ext ?_ rfl)
      rw [← h.length]
      rfl
  | cons a rest =>
    obtain ⟨hlt, hrest, hmem⟩ := drop_cons hdrop
    have hne : a ≠ 0 := fun h0 => hfmt.nonzero (h0 ▸ hmem)
    have hread := hfmt.read_drop hrest hlt
    rw [hdrop] at hout
    rw [hfmt.read_drop hdrop hpos]
    dsimp only at hread ⊢
    rw [if_neg hne]
    by_cases ha : a ≠ 0x25
    · have hraw : items (a :: rest) = .raw a :: items rest := by
        cases rest with
        | nil => rfl
        | cons b rest => rw [items_cons, if_pos ha]
      rw [if_pos ha]
      rw [hraw] at hout
      cases hout with
      | @raw _ _ out _ hout =>
        exact finish_post hsmall h ⟨_, _, [a], out, rfl, prints_emitChar ok a, rfl, by rwa [hrest]⟩
          (fun h0 => absurd h0 hne) (fun _ => hlt) le_rfl
    obtain rfl : a = 0x25 := not_not.mp ha
    rw [if_neg ha, hread]
    cases rest with
    | nil =>
      have hle := List.drop_eq_nil_iff.mp hrest
      dsimp only
      rw [if_pos (by decide)]
      have hnil : fmt.drop (pos + 1 + 1) = [] := List.drop_eq_nil_of_le (by omega)
      refine finish_post hsmall h (conversion_steps 0 ?_) (fun _ => hle) (fun h0 => absurd rfl h0)
        (Nat.le_succ pos)
      rw [hnil]
      exact hout
    | cons b rest =>
      obtain ⟨hlt₁, hrest₁, hmem₁⟩ := drop_cons hrest
      have hne₁ : b ≠ 0 := fun h0 => hfmt.nonzero (h0 ▸ hmem₁)
      dsimp only
      rw [items_cons, if_neg ha] at hout
      by_cases hl : b = 0x6C
      · subst hl
        have hread₁ := hfmt.read_drop hrest₁ hlt₁
        rw [if_neg (by decide), hread₁]
        rw [if_neg (by decide), if_pos rfl] at hout
        cases rest with
        | nil =>
          have hle := List.drop_eq_nil_iff.mp hrest₁
          have hnil : fmt.drop (pos + 2 + 1) = [] := List.drop_eq_nil_of_le (by omega)
          refine finish_post hsmall h (longConversion_steps 0 ?_) (fun _ => hle)
            (fun h0 => absurd rfl h0) (Nat.le_add_right pos 2)
          rw [hnil]
          exact hout
        | cons c' rest =>
          obtain ⟨hlt₂, hrest₂, hmem₂⟩ := drop_cons hrest₁
          have hne₂ : c' ≠ 0 := fun h0 => hfmt.nonzero (h0 ▸ hmem₂)
          refine finish_post hsmall h (longConversion_steps c' ?_) (fun h0 => absurd h0 hne₂)
            (fun _ => hlt₂) (Nat.le_add_right pos 2)
          rw [show pos + 2 + 1 = pos + 1 + 1 + 1 by rfl, hrest₂, if_neg hne₂]
          exact hout
      · rw [if_pos hl]
        refine finish_post hsmall h (conversion_steps b ?_) (fun h0 => absurd h0 hne₁)
          (fun _ => hlt₁) (Nat.le_succ pos)
        rw [hrest₁]
        by_cases hb : b = 0x25
        · subst hb
          exact hout
        · rw [if_neg hb, if_neg hl] at hout
          rw [if_neg (not_or.mpr ⟨hne₁, hb⟩)]
          exact hout

/-! ### The result -/

/-- Sending bytes when no call of `write` fails. -/
lemma send_succeeds (ok : ℕ → Bool) (bytes : List UInt8) (c : Console)
    (h : ∀ k < bytes.length, ok (c.calls + k) = true) :
    send ok bytes c = (true, ⟨c.emitted ++ bytes, c.calls + bytes.length⟩) := by
  induction bytes generalizing c with
  | nil =>
    rw [send, List.append_nil]
    rfl
  | cons byte bytes ih =>
    have hrest : ∀ k < bytes.length, ok (c.calls + 1 + k) = true := fun k hk => by
      have := h (k + 1) (Nat.succ_lt_succ hk)
      rwa [show c.calls + (k + 1) = c.calls + 1 + k by omega] at this
    have hfirst : ok c.calls = true := h 0 (Nat.succ_pos _)
    rw [send, if_pos hfirst, ih _ hrest, List.length_cons, List.append_assoc,
      show c.calls + 1 + bytes.length = c.calls + (bytes.length + 1) by omega]
    rfl

/-- Sending bytes when a call of `write` fails. -/
lemma send_fails (ok : ℕ → Bool) (bytes : List UInt8) (c : Console) {k : ℕ} (hk : k < bytes.length)
    (hfail : ok (c.calls + k) = false) (h : ∀ j < k, ok (c.calls + j) = true) :
    send ok bytes c = (false, ⟨c.emitted ++ bytes.take k, c.calls + k + 1⟩) := by
  induction k generalizing bytes c with
  | zero =>
    cases bytes with
    | nil => cases hk
    | cons byte bytes =>
      have hfirst : ¬ ok c.calls = true := by
        rw [show ok c.calls = false from hfail]
        exact Bool.false_ne_true
      rw [send, if_neg hfirst, List.take_zero, List.append_nil]
  | succ k ih =>
    cases bytes with
    | nil => cases hk
    | cons byte bytes =>
      have hfail' : ok (c.calls + 1 + k) = false := by
        rwa [show c.calls + 1 + k = c.calls + (k + 1) by omega]
      have hrest : ∀ j < k, ok (c.calls + 1 + j) = true := fun j hj => by
        have := h (j + 1) (Nat.succ_lt_succ hj)
        rwa [show c.calls + (j + 1) = c.calls + 1 + j by omega] at this
      have hfirst : ok c.calls = true := h 0 (Nat.succ_pos _)
      have hsent := ih bytes ⟨c.emitted ++ [byte], c.calls + 1⟩ (Nat.lt_of_succ_lt_succ hk) hfail' hrest
      rw [send, if_pos hfirst, hsent, List.take_succ_cons, List.append_assoc,
        show c.calls + 1 + k + 1 = c.calls + (k + 1) + 1 by omega]
      rfl

/-- `printf` sends the expansion to the console. -/
lemma printf_eq {format : ℕ} {fmt : List UInt8} (hformat : format ≠ 0) (hfmt : StringAt m format fmt)
    (hout : Expands m (items fmt) args out) (hsmall : (send ok out .new).2.emitted.length ≤ intMax) :
    printf ok m format args .new = some (outcome ok out .new) := by
  have hrun : ∃ r, Flow.loop (round ok m format) addressSpace ⟨0, args, 0, .new⟩ = some r ∧
      r = some (outcome ok out .new) := by
    refine Flow.loop_spec (I := fun k (s : State) => k = fmt.length - s.pos ∧ s.pos ≤ fmt.length ∧
      ∃ out', Going ok out s.total s.console out' ∧ Expands m (items (fmt.drop s.pos)) s.args out')
      ?_ hfmt.short ⟨rfl, Nat.zero_le _, out, ⟨rfl, rfl, Nat.zero_add _⟩, by rwa [List.drop_zero]⟩
    rintro k ⟨pos, args', total, c⟩ ⟨rfl, hpos, out', hgoing, hout'⟩
    exact (round_post hsmall hfmt hpos hgoing hout').imp (fun _ => id) fun t ⟨hlt, hle, hrest⟩ =>
      ⟨fmt.length - t.pos, by omega, rfl, hle, hrest⟩
  obtain ⟨r, hr, rfl⟩ := hrun
  rw [printf, if_neg hformat, hr]
  rfl

/-- **What `printf` prints.**  If no call of `write` fails it sends the expansion of the format to the console
and returns its length, and otherwise it returns `EOF` after it has sent what precedes the byte that could not
be written.  It needs to read nothing but the format and the texts, and no more than `INT_MAX` bytes must be
sent. -/
theorem printf_expands (ok : ℕ → Bool) (m : Readable) (format : ℕ) (fmt : List UInt8) (args : List Arg)
    (out : List UInt8) (hformat : format ≠ 0) (hfmt : StringAt m format fmt)
    (hout : Expands m (items fmt) args out) :
    ((∀ k < out.length, ok k = true) → out.length ≤ intMax →
      printf ok m format args .new = some ((out.length : ℤ), ⟨out, out.length⟩)) ∧
    ∀ k < out.length, ok k = false → (∀ j < k, ok j = true) → k ≤ intMax →
      printf ok m format args .new = some (eof, ⟨out.take k, k + 1⟩) := by
  refine ⟨fun hok hsmall => ?_, fun k hk hfail hok hsmall => ?_⟩
  · have hsend : send ok out .new = (true, ⟨out, out.length⟩) := by
      have := send_succeeds ok out .new fun k hk => by
        rw [Console.new, Nat.zero_add]
        exact hok k hk
      rwa [Console.new, List.nil_append, Nat.zero_add] at this
    rw [printf_eq hformat hfmt hout (by rw [hsend]; exact hsmall), outcome_sent (by rw [hsend]), hsend]
  · have hsend : send ok out .new = (false, ⟨out.take k, k + 1⟩) := by
      have := send_fails ok out .new hk (by rwa [Console.new, Nat.zero_add])
        fun j hj => by
          rw [Console.new, Nat.zero_add]
          exact hok j hj
      rwa [Console.new, List.nil_append, Nat.zero_add] at this
    have hle : (out.take k).length ≤ intMax := by
      rw [List.length_take]
      omega
    rw [printf_eq hformat hfmt hout (by rw [hsend]; exact hle),
      outcome_failed (by rw [hsend]; exact Bool.false_ne_true), hsend]

/-- The theorem for `%d!` with the argument -1, and for a console that fails at the second byte. -/
theorem printf_expands_sample :
    printf (fun _ => true) (fun i => ([0x25, 0x64, 0x21, 0] : List UInt8)[i - 16]?) 16 [.int (-1)] .new =
      some (3, ⟨[0x2D, 0x31, 0x21], 3⟩) ∧
    printf (fun k => k = 0) (fun i => ([0x25, 0x64, 0x21, 0] : List UInt8)[i - 16]?) 16 [.int (-1)] .new =
      some (eof, ⟨[0x2D], 2⟩) := by
  have hfmt : StringAt (fun i => ([0x25, 0x64, 0x21, 0] : List UInt8)[i - 16]?) 16 [0x25, 0x64, 0x21] :=
    ⟨by decide, fun i _ => congrArg (([0x25, 0x64, 0x21, 0] : List UInt8)[·]?) (Nat.add_sub_cancel_left 16 i),
      by decide⟩
  have hnumeral : signedNumeral (-1 : Int32).toInt = [0x2D, 0x31] := by
    have hdigits : Nat.digits 10 1 = [1] := by norm_num
    have habs : (-1 : Int32).toInt.natAbs = 1 := by decide
    rw [signedNumeral, if_pos (by decide), habs, numeral, if_neg (by decide), hdigits]
    rfl
  have hout : Expands (fun i => ([0x25, 0x64, 0x21, 0] : List UInt8)[i - 16]?)
      (items [0x25, 0x64, 0x21]) [.int (-1)] [0x2D, 0x31, 0x21] := by
    have h := Expands.conv (Renders.d (m := fun i => ([0x25, 0x64, 0x21, 0] : List UInt8)[i - 16]?) (-1))
      (.raw 0x21 (.nil []))
    rwa [hnumeral] at h
  obtain ⟨hall, -⟩ := printf_expands (fun _ => true) _ 16 _ _ _ (by decide) hfmt hout
  obtain ⟨-, hfail⟩ := printf_expands (fun k => k = 0) _ 16 _ _ _ (by decide) hfmt hout
  exact ⟨hall (fun _ _ => rfl) (by decide), hfail 1 (by decide) rfl (by decide) (by decide)⟩

/-! ### An expansion that is too long -/

/-- The end of a round adds up to an `int`. -/
lemma finish_le (pos : ℕ) (byte : UInt8) (total : ℤ) (c : Console) (step : Option (Print × List Arg)) :
    (finish pos byte total c step).Post (fun r => ∀ p ∈ r, p.1 ≤ (intMax : ℤ))
      fun t => t.total ≤ (intMax : ℤ) := by
  cases step with
  | none => exact nofun
  | some step =>
    unfold finish
    dsimp only
    cases step.1 c with
    | none => exact nofun
    | some r =>
      obtain ⟨written, c'⟩ := r
      dsimp only
      by_cases hfail : written = eof
      · rw [if_pos hfail]
        rintro p ⟨⟩
        exact (by decide : eof ≤ (intMax : ℤ))
      rw [if_neg hfail, addInt]
      by_cases hsum : total + written ≤ intMax
      · rw [if_pos hsum]
        dsimp only
        by_cases hzero : byte = 0
        · rw [if_pos hzero]
          rintro p ⟨⟩
          exact hsum
        · rw [if_neg hzero]
          exact hsum
      · rw [if_neg hsum]
        exact nofun

/-- What `printf` returns is an `int`. -/
lemma printf_le {format : ℕ} {c c' : Console} {r : ℤ} (h : printf ok m format args c = some (r, c')) :
    r ≤ intMax := by
  unfold printf at h
  by_cases hformat : format = 0
  · rw [if_pos hformat] at h
    cases h
    decide
  rw [if_neg hformat] at h
  refine Flow.loop_post (I := fun s : State => s.total ≤ (intMax : ℤ))
    (Q := fun r => ∀ p ∈ r, p.1 ≤ (intMax : ℤ)) (fun s hs => ?_) (by decide : (0 : ℤ) ≤ (intMax : ℤ))
    (Option.join_eq_some_iff.mp h) (r, c') rfl
  unfold round
  cases m (format + s.pos) with
  | none => exact nofun
  | some byte =>
    dsimp only
    split_ifs
    · rintro p ⟨⟩
      exact hs
    · exact finish_le ..
    · cases m (format + (s.pos + 1)) with
      | none => exact nofun
      | some byte =>
        dsimp only
        split_ifs
        · exact finish_le ..
        · cases m (format + (s.pos + 2)) with
          | none => exact nofun
          | some byte => exact finish_le ..

/-- A text that repeats one byte. -/
lemma stringAt_replicate {p n : ℕ} {byte : UInt8} (hbyte : byte ≠ 0) (hread : ∀ i < n, m (p + i) = some byte)
    (hend : m (p + n) = some 0) (hn : n < addressSpace) : StringAt m p (List.replicate n byte) := by
  refine ⟨fun h => hbyte (List.eq_of_mem_replicate h).symm, fun i hi => ?_, by rwa [List.length_replicate]⟩
  rw [List.length_replicate] at hi
  rcases Nat.lt_or_eq_of_le hi with hlt | rfl
  · rw [List.getElem?_append_left (by rwa [List.length_replicate]), List.getElem?_replicate, if_pos hlt]
    exact hread i hlt
  · rw [List.getElem?_append_right (by rw [List.length_replicate]), List.length_replicate, Nat.sub_self]
    exact hend

/-- The same conversion several times. -/
lemma expands_replicate {k : Conv} {arg : Arg} (h : Renders m k arg bytes) (n : ℕ) :
    Expands m (List.replicate n (.conv k)) (List.replicate n arg) (List.replicate n bytes).flatten := by
  induction n with
  | zero => exact .nil []
  | succ n ih =>
    rw [List.replicate_succ, List.replicate_succ, List.replicate_succ, List.flatten_cons]
    exact .conv h ih

/-- A memory with the format of 32 conversions `%s` and a text of 64 MiB. -/
def longMemory : Readable := fun x =>
  if x < 4160 then some (if x % 2 = 0 then 0x25 else 0x73)
  else if x < 8192 then some 0
  else if x < 8192 + 2 ^ 26 then some 0x61
  else some 0

/-- The format. -/
def longFormat : List UInt8 := (List.replicate 32 [0x25, 0x73]).flatten

/-- The expansion has one byte more than an `int` can count. -/
theorem printf_overflows : ¬ ∀ (ok : ℕ → Bool) (m : Readable) (format : ℕ) (fmt : List UInt8)
    (args : List Arg) (out : List UInt8), format ≠ 0 → StringAt m format fmt → Expands m (items fmt) args out →
    (∀ k, ok k = true) → printf ok m format args .new = some ((out.length : ℤ), ⟨out, out.length⟩) := by
  intro h
  have hfmt : StringAt longMemory 4096 longFormat :=
    ⟨by decide, by decide, by decide⟩
  have htext : StringAt longMemory 8192 (List.replicate (2 ^ 26) 0x61) := by
    refine stringAt_replicate (by decide) (fun i hi => ?_) ?_ (by decide)
    · rw [longMemory, if_neg (by omega), if_neg (by omega), if_pos (by omega)]
    · rw [longMemory, if_neg (by omega), if_neg (by omega), if_neg (by omega)]
  have hitems : items longFormat = List.replicate 32 (.conv .s) := by decide
  have hout := expands_replicate (Renders.s (v := 8192) (by decide) htext) 32
  rw [← hitems] at hout
  have hrun := h (fun _ => true) longMemory 4096 longFormat _ _ (by decide) hfmt hout fun _ => rfl
  have hle := printf_le hrun
  rw [List.length_flatten, List.map_replicate, List.length_replicate, List.sum_replicate_nat] at hle
  exact absurd hle (by decide)

end Printf

end NekOS
