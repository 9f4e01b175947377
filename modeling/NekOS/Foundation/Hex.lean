import Mathlib.Data.Nat.Digits.Lemmas

/-!
# Hexadecimal fields of fixed width

Numbers written in lower-case hexadecimal, padded with zeros to a given width, as the formatting
directive `{:0wx}` writes them, and lists that are made of fields of one width.
-/

namespace NekOS

/-- The character of a hexadecimal digit. -/
def hexChar (d : ℕ) : UInt8 := if d < 10 then UInt8.ofNat (48 + d) else UInt8.ofNat (87 + d)

/-- The digits of a number, most significant first, with zeros in front up to a width. -/
def hexDigits (width n : ℕ) : List ℕ :=
  (Nat.digits 16 n ++ List.replicate (width - (Nat.digits 16 n).length) 0).reverse

/-- A number in hexadecimal, with zeros in front up to a width.  A number that does not fit takes
more characters. -/
def hexFormat (width n : ℕ) : List UInt8 := (hexDigits width n).map hexChar

/-- The number of characters that a number takes. -/
lemma hexFormat_length (width n : ℕ) :
    (hexFormat width n).length = max width (Nat.digits 16 n).length := by
  simp only [hexFormat, hexDigits, List.length_map, List.length_reverse, List.length_append,
    List.length_replicate]
  omega

/-- A field has its width exactly when the number fits. -/
lemma hexFormat_length_eq_iff {width n : ℕ} :
    (hexFormat width n).length = width ↔ n < 16 ^ width := by
  rw [hexFormat_length, ← Nat.digits_length_le_iff (b := 16) (by decide)]
  exact max_eq_left_iff

/-- The digits of a field are below sixteen. -/
lemma hexDigits_lt {width n d : ℕ} (h : d ∈ hexDigits width n) : d < 16 := by
  rw [hexDigits, List.mem_reverse, List.mem_append] at h
  rcases h with h | h
  · exact Nat.digits_lt_base (by decide) h
  · rw [List.eq_of_mem_replicate h]
    decide

/-- The digits of a field, read from the most significant one, are those of the number. -/
lemma foldl_hexDigits (width n : ℕ) :
    (hexDigits width n).foldl (fun v d => v * 16 + d) 0 = n := by
  have h : ∀ ds : List ℕ, ds.reverse.foldl (fun v d => v * 16 + d) 0 = Nat.ofDigits 16 ds := by
    intro ds
    induction ds with
    | nil => rfl
    | cons d ds ih =>
      rw [List.reverse_cons, List.foldl_append, ih, Nat.ofDigits_cons]
      simp only [List.foldl_cons, List.foldl_nil]
      ring
  rw [hexDigits, h, Nat.ofDigits_append, Nat.ofDigits_replicate_zero, mul_zero, add_zero,
    Nat.ofDigits_digits]

/-- A field of a list of fields of one width. -/
lemma extract_flatMap {α β : Type} {w : ℕ} {g : α → List β} {fs : List α}
    (hw : ∀ x ∈ fs, (g x).length = w) {k : ℕ} (hk : k < fs.length) :
    (fs.flatMap g).extract (w * k) (w * k + w) = g fs[k] := by
  induction fs generalizing k with
  | nil => simp at hk
  | cons x fs ih =>
    have hx : (g x).length = w := hw x List.mem_cons_self
    cases k with
    | zero => simp [List.extract_eq_take_drop, ← hx]
    | succ k =>
      have ih := ih (fun y hy => hw y (List.mem_cons_of_mem x hy)) (k := k) (by simpa using hk)
      rw [List.extract_eq_take_drop, Nat.add_sub_cancel_left] at ih ⊢
      have hd : w * (k + 1) = (g x).length + w * k := by rw [hx]; ring
      rw [List.flatMap_cons, hd, List.drop_length_add_append, ih, List.getElem_cons_succ]

end NekOS
