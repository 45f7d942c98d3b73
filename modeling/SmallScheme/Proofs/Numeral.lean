import SmallScheme.Proofs.DecimalValue
import SmallScheme.Proofs.Lexing
import SmallScheme.Proofs.NumberForm

/-!
Texts of numbers read back. An integer within the digit limit is written with the digits from zero to nine
and read as itself. A finite binary64 number is written as a decimal with a point or an exponent, in a
layout that the reader takes apart into a decimal of the same value.
-/

set_option autoImplicit false
set_option relaxedAutoImplicit false

namespace SmallScheme.Text

def Plain (text : List Char) : Prop :=
  ∀ c ∈ text, c.isDigit = true

private theorem plain_toDigits (n : Nat) : Plain (Nat.toDigits 10 n) :=
  fun _ hc => Nat.isDigit_of_mem_toDigits (by decide) (by decide) hc

private theorem plain_zeroes (n : Nat) : Plain (Decimal.zeroes n) := by
  intro c hc
  rw [List.eq_of_mem_replicate hc]
  rfl

private theorem Plain.append {a b : List Char} (ha : Plain a) (hb : Plain b) : Plain (a ++ b) := by
  intro c hc
  rcases List.mem_append.mp hc with h | h
  · exact ha c h
  · exact hb c h

private theorem Plain.of_append_left {a b : List Char} (h : Plain (a ++ b)) : Plain a :=
  fun c hc => h c (List.mem_append_left b hc)

private theorem Plain.of_append_right {a b : List Char} (h : Plain (a ++ b)) : Plain b :=
  fun c hc => h c (List.mem_append_right a hc)

private theorem toNat_of_isDigit {c : Char} (h : c.isDigit = true) :
    48 ≤ c.toNat ∧ c.toNat ≤ 57 := by
  simp only [Char.isDigit, Bool.and_eq_true, decide_eq_true_eq, ge_iff_le,
    UInt32.le_iff_toNat_le] at h
  exact h

private theorem digitValue?_of_isDigit {c : Char} (h : c.isDigit = true) :
    digitValue? c = some (c.toNat - 48) := by
  have range := toNat_of_isDigit h
  have first : (48 ≤ c.toNat && c.toNat < 48 + 10) = true := by
    simp only [Bool.and_eq_true, decide_eq_true_eq]
    omega
  unfold digitValue? zeros
  rw [List.findSome?_cons_of_isSome] <;> simp [first]

private theorem digitValue?_lt {c : Char} {d : Nat} (h : digitValue? c = some d) : d < 10 := by
  obtain ⟨base, -, hb⟩ := List.exists_of_findSome?_eq_some h
  split at hb
  · rename_i range
    simp only [Bool.and_eq_true, decide_eq_true_eq] at range
    cases hb
    omega
  · cases hb

private theorem isDelimiter_of_isDigit {c : Char} (h : isDigit c = true) :
    Token.isDelimiter c = false := by
  obtain ⟨d, hd⟩ := Option.isSome_iff_exists.mp h
  obtain ⟨base, hbase, range⟩ := List.exists_of_findSome?_eq_some hd
  split at range
  · rename_i within
    simp only [Bool.and_eq_true, decide_eq_true_eq] at within
    have apart : ∀ base ∈ zeros, 0x29 < base ∧
        ∀ range ∈ blankRanges, range.2 < base ∨ base + 10 ≤ range.1 := by decide
    obtain ⟨above, away⟩ := apart base hbase
    have blank : isBlank c = false := by
      refine Bool.eq_false_iff.mpr fun blank => ?_
      obtain ⟨range, hrange, inside⟩ := (isBlank_iff c).mp blank
      have := away range hrange
      omega
    have opening : c ≠ '(' := by
      rintro rfl
      exact absurd within.1 (by simp; omega)
    have closing : c ≠ ')' := by
      rintro rfl
      exact absurd within.1 (by simp; omega)
    simp [Token.isDelimiter, opening, closing, blank]
  · cases range

end SmallScheme.Text

namespace SmallScheme.Datum

open Text (Plain isDigit)

private theorem DigitRow.place_lt {text : List Char} {values : List Nat}
    (h : DigitRow text values) :
    place values < 10 ^ values.length := by
  have single : ∀ value ∈ values, value < 10 := by
    induction h with
    | nil => simp
    | cons hc _ ih => exact List.forall_mem_cons.mpr ⟨Text.digitValue?_lt hc, ih⟩
  have below : ∀ value ∈ values.reverse, value < 10 := by simpa using single
  simpa [place] using Nat.ofDigits_lt_base_pow_length (by decide) below

theorem IntegerForm.place_lt {word : List Char} {negative : Bool} {values : List Nat}
    (h : IntegerForm word negative values) : place values < 10 ^ values.length := by
  obtain ⟨-, row, -⟩ := h
  exact row.place_lt

private def figure (c : Char) : Nat :=
  c.toNat - 48

private theorem digitRow_plain {text : List Char} (h : Plain text) :
    DigitRow text (text.map figure) :=
  List.forall₂_map_right_iff.mpr
    (List.forall₂_same.mpr fun c hc => Text.digitValue?_of_isDigit (h c hc))

private theorem place_figures (text : List Char) :
    place (text.map figure) = Nat.ofDigitChars 10 text 0 := by
  rw [← positional_eq_place, Text.positional, List.foldl_map, Nat.ofDigitChars_eq_foldl]
  rfl

private theorem signed_natAbs (n : Int) : signed (n < 0) n.natAbs = n := by
  unfold signed
  by_cases negative : n < 0
  · rw [decide_eq_true negative, if_pos rfl]
    omega
  · rw [decide_eq_false negative, if_neg Bool.false_ne_true]
    omega

/-- The digits of an exponent, with the zeros that pad them. -/
private def exponentDigits (layout : Decimal.Layout) (e : Int) : List Char :=
  Decimal.zeroes (layout.exponentWidth - (Nat.toDigits 10 e.natAbs).length) ++
    Nat.toDigits 10 e.natAbs

private theorem plain_exponentDigits (layout : Decimal.Layout) (e : Int) :
    Plain (exponentDigits layout e) :=
  (Text.plain_zeroes _).append (Text.plain_toDigits _)

private theorem exponentText_toList {layout : Decimal.Layout} (hm : layout.mark = "e") (e : Int) :
    (layout.exponentText e).toList =
      'e' :: (if e < 0 then '-' else '+') :: exponentDigits layout e := by
  simp only [Decimal.Layout.exponentText, hm, String.toList_append, String.toList_ofList]
  split <;> rfl

private theorem exponentForm_exponentText {layout : Decimal.Layout} (hm : layout.mark = "e")
    (e : Int) : ExponentForm (layout.exponentText e).toList e := by
  have number : place ((exponentDigits layout e).map figure) = e.natAbs := by
    rw [place_figures, exponentDigits, Nat.ofDigitChars_append, Decimal.zeroes,
      Nat.ofDigitChars_replicate_zero, Nat.mul_zero, Nat.ofDigitChars_ten_toDigits]
  have sign : Sign [if e < 0 then '-' else '+'] (e < 0) := by
    by_cases negative : e < 0
    · simpa [negative] using Sign.minus
    · simpa [negative] using Sign.plus
  have form := ExponentForm.mk (.inl rfl)
    (.mk sign (digitRow_plain (plain_exponentDigits layout e)) (by simp [exponentDigits]))
  rw [number, signed_natAbs] at form
  rwa [exponentText_toList hm]

/-- The texts in which decimals are written, with the decimal that a text shows: digits around a point,
or digits, perhaps with a point among them, and an exponent. -/
inductive Shows (layout : Decimal.Layout) : List Char → Decimal → Prop
  | pointed {whole part : List Char} : Plain whole → whole ≠ [] → Plain part →
      Shows layout (whole ++ '.' :: part) ⟨Nat.ofDigitChars 10 (whole ++ part) 0, -part.length⟩
  | scaled {whole part : List Char} (e : Int) : Plain whole → whole ≠ [] → Plain part →
      Shows layout
        (whole ++ (if part.isEmpty then [] else '.' :: part) ++ (layout.exponentText e).toList)
        ⟨Nat.ofDigitChars 10 (whole ++ part) 0, e - part.length⟩

private theorem shows_below_one (layout : Decimal.Layout) {ds : List Char} (plain : Plain ds)
    (n : Nat) :
    Shows layout ('0' :: '.' :: (Decimal.zeroes n ++ ds))
      ⟨Nat.ofDigitChars 10 ds 0, -(n + ds.length : Int)⟩ := by
  have zero : Plain ['0'] := by simp [Plain]
  have shown : Shows layout _ _ := .pointed zero (by simp) ((Text.plain_zeroes n).append plain)
  have digits : Nat.ofDigitChars 10 (['0'] ++ (Decimal.zeroes n ++ ds)) 0 =
      Nat.ofDigitChars 10 ds 0 := by
    rw [Nat.ofDigitChars_append, Nat.ofDigitChars_append, Decimal.zeroes,
      Nat.ofDigitChars_replicate_zero]
    rfl
  rw [digits] at shown
  simpa [Decimal.zeroes] using shown

private theorem shows_whole (layout : Decimal.Layout) {ds : List Char} (plain : Plain ds)
    (nonempty : ds ≠ []) (n : Nat) :
    Shows layout (ds ++ Decimal.zeroes n ++ ['.', '0'])
      ⟨Nat.ofDigitChars 10 ds 0 * 10 ^ (n + 1), -1⟩ := by
  have zero : Plain ['0'] := by simp [Plain]
  have shown : Shows layout _ _ :=
    .pointed (plain.append (Text.plain_zeroes n)) (by simp [nonempty]) zero
  have digits : Nat.ofDigitChars 10 (ds ++ Decimal.zeroes n ++ ['0']) 0 =
      Nat.ofDigitChars 10 ds 0 * 10 ^ (n + 1) := by
    have last : ['0'] = List.replicate 1 '0' := rfl
    rw [List.append_assoc, Nat.ofDigitChars_append, Decimal.zeroes, last,
      List.replicate_append_replicate, Nat.ofDigitChars_replicate_zero, Nat.mul_comm]
  rw [digits] at shown
  simpa using shown

private theorem shows_cut (layout : Decimal.Layout) {ds : List Char} (plain : Plain ds) {k : Nat}
    (start : ds.take k ≠ []) :
    Shows layout (ds.take k ++ '.' :: ds.drop k)
        ⟨Nat.ofDigitChars 10 ds 0, -(ds.length - k : Nat)⟩ ∧
      ∀ e, Shows layout
        (ds.take k ++ (if (ds.drop k).isEmpty then [] else '.' :: ds.drop k) ++
          (layout.exponentText e).toList) ⟨Nat.ofDigitChars 10 ds 0, e - (ds.length - k : Nat)⟩ := by
  have parts : ds.take k ++ ds.drop k = ds := List.take_append_drop k ds
  have both : Plain (ds.take k ++ ds.drop k) := parts.symm ▸ plain
  have pointed : Shows layout _ _ := .pointed both.of_append_left start both.of_append_right
  have scaled (e : Int) : Shows layout _ _ :=
    .scaled e both.of_append_left start both.of_append_right
  rw [parts, List.length_drop] at pointed
  refine ⟨pointed, fun e => ?_⟩
  have shown := scaled e
  rw [parts, List.length_drop] at shown
  exact shown

/-- A decimal is written as a text that shows a decimal of the same value. -/
theorem shows_write (layout : Decimal.Layout) (d : Decimal) :
    ∃ d', Shows layout (layout.write d).toList d' ∧ d'.value = d.value := by
  obtain ⟨n, e⟩ := d
  have plain : Plain (Nat.toDigits 10 n) := Text.plain_toDigits n
  have nonempty : Nat.toDigits 10 n ≠ [] := Nat.toDigits_ne_nil
  have spelled : Nat.ofDigitChars 10 (Nat.toDigits 10 n) 0 = n := Nat.ofDigitChars_ten_toDigits
  unfold Decimal.Layout.write
  dsimp only
  generalize Nat.toDigits 10 n = ds at plain nonempty spelled ⊢
  have long : 0 < ds.length := List.length_pos_iff.mpr nonempty
  split
  · split
    · -- The point stands before all digits, behind all of them, or among them.
      have shown := shows_below_one layout plain (-(e + ds.length)).toNat
      have exponent : -((-(e + ds.length)).toNat + ds.length : Int) = e := by omega
      rw [spelled, exponent] at shown
      exact ⟨_, by simpa using shown, rfl⟩
    · by_cases whole : 0 ≤ e
      · have past : ds.length ≤ (e + ds.length).toNat := by omega
        have shown := shows_whole layout plain nonempty e.toNat
        rw [spelled] at shown
        refine ⟨⟨n * 10 ^ (e.toNat + 1), -1⟩, ?_, ?_⟩
        · simpa [List.take_of_length_le past, List.drop_of_length_le past] using shown
        · have exponent : (-1 : Int) + (e.toNat + 1 : Nat) = e := by omega
          rw [Decimal.value_shift, exponent]
      · have among : ¬ ds.length ≤ (e + ds.length).toNat := by omega
        have up : e.toNat = 0 := by omega
        have start : ds.take (e + ds.length).toNat ≠ [] := by
          rw [ne_eq, List.take_eq_nil_iff]
          rintro (h | h)
          · omega
          · exact nonempty h
        have shown := (shows_cut layout plain start).1
        have exponent : -((ds.length - (e + ds.length).toNat : Nat) : Int) = e := by omega
        rw [spelled, exponent] at shown
        exact ⟨_, by simpa [up, Decimal.zeroes, if_neg among] using shown, rfl⟩
  · have start : ds.take 1 ≠ [] := by simp [nonempty]
    have shown := (shows_cut layout plain start).2 (e + ds.length - 1)
    have exponent : e + ds.length - 1 - (ds.length - 1 : Nat) = e := by omega
    have part : (if (ds.drop 1).isEmpty then "" else "." ++ String.ofList (ds.drop 1)).toList =
        if (ds.drop 1).isEmpty then [] else '.' :: ds.drop 1 := by
      split
      · rfl
      · simp
    rw [spelled, exponent, ← part] at shown
    exact ⟨_, by simpa using shown, rfl⟩

private theorem Shows.unsignedForm {layout : Decimal.Layout} (hm : layout.mark = "e")
    {text : List Char} {d : Decimal} (h : Shows layout text d) : UnsignedForm text d := by
  cases h with
  | @pointed whole part hw nonempty hp =>
    have form := UnsignedForm.whole (digitRow_plain hw) (by simpa using nonempty)
      (digitRow_plain hp) .absent
    rw [← List.map_append, place_figures] at form
    simpa using form
  | @scaled whole part e hw nonempty hp =>
    have exponent := exponentForm_exponentText hm e
    by_cases bare : part = []
    · have form := UnsignedForm.scaled (digitRow_plain hw) (by simpa using nonempty) exponent
      rw [place_figures] at form
      simpa [bare] using form
    · have form := UnsignedForm.whole (digitRow_plain hw) (by simpa using nonempty)
        (digitRow_plain hp) (.present exponent)
      rw [← List.map_append, place_figures] at form
      simpa [bare] using form

private theorem Sign.undivided {sign : List Char} {negative : Bool} (h : Sign sign negative) :
    ∀ c ∈ sign, Token.isDelimiter c = false := by
  cases h with
  | none => exact List.forall_mem_nil _
  | plus => exact List.forall_mem_singleton.mpr (by decide)
  | minus => exact List.forall_mem_singleton.mpr (by decide)

private theorem DigitRow.undivided {text : List Char} {values : List Nat}
    (h : DigitRow text values) :
    ∀ c ∈ text, Token.isDelimiter c = false :=
  fun c hc => Text.isDelimiter_of_isDigit (h.isDigit c hc)

private theorem IntegerForm.undivided {word : List Char} {negative : Bool} {values : List Nat}
    (h : IntegerForm word negative values) : ∀ c ∈ word, Token.isDelimiter c = false := by
  obtain ⟨signs, row, -⟩ := h
  exact List.forall_mem_append.mpr ⟨signs.undivided, row.undivided⟩

private theorem ExponentForm.undivided {text : List Char} {e : Int} (h : ExponentForm text e) :
    ∀ c ∈ text, Token.isDelimiter c = false := by
  obtain ⟨marks, form⟩ := h
  refine List.forall_mem_cons.mpr ⟨?_, form.undivided⟩
  rcases marks with rfl | rfl <;> decide

private theorem OptionalExponent.undivided {text : List Char} {e : Int}
    (h : OptionalExponent text e) :
    ∀ c ∈ text, Token.isDelimiter c = false := by
  cases h with
  | absent => simp
  | present form => exact form.undivided

private theorem UnsignedForm.undivided {text : List Char} {d : Decimal} (h : UnsignedForm text d) :
    ∀ c ∈ text, Token.isDelimiter c = false := by
  have point : Token.isDelimiter '.' = false := by decide
  cases h with
  | whole hw _ hp exponent =>
    rw [List.forall_mem_append, List.forall_mem_cons, List.forall_mem_append]
    exact ⟨hw.undivided, point, hp.undivided, exponent.undivided⟩
  | fraction hp _ exponent =>
    rw [List.forall_mem_cons, List.forall_mem_append]
    exact ⟨point, hp.undivided, exponent.undivided⟩
  | scaled hw _ exponent =>
    exact List.forall_mem_append.mpr ⟨hw.undivided, exponent.undivided⟩

private theorem DecimalForm.undivided {word : List Char} {negative : Bool} {d : Decimal}
    (h : DecimalForm word negative d) : ∀ c ∈ word, Token.isDelimiter c = false := by
  obtain ⟨signs, form⟩ := h
  exact List.forall_mem_append.mpr ⟨signs.undivided, form.undivided⟩

theorem IntegerForm.isWord {word : String} {negative : Bool} {values : List Nat}
    (h : IntegerForm word.toList negative values) : Token.IsWord word := by
  refine ⟨?_, h.undivided⟩
  rintro rfl
  obtain ⟨c, hc, -⟩ := h.exists_digit
  cases hc

private theorem DecimalForm.isWord {word : String} {negative : Bool} {d : Decimal}
    (h : DecimalForm word.toList negative d) : Token.IsWord word := by
  refine ⟨?_, h.undivided⟩
  rintro rfl
  obtain ⟨c, hc, -⟩ := h.exists_digit
  cases hc

theorem ofWord_of_digitless {word : String} (h : ∀ c ∈ word.toList, isDigit c = false) :
    ofWord word = .ok (.symbol word) := by
  apply ofWord_eq_symbol
  · intro negative values form
    obtain ⟨c, hc, digit⟩ := form.exists_digit
    exact absurd digit (by simp [h c hc])
  · intro negative d form
    obtain ⟨c, hc, digit⟩ := form.exists_digit
    exact absurd digit (by simp [h c hc])

private theorem sign_of_flag (negative : Bool) : Sign (if negative then ['-'] else []) negative := by
  cases negative
  · exact .none
  · exact .minus

private theorem text_shows (negative : Bool) (code : Fin magnitudes) :
    ∃ body d, (Binary64.finite negative code).text.toList =
        (if negative then ['-'] else []) ++ body ∧
      Shows .standard body d ∧ d.toBinary64 negative = .finite negative code := by
  have sign : (if negative then "-" else "").toList = if negative then ['-'] else [] := by
    cases negative <;> rfl
  simp only [Binary64.text, String.toList_append, sign]
  by_cases zero : code.val = 0
  · have plain : Plain ['0'] := by simp [Plain]
    refine ⟨_, _, by rw [if_pos zero]; rfl, .pointed plain (by simp) plain, ?_⟩
    have same : code = ⟨0, by decide⟩ := Fin.ext zero
    rw [same]
    rfl
  · obtain ⟨d, shown, value⟩ := shows_write .standard (Decimal.shortest code)
    refine ⟨_, d, by rw [if_neg zero], shown, ?_⟩
    rw [Decimal.toBinary64_congr negative value]
    exact Decimal.shortest_toBinary64 negative code

/-- A finite number is written as one word, which stands for that number. -/
theorem ofWord_binary64 {x : Binary64} (finite : x.isFinite = true) :
    Token.IsWord x.text ∧ ofWord x.text = .ok (.number (.float x)) := by
  match x, finite with
  | .finite negative code, _ =>
    obtain ⟨body, d, text, shown, rounds⟩ := text_shows negative code
    have form : DecimalForm (Binary64.finite negative code).text.toList negative d := by
      rw [text]
      exact .mk (sign_of_flag negative) (shown.unsignedForm rfl)
    refine ⟨form.isWord, ?_⟩
    rw [form.ofWord, rounds]
    rfl

private theorem toList_toString (n : Int) :
    (toString n).toList =
      (if decide (n < 0) then ['-'] else []) ++ Nat.toDigits 10 n.natAbs := by
  rw [Int.toString_eq_repr, Int.repr_eq_if]
  by_cases negative : n < 0
  · have size : (-n).toNat = n.natAbs := by omega
    rw [if_neg (Int.not_le.mpr negative), size, String.toList_append, Nat.toList_repr]
    simp [negative]
  · have size : n.toNat = n.natAbs := by omega
    rw [if_pos (Int.not_lt.mp negative), size, Nat.toList_repr]
    simp [negative]

/-- An integer within the digit limit is written as one word, which stands for that integer. -/
theorem ofWord_toString {n : Int} (short : n.natAbs < 10 ^ Number.digitLimit) :
    Token.IsWord (toString n) ∧ ofWord (toString n) = .ok (.number (.int n)) := by
  have form : IntegerForm (toString n).toList (n < 0) ((Nat.toDigits 10 n.natAbs).map figure) := by
    rw [toList_toString]
    exact .mk (sign_of_flag _) (digitRow_plain (Text.plain_toDigits n.natAbs)) (by simp)
  have limit : ¬ Number.digitLimit < ((Nat.toDigits 10 n.natAbs).map figure).length := by
    rw [List.length_map, Nat.not_lt]
    exact (Nat.length_toDigits_le_iff (by decide) (by decide)).mpr short
  refine ⟨form.isWord, ?_⟩
  rw [form.ofWord, if_neg limit, place_figures, Nat.ofDigitChars_ten_toDigits, signed_natAbs]

end SmallScheme.Datum
