import Mathlib.Data.List.Forall2
import Mathlib.Data.Nat.Digits.Defs
import SmallScheme.Datum.Atom

/-!
The words that spell numbers, as a grammar with the numbers they spell. An integer is an optional sign
and digits. A decimal has digits on at least one side of a point and perhaps an exponent, or digits and
an exponent. The scanner of words accepts just these and takes each for the number that it spells; no
word has both forms.
-/

set_option autoImplicit false
set_option relaxedAutoImplicit false

namespace SmallScheme.Datum

open Text (isDigit digitValue? digits? positional)

/-- A row of digits and their values. Digits of several scripts may stand together. -/
def DigitRow (text : List Char) (values : List Nat) : Prop :=
  List.Forall₂ (fun c value => digitValue? c = some value) text values

inductive Sign : List Char → Bool → Prop
  | none : Sign [] false
  | plus : Sign ['+'] false
  | minus : Sign ['-'] true

/-- A word of integer form, its sign and the values of its digits. -/
inductive IntegerForm : List Char → Bool → List Nat → Prop
  | mk {sign body : List Char} {negative : Bool} {values : List Nat} : Sign sign negative →
      DigitRow body values → values ≠ [] → IntegerForm (sign ++ body) negative values

/-- The number that a row of digits stands for: the last one counts once, each one before it ten times
as much as the next. -/
def place (values : List Nat) : Nat :=
  Nat.ofDigits 10 values.reverse

inductive ExponentForm : List Char → Int → Prop
  | mk {mark : Char} {text : List Char} {negative : Bool} {values : List Nat} :
      mark = 'e' ∨ mark = 'E' → IntegerForm text negative values →
      ExponentForm (mark :: text) (signed negative (place values))

inductive OptionalExponent : List Char → Int → Prop
  | absent : OptionalExponent [] 0
  | present {text : List Char} {e : Int} : ExponentForm text e → OptionalExponent text e

inductive UnsignedForm : List Char → Decimal → Prop
  | whole {whole part tail : List Char} {ws ps : List Nat} {e : Int} : DigitRow whole ws → ws ≠ [] →
      DigitRow part ps → OptionalExponent tail e →
      UnsignedForm (whole ++ '.' :: (part ++ tail)) ⟨place (ws ++ ps), e - ps.length⟩
  | fraction {part tail : List Char} {ps : List Nat} {e : Int} : DigitRow part ps → ps ≠ [] →
      OptionalExponent tail e → UnsignedForm ('.' :: (part ++ tail)) ⟨place ps, e - ps.length⟩
  | scaled {whole tail : List Char} {ws : List Nat} {e : Int} : DigitRow whole ws → ws ≠ [] →
      ExponentForm tail e → UnsignedForm (whole ++ tail) ⟨place ws, e⟩

/-- A word of decimal form, its sign and its decimal. -/
inductive DecimalForm : List Char → Bool → Decimal → Prop
  | mk {sign body : List Char} {negative : Bool} {d : Decimal} : Sign sign negative →
      UnsignedForm body d → DecimalForm (sign ++ body) negative d

theorem positional_eq_place (values : List Nat) : positional values = place values := by
  rw [positional, place, List.foldl_eq_foldr_reverse, Nat.ofDigits_eq_foldr]
  simp only [Nat.cast_id, Nat.add_comm]

private theorem digits?_eq_some_iff {text : List Char} {values : List Nat} :
    digits? text = some values ↔ DigitRow text values := by
  unfold digits? DigitRow
  induction text generalizing values with
  | nil => simp [eq_comm]
  | cons c text ih =>
    rw [List.mapM_cons]
    cases values with
    | nil => simp [Option.bind_eq_some_iff]
    | cons value values => simp [← ih, Option.bind_eq_some_iff]

theorem DigitRow.isDigit {text : List Char} {values : List Nat} (h : DigitRow text values) :
    ∀ c ∈ text, isDigit c = true := by
  induction h with
  | nil => simp
  | cons hc _ ih => exact List.forall_mem_cons.mpr ⟨by simp [Text.isDigit, hc], ih⟩

private theorem exists_digitRow (text : List Char) :
    ∃ row rest values, text = row ++ rest ∧ DigitRow row values ∧
      ∀ c ∈ rest.head?, isDigit c = false := by
  induction text with
  | nil => exact ⟨[], [], [], rfl, .nil, by simp⟩
  | cons c text ih =>
    cases hc : digitValue? c with
    | none => exact ⟨[], c :: text, [], rfl, .nil, by simp [Text.isDigit, hc]⟩
    | some value =>
      obtain ⟨row, rest, values, rfl, digits, stops⟩ := ih
      exact ⟨c :: row, rest, value :: values, rfl, .cons hc digits, stops⟩

private theorem DigitRow.eq_nil_iff {text : List Char} {values : List Nat}
    (h : DigitRow text values) :
    text = [] ↔ values = [] := by
  rw [← List.length_eq_zero_iff, ← List.length_eq_zero_iff, h.length_eq]

private theorem DigitRow.exists_digit {text : List Char} {values : List Nat}
    (h : DigitRow text values) (nonempty : values ≠ []) : ∃ c ∈ text, Text.isDigit c = true := by
  obtain ⟨c, hc⟩ := List.exists_mem_of_ne_nil text (mt h.eq_nil_iff.mp nonempty)
  exact ⟨c, hc, h.isDigit c hc⟩

private theorem span_digits {row rest : List Char} (digits : ∀ c ∈ row, isDigit c = true)
    (stops : ∀ c ∈ rest.head?, isDigit c = false) :
    (row ++ rest).takeWhile isDigit = row ∧ (row ++ rest).dropWhile isDigit = rest := by
  rw [List.takeWhile_append_of_pos digits, List.dropWhile_append_of_pos digits]
  cases rest with
  | nil => simp
  | cons c rest => simp [stops c rfl]

private theorem numeral?_eq_some_iff {text : List Char} {values : List Nat} :
    numeral? text = some values ↔ DigitRow text values ∧ values ≠ [] := by
  unfold numeral?
  constructor
  · intro h
    split at h
    · cases h
    · rename_i nonempty
      have row := digits?_eq_some_iff.mp h
      exact ⟨row, mt row.eq_nil_iff.mpr (by simpa using nonempty)⟩
  · rintro ⟨row, nonempty⟩
    have start : ¬ text.isEmpty = true := by simpa using mt row.eq_nil_iff.mp nonempty
    rw [if_neg start, digits?_eq_some_iff.mpr row]

private theorem exists_sign (text : List Char) :
    ∃ sign, Sign sign (splitSign text).1 ∧ text = sign ++ (splitSign text).2 := by
  unfold splitSign
  split
  · exact ⟨_, .minus, rfl⟩
  · exact ⟨_, .plus, rfl⟩
  · exact ⟨_, .none, rfl⟩

private theorem Sign.splitSign {sign body : List Char} {negative : Bool} (h : Sign sign negative)
    (unsigned : ∀ c ∈ body.head?, c ≠ '-' ∧ c ≠ '+') :
    splitSign (sign ++ body) = (negative, body) := by
  cases h with
  | plus => rfl
  | minus => rfl
  | none =>
    rw [List.nil_append]
    unfold Datum.splitSign
    split
    · exact absurd rfl (unsigned '-' rfl).1
    · exact absurd rfl (unsigned '+' rfl).2
    · rfl

private theorem splitSign_scan_iff {α : Type} {scan : List Char → Option α}
    (unsigned : ∀ {body a}, scan body = some a → ∀ c ∈ body.head?, c ≠ '-' ∧ c ≠ '+')
    {text : List Char} {negative : Bool} {a : α} :
    (scan (splitSign text).2).map ((splitSign text).1, ·) = some (negative, a) ↔
      ∃ sign body, Sign sign negative ∧ text = sign ++ body ∧ scan body = some a := by
  constructor
  · intro h
    obtain ⟨_, found, same⟩ := Option.map_eq_some_iff.mp h
    obtain ⟨sign, signs, split⟩ := exists_sign text
    cases same
    exact ⟨sign, _, signs, split, found⟩
  · rintro ⟨sign, body, signs, rfl, found⟩
    rw [signs.splitSign (unsigned found), found]
    rfl

private theorem not_sign_of_isDigit {c : Char} (h : isDigit c = true) : c ≠ '-' ∧ c ≠ '+' := by
  constructor <;> rintro rfl <;> exact absurd h (by decide)

theorem integerForm?_eq_some_iff {word : List Char} {negative : Bool} {values : List Nat} :
    integerForm? word = some (negative, values) ↔ IntegerForm word negative values := by
  have unsigned : ∀ {body values}, numeral? body = some values →
      ∀ c ∈ body.head?, c ≠ '-' ∧ c ≠ '+' := by
    intro body values h c hc
    exact not_sign_of_isDigit ((numeral?_eq_some_iff.mp h).1.isDigit c (List.mem_of_mem_head? hc))
  refine (splitSign_scan_iff unsigned).trans ⟨?_, ?_⟩
  · rintro ⟨sign, body, signs, rfl, found⟩
    obtain ⟨row, nonempty⟩ := numeral?_eq_some_iff.mp found
    exact .mk signs row nonempty
  · rintro ⟨signs, row, nonempty⟩
    exact ⟨_, _, signs, rfl, numeral?_eq_some_iff.mpr ⟨row, nonempty⟩⟩

private theorem exponentForm?_eq_some_iff {text : List Char} {e : Int} :
    exponentForm? text = some e ↔ ExponentForm text e := by
  have scanned (mark : Char) (rest : List Char) : exponentForm? (mark :: rest) =
      if mark = 'e' ∨ mark = 'E' then
        (integerForm? rest).map fun form => signed form.1 (place form.2) else none := by
    simp [exponentForm?, integerForm?, Function.comp_def, positional_eq_place]
  constructor
  · intro h
    cases text with
    | nil => cases h
    | cons mark rest =>
      rw [scanned] at h
      split at h
      · rename_i marks
        obtain ⟨⟨negative, values⟩, form, rfl⟩ := Option.map_eq_some_iff.mp h
        exact .mk marks (integerForm?_eq_some_iff.mp form)
      · cases h
  · rintro ⟨marks, form⟩
    rw [scanned, if_pos marks, integerForm?_eq_some_iff.mpr form]
    rfl

private theorem ExponentForm.stops {text : List Char} {e : Int} (h : ExponentForm text e) :
    ∀ c ∈ text.head?, isDigit c = false ∧ c ≠ '.' := by
  obtain ⟨marks, -⟩ := h
  rintro c ⟨⟩
  rcases marks with rfl | rfl <;> decide

private theorem OptionalExponent.stops {text : List Char} {e : Int} (h : OptionalExponent text e) :
    ∀ c ∈ text.head?, Text.isDigit c = false := by
  cases h with
  | absent => simp
  | present form => exact fun c hc => (form.stops c hc).1

private theorem optionalExponent_iff {tail : List Char} {scan : Int → Option Decimal} {d : Decimal} :
    (if tail.isEmpty then scan 0 else (exponentForm? tail).bind scan) = some d ↔
      ∃ e, OptionalExponent tail e ∧ scan e = some d := by
  cases tail with
  | nil =>
    constructor
    · exact fun h => ⟨0, .absent, h⟩
    · rintro ⟨e, exponent, h⟩
      cases exponent with
      | absent => exact h
      | present form => cases form
  | cons c tail =>
    constructor
    · intro h
      obtain ⟨e, form, found⟩ := Option.bind_eq_some_iff.mp h
      exact ⟨e, .present (exponentForm?_eq_some_iff.mp form), found⟩
    · rintro ⟨e, exponent, h⟩
      cases exponent with
      | present form => exact Option.bind_eq_some_iff.mpr ⟨e, exponentForm?_eq_some_iff.mpr form, h⟩

private theorem pointed_eq {whole part : List Char} {ws ps : List Nat} (hw : DigitRow whole ws)
    (hp : DigitRow part ps) (e : Int) :
    pointed whole part e = some ⟨place (ws ++ ps), e - ps.length⟩ := by
  have both : DigitRow (whole ++ part) (ws ++ ps) := List.rel_append hw hp
  rw [pointed, digits?_eq_some_iff.mpr both, hp.length_eq, Option.map_some, positional_eq_place]

private theorem unsignedDecimal?_point_iff {whole part tail : List Char} {ws ps : List Nat}
    (hw : DigitRow whole ws) (hp : DigitRow part ps) (stops : ∀ c ∈ tail.head?, isDigit c = false)
    {d : Decimal} :
    unsignedDecimal? (whole ++ '.' :: (part ++ tail)) = some d ↔
      (ws ≠ [] ∨ ps ≠ []) ∧
        ∃ e, OptionalExponent tail e ∧ d = ⟨place (ws ++ ps), e - ps.length⟩ := by
  have point : isDigit '.' = false := by decide
  have pointStops : ∀ c ∈ ('.' :: (part ++ tail)).head?, isDigit c = false := by simp [point]
  obtain ⟨takeWhole, dropWhole⟩ := span_digits hw.isDigit pointStops
  obtain ⟨takePart, dropPart⟩ := span_digits hp.isDigit stops
  have none : (whole.isEmpty && part.isEmpty) = true ↔ ¬ (ws ≠ [] ∨ ps ≠ []) := by
    simp [hw.eq_nil_iff, hp.eq_nil_iff]
  simp only [unsignedDecimal?, takeWhole, dropWhole, takePart, dropPart]
  by_cases digit : ws ≠ [] ∨ ps ≠ []
  · rw [if_neg (mt none.mp (not_not.mpr digit)), optionalExponent_iff]
    simp only [pointed_eq hw hp, Option.some.injEq, digit, true_and, eq_comm]
  · rw [if_pos (none.mpr digit)]
    simp [digit]

private theorem unsignedDecimal?_scaled_iff {whole tail : List Char} {ws : List Nat}
    (hw : DigitRow whole ws) (stops : ∀ c ∈ tail.head?, isDigit c = false ∧ c ≠ '.') {d : Decimal} :
    unsignedDecimal? (whole ++ tail) = some d ↔
      ws ≠ [] ∧ ∃ e, ExponentForm tail e ∧ d = ⟨place ws, e⟩ := by
  obtain ⟨takeWhole, dropWhole⟩ := span_digits hw.isDigit fun c hc => (stops c hc).1
  have none : whole.isEmpty = true ↔ ws = [] := by simp [hw.eq_nil_iff]
  have scanned : unsignedDecimal? (whole ++ tail) =
      if whole.isEmpty then .none else (exponentForm? tail).bind (pointed whole []) := by
    simp only [unsignedDecimal?, takeWhole, dropWhole]
    split
    · exact absurd rfl (stops '.' rfl).2
    · rfl
  rw [scanned]
  split
  · rename_i empty
    simp [none.mp empty]
  · rename_i nonempty
    simp [mt none.mpr nonempty, Option.bind_eq_some_iff, exponentForm?_eq_some_iff,
      pointed_eq hw .nil, eq_comm (a := d)]

private theorem unsignedDecimal?_eq_some_iff {text : List Char} {d : Decimal} :
    unsignedDecimal? text = some d ↔ UnsignedForm text d := by
  constructor
  · intro h
    obtain ⟨whole, rest, ws, rfl, hw, stops⟩ := exists_digitRow text
    by_cases point : rest.head? = some '.'
    · obtain ⟨rest, rfl⟩ := List.head?_eq_some_iff.mp point
      obtain ⟨part, tail, ps, rfl, hp, stops⟩ := exists_digitRow rest
      obtain ⟨digit, e, exponent, rfl⟩ := (unsignedDecimal?_point_iff hw hp stops).mp h
      by_cases bare : ws = []
      · have none : whole = [] := hw.eq_nil_iff.mpr bare
        subst bare none
        exact .fraction hp (digit.resolve_left (not_not.mpr rfl)) exponent
      · exact .whole hw bare hp exponent
    · have bare : ∀ c ∈ rest.head?, isDigit c = false ∧ c ≠ '.' := by
        refine fun c hc => ⟨stops c hc, ?_⟩
        rintro rfl
        exact point hc
      obtain ⟨nonempty, e, exponent, rfl⟩ := (unsignedDecimal?_scaled_iff hw bare).mp h
      exact .scaled hw nonempty exponent
  · intro h
    cases h with
    | whole hw nonempty hp exponent =>
      exact (unsignedDecimal?_point_iff hw hp exponent.stops).mpr ⟨.inl nonempty, _, exponent, rfl⟩
    | fraction hp nonempty exponent =>
      exact (unsignedDecimal?_point_iff .nil hp exponent.stops).mpr ⟨.inr nonempty, _, exponent, rfl⟩
    | scaled hw nonempty exponent =>
      exact (unsignedDecimal?_scaled_iff hw exponent.stops).mpr ⟨nonempty, _, exponent, rfl⟩

theorem decimalForm?_eq_some_iff {word : List Char} {negative : Bool} {d : Decimal} :
    decimalForm? word = some (negative, d) ↔ DecimalForm word negative d := by
  have unsigned : ∀ {body d}, unsignedDecimal? body = some d →
      ∀ c ∈ body.head?, c ≠ '-' ∧ c ≠ '+' := by
    intro body d h c hc
    have minus : isDigit '-' = false := by decide
    have plus : isDigit '+' = false := by decide
    obtain ⟨rest, rfl⟩ := List.head?_eq_some_iff.mp hc
    constructor
    · rintro rfl
      simp [unsignedDecimal?, minus] at h
    · rintro rfl
      simp [unsignedDecimal?, plus] at h
  refine (splitSign_scan_iff unsigned).trans ⟨?_, ?_⟩
  · rintro ⟨sign, body, signs, rfl, found⟩
    exact .mk signs (unsignedDecimal?_eq_some_iff.mp found)
  · rintro ⟨signs, form⟩
    exact ⟨_, _, signs, rfl, unsignedDecimal?_eq_some_iff.mpr form⟩

private theorem UnsignedForm.not_digitRow {text : List Char} {d : Decimal} (h : UnsignedForm text d)
    (values : List Nat) : ¬ DigitRow text values := by
  have point : isDigit '.' = false := by decide
  intro row
  cases h with
  | whole => exact absurd (row.isDigit '.' (by simp)) (by simp [point])
  | fraction => exact absurd (row.isDigit '.' (by simp)) (by simp [point])
  | @scaled whole tail _ _ _ _ exponent =>
    cases exponent with
    | @mk mark text _ _ marks form =>
      have stops := (ExponentForm.mk marks form).stops mark rfl
      exact absurd (row.isDigit mark (by simp)) (by simp [stops.1])

private theorem IntegerForm.not_decimalForm {word : List Char} {negative : Bool} {values : List Nat}
    (h : IntegerForm word negative values) (sign : Bool) (d : Decimal) :
    ¬ DecimalForm word sign d := by
  intro form
  obtain ⟨_, numeral, -⟩ := Option.map_eq_some_iff.mp (integerForm?_eq_some_iff.mpr h)
  obtain ⟨_, decimal, -⟩ := Option.map_eq_some_iff.mp (decimalForm?_eq_some_iff.mpr form)
  exact (unsignedDecimal?_eq_some_iff.mp decimal).not_digitRow _ (numeral?_eq_some_iff.mp numeral).1

theorem IntegerForm.exists_digit {word : List Char} {negative : Bool} {values : List Nat}
    (h : IntegerForm word negative values) : ∃ c ∈ word, isDigit c = true := by
  obtain ⟨-, row, nonempty⟩ := h
  obtain ⟨c, hc, digit⟩ := row.exists_digit nonempty
  exact ⟨c, List.mem_append_right _ hc, digit⟩

theorem DecimalForm.exists_digit {word : List Char} {negative : Bool} {d : Decimal}
    (h : DecimalForm word negative d) : ∃ c ∈ word, isDigit c = true := by
  obtain ⟨-, form⟩ := h
  cases form with
  | whole hw nonempty =>
    obtain ⟨c, hc, digit⟩ := hw.exists_digit nonempty
    exact ⟨c, by simp [hc], digit⟩
  | fraction hp nonempty =>
    obtain ⟨c, hc, digit⟩ := hp.exists_digit nonempty
    exact ⟨c, by simp [hc], digit⟩
  | scaled hw nonempty =>
    obtain ⟨c, hc, digit⟩ := hw.exists_digit nonempty
    exact ⟨c, by simp [hc], digit⟩

/-- A word of integer form is that integer, unless it has too many digits. -/
theorem IntegerForm.ofWord {word : String} {negative : Bool} {values : List Nat}
    (h : IntegerForm word.toList negative values) :
    ofWord word =
      if Number.digitLimit < values.length then .error (.digitLimit (some values.length))
      else .ok (.number (.int (signed negative (place values)))) := by
  simp only [Datum.ofWord, integerForm?_eq_some_iff.mpr h, positional_eq_place]

/-- A word of decimal form is the number nearest to its decimal, unless that is infinite. -/
theorem DecimalForm.ofWord {word : String} {negative : Bool} {d : Decimal}
    (h : DecimalForm word.toList negative d) :
    ofWord word =
      if (d.toBinary64 negative).isFinite then .ok (.number (.float (d.toBinary64 negative)))
      else .ok (.symbol word) := by
  have integer : integerForm? word.toList = none :=
    Option.eq_none_iff_forall_ne_some.mpr fun ⟨sign, values⟩ form =>
      (integerForm?_eq_some_iff.mp form).not_decimalForm negative d h
  by_cases finite : (d.toBinary64 negative).isFinite = true <;>
    simp [Datum.ofWord, integer, float?, decimalForm?_eq_some_iff.mpr h, finite]

/-- A word that spells no integer and no finite number is a symbol. -/
theorem ofWord_eq_symbol {word : String}
    (integer : ∀ negative values, ¬ IntegerForm word.toList negative values)
    (infinite : ∀ negative d, DecimalForm word.toList negative d →
      (d.toBinary64 negative).isFinite = false) :
    ofWord word = .ok (.symbol word) := by
  by_cases decimal : ∃ negative d, DecimalForm word.toList negative d
  · obtain ⟨negative, d, form⟩ := decimal
    rw [form.ofWord, infinite negative d form, if_neg Bool.false_ne_true]
  · have noInteger : integerForm? word.toList = none :=
      Option.eq_none_iff_forall_ne_some.mpr fun ⟨negative, values⟩ form =>
        integer negative values (integerForm?_eq_some_iff.mp form)
    have noDecimal : decimalForm? word.toList = none :=
      Option.eq_none_iff_forall_ne_some.mpr fun ⟨negative, d⟩ form =>
        decimal ⟨negative, d, decimalForm?_eq_some_iff.mp form⟩
    simp [ofWord, noInteger, float?, noDecimal]

/-- What a word stands for, by its form. -/
inductive Classified (word : String) : Except Failure Datum → Prop
  | integer {negative : Bool} {values : List Nat} : IntegerForm word.toList negative values →
      values.length ≤ Number.digitLimit →
      Classified word (.ok (.number (.int (signed negative (place values)))))
  | oversized {negative : Bool} {values : List Nat} : IntegerForm word.toList negative values →
      Number.digitLimit < values.length →
      Classified word (.error (.digitLimit (some values.length)))
  | float {negative : Bool} {d : Decimal} : DecimalForm word.toList negative d →
      (d.toBinary64 negative).isFinite = true →
      Classified word (.ok (.number (.float (d.toBinary64 negative))))
  | symbol : (∀ negative values, ¬ IntegerForm word.toList negative values) →
      (∀ negative d, DecimalForm word.toList negative d → (d.toBinary64 negative).isFinite = false) →
      Classified word (.ok (.symbol word))

theorem classified_iff {word : String} {outcome : Except Failure Datum} :
    Classified word outcome ↔ ofWord word = outcome := by
  constructor
  · intro h
    cases h with
    | integer form short => rw [form.ofWord, if_neg (Nat.not_lt.mpr short)]
    | oversized form long => rw [form.ofWord, if_pos long]
    | float form finite => rw [form.ofWord, if_pos finite]
    | symbol integer infinite => exact ofWord_eq_symbol integer infinite
  · rintro rfl
    by_cases integer : ∃ negative values, IntegerForm word.toList negative values
    · obtain ⟨negative, values, form⟩ := integer
      rw [form.ofWord]
      split
      · rename_i long
        exact .oversized form long
      · rename_i short
        exact .integer form (Nat.not_lt.mp short)
    have noInteger : ∀ negative values, ¬ IntegerForm word.toList negative values :=
      fun negative values form => integer ⟨negative, values, form⟩
    by_cases finite : ∃ negative d, DecimalForm word.toList negative d ∧
        (d.toBinary64 negative).isFinite = true
    · obtain ⟨negative, d, form, finite⟩ := finite
      rw [form.ofWord, if_pos finite]
      exact .float form finite
    · have infinite : ∀ negative d, DecimalForm word.toList negative d →
          (d.toBinary64 negative).isFinite = false :=
        fun negative d form => Bool.eq_false_iff.mpr fun h => finite ⟨negative, d, form, h⟩
      rw [ofWord_eq_symbol noInteger infinite]
      exact .symbol noInteger infinite

end SmallScheme.Datum
