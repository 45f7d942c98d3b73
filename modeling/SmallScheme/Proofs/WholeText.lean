import SmallScheme.Proofs.OpenLists
import SmallScheme.Proofs.Sequencing

/-!
The two ways to read a whole text: as the one datum that it holds, or as all the data that it holds. They
agree on texts of one form, and differ on others in the fault alone. Data that are read from a text are
read from its beginning too when another text follows on a new line.
-/

set_option autoImplicit false
set_option relaxedAutoImplicit false

namespace SmallScheme.Datum

variable {depth : Nat} {source : String} {tokens rest : List Token} {d : Datum}

theorem parseMany_eq_ok_iff {data : List Datum} :
    parseMany depth source = .ok data ↔
      readings depth (Token.tokenize source) = data.map .ok := by
  refine ⟨eq_map_ok_of_mapM_id, fun read => ?_⟩
  rw [parseMany, read]
  clear read
  induction data with
  | nil => rfl
  | cons d data ih =>
    rw [List.map_cons, List.mapM_cons, ih]
    rfl

theorem parse_eq_ok_iff :
    parse depth source = .ok d ↔ next depth (Token.tokenize source) = (.ok d, []) := by
  unfold parse
  split <;> simp_all

theorem parseMany_eq_singleton_iff :
    parseMany depth source = .ok [d] ↔ next depth (Token.tokenize source) = (.ok d, []) := by
  rw [parseMany_eq_ok_iff, List.map_singleton]
  by_cases none : Token.tokenize source = []
  · rw [none, readings_nil]
    constructor <;> intro impossible <;> cases impossible
  · rw [readings_of_ne_nil depth none, List.cons_eq_cons, readings_eq_nil_iff, Prod.ext_iff]

/-- Where parse fails for a token behind the datum, the first form was read and the token comes next. -/
theorem parse_eq_trailingToken_iff {text : String} :
    parse depth source = .error (.error (.trailingToken text)) ↔
      ∃ d token rest, next depth (Token.tokenize source) = (.ok d, token :: rest) ∧
        token.text = text := by
  unfold parse
  split
  · rename_i failure rest failed
    constructor
    · intro trailing
      have reading := reading_of_next (congrArg Prod.fst failed)
      cases trailing
      cases reading
    · rintro ⟨d, token, left, read, -⟩
      rw [failed] at read
      cases read
  · rename_i datum read
    constructor
    · intro impossible
      cases impossible
    · rintro ⟨d, token, left, other, -⟩
      rw [read] at other
      cases other
  · rename_i datum token rest read
    constructor
    · intro trailing
      cases trailing
      exact ⟨datum, token, rest, read, rfl⟩
    · rintro ⟨d, other, left, again, rfl⟩
      rw [read] at again
      cases again
      rfl

private theorem needsMore_of_parseMany {data : List Datum} (h : parseMany depth source = .ok data) :
    Token.needsMore (Token.tokenize source) = false :=
  (spellsEach_of_readings h).1.needsMore_eq_false

/-- What follows data on a new line is read after them. -/
theorem parseMany_append_line {data : List Datum} (h : parseMany depth source = .ok data)
    (other : String) :
    parseMany depth (source ++ "\n" ++ other) = (parseMany depth other).map (data ++ ·) := by
  have tokens : Token.tokenize (source ++ "\n" ++ other) =
      Token.tokenize source ++ Token.tokenize other := by
    simpa [String.append_assoc] using Token.tokenize_lines [source, other]
  have both : parseMany depth (source ++ "\n" ++ other) =
      (do return (← parseMany depth source) ++ (← parseMany depth other)) := by
    rw [parseMany, tokens, readings_append depth (needsMore_of_parseMany h), List.mapM_append]
    rfl
  rw [both, h]
  cases parseMany depth other <;> rfl

/-- Reading one datum and reading all data agree, and reading composes. A text is read as one datum just
if it is read as that datum alone. A text without data ends too early to be read as one. A token is
reported as trailing just if it is the next one after a form at the beginning of the text, which is read.
A text that is read, and another one on a new line after it, are read as the data of both, or not read
for the fault of the second. -/
theorem parse_and_parseMany_agree (depth : Nat) :
    (∀ source d, parse depth source = .ok d ↔ parseMany depth source = .ok [d]) ∧
      (∀ source, parseMany depth source = .ok [] →
        parse depth source = .error (.error (.endOfInput false))) ∧
      (∀ source text, parse depth source = .error (.error (.trailingToken text)) ↔
        ∃ form d token rest, Token.tokenize source = form ++ token :: rest ∧ Spells form d ∧
          next depth (Token.tokenize source) = (.ok d, token :: rest) ∧ token.text = text) ∧
      ∀ first second data, parseMany depth first = .ok data →
        parseMany depth (first ++ "\n" ++ second) = (parseMany depth second).map (data ++ ·) := by
  refine ⟨fun source d => ?_, fun source empty => ?_, fun source text => ?_, ?_⟩
  · rw [parse_eq_ok_iff, parseMany_eq_singleton_iff]
  · have none : Token.tokenize source = [] :=
      readings_eq_nil_iff.mp (parseMany_eq_ok_iff.mp empty)
    rw [parse, none]
    rfl
  · rw [parse_eq_trailingToken_iff]
    constructor
    · rintro ⟨d, token, rest, read, rfl⟩
      obtain ⟨form, tokens, spelled, -⟩ := exists_form_of_next read
      exact ⟨form, d, token, rest, tokens, spelled, read, rfl⟩
    · rintro ⟨-, d, token, rest, -, -, read, rfl⟩
      exact ⟨d, token, rest, read, rfl⟩
  · intro first second data read
    exact parseMany_append_line read second

theorem parse_and_parseMany_agree_second_line :
    parseMany 2 "" = .ok [] ∧ parse 2 "" = .error (.error (.endOfInput false)) ∧
      parseMany 2 "(a 1) b" = .ok [.list [.symbol "a", .number (.int 1)], .symbol "b"] ∧
      parse 2 "(a 1) b" = .error (.error (.trailingToken "b")) ∧
      parseMany 2 ("(a 1) b" ++ "\n" ++ "(c") = .error (.error (.endOfInput true)) := by
  obtain ⟨-, empty, trailing, append⟩ := parse_and_parseMany_agree 2
  have first : parseMany 2 "(a 1) b" =
      .ok [.list [.symbol "a", .number (.int 1)], .symbol "b"] := rfl
  have spelled : Spells [.opening, .word "a", .word "1", .closing]
      (.list [.symbol "a", .number (.int 1)]) :=
    .list (.cons (.atom rfl) (.single (.atom rfl)))
  refine ⟨rfl, empty "" rfl, first, ?_, append _ "(c" _ first⟩
  exact (trailing _ _).mpr ⟨_, _, .word "b", [], rfl, spelled, rfl, rfl⟩

end SmallScheme.Datum
