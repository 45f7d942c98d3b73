import SmallScheme.Proofs.Numeral
import SmallScheme.Proofs.Reading
import SmallScheme.Proofs.Spelling
import SmallScheme.Proofs.WellFormed

/-!
Printing and reading are inverse on data. A readable value prints as a text whose tokens spell it, so
reading that text gives the value again, number by number and sign by sign. Whatever a text is read
as is readable, and prints as a text that is read as the same.
-/

set_option autoImplicit false
set_option relaxedAutoImplicit false

namespace SmallScheme.Value

/-- Values that a text can be read as: integers within the digit limit, finite numbers, symbols whose
name is a word that stands for a symbol, and lists of such values. -/
inductive Readable : Value → Prop
  | int {n : Int} : n.natAbs < 10 ^ Number.digitLimit → Readable (.number (.int n))
  | float {x : Binary64} : x.isFinite = true → Readable (.number (.float x))
  | symbol {name : String} : Token.IsWord name → Datum.ofWord name = .ok (.symbol name) →
      Readable (.symbol name)
  | list {identity : Identity} {items : List Value} : (∀ v ∈ items, Readable v) →
      Readable (.list identity items)

mutual

/-- The datum that a value is, its lists without their identities. -/
def datum? : Value → Option Datum
  | .number n => some (.number n)
  | .symbol name => some (.symbol name)
  | .list _ items => (data? items).map .list
  | _ => none

def data? : List Value → Option (List Datum)
  | [] => some []
  | v :: rest => do
      let d ← datum? v
      let data ← data? rest
      return d :: data

end

mutual

theorem datum?_ofDatum (next : Nat) (d : Datum) : (ofDatum next d).1.datum? = some d := by
  cases d with
  | number n => rfl
  | symbol name => rfl
  | list items => simp [ofDatum, datum?, data?_ofData (next + 1) items]

private theorem data?_ofData (next : Nat) (data : List Datum) :
    data? (ofData next data).1 = some data := by
  cases data with
  | nil => rfl
  | cons d rest => simp [ofData, data?, datum?_ofDatum next d, data?_ofData _ rest]

end

/-- A value beside its printed text and the datum that the text is read as. -/
structure ReadsBack (v : Value) (text : String) (d : Datum) : Prop where
  datum : v.datum? = some d
  printed : v.spelling .display = .ok text
  spells : Datum.Spells (Token.tokenize text) d
  deep : d.height = v.nesting

private theorem readsBack_number {n : Number} {text : String} (printed : n.text? = some text)
    (word : Token.IsWord text ∧ Datum.ofWord text = .ok (.number n)) :
    ReadsBack (.number n) text (.number n) where
  datum := rfl
  printed := by simp [spelling, Number.text, printed]
  spells := Token.tokenize_word word.1 ▸ .atom word.2
  deep := rfl

private theorem readsBack_items {items : List Value}
    (h : ∀ v ∈ items, ∃ text d, ReadsBack v text d) :
    ∃ texts data, data? items = some data ∧ spellings .display items = .ok texts ∧
      Datum.SpellsEach (texts.flatMap Token.tokenize) data ∧
      Datum.heights data = nestings items := by
  induction items with
  | nil => exact ⟨[], [], rfl, rfl, .nil, rfl⟩
  | cons v items ih =>
    obtain ⟨text, d, first⟩ := h v List.mem_cons_self
    obtain ⟨texts, data, hdata, printed, spells, deep⟩ :=
      ih fun w hw => h w (List.mem_cons_of_mem v hw)
    refine ⟨text :: texts, d :: data, ?_, ?_, .cons first.spells spells, ?_⟩
    · simp [data?, first.datum, hdata]
    · simp only [spellings, first.printed, printed]
      rfl
    · simp only [Datum.heights, nestings, first.deep, deep]

theorem Readable.readsBack {v : Value} (h : v.Readable) : ∃ text d, ReadsBack v text d := by
  induction h with
  | @int n short =>
    have printed : Number.text? (.int n) = some (toString n) := by
      rw [Number.text?, Nat.pow_eq, if_pos short]
    exact ⟨_, _, readsBack_number printed (Datum.ofWord_toString short)⟩
  | float finite => exact ⟨_, _, readsBack_number rfl (Datum.ofWord_binary64 finite)⟩
  | @symbol name word atom =>
    exact ⟨name, .symbol name, rfl, rfl, Token.tokenize_word word ▸ .atom atom, rfl⟩
  | @list identity items _ ih =>
    obtain ⟨texts, data, hdata, printed, spells, deep⟩ := readsBack_items ih
    refine ⟨"(" ++ " ".intercalate texts ++ ")", .list data, ?_, ?_, ?_, ?_⟩
    · simp [datum?, hdata]
    · simp only [spelling, printed]
      rfl
    · rw [Token.tokenize_parenthesised, Token.tokenize_intercalate rfl (by decide)]
      exact .list spells
    · simp only [Datum.height, nesting, deep]

theorem ReadsBack.display_eq {v : Value} {text : String} {d : Datum} (h : ReadsBack v text d)
    {room : Nat} (fits : v.nesting < room) : v.display room = .ok text := by
  rw [display, write_eq_spelling _ _ fits, h.printed]

theorem ReadsBack.parse_eq {v : Value} {text : String} {d : Datum} (h : ReadsBack v text d)
    {depth : Nat} (fits : v.nesting ≤ depth) : Datum.parse depth text = .ok d :=
  Datum.parse_of_spells h.spells (h.deep ▸ fits)

private theorem readable_ofWord {text : String} {d : Datum} (word : Token.IsWord text)
    (atom : Datum.ofWord text = .ok d) :
    d.height = 0 ∧ ∀ next, (ofDatum next d).1.Readable := by
  cases Datum.classified_iff.mpr atom with
  | @integer negative values form short =>
    refine ⟨rfl, fun _ => .int ?_⟩
    calc (Datum.signed negative (Datum.place values)).natAbs = Datum.place values := by
          cases negative <;> simp [Datum.signed]
      _ < 10 ^ values.length := form.place_lt
      _ ≤ 10 ^ Number.digitLimit := Nat.pow_le_pow_right (by decide) short
  | float _ finite => exact ⟨rfl, fun _ => .float finite⟩
  | symbol => exact ⟨rfl, fun _ => .symbol word atom⟩

mutual

theorem nesting_ofDatum (next : Nat) (d : Datum) : (ofDatum next d).1.nesting = d.height := by
  cases d with
  | number n => rfl
  | symbol name => rfl
  | list items => simp [ofDatum, nesting, Datum.height, nestings_ofData (next + 1) items]

private theorem nestings_ofData (next : Nat) (data : List Datum) :
    nestings (ofData next data).1 = Datum.heights data := by
  cases data with
  | nil => rfl
  | cons d rest =>
    simp [ofData, nestings, Datum.heights, nesting_ofDatum next d, nestings_ofData _ rest]

end

private theorem heights_le {room : Nat} {data : List Datum} (h : ∀ d ∈ data, d.height ≤ room) :
    Datum.heights data ≤ room := by
  induction data with
  | nil => exact Nat.zero_le room
  | cons d data ih =>
    obtain ⟨first, others⟩ := List.forall_mem_cons.mp h
    exact Nat.max_le.mpr ⟨first, ih others⟩

/-- Whatever a text is read as is readable, and no deeper than was allowed. -/
theorem readable_of_parse {depth : Nat} {source : String} {d : Datum}
    (h : Datum.parse depth source = .ok d) :
    d.height ≤ depth ∧ ∀ next, (ofDatum next d).1.Readable := by
  let P : Nat → Datum → Prop :=
    fun room d => d.height ≤ room ∧ ∀ next, (ofDatum next d).1.Readable
  have atoms : ∀ room text d, Token.IsWord text → Datum.ofWord text = .ok d → P room d := by
    intro room text d word atom
    obtain ⟨flat, readable⟩ := readable_ofWord word atom
    exact ⟨flat ▸ Nat.zero_le room, readable⟩
  have lists : ∀ room items, (∀ d ∈ items, P room d) → P (room + 1) (.list items) := by
    intro room items each
    refine ⟨Nat.succ_le_succ (heights_le fun d hd => (each d hd).1), fun next => .list ?_⟩
    intro v hv
    obtain ⟨d, hd, n, rfl⟩ := mem_ofData hv
    exact (each d hd).2 n
  exact Datum.parse_induction atoms lists h

/-- Printing and reading are inverse. A readable value is a datum; its text, the same for all room that
its nesting leaves, is read as that datum. A text that is read at all is read as a readable value, whose
text is read as the same again. -/
theorem display_parse_inverse :
    (∀ v : Value, v.Readable → ∃ text d, v.datum? = some d ∧
      (∀ room, v.nesting < room → v.display room = .ok text) ∧
      ∀ depth, v.nesting ≤ depth → Datum.parse depth text = .ok d) ∧
    ∀ depth source d, Datum.parse depth source = .ok d → ∀ next,
      (ofDatum next d).1.Readable ∧ (ofDatum next d).1.datum? = some d ∧
      ∃ text, (∀ room, depth < room → (ofDatum next d).1.display room = .ok text) ∧
        Datum.parse depth text = .ok d := by
  constructor
  · intro v readable
    obtain ⟨text, d, back⟩ := readable.readsBack
    exact ⟨text, d, back.datum, fun _ fits => back.display_eq fits, fun _ fits => back.parse_eq fits⟩
  · intro depth source d read next
    obtain ⟨shallow, readable⟩ := readable_of_parse read
    obtain ⟨text, d', back⟩ := (readable next).readsBack
    have same : d' = d := Option.some.inj (back.datum.symm.trans (datum?_ofDatum next d))
    have fits : (ofDatum next d).1.nesting ≤ depth := by
      rw [nesting_ofDatum]
      exact shallow
    refine ⟨readable next, datum?_ofDatum next d, text, ?_, same ▸ back.parse_eq fits⟩
    intro room enough
    exact back.display_eq (Nat.lt_of_le_of_lt fits enough)

/-- A list with a negative zero, an empty list, and symbols that look like numbers: one too large to be
finite and one with a separator among its digits. -/
def lookAlikes : Value :=
  .list (.made 0) [.number (.int (-3)), .number (.float (.zero true)), .list (.made 1) [],
    .symbol "1e400", .list (.made 2) [.symbol "1_000"]]

theorem display_parse_inverse_lookAlikes :
    lookAlikes.Readable ∧ lookAlikes.display 3 = .ok "(-3 -0.0 () 1e400 (1_000))" ∧
      ∃ d, lookAlikes.datum? = some d ∧
        Datum.parse 2 "(-3 -0.0 () 1e400 (1_000))" = .ok d ∧
        ∃ text, (ofDatum 0 d).1.display 3 = .ok text ∧ Datum.parse 2 text = .ok d := by
  have symbols : ∀ name ∈ ["1e400", "1_000"],
      Token.IsWord name ∧ Datum.ofWord name = .ok (.symbol name) := by
    have forms : ∀ name ∈ ["1e400", "1_000"],
        name ≠ "" ∧ name.toList.any Token.isDelimiter = false ∧
          Datum.integerForm? name.toList = none ∧ Datum.float? name.toList = none := by
      decide +kernel
    intro name hm
    obtain ⟨nonempty, undivided, integer, float⟩ := forms name hm
    exact ⟨⟨nonempty, by simpa using undivided⟩, by simp only [Datum.ofWord, integer, float]⟩
  have readable : lookAlikes.Readable := by
    obtain ⟨huge, atomHuge⟩ := symbols "1e400" (by simp)
    obtain ⟨separated, atomSeparated⟩ := symbols "1_000" (by simp)
    refine .list ?_
    simp only [List.forall_mem_cons]
    refine ⟨.int (by decide +kernel), .float rfl, .list (by simp), .symbol huge atomHuge,
      .list ?_, by simp⟩
    simpa using Readable.symbol separated atomSeparated
  obtain ⟨text, d, datum, printed, read⟩ := display_parse_inverse.1 lookAlikes readable
  have computed : (lookAlikes.display 3).toOption = some "(-3 -0.0 () 1e400 (1_000))" := by
    decide +kernel
  have same : text = "(-3 -0.0 () 1e400 (1_000))" := by
    rw [printed 3 (by decide)] at computed
    exact Option.some.inj computed
  subst same
  have parsed := read 2 (by decide)
  obtain ⟨-, -, again, reprinted, reread⟩ := display_parse_inverse.2 2 _ d parsed 0
  exact ⟨readable, printed 3 (by decide), d, datum, parsed, again, reprinted 3 (by decide), reread⟩

end SmallScheme.Value
