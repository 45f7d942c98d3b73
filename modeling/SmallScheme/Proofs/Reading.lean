import SmallScheme.Datum.Reader
import SmallScheme.Proofs.Lexing

/-!
Reading token by token. Each read takes at least one token, and what it gives does not depend on tokens
after complete ones, so the readings of complete tokens and of those after them are the readings
of both together. The tokens that spell a datum are read as that datum, whatever follows them.
-/

set_option autoImplicit false
set_option relaxedAutoImplicit false

namespace SmallScheme.Datum

private theorem readOpen_length (room : Nat) (lists : List (List Datum)) (tokens : List Token) :
    (readOpen room lists tokens).2.length ≤ tokens.length - 1 := by
  induction tokens generalizing room lists with
  | nil => simp [readOpen]
  | cons t tokens ih =>
    cases t with
    | opening =>
      cases room with
      | zero => simp [readOpen]
      | succ room =>
        have := ih room ([] :: lists)
        simp only [readOpen, List.length_cons]
        omega
    | closing =>
      match lists with
      | [] => simp [readOpen]
      | [items] => simp [readOpen]
      | items :: outer :: others =>
        have := ih (room + 1) ((.list items.reverse :: outer) :: others)
        simp only [readOpen, List.length_cons]
        omega
    | word text =>
      cases hw : ofWord text with
      | error failure => simp [readOpen, hw]
      | ok atom =>
        cases lists with
        | nil => simp [readOpen, hw]
        | cons items others =>
          have := ih room ((atom :: items) :: others)
          simp only [readOpen, hw, List.length_cons]
          omega

theorem next_length_lt (depth : Nat) {tokens : List Token} (h : tokens ≠ []) :
    (next depth tokens).2.length < tokens.length := by
  have := readOpen_length depth [] tokens
  have := List.length_pos_iff.mpr h
  simp only [next]
  omega

private theorem readingsWithin_eq {depth n k : Nat} {tokens : List Token} (hn : tokens.length ≤ n)
    (hk : tokens.length ≤ k) : readingsWithin depth n tokens = readingsWithin depth k tokens := by
  induction n generalizing k tokens with
  | zero =>
    have he : tokens = [] := List.length_eq_zero_iff.mp (by omega)
    cases k <;> simp [readingsWithin, he]
  | succ n ih =>
    cases tokens with
    | nil => cases k <;> simp [readingsWithin]
    | cons t tokens =>
      cases k with
      | zero => simp at hk
      | succ k =>
        have hlt := next_length_lt depth (List.cons_ne_nil t tokens)
        simp only [List.length_cons] at hlt hn hk
        simp only [readingsWithin]
        rw [ih (k := k) (by omega) (by omega)]

theorem readings_nil (depth : Nat) : readings depth [] = [] := rfl

theorem readings_of_ne_nil (depth : Nat) {tokens : List Token} (h : tokens ≠ []) :
    readings depth tokens = (next depth tokens).1 :: readings depth (next depth tokens).2 := by
  have hlt := next_length_lt depth h
  cases tokens with
  | nil => exact absurd rfl h
  | cons t tokens =>
    simp only [readings, List.length_cons, readingsWithin] at hlt ⊢
    rw [readingsWithin_eq (Nat.le_of_lt_succ hlt) (Nat.le_refl _)]

theorem readings_eq_nil_iff {depth : Nat} {tokens : List Token} :
    readings depth tokens = [] ↔ tokens = [] := by
  constructor
  · intro none
    cases tokens with
    | nil => rfl
    | cons t tokens =>
      rw [readings_of_ne_nil depth (List.cons_ne_nil t tokens)] at none
      cases none
  · rintro rfl
    exact readings_nil depth

private theorem readOpen_eq_of_le {room room' : Nat} (h : room ≤ room') (lists : List (List Datum))
    (tokens : List Token) :
    (readOpen room lists tokens).1 = .error .depthExhausted ∨
      readOpen room lists tokens = readOpen room' lists tokens := by
  induction tokens generalizing room room' lists with
  | nil => exact .inr rfl
  | cons t tokens ih =>
    cases t with
    | opening =>
      cases room with
      | zero => exact .inl rfl
      | succ room =>
        cases room' with
        | zero => omega
        | succ room' => exact ih (Nat.le_of_succ_le_succ h) ([] :: lists)
    | closing =>
      match lists with
      | [] => exact .inr rfl
      | [items] => exact .inr rfl
      | items :: outer :: others =>
        exact ih (Nat.succ_le_succ h) ((.list items.reverse :: outer) :: others)
    | word text =>
      cases hw : ofWord text with
      | error failure => exact .inr (by simp [readOpen, hw])
      | ok atom =>
        cases lists with
        | nil => exact .inr (by simp [readOpen, hw])
        | cons items others => simpa only [readOpen, hw] using ih h ((atom :: items) :: others)

/-- A read that does not run out of room is the same with more. -/
theorem next_eq_of_le {depth depth' : Nat} (h : depth ≤ depth') (tokens : List Token) :
    (next depth tokens).1 = .error .depthExhausted ∨ next depth tokens = next depth' tokens :=
  readOpen_eq_of_le h [] tokens

/-- The word is an integer with too many digits to be read; it has so many. -/
def Oversized (digits : Nat) (word : String) : Prop :=
  Number.digitLimit < digits ∧
    ∃ negative values, integerForm? word.toList = some (negative, values) ∧ values.length = digits

theorem oversized_of_ofWord {word : String} {failure : Failure} (h : ofWord word = .error failure) :
    ∃ digits, failure = .digitLimit (some digits) ∧ Oversized digits word := by
  unfold ofWord at h
  split at h
  · rename_i negative values form
    split at h
    · rename_i long
      cases h
      exact ⟨_, rfl, long, negative, values, form, rfl⟩
    · cases h
  · split at h <;> cases h

theorem ofWord_error {text : String} {failure : Failure} (h : ofWord text = .error failure) :
    ∃ digits, failure = .digitLimit digits := by
  obtain ⟨digits, rfl, -⟩ := oversized_of_ofWord h
  exact ⟨_, rfl⟩

/-- The read ends within the tokens: it meets no end of the input, others after them make no
difference, and what it leaves is complete if they are. -/
private structure Ends (room : Nat) (lists : List (List Datum)) (tokens : List Token) : Prop where
  outcome : ∀ inside, (readOpen room lists tokens).1 ≠ .error (.error (.endOfInput inside))
  append : ∀ others, readOpen room lists (tokens ++ others) =
    ((readOpen room lists tokens).1, (readOpen room lists tokens).2 ++ others)
  complete : tokens.foldl Token.nesting lists.length = 0 →
    (readOpen room lists tokens).2.foldl Token.nesting 0 = 0

private theorem readOpen_ends (room : Nat) (lists : List (List Datum)) (tokens : List Token)
    (start : lists ≠ [] ∨ tokens ≠ []) :
    Ends room lists tokens ∨ tokens.foldl Token.nesting lists.length ≠ 0 ∧
      readOpen room lists tokens = (.error (.error (.endOfInput true)), []) := by
  induction tokens generalizing room lists with
  | nil =>
    cases lists with
    | nil => simp at start
    | cons items others => exact .inr ⟨Nat.succ_ne_zero _, rfl⟩
  | cons t tokens ih =>
    -- Lists that were open already only add to what has to be closed.
    have fewer {d : Nat} (closed : tokens.foldl Token.nesting d = 0) :
        tokens.foldl Token.nesting 0 = 0 := Token.foldl_nesting_eq_zero (Nat.zero_le d) closed
    cases t with
    | opening =>
      cases room with
      | zero => exact .inl ⟨by simp [readOpen], fun _ => rfl, fewer⟩
      | succ room =>
        rcases ih room ([] :: lists) (.inl (by simp)) with ends | ends
        · exact .inl ⟨ends.outcome, ends.append, ends.complete⟩
        · exact .inr ends
    | closing =>
      match lists with
      | [] => exact .inl ⟨by simp [readOpen], fun _ => rfl, fewer⟩
      | [items] => exact .inl ⟨by simp [readOpen], fun _ => rfl, fewer⟩
      | items :: outer :: others =>
        rcases ih (room + 1) ((.list items.reverse :: outer) :: others) (.inl (by simp)) with ends | ends
        · exact .inl ⟨ends.outcome, ends.append, ends.complete⟩
        · exact .inr ends
    | word text =>
      cases hw : ofWord text with
      | error failure =>
        obtain ⟨digits, rfl⟩ := ofWord_error hw
        exact .inl ⟨by simp [readOpen, hw], by simp [readOpen, hw], by simpa [readOpen, hw] using fewer⟩
      | ok atom =>
        cases lists with
        | nil =>
          exact .inl ⟨by simp [readOpen, hw], by simp [readOpen, hw],
            by simpa [readOpen, hw] using fewer⟩
        | cons items others =>
          have same (more : List Token) : readOpen room (items :: others) (.word text :: more) =
              readOpen room ((atom :: items) :: others) more := by simp [readOpen, hw]
          rcases ih room ((atom :: items) :: others) (.inl (by simp)) with ends | ends
          · refine .inl ⟨?_, fun more => ?_, ?_⟩
            · rw [same]
              exact ends.outcome
            · rw [List.cons_append, same, same]
              exact ends.append more
            · rw [same]
              exact ends.complete
          · exact .inr ⟨ends.1, (same _).trans ends.2⟩

private theorem next_ends (depth : Nat) {tokens : List Token} (h : tokens ≠ [])
    (complete : Token.needsMore tokens = false) : Ends depth [] tokens := by
  rcases readOpen_ends depth [] tokens (.inr h) with ends | ends
  · exact ends
  · exact absurd (Token.needsMore_eq_false_iff.mp complete) ends.1

private theorem next_append (depth : Nat) {first : List Token} (h : first ≠ [])
    (complete : Token.needsMore first = false) (second : List Token) :
    next depth (first ++ second) = ((next depth first).1, (next depth first).2 ++ second) ∧
      Token.needsMore (next depth first).2 = false := by
  have ends := next_ends depth h complete
  exact ⟨ends.append second, Token.needsMore_eq_false_iff.mpr
    (ends.complete (Token.needsMore_eq_false_iff.mp complete))⟩

theorem readings_ne_endOfInput (depth : Nat) {tokens : List Token}
    (complete : Token.needsMore tokens = false) {reading : Except Failure Datum}
    (h : reading ∈ readings depth tokens) (inside : Bool) :
    reading ≠ .error (.error (.endOfInput inside)) := by
  induction hn : tokens.length using Nat.strongRecOn generalizing tokens with
  | _ n ih =>
    by_cases hne : tokens = []
    · simp [hne, readings_nil] at h
    · rw [readings_of_ne_nil depth hne] at h
      rcases List.mem_cons.mp h with rfl | later
      · exact (next_ends depth hne complete).outcome inside
      · have rest := (next_append depth hne complete []).2
        exact ih _ (hn ▸ next_length_lt depth hne) rest later rfl

/-- A read that ends within the tokens is the same with others after them; otherwise it meets the end
of the input inside a list. -/
theorem next_eq_endOfInput_or (depth : Nat) {first : List Token} (h : first ≠ [])
    (second : List Token) :
    next depth first = (.error (.error (.endOfInput true)), []) ∨
      next depth (first ++ second) = ((next depth first).1, (next depth first).2 ++ second) := by
  rcases readOpen_ends depth [] first (.inr h) with ends | ends
  · exact .inr (ends.append second)
  · exact .inl ends.2

/-- Reading complete tokens and then others is reading both together. -/
theorem readings_append (depth : Nat) {first : List Token} (complete : Token.needsMore first = false)
    (second : List Token) :
    readings depth (first ++ second) = readings depth first ++ readings depth second := by
  induction hn : first.length using Nat.strongRecOn generalizing first with
  | _ n ih =>
    by_cases h : first = []
    · rw [h, readings_nil, List.nil_append, List.nil_append]
    obtain ⟨read, rest⟩ := next_append depth h complete second
    have hlt := next_length_lt depth h
    have left := readings_of_ne_nil depth (List.append_ne_nil_of_left_ne_nil h second)
    rw [left, read, ih _ (hn ▸ hlt) rest rfl, readings_of_ne_nil depth h, List.cons_append]

mutual

/-- How deep lists are nested in a datum. -/
def height : Datum → Nat
  | .number _ => 0
  | .symbol _ => 0
  | .list items => heights items + 1

def heights : List Datum → Nat
  | [] => 0
  | d :: rest => max (height d) (heights rest)

end

theorem ofWord_cases {word : String} {d : Datum} (h : ofWord word = .ok d) :
    (∃ n, d = .number n) ∨ d = .symbol word := by
  unfold ofWord at h
  split at h
  · split at h
    · cases h
    · cases h
      exact .inl ⟨_, rfl⟩
  · split at h
    · cases h
      exact .inl ⟨_, rfl⟩
    · cases h
      exact .inr rfl

theorem height_ofWord {text : String} {d : Datum} (h : ofWord text = .ok d) : d.height = 0 := by
  obtain ⟨n, rfl⟩ | rfl := ofWord_cases h <;> rfl

mutual

/-- The tokens spell the datum: a word spells its atom, a list is spelled by its items between
parentheses. -/
inductive Spells : List Token → Datum → Prop
  | atom {text : String} {d : Datum} : ofWord text = .ok d → Spells [.word text] d
  | list {tokens : List Token} {items : List Datum} :
      SpellsEach tokens items → Spells (.opening :: (tokens ++ [.closing])) (.list items)

inductive SpellsEach : List Token → List Datum → Prop
  | nil : SpellsEach [] []
  | cons {tokens others : List Token} {d : Datum} {rest : List Datum} :
      Spells tokens d → SpellsEach others rest → SpellsEach (tokens ++ others) (d :: rest)

end

def receive (room : Nat) (d : Datum) (rest : List Token) : List (List Datum) → Reading
  | [] => (.ok d, rest)
  | items :: others => readOpen room ((d :: items) :: others) rest

mutual

theorem readOpen_spells {tokens : List Token} {d : Datum} (h : Spells tokens d) {room : Nat}
    (fits : d.height ≤ room) (lists : List (List Datum)) (rest : List Token) :
    readOpen room lists (tokens ++ rest) = receive room d rest lists := by
  cases h with
  | atom hw => cases lists <;> simp [readOpen, hw, receive]
  | @list tokens items each =>
    cases room with
    | zero => simp [height] at fits
    | succ room =>
      have inner : heights items ≤ room := by simpa [height] using fits
      have read := readOpen_spellsEach each inner [] lists (.closing :: rest)
      simp only [List.cons_append, List.append_assoc, List.nil_append, readOpen]
      rw [read]
      cases lists <;> simp [readOpen, receive]

theorem readOpen_spellsEach {tokens : List Token} {data : List Datum}
    (h : SpellsEach tokens data) {room : Nat} (fits : heights data ≤ room) (items : List Datum)
    (others : List (List Datum)) (rest : List Token) :
    readOpen room (items :: others) (tokens ++ rest) =
      readOpen room ((data.reverse ++ items) :: others) rest := by
  cases h with
  | nil => rfl
  | @cons tokens _ d data first each =>
    have both : d.height ≤ room ∧ heights data ≤ room := by
      simpa [heights, Nat.max_le] using fits
    rw [List.append_assoc, readOpen_spells first both.1]
    simp only [receive]
    rw [readOpen_spellsEach each both.2]
    simp

end

/-- The tokens that spell a datum are read as it, if its lists are not nested too deep. -/
theorem next_of_spells {tokens : List Token} {d : Datum} (h : Spells tokens d) {depth : Nat}
    (fits : d.height ≤ depth) (rest : List Token) : next depth (tokens ++ rest) = (.ok d, rest) :=
  readOpen_spells h fits [] rest

/-- Of the lists that are open, each holds data that may stand where it is, given the room inside the
innermost one. -/
private def Holds (P : Nat → Datum → Prop) (room : Nat) : List (List Datum) → Prop
  | [] => True
  | items :: others => (∀ d ∈ items, P room d) ∧ Holds P (room + 1) others

private theorem readOpen_holds {P : Nat → Datum → Prop}
    (atom : ∀ room text d, Token.IsWord text → ofWord text = .ok d → P room d)
    (list : ∀ room items, (∀ d ∈ items, P room d) → P (room + 1) (.list items))
    {room : Nat} {lists : List (List Datum)} {tokens rest : List Token} {d : Datum}
    (words : ∀ text, .word text ∈ tokens → Token.IsWord text) (holds : Holds P room lists)
    (h : readOpen room lists tokens = (.ok d, rest)) : P (room + lists.length) d := by
  -- The room inside and the number of open lists change against each other; their sum stays.
  induction tokens generalizing room lists with
  | nil => simp [readOpen] at h
  | cons t tokens ih =>
    have later : ∀ text, .word text ∈ tokens → Token.IsWord text :=
      fun text hm => words text (List.mem_cons_of_mem t hm)
    cases t with
    | opening =>
      cases room with
      | zero => simp [readOpen] at h
      | succ room =>
        have inner : Holds P room ([] :: lists) := ⟨by simp, holds⟩
        have read := ih later inner h
        rwa [List.length_cons, ← Nat.add_assoc, Nat.add_right_comm] at read
    | closing =>
      match lists, holds, h with
      | [], _, h => simp [readOpen] at h
      | [items], holds, h =>
        simp only [readOpen, Prod.mk.injEq, Except.ok.injEq] at h
        rw [← h.1]
        exact list room _ fun d hd => holds.1 d (List.mem_reverse.mp hd)
      | items :: outer :: others, holds, h =>
        have closed : P (room + 1) (.list items.reverse) :=
          list room _ fun d hd => holds.1 d (List.mem_reverse.mp hd)
        have outside : Holds P (room + 1) ((.list items.reverse :: outer) :: others) :=
          ⟨List.forall_mem_cons.mpr ⟨closed, holds.2.1⟩, holds.2.2⟩
        have read := ih later outside h
        simp only [List.length_cons] at read ⊢
        rwa [Nat.add_right_comm, Nat.add_assoc] at read
    | word text =>
      have proper := words text List.mem_cons_self
      cases hw : ofWord text with
      | error failure => simp [readOpen, hw] at h
      | ok a =>
        match lists, holds, h with
        | [], _, h =>
          simp only [readOpen, hw, Prod.mk.injEq, Except.ok.injEq] at h
          rw [← h.1]
          exact atom _ text a proper hw
        | items :: others, holds, h =>
          simp only [readOpen, hw] at h
          have inner : Holds P room ((a :: items) :: others) :=
            ⟨List.forall_mem_cons.mpr ⟨atom room text a proper hw, holds.1⟩, holds.2⟩
          have read := ih later inner h
          rwa [List.length_cons] at read ⊢

/-- What holds of the atoms that words stand for, and of a list one level up when it holds of the
items, holds of the datum that a text is read as. -/
theorem parse_induction {P : Nat → Datum → Prop}
    (atom : ∀ room text d, Token.IsWord text → ofWord text = .ok d → P room d)
    (list : ∀ room items, (∀ d ∈ items, P room d) → P (room + 1) (.list items))
    {depth : Nat} {source : String} {d : Datum} (h : parse depth source = .ok d) : P depth d := by
  unfold parse at h
  split at h
  · cases h
  · rename_i datum read
    cases h
    have start : Holds P depth [] := trivial
    exact readOpen_holds atom list (fun _ hm => Token.isWord_of_mem_tokenize hm) start read
  · cases h

theorem parse_of_spells {text : String} {d : Datum} (h : Spells (Token.tokenize text) d) {depth : Nat}
    (fits : d.height ≤ depth) : parse depth text = .ok d := by
  have read := next_of_spells h fits []
  rw [List.append_nil] at read
  simp only [parse, read]

end SmallScheme.Datum
