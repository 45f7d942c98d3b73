import SmallScheme.Proofs.ReaderOutcome

/-!
The count of open lists beside the reader. The tokens of a form leave as many lists open as there were
before, and the beginning of a form leaves more. So tokens end inside a list, by the count, just if the
reader meets their end when it takes datum after datum and passes over closing parentheses outside any
list.
-/

set_option autoImplicit false
set_option relaxedAutoImplicit false

namespace SmallScheme.Datum

open Token (nesting needsMore)

variable {tokens : List Token}

mutual

private theorem Spells.foldl_nesting {tokens : List Token} {d : Datum} (h : Spells tokens d)
    (k : Nat) :
    tokens.foldl nesting k = k := by
  match h with
  | .atom _ => rfl
  | .list each =>
    rw [List.foldl_cons, List.foldl_append, each.foldl_nesting]
    rfl

private theorem SpellsEach.foldl_nesting {tokens : List Token} {data : List Datum}
    (h : SpellsEach tokens data) (k : Nat) : tokens.foldl nesting k = k := by
  match h with
  | .nil => rfl
  | .cons first each => rw [List.foldl_append, first.foldl_nesting, each.foldl_nesting]

end

private theorem Begun.lt_foldl_nesting (h : Begun tokens) (some : tokens ≠ []) (k : Nat) :
    k < tokens.foldl nesting k := by
  induction h generalizing k with
  | nothing => exact absurd rfl some
  | @list items more data each _ ih =>
    have opened : (Token.opening :: (items ++ more)).foldl nesting k = more.foldl nesting (k + 1) := by
      rw [List.foldl_cons, List.foldl_append, each.foldl_nesting]
      rfl
    rw [opened]
    by_cases none : more = []
    · subst none
      exact Nat.lt_succ_self k
    · exact Nat.lt_of_succ_lt (ih none (k + 1))

theorem SpellsEach.needsMore_eq_false {data : List Datum} (h : SpellsEach tokens data) :
    needsMore tokens = false :=
  Token.needsMore_eq_false_iff.mpr (h.foldl_nesting 0)

private theorem Begun.needsMore_eq_true (h : Begun tokens) (some : tokens ≠ []) :
    needsMore tokens = true :=
  decide_eq_true (h.lt_foldl_nesting some 0)

/-- The fault by which an outcome ends the reading of datum after datum, if it does. A closing
parenthesis outside any list is passed over. -/
def stopping? : Except Failure Datum → Option Failure
  | .ok _ => none
  | .error (.error .unmatchedClose) => none
  | .error failure => some failure

/-- The fault at which the reading of datum after datum ends, if it does not end for want of tokens. -/
def ending? (depth : Nat) (tokens : List Token) : Option Failure :=
  (readings depth tokens).findSome? stopping?

private theorem ending?_of_ne_nil (depth : Nat) (some : tokens ≠ []) :
    ending? depth tokens =
      (stopping? (next depth tokens).1).or (ending? depth (next depth tokens).2) := by
  rw [ending?, readings_of_ne_nil depth some, List.findSome?_cons]
  cases stopping? (next depth tokens).1 <;> rfl

/-- The tokens hold no integer that is too long to be read. -/
def Legible (tokens : List Token) : Prop :=
  ∀ word, .word word ∈ tokens → ∀ digits, ¬ Oversized digits word

/-- The reading of legible tokens meets their end just if the count finds a list open, unless it runs out
of room before. -/
theorem ending?_of_legible (legible : Legible tokens) (depth : Nat) :
    ending? depth tokens = some .depthExhausted ∨
      ending? depth tokens =
        if needsMore tokens then some (.error (.endOfInput true)) else none := by
  induction hn : tokens.length using Nat.strongRecOn generalizing tokens with
  | _ n ih =>
    by_cases none : tokens = []
    · subst none
      exact .inr rfl
    have shorter := next_length_lt depth none
    rw [ending?_of_ne_nil depth none]
    obtain ⟨reading, reads⟩ := exists_reads tokens
    rcases reads.gives.exhausted_or_eq depth with exhausted | same
    · rw [exhausted]
      exact .inl rfl
    rw [same] at shorter ⊢
    -- Whatever is read leaves no list open, so the count begins again behind it.
    cases reads with
    | @form form rest d spelled =>
      have closed : needsMore (form ++ rest) = needsMore rest :=
        Token.needsMore_append (SpellsEach.single spelled).needsMore_eq_false rest
      rw [closed]
      exact ih _ (hn ▸ shorter) (fun word hw => legible word (List.mem_append_right form hw)) rfl
    | stray rest =>
      exact ih _ (hn ▸ shorter) (fun word hw => legible word (List.mem_cons_of_mem _ hw)) rfl
    | ended begun =>
      rw [begun.needsMore_eq_true none]
      refine .inr ?_
      simp [stopping?, none]
    | oversized _ long => exact absurd long (legible _ (by simp) _)

theorem ending?_ne_depthExhausted {depth : Nat} (fits : tokens.length ≤ depth) :
    ending? depth tokens ≠ some .depthExhausted := by
  intro exhausted
  obtain ⟨outcome, read, stops⟩ := List.exists_of_findSome?_eq_some exhausted
  have failed : outcome = .error .depthExhausted := by
    unfold stopping? at stops
    split at stops <;> cases stops
    rfl
  exact (readings_of_length_le fits).2 (failed ▸ read)

/-- The count of open lists agrees with the reader. Of tokens without an integer that is too long it
tells whether the reading of datum after datum, which passes over closing parentheses outside any list,
ends because the tokens do, inside a list; if not, it ends with no token left. A reading that is not
allowed to nest deep enough ends in the same way or runs out of room. -/
theorem needsMore_iff_ending_endOfInput {tokens : List Token} (legible : Legible tokens) :
    (∀ depth, tokens.length ≤ depth →
      (needsMore tokens = true ↔ ∃ inside, ending? depth tokens = some (.error (.endOfInput inside))) ∧
      (needsMore tokens = false ↔ ending? depth tokens = none)) ∧
    ∀ depth, ending? depth tokens = some .depthExhausted ∨
      (needsMore tokens = true ∧ ending? depth tokens = some (.error (.endOfInput true))) ∨
      (needsMore tokens = false ∧ ending? depth tokens = none) := by
  constructor
  · intro depth fits
    have ends := (ending?_of_legible legible depth).resolve_left (ending?_ne_depthExhausted fits)
    cases open? : needsMore tokens <;> simp [ends, open?]
  · intro depth
    rcases ending?_of_legible legible depth with exhausted | ends
    · exact .inl exhausted
    · cases open? : needsMore tokens <;> simp [ends, open?]

/-- Two closing parentheses outside any list, and at the end an open list that begins with a closed one. -/
def strayThenOpen : List Token :=
  [.closing, .word "a", .opening, .word "b", .closing, .closing, .opening, .opening, .word "c", .closing]

theorem needsMore_iff_ending_endOfInput_stray_close :
    Legible strayThenOpen ∧ needsMore strayThenOpen = true ∧
      ∃ inside, ending? 10 strayThenOpen = some (.error (.endOfInput inside)) := by
  have legible : Legible strayThenOpen := by
    have words : ∀ word ∈ ["a", "b", "c"], integerForm? word.toList = none := by decide
    rintro word hw digits ⟨-, negative, values, form, -⟩
    have named : word ∈ ["a", "b", "c"] := by simpa [strayThenOpen] using hw
    rw [words word named] at form
    cases form
  have more : needsMore strayThenOpen = true := rfl
  exact ⟨legible, more, ((needsMore_iff_ending_endOfInput legible).1 10 (by decide)).1.mp more⟩

end SmallScheme.Datum
