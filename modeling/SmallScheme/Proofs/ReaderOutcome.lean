import SmallScheme.Proofs.Grammar

/-!
The outcome of one read. Any tokens begin in exactly one of four ways: with tokens that spell a datum,
with a closing parenthesis, with an integer that is too long after the beginning of a form, or they
are themselves the beginning of a form and nothing else. With room enough the reader tells the four
apart and leaves exactly what follows.
-/

set_option autoImplicit false
set_option relaxedAutoImplicit false

namespace SmallScheme.Datum

variable {tokens rest : List Token} {reading : Reading}

/-- Nothing, or a part of tokens that spell a datum: the part before some of the last ones. -/
def Unfinished (tokens : List Token) : Prop :=
  tokens = [] ∨ ∃ missing, missing ≠ [] ∧ ∃ d, Spells (tokens ++ missing) d

/-- The reader gives the outcome and leaves the tokens, as soon as it has room for as many levels as
there are tokens. -/
def Gives (tokens : List Token) (reading : Reading) : Prop :=
  ∀ depth, tokens.length ≤ depth → next depth tokens = reading

/-- The beginning of a form, token by token: nothing yet, or an open list with some items behind which
another form begins. -/
inductive Begun : List Token → Prop
  | nothing : Begun []
  | list {items more : List Token} {data : List Datum} : SpellsEach items data → Begun more →
      Begun (.opening :: (items ++ more))

private theorem SpellsEach.append {a b : List Token} {xs ys : List Datum} (ha : SpellsEach a xs)
    (hb : SpellsEach b ys) : SpellsEach (a ++ b) (xs ++ ys) := by
  match ha with
  | .nil => exact hb
  | .cons first others =>
    rw [List.append_assoc]
    exact .cons first (others.append hb)

theorem SpellsEach.single {a : List Token} {d : Datum} (h : Spells a d) : SpellsEach a [d] := by
  simpa using SpellsEach.cons h .nil

private theorem Begun.completed (h : Begun tokens) :
    ∃ missing, missing ≠ [] ∧ ∃ d, Spells (tokens ++ missing) d := by
  induction h with
  | nothing => exact ⟨[.word "x"], by simp, .symbol "x", .atom rfl⟩
  | @list items more data each _ ih =>
    obtain ⟨missing, -, d, spelled⟩ := ih
    refine ⟨missing ++ [.closing], by simp, .list (data ++ [d]), ?_⟩
    simpa using Spells.list (each.append (.single spelled))

mutual

private theorem begun_of_spells {whole tokens missing : List Token} {d : Datum} (h : Spells whole d)
    (cut : whole = tokens ++ missing) (lacks : missing ≠ []) : Begun tokens := by
  match h with
  | .atom _ =>
    cases tokens with
    | nil => exact .nothing
    | cons t tokens =>
      obtain ⟨-, none⟩ := List.cons.inj cut
      exact absurd (List.append_eq_nil_iff.mp none.symm).2 lacks
  | @Spells.list inner _ each =>
    cases tokens with
    | nil => exact .nothing
    | cons t tokens =>
      obtain ⟨rfl, inside⟩ := List.cons.inj cut
      -- The closing parenthesis is among the tokens that are missing.
      obtain ⟨missed, rfl⟩ | ⟨close, rfl, single⟩ :
          (∃ missed, inner = tokens ++ missed) ∨
            ∃ close, tokens = inner ++ close ∧ [.closing] = close ++ missing := by
        rcases List.append_eq_append_iff.mp inside with ⟨close, same, single⟩ | ⟨missed, same, -⟩
        · exact .inr ⟨close, same, single⟩
        · exact .inl ⟨missed, same⟩
      · obtain ⟨items, more, data, rfl, some, begun⟩ := begun_of_spellsEach each rfl
        exact .list some begun
      · cases close with
        | nil => simpa using Begun.list each .nothing
        | cons t close =>
          obtain ⟨-, none⟩ := List.cons.inj single
          exact absurd (List.append_eq_nil_iff.mp none.symm).2 lacks

private theorem begun_of_spellsEach {whole tokens missing : List Token} {all : List Datum}
    (h : SpellsEach whole all) (cut : whole = tokens ++ missing) :
    ∃ items more data, tokens = items ++ more ∧ SpellsEach items data ∧ Begun more := by
  match h with
  | .nil =>
    obtain ⟨rfl, -⟩ := List.append_eq_nil_iff.mp cut.symm
    exact ⟨[], [], [], rfl, .nil, .nothing⟩
  | @SpellsEach.cons form others d _ first each =>
    rcases List.append_eq_append_iff.mp cut with ⟨tail, rfl, later⟩ | ⟨missed, rfl, -⟩
    · obtain ⟨items, more, data, rfl, some, begun⟩ := begun_of_spellsEach each later
      exact ⟨form ++ items, more, d :: data, by simp, .cons first some, begun⟩
    · cases missed with
      | nil => exact ⟨tokens, [], [d], by simp, .single (by simpa using first), .nothing⟩
      | cons t missed => exact ⟨[], tokens, [], rfl, .nil, begun_of_spells first rfl (by simp)⟩

end

private theorem unfinished_iff_begun : Unfinished tokens ↔ Begun tokens := by
  constructor
  · rintro (rfl | ⟨missing, lacks, d, spelled⟩)
    · exact .nothing
    · exact begun_of_spells spelled rfl lacks
  · exact fun h => .inr h.completed

mutual

private theorem Spells.height_le {tokens : List Token} {d : Datum} (h : Spells tokens d) :
    d.height ≤ tokens.length := by
  match h with
  | .atom hw => simp [height_ofWord hw]
  | .list each =>
    have inner := each.heights_le
    simp only [height, List.length_cons, List.length_append]
    omega

private theorem SpellsEach.heights_le {tokens : List Token} {data : List Datum}
    (h : SpellsEach tokens data) : heights data ≤ tokens.length := by
  match h with
  | .nil => simp [heights]
  | .cons first each =>
    have left := first.height_le
    have right := each.heights_le
    simp only [heights, List.length_append]
    omega

end

private theorem ofWord_of_oversized {word : String} {digits : Nat} (h : Oversized digits word) :
    ofWord word = .error (.digitLimit (some digits)) := by
  obtain ⟨long, negative, values, form, rfl⟩ := h
  simp [ofWord, form, long]

/-- The ways in which tokens begin, with the outcomes of a read. -/
inductive Reads : List Token → Reading → Prop
  | form {tokens rest : List Token} {d : Datum} : Spells tokens d →
      Reads (tokens ++ rest) (.ok d, rest)
  | stray (rest : List Token) :
      Reads (.closing :: rest) (.error (.error .unmatchedClose), rest)
  | ended {tokens : List Token} : Begun tokens →
      Reads tokens (.error (.error (.endOfInput !tokens.isEmpty)), [])
  | oversized {tokens rest : List Token} {word : String} {digits : Nat} : Begun tokens →
      Oversized digits word →
      Reads (tokens ++ .word word :: rest) (.error (.digitLimit (some digits)), rest)

private theorem readOpen_begun (h : Begun tokens) {room : Nat} (fits : tokens.length ≤ room)
    (lists : List (List Datum)) (rest : List Token) :
    ∃ room' opened, (opened = [] ↔ tokens = []) ∧
      readOpen room lists (tokens ++ rest) = readOpen room' (opened ++ lists) rest := by
  induction h generalizing room lists with
  | nothing => exact ⟨room, [], by simp, rfl⟩
  | @list items more data each _ ih =>
    cases room with
    | zero => simp at fits
    | succ room =>
      simp only [List.length_cons, List.length_append] at fits
      have inner : more.length ≤ room := by omega
      obtain ⟨room', opened, -, read⟩ := ih inner (data.reverse :: lists)
      refine ⟨room', opened ++ [data.reverse], by simp, ?_⟩
      have within : heights data ≤ room := by
        have := each.heights_le
        omega
      have taken := readOpen_spellsEach each within [] lists (more ++ rest)
      rw [List.append_nil] at taken
      simp only [List.cons_append, List.append_assoc, readOpen, List.nil_append]
      rw [taken, read]

theorem Reads.gives (h : Reads tokens reading) : Gives tokens reading := by
  intro depth fits
  cases h with
  | @form form rest d spelled =>
    refine next_of_spells spelled ?_ rest
    have := spelled.height_le
    simp only [List.length_append] at fits
    omega
  | stray rest => rfl
  | ended begun =>
    obtain ⟨room, opened, none, read⟩ := readOpen_begun begun fits [] []
    simp only [List.append_nil] at read
    simp only [next, read, readOpen]
    cases tokens <;> cases opened <;> simp_all
  | @oversized before rest word digits begun long =>
    have fits : before.length ≤ depth := Nat.le_trans (by simp) fits
    obtain ⟨room, opened, -, read⟩ := readOpen_begun begun fits [] (.word word :: rest)
    simp only [next, read, readOpen, ofWord_of_oversized long]

private theorem exists_spellsEach (tokens : List Token) :
    ∃ items tail data, tokens = items ++ tail ∧ SpellsEach items data ∧
      ((∃ rest, tail = .closing :: rest) ∨ Begun tail ∨
        ∃ more word digits rest, tail = more ++ .word word :: rest ∧ Begun more ∧
          Oversized digits word) := by
  -- By the number of tokens: after a list that is closed the rest is taken apart once more.
  induction hn : tokens.length using Nat.strongRecOn generalizing tokens with
  | _ n ih =>
    match tokens with
    | [] => exact ⟨[], [], [], rfl, .nil, .inr (.inl .nothing)⟩
    | .closing :: rest => exact ⟨[], _, [], rfl, .nil, .inl ⟨rest, rfl⟩⟩
    | .word text :: rest =>
      cases hw : ofWord text with
      | ok d =>
        obtain ⟨items, tail, data, rfl, each, htail⟩ := ih rest.length (by simp [← hn]) rest rfl
        exact ⟨.word text :: items, tail, d :: data, rfl, .cons (.atom hw) each, htail⟩
      | error failure =>
        obtain ⟨digits, -, long⟩ := oversized_of_ofWord hw
        exact ⟨[], _, [], rfl, .nil, .inr (.inr ⟨[], text, digits, rest, rfl, .nothing, long⟩)⟩
    | .opening :: rest =>
      obtain ⟨items, tail, data, rfl, each, htail⟩ := ih rest.length (by simp [← hn]) rest rfl
      rcases htail with ⟨rest, rfl⟩ | begun | ⟨more, word, digits, rest, rfl, begun, long⟩
      · obtain ⟨items', tail', data', rfl, each', htail'⟩ :=
          ih rest.length (by simp [← hn]; omega) rest rfl
        refine ⟨.opening :: (items ++ [.closing]) ++ items', tail', .list data :: data', by simp, ?_,
          htail'⟩
        exact .cons (.list each) each'
      · exact ⟨[], _, [], rfl, .nil, .inr (.inl (.list each begun))⟩
      · refine ⟨[], _, [], rfl, .nil, .inr (.inr ⟨.opening :: (items ++ more), word, digits, rest, ?_⟩)⟩
        exact ⟨by simp, .list each begun, long⟩

theorem exists_reads (tokens : List Token) : ∃ reading, Reads tokens reading := by
  obtain ⟨items, tail, data, rfl, each, htail⟩ := exists_spellsEach tokens
  cases each with
  | nil =>
    rcases htail with ⟨rest, rfl⟩ | begun | ⟨more, word, digits, rest, rfl, begun, long⟩
    · exact ⟨_, .stray rest⟩
    · exact ⟨_, .ended begun⟩
    · exact ⟨_, .oversized begun long⟩
  | cons first others =>
    rw [List.append_assoc]
    exact ⟨_, .form first⟩

private theorem Reads.finished (h : Reads tokens reading) : reading.1 ≠ .error .depthExhausted := by
  cases h <;> nofun

theorem readings_of_length_le {depth : Nat} (fits : tokens.length ≤ depth) :
    readings depth tokens = readings tokens.length tokens ∧
      .error .depthExhausted ∉ readings depth tokens := by
  induction hn : tokens.length using Nat.strongRecOn generalizing tokens depth with
  | _ n ih =>
    by_cases empty : tokens = []
    · subst empty
      exact ⟨rfl, List.not_mem_nil⟩
    obtain ⟨reading, reads⟩ := exists_reads tokens
    have read := reads.gives depth fits
    have shorter := next_length_lt depth empty
    rw [read, hn] at shorter
    have rest_fits : reading.2.length ≤ depth := by omega
    obtain ⟨same, finished⟩ := ih _ shorter rest_fits rfl
    obtain ⟨same', -⟩ := ih _ shorter (Nat.le_of_lt shorter) rfl
    rw [readings_of_ne_nil depth empty, readings_of_ne_nil n empty, read,
      reads.gives n (Nat.le_of_eq hn), same, same']
    refine ⟨rfl, fun hm => ?_⟩
    rcases List.mem_cons.mp hm with here | later
    · exact reads.finished here.symm
    · exact finished (same ▸ later)

private theorem Gives.unique {other : Reading} (h : Gives tokens reading)
    (h' : Gives tokens other) :
    other = reading :=
  (h' _ (Nat.le_refl _)).symm.trans (h _ (Nat.le_refl _))

private theorem gives_iff_reads : Gives tokens reading ↔ Reads tokens reading := by
  refine ⟨fun h => ?_, Reads.gives⟩
  obtain ⟨other, reads⟩ := exists_reads tokens
  rwa [← h.unique reads.gives]

/-- With less room the reader runs out or gives the same. -/
theorem Gives.exhausted_or_eq (h : Gives tokens reading) (depth : Nat) :
    (next depth tokens).1 = .error .depthExhausted ∨ next depth tokens = reading := by
  rw [← h (max depth tokens.length) (Nat.le_max_right _ _)]
  exact next_eq_of_le (Nat.le_max_left _ _) tokens

/-- Only one part of the tokens from their beginning spells a datum, and only one datum. -/
theorem spells_unique {form rest form' rest' : List Token} {d d' : Datum} (h : Spells form d)
    (h' : Spells form' d') (same : form ++ rest = form' ++ rest') : form = form' ∧ d = d' := by
  have reads : Gives (form' ++ rest') (.ok d, rest) := by
    rw [← same]
    exact Reads.gives (.form h)
  obtain ⟨hd, hr⟩ := Prod.mk.inj (Gives.unique (Reads.gives (.form h')) reads)
  cases hd
  cases hr
  exact ⟨List.append_cancel_right same, rfl⟩

theorem gives_ok_iff {d : Datum} :
    Gives tokens (.ok d, rest) ↔ ∃ form, tokens = form ++ rest ∧ Spells form d := by
  rw [gives_iff_reads]
  constructor
  · rintro ⟨⟩
    exact ⟨_, rfl, ‹_›⟩
  · rintro ⟨form, rfl, spelled⟩
    exact .form spelled

theorem gives_unmatchedClose_iff :
    Gives tokens (.error (.error .unmatchedClose), rest) ↔ tokens = .closing :: rest := by
  rw [gives_iff_reads]
  constructor
  · rintro ⟨⟩
    rfl
  · rintro rfl
    exact .stray rest

theorem gives_endOfInput_iff {inside : Bool} :
    Gives tokens (.error (.error (.endOfInput inside)), rest) ↔
      Unfinished tokens ∧ inside = !tokens.isEmpty ∧ rest = [] := by
  rw [gives_iff_reads, unfinished_iff_begun]
  constructor
  · rintro ⟨⟩
    exact ⟨‹_›, rfl, rfl⟩
  · rintro ⟨begun, rfl, rfl⟩
    exact .ended begun

theorem gives_digitLimit_iff {count : Option Nat} :
    Gives tokens (.error (.digitLimit count), rest) ↔
      ∃ before word digits, tokens = before ++ .word word :: rest ∧ Unfinished before ∧
        Oversized digits word ∧ count = some digits := by
  simp only [gives_iff_reads, unfinished_iff_begun]
  constructor
  · rintro ⟨⟩
    exact ⟨_, _, _, rfl, ‹_›, ‹_›, rfl⟩
  · rintro ⟨before, word, digits, rfl, begun, long, rfl⟩
    exact .oversized begun long

/-- There is one outcome of those four kinds, and with less room the reader gives the same or runs
out. -/
theorem exists_gives (tokens : List Token) : ∃ outcome rest, Gives tokens (outcome, rest) ∧
    (∀ reading, Gives tokens reading → reading = (outcome, rest)) ∧
    ((∃ d, outcome = .ok d) ∨ outcome = .error (.error .unmatchedClose) ∨
      (∃ inside, outcome = .error (.error (.endOfInput inside))) ∨
      ∃ count, outcome = .error (.digitLimit count)) ∧
    ∀ depth, (next depth tokens).1 = .error .depthExhausted ∨
      next depth tokens = (outcome, rest) := by
  obtain ⟨reading, reads⟩ := exists_reads tokens
  refine ⟨reading.1, reading.2, reads.gives, fun other => reads.gives.unique, ?_,
    reads.gives.exhausted_or_eq⟩
  cases reads with
  | form _ => exact .inl ⟨_, rfl⟩
  | stray _ => exact .inr (.inl rfl)
  | ended _ => exact .inr (.inr (.inl ⟨_, rfl⟩))
  | oversized _ _ => exact .inr (.inr (.inr ⟨_, rfl⟩))

theorem next_opening_ne_unmatchedClose (depth : Nat) (rest : List Token) :
    (next depth (.opening :: rest)).1 ≠ .error (.error .unmatchedClose) := by
  intro stray
  obtain ⟨outcome, left, gives, -, -, bounded⟩ := exists_gives (.opening :: rest)
  rcases bounded depth with exhausted | same
  · rw [exhausted] at stray
    cases stray
  · rw [same] at stray
    subst stray
    cases gives_unmatchedClose_iff.mp gives

/-- A read has exactly one outcome, and the tokens alone decide which: they begin with a form, which is
read as the datum that it spells; with a closing parenthesis, which is taken; they are unfinished,
and all are taken; or an integer that is too long comes after unfinished tokens, and is the last that
is taken. Every read takes a token if there is one, and a list is never ended by a stray parenthesis.
A read that is not allowed to nest deep enough runs out of room. -/
theorem next_outcomes (tokens : List Token) :
    (∀ d rest, Gives tokens (.ok d, rest) ↔ ∃ form, tokens = form ++ rest ∧ Spells form d) ∧
      (∀ form rest form' rest' d d', tokens = form ++ rest → Spells form d →
        tokens = form' ++ rest' → Spells form' d' → form = form' ∧ d = d') ∧
      (∀ rest, Gives tokens (.error (.error .unmatchedClose), rest) ↔ tokens = .closing :: rest) ∧
      (∀ inside rest, Gives tokens (.error (.error (.endOfInput inside)), rest) ↔
        Unfinished tokens ∧ inside = !tokens.isEmpty ∧ rest = []) ∧
      (∀ count rest, Gives tokens (.error (.digitLimit count), rest) ↔
        ∃ before word digits, tokens = before ++ .word word :: rest ∧ Unfinished before ∧
          Oversized digits word ∧ count = some digits) ∧
      (∃ outcome rest, Gives tokens (outcome, rest) ∧
        (∀ reading, Gives tokens reading → reading = (outcome, rest)) ∧
        ((∃ d, outcome = .ok d) ∨ outcome = .error (.error .unmatchedClose) ∨
          (∃ inside, outcome = .error (.error (.endOfInput inside))) ∨
          ∃ count, outcome = .error (.digitLimit count)) ∧
        ∀ depth, (next depth tokens).1 = .error .depthExhausted ∨
          next depth tokens = (outcome, rest)) ∧
      (∀ depth, tokens ≠ [] → (next depth tokens).2.length < tokens.length) ∧
      ∀ depth rest, tokens = .opening :: rest →
        (next depth tokens).1 ≠ .error (.error .unmatchedClose) := by
  refine ⟨fun d rest => gives_ok_iff, ?_, fun rest => gives_unmatchedClose_iff,
    fun inside rest => gives_endOfInput_iff, fun count rest => gives_digitLimit_iff,
    exists_gives tokens, fun depth => next_length_lt depth, ?_⟩
  · rintro form rest form' rest' d d' rfl spelled same spelled'
    exact spells_unique spelled spelled' same
  · rintro depth rest rfl
    exact next_opening_ne_unmatchedClose depth rest

end SmallScheme.Datum
