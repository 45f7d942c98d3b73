import SmallScheme.Proofs.Reading

/-!
How tokens fall into forms. A form is a word, or forms between parentheses; no form is the beginning of
another. So any tokens fall, in exactly one way, into forms, closing parentheses outside any list, and
perhaps at the end the beginning of a form that is not closed. The reader takes them item by item: a
form is read as the datum that it spells, unless it is beyond what the reader can take at all.
-/

set_option autoImplicit false
set_option relaxedAutoImplicit false

namespace SmallScheme.Token

mutual

/-- The tokens of one form. -/
inductive IsForm : List Token → Prop
  | word (text : String) : IsForm [.word text]
  | list {tokens : List Token} : AreForms tokens → IsForm (.opening :: (tokens ++ [.closing]))

inductive AreForms : List Token → Prop
  | nil : AreForms []
  | cons {tokens others : List Token} : IsForm tokens → AreForms others →
      AreForms (tokens ++ others)

end

variable {a b x y tokens : List Token}

private theorem IsForm.head (h : IsForm a) : ∃ t rest, a = t :: rest ∧ t ≠ .closing := by
  cases h with
  | word text => exact ⟨_, _, rfl, nofun⟩
  | list _ => exact ⟨_, _, rfl, nofun⟩

theorem IsForm.ne_nil (h : IsForm a) : a ≠ [] := by
  obtain ⟨t, rest, rfl, -⟩ := h.head
  exact List.cons_ne_nil t rest

private theorem IsForm.append_ne_closing (h : IsForm a) (x y : List Token) :
    a ++ x ≠ .closing :: y := by
  obtain ⟨t, rest, rfl, hne⟩ := h.head
  intro he
  exact hne (List.cons.inj he).1

mutual

private theorem IsForm.append_inj {a b x y : List Token} (ha : IsForm a) (hb : IsForm b)
    (h : a ++ x = b ++ y) : a = b ∧ x = y := by
  match ha with
  | .word text =>
    cases hb with
    | word other => simpa using h
    | list _ => simp at h
  | @IsForm.list forms hforms =>
    cases hb with
    | word other => simp at h
    | @list others hothers =>
      have inner : forms ++ .closing :: x = others ++ .closing :: y := by simpa using h
      obtain ⟨rfl, rfl⟩ := AreForms.append_closing_inj hforms hothers inner
      exact ⟨rfl, rfl⟩

private theorem AreForms.append_closing_inj {a b x y : List Token} (ha : AreForms a)
    (hb : AreForms b) (h : a ++ .closing :: x = b ++ .closing :: y) : a = b ∧ x = y := by
  match ha with
  | .nil =>
    cases hb with
    | nil => simpa using h
    | @cons form others hform _ =>
      rw [List.append_assoc] at h
      exact absurd h.symm (hform.append_ne_closing _ _)
  | @AreForms.cons form rest hform hrest =>
    rw [List.append_assoc] at h
    cases hb with
    | nil => exact absurd h (hform.append_ne_closing _ _)
    | @cons form' rest' hform' hrest' =>
      rw [List.append_assoc] at h
      obtain ⟨rfl, later⟩ := IsForm.append_inj hform hform' h
      obtain ⟨rfl, rfl⟩ := AreForms.append_closing_inj hrest hrest' later
      exact ⟨rfl, rfl⟩

end

private theorem AreForms.append_form {a b : List Token} (ha : AreForms a) (hb : IsForm b) :
    AreForms (a ++ b) := by
  match ha with
  | .nil => simpa using AreForms.cons hb .nil
  | .cons hform hrest =>
    rw [List.append_assoc]
    exact .cons hform (AreForms.append_form hrest hb)

/-- The beginning of a form, but not the whole form. -/
def Unclosed (tokens : List Token) : Prop :=
  tokens ≠ [] ∧ ∃ rest, rest ≠ [] ∧ IsForm (tokens ++ rest)

private theorem Unclosed.not_form_append (h : Unclosed (a ++ x)) : ¬ IsForm a := by
  intro ha
  obtain ⟨-, rest, hne, whole⟩ := h
  have whole' : IsForm (a ++ (x ++ rest)) := by rwa [List.append_assoc] at whole
  obtain ⟨-, nothing⟩ := ha.append_inj (x := x ++ rest) (y := []) whole' (by simp)
  exact hne (List.append_eq_nil_iff.mp nothing).2

private theorem Unclosed.ne_closing_cons (h : Unclosed tokens) (y : List Token) :
    tokens ≠ .closing :: y := by
  rintro rfl
  obtain ⟨-, rest, -, whole⟩ := h
  obtain ⟨t, others, he, hne⟩ := whole.head
  exact hne (List.cons.inj he).1.symm

/-- What tokens fall into. -/
inductive Item where
  | form (tokens : List Token)
  /-- A closing parenthesis outside any list. -/
  | stray
  | unclosed (tokens : List Token)
  deriving DecidableEq

/-- The tokens fall into the items. -/
inductive Splits : List Token → List Item → Prop
  | nil : Splits [] []
  | form {tokens rest : List Token} {items : List Item} : IsForm tokens → Splits rest items →
      Splits (tokens ++ rest) (.form tokens :: items)
  | stray {rest : List Token} {items : List Item} : Splits rest items →
      Splits (.closing :: rest) (.stray :: items)
  | unclosed {tokens : List Token} : Unclosed tokens → Splits tokens [.unclosed tokens]

theorem Splits.unique {items items' : List Item} (h : Splits a items) (h' : Splits b items')
    (he : a = b) : items = items' := by
  induction h generalizing b items' with
  | nil =>
    cases h' with
    | nil => rfl
    | form hform _ => exact absurd (List.append_eq_nil_iff.mp he.symm).1 hform.ne_nil
    | stray _ => cases he
    | unclosed hopen => exact absurd he.symm hopen.1
  | @form tokens rest items hform _ ih =>
    cases h' with
    | nil => exact absurd (List.append_eq_nil_iff.mp he).1 hform.ne_nil
    | form hform' hrest' =>
      obtain ⟨rfl, later⟩ := hform.append_inj hform' he
      rw [ih hrest' later]
    | stray _ => exact absurd he (hform.append_ne_closing _ _)
    | unclosed hopen => exact absurd hform (he ▸ hopen).not_form_append
  | stray _ ih =>
    cases h' with
    | nil => cases he
    | form hform' _ => exact absurd he.symm (hform'.append_ne_closing _ _)
    | stray hrest' => rw [ih hrest' (List.cons.inj he).2]
    | unclosed hopen => exact absurd he.symm (hopen.ne_closing_cons _)
  | unclosed hopen =>
    cases h' with
    | nil => exact absurd he hopen.1
    | form hform' _ => exact absurd hform' (he ▸ hopen).not_form_append
    | stray _ => exact absurd he (hopen.ne_closing_cons _)
    | unclosed _ => rw [he]

/-- Any tokens begin with forms, after which there is nothing, a closing parenthesis, or something that
is not closed. -/
theorem exists_forms (tokens : List Token) : ∃ forms tail, tokens = forms ++ tail ∧
    AreForms forms ∧ (tail = [] ∨ (∃ rest, tail = .closing :: rest) ∨ Unclosed tail) := by
  induction hn : tokens.length using Nat.strongRecOn generalizing tokens with
  | _ n ih =>
    match tokens with
    | [] => exact ⟨[], [], rfl, .nil, .inl rfl⟩
    | .closing :: rest => exact ⟨[], _, rfl, .nil, .inr (.inl ⟨rest, rfl⟩)⟩
    | .word text :: rest =>
      obtain ⟨forms, tail, rfl, hforms, htail⟩ := ih rest.length (by simp [← hn]) rest rfl
      exact ⟨[.word text] ++ forms, tail, rfl, .cons (.word text) hforms, htail⟩
    | .opening :: rest =>
      obtain ⟨forms, tail, rfl, hforms, htail⟩ := ih rest.length (by simp [← hn]) rest rfl
      rcases htail with rfl | ⟨rest, rfl⟩ | ⟨-, missing, hne, whole⟩
      · refine ⟨[], _, rfl, .nil, .inr (.inr ⟨List.cons_ne_nil _ _, [.closing], by simp, ?_⟩)⟩
        simpa using IsForm.list hforms
      · obtain ⟨forms', tail', rfl, hforms', htail'⟩ := ih rest.length (by simp [← hn]; omega) rest rfl
        refine ⟨.opening :: (forms ++ [.closing]) ++ forms', tail', by simp, ?_, htail'⟩
        exact .cons (.list hforms) hforms'
      · have completed : IsForm (.opening :: (forms ++ (tail ++ missing) ++ [.closing])) :=
          .list (hforms.append_form whole)
        refine ⟨[], _, rfl, .nil, .inr (.inr ⟨List.cons_ne_nil _ _, missing ++ [.closing], ?_, ?_⟩)⟩
        · simp
        · simpa using completed

private theorem AreForms.splits {a x : List Token} (h : AreForms a) {items : List Item}
    (hx : Splits x items) : ∃ items', Splits (a ++ x) items' := by
  match h with
  | .nil => exact ⟨items, hx⟩
  | .cons hform hrest =>
    obtain ⟨items', hs⟩ := AreForms.splits hrest hx
    rw [List.append_assoc]
    exact ⟨_, .form hform hs⟩

theorem exists_splits (tokens : List Token) : ∃ items, Splits tokens items := by
  induction hn : tokens.length using Nat.strongRecOn generalizing tokens with
  | _ n ih =>
    obtain ⟨forms, tail, rfl, hforms, rfl | ⟨rest, rfl⟩ | hopen⟩ := exists_forms tokens
    · exact hforms.splits .nil
    · obtain ⟨items, hs⟩ := ih rest.length (by simp [← hn]; omega) rest rfl
      exact hforms.splits (.stray hs)
    · exact hforms.splits (.unclosed hopen)

end SmallScheme.Token

namespace SmallScheme

/-- A failure that is no error of the program, so that nothing after it runs. -/
def Failure.Fatal (failure : Failure) : Prop :=
  ∀ e, failure ≠ .error e

theorem Failure.Fatal.digitLimit (digits : Option Nat) : (Failure.digitLimit digits).Fatal := by
  intro e h
  cases h

theorem Failure.Fatal.depthExhausted : Failure.depthExhausted.Fatal := by
  intro e h
  cases h

theorem Failure.Fatal.interrupted : Failure.interrupted.Fatal := by
  intro e h
  cases h

/-- An outcome that is such a failure, with what is left at it. -/
def FailsFatally {α β : Type} (result : Except Failure α × β) : Prop :=
  ∃ failure, failure.Fatal ∧ result.1 = .error failure

inductive Failure.Reading (tokens : List Token) : Failure → Prop
  | endOfInput (inside : Bool) : Reading tokens (.error (.endOfInput inside))
  | unmatchedClose : Reading tokens (.error .unmatchedClose)
  | depthExhausted : Reading tokens .depthExhausted
  | digitLimit {word : String} {digits : Nat} : .word word ∈ tokens → Datum.Oversized digits word →
      Reading tokens (.digitLimit (some digits))

private theorem Failure.Reading.cons {tokens : List Token} {failure : Failure}
    (h : failure.Reading tokens) (t : Token) : failure.Reading (t :: tokens) := by
  cases h with
  | endOfInput inside => exact .endOfInput inside
  | unmatchedClose => exact .unmatchedClose
  | depthExhausted => exact .depthExhausted
  | digitLimit hw large => exact .digitLimit (List.mem_cons_of_mem t hw) large

namespace Datum

open Token (IsForm AreForms Unclosed)

private theorem reading_of_readOpen {room : Nat} {lists : List (List Datum)} {tokens : List Token}
    {failure : Failure} (h : (readOpen room lists tokens).1 = .error failure) :
    failure.Reading tokens := by
  induction tokens generalizing room lists with
  | nil =>
    cases h
    exact .endOfInput _
  | cons t tokens ih =>
    cases t with
    | opening =>
      cases room with
      | zero =>
        cases h
        exact .depthExhausted
      | succ room => exact (ih h).cons _
    | closing =>
      match lists with
      | [] =>
        cases h
        exact .unmatchedClose
      | [items] => cases h
      | items :: outer :: others => exact Failure.Reading.cons (ih h) _
    | word text =>
      cases hw : ofWord text with
      | error other =>
        obtain ⟨digits, rfl, large⟩ := oversized_of_ofWord hw
        simp only [readOpen, hw] at h
        cases h
        exact .digitLimit List.mem_cons_self large
      | ok atom =>
        cases lists with
        | nil => simp [readOpen, hw] at h
        | cons items others =>
          simp only [readOpen, hw] at h
          exact (ih h).cons _

/-- Tokens that cannot be read end too early, close a list that is not open, nest too deep, or hold an
integer with too many digits. -/
theorem reading_of_next {depth : Nat} {tokens : List Token} {failure : Failure}
    (h : (next depth tokens).1 = .error failure) : failure.Reading tokens :=
  reading_of_readOpen h

mutual

private theorem spells_of_isForm {tokens : List Token} (h : IsForm tokens) (room : Nat) :
    (∃ d, Spells tokens d ∧ d.height ≤ room) ∨
      ∀ lists rest, FailsFatally (readOpen room lists (tokens ++ rest)) := by
  match h with
  | .word text =>
    cases hw : ofWord text with
    | ok d =>
      have flat : d.height = 0 := height_ofWord hw
      exact .inl ⟨d, .atom hw, flat ▸ Nat.zero_le room⟩
    | error failure =>
      obtain ⟨digits, rfl⟩ := ofWord_error hw
      exact .inr fun lists rest => ⟨_, .digitLimit digits, by simp [readOpen, hw]⟩
  | @IsForm.list inner hinner =>
    cases room with
    | zero => exact .inr fun lists rest => ⟨_, .depthExhausted, rfl⟩
    | succ room =>
      rcases spellsEach_of_areForms hinner room with ⟨data, each, fits⟩ | fails
      · exact .inl ⟨.list data, .list each, Nat.succ_le_succ fits⟩
      · refine .inr fun lists rest => ?_
        have failed := fails [] lists (.closing :: rest)
        simpa [readOpen] using failed

private theorem spellsEach_of_areForms {tokens : List Token} (h : AreForms tokens) (room : Nat) :
    (∃ data, SpellsEach tokens data ∧ heights data ≤ room) ∨
      ∀ items others rest, FailsFatally (readOpen room (items :: others) (tokens ++ rest)) := by
  match h with
  | .nil => exact .inl ⟨[], .nil, Nat.zero_le room⟩
  | @AreForms.cons form more hform hmore =>
    rcases spells_of_isForm hform room with ⟨d, first, fits⟩ | fails
    · rcases spellsEach_of_areForms hmore room with ⟨data, each, fit⟩ | fails
      · exact .inl ⟨d :: data, .cons first each, Nat.max_le.mpr ⟨fits, fit⟩⟩
      · refine .inr fun items others rest => ?_
        rw [List.append_assoc, readOpen_spells first fits]
        exact fails (d :: items) others rest
    · refine .inr fun items others rest => ?_
      rw [List.append_assoc]
      exact fails (items :: others) (more ++ rest)

end

/-- A form is read as the datum that it spells, and what follows it is left. -/
theorem next_of_isForm {tokens : List Token} (h : IsForm tokens) (depth : Nat) (rest : List Token) :
    (∃ d, Spells tokens d ∧ next depth (tokens ++ rest) = (.ok d, rest)) ∨
      FailsFatally (next depth (tokens ++ rest)) := by
  rcases spells_of_isForm h depth with ⟨d, spelled, fits⟩ | fails
  · exact .inl ⟨d, spelled, next_of_spells spelled fits rest⟩
  · exact .inr (fails [] rest)

/-- Whether a form can be read does not depend on what follows it. -/
theorem next_of_isForm_append {tokens : List Token} (h : IsForm tokens) (depth : Nat)
    (rest : List Token) : (next depth tokens).1 = (next depth (tokens ++ rest)).1 := by
  rcases next_eq_endOfInput_or depth h.ne_nil rest with ended | same
  · obtain ⟨failure, fatal, failed⟩ : FailsFatally (next depth tokens) := by
      rcases next_of_isForm h depth [] with ⟨d, -, read⟩ | fails
      · rw [List.append_nil, ended] at read
        cases read
      · rwa [List.append_nil] at fails
    rw [ended] at failed
    cases failed
    exact absurd rfl (fatal _)
  · rw [same]

theorem next_of_unclosed {tokens : List Token} (h : Unclosed tokens) (depth : Nat) :
    next depth tokens = (.error (.error (.endOfInput true)), []) ∨
      FailsFatally (next depth tokens) := by
  obtain ⟨hne, missing, hmissing, whole⟩ := h
  rcases next_eq_endOfInput_or depth hne missing with ended | same
  · exact .inl ended
  refine .inr ?_
  rcases next_of_isForm whole depth [] with ⟨d, -, read⟩ | fails
  · rw [List.append_nil, same] at read
    exact absurd (List.append_eq_nil_iff.mp (Prod.mk.inj read).2).2 hmissing
  · rw [List.append_nil, same] at fails
    exact fails

theorem exists_form_of_next {depth : Nat} {tokens rest : List Token} {d : Datum}
    (h : next depth tokens = (.ok d, rest)) :
    ∃ form, tokens = form ++ rest ∧ Spells form d ∧ d.height ≤ depth := by
  obtain ⟨items, split⟩ := Token.exists_splits tokens
  cases split with
  | nil => cases h
  | @form form others items hform _ =>
    rcases spells_of_isForm hform depth with ⟨datum, spelled, fits⟩ | fails
    · rw [next_of_spells spelled fits] at h
      cases h
      exact ⟨form, rfl, spelled, fits⟩
    · obtain ⟨failure, -, failed⟩ : FailsFatally (next depth (form ++ others)) := fails [] others
      rw [h] at failed
      cases failed
  | stray _ => cases h
  | unclosed hopen =>
    rcases next_of_unclosed hopen depth with ended | ⟨failure, -, failed⟩
    · rw [ended] at h
      cases h
    · rw [h] at failed
      cases failed

end Datum

end SmallScheme
