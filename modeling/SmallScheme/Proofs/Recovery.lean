import Mathlib.Logic.ExistsUnique
import SmallScheme.Proofs.Effect
import SmallScheme.Proofs.Grammar

/-!
Evaluating a text with recovery. The items that the tokens of a text fall into are taken in order, each
on the machine that the one before it left: a form is evaluated once, and if it fails what it did until
then stays; a closing parenthesis outside any list is skipped; a list that is not closed ends the text.
Each failure is one report, and the reports are counted.
-/

set_option autoImplicit false
set_option relaxedAutoImplicit false

namespace SmallScheme

namespace Journal

/-- The messages of the reports of errors. -/
def errors (j : Journal) : List String :=
  j.reports.toList.filterMap fun r => if r.severity = .error then some r.message else none

/-- What the journal keeps of the reports of errors: all or nothing. -/
def kept (j : Journal) (errors : List Error) : List String :=
  if j.threshold ≤ Severity.error.rank then errors.map Error.report else []

@[simp] theorem threshold_add (j : Journal) (r : Report) : (j.add r).threshold = j.threshold := by
  unfold add
  split <;> rfl

@[simp] theorem errors_add_debug (j : Journal) (message : String) :
    (j.add ⟨.debug, message⟩).errors = j.errors := by
  unfold add errors
  split <;> simp

@[simp] theorem errors_add_error (j : Journal) (e : Error) :
    (j.add ⟨.error, e.report⟩).errors = j.errors ++ j.kept [e] := by
  by_cases keeps : j.threshold ≤ Severity.error.rank
  · simp [add, errors, kept, keeps]
  · simp [add, kept, keeps]

theorem kept_append (j : Journal) (first second : List Error) :
    j.kept (first ++ second) = j.kept first ++ j.kept second := by
  unfold kept
  split
  · exact List.map_append
  · rfl

theorem kept_of_threshold {j j' : Journal} (h : j'.threshold = j.threshold) (errors : List Error) :
    j'.kept errors = j.kept errors := by
  simp only [kept, h]

end Journal

namespace Machine

def reporting (m : Machine) (e : Error) : Machine :=
  { m with journal := m.journal.add ⟨.error, e.report⟩ }

def printing (m : Machine) (lines : List String) : Machine :=
  { m with transcript := m.transcript ++ (lines.map fun line => .output (line ++ "\n")).toArray }

/-- From one machine to the other nothing is written, and no error is reported. -/
structure Quiet (m n : Machine) : Prop where
  transcript : n.transcript = m.transcript
  threshold : n.journal.threshold = m.journal.threshold
  errors : n.journal.errors = m.journal.errors

theorem Quiet.refl (m : Machine) : m.Quiet m :=
  ⟨rfl, rfl, rfl⟩

theorem Quiet.trans {m n o : Machine} (h : m.Quiet n) (h' : n.Quiet o) : m.Quiet o :=
  ⟨h'.transcript.trans h.transcript, h'.threshold.trans h.threshold, h'.errors.trans h.errors⟩

/-- From one machine to the other, errors with the given property are reported and no others. -/
structure Reports (P : Error → Prop) (m n : Machine) : Prop where
  threshold : n.journal.threshold = m.journal.threshold
  errors : ∃ errors, (∀ e ∈ errors, P e) ∧
    n.journal.errors = m.journal.errors ++ m.journal.kept errors

namespace Reports

variable {P : Error → Prop} {m n o : Machine}

theorem of_none (threshold : n.journal.threshold = m.journal.threshold)
    (errors : n.journal.errors = m.journal.errors) : m.Reports P n :=
  ⟨threshold, [], by simp, by simp [errors, Journal.kept]⟩

theorem of_quiet (h : m.Quiet n) : m.Reports P n :=
  .of_none h.threshold h.errors

private theorem one {e : Error} (h : P e) (m : Machine) : m.Reports P (m.reporting e) :=
  ⟨Journal.threshold_add _ _, [e], by simpa using h, Journal.errors_add_error _ _⟩

theorem trans (h : m.Reports P n) (h' : n.Reports P o) : m.Reports P o := by
  obtain ⟨first, hfirst, errors⟩ := h.errors
  obtain ⟨second, hsecond, errors'⟩ := h'.errors
  refine ⟨h'.threshold.trans h.threshold, first ++ second, fun e he => ?_, ?_⟩
  · exact (List.mem_append.mp he).elim (hfirst e) (hsecond e)
  · rw [errors', errors, Journal.kept_append, Journal.kept_of_threshold h.threshold,
      List.append_assoc]

end Reports

end Machine

/-- Evaluation writes nothing and reports no error: that is left to what the evaluation is for. -/
def Effect.quiet : Effect where
  inside _ := Machine.Quiet
  outside := Machine.Quiet
  refl := .refl
  outside_trans := .trans
  inside_trans := .trans
  inside_of_outside := id
  define _ _ _ _ := ⟨rfl, rfl, rfl⟩
  assign _ _ := ⟨rfl, rfl, rfl⟩
  make _ := ⟨rfl, rfl, rfl⟩
  load _ _ := ⟨rfl, rfl, rfl⟩
  note _ _ := ⟨rfl, by simp, by simp⟩
  enter h := ⟨h.transcript, h.threshold, h.errors⟩

private theorem Error.eq_endOfInput {e : Error} (h : e.kind = .unexpectedEndOfInput) :
    ∃ inside, e = .endOfInput inside := by
  cases e with
  | endOfInput inside => exact ⟨inside, rfl⟩
  | numeric callee fault => cases fault <;> cases h
  | _ => cases h

def Token.Item.tokens : Token.Item → List Token
  | .form tokens => tokens
  | .stray => [.closing]
  | .unclosed tokens => tokens

namespace Program

open Token (Item Splits)

variable {depth : Nat} {frame : FrameId} {echo : Bool} {m n o : Machine}

/-- What is printed of a result: with echo, the text of any value but the unit value. -/
inductive Echoes (depth : Nat) : Bool → Value → List String → Prop
  | off (v : Value) : Echoes depth false v []
  | unit : Echoes depth true .unit []
  | text {v : Value} {text : String} : v ≠ .unit → v.display depth = .ok text →
      Echoes depth true v [text]

/-- What the items of a text come to: from one machine to another, with the errors reported and the
lines printed on the way. -/
inductive Recovers (depth : Nat) (frame : FrameId) (echo : Bool) :
    List Item → Machine → List Error → List String → Machine → Prop
  | nil (m : Machine) : Recovers depth frame echo [] m [] [] m
  | succeeded {tokens : List Token} {items : List Item} {d : Datum} {v : Value} {m n o : Machine}
      {errors : List Error} {line lines : List String} :
      Datum.Spells tokens d → evalDatum depth frame d m = (.ok v, n) → Echoes depth echo v line →
      Recovers depth frame echo items (n.printing line) errors lines o →
      Recovers depth frame echo (.form tokens :: items) m errors (line ++ lines) o
  | failed {tokens : List Token} {items : List Item} {d : Datum} {e : Error} {m n o : Machine}
      {errors : List Error} {lines : List String} :
      Datum.Spells tokens d → evalDatum depth frame d m = (.error (.error e), n) →
      e.kind.family ≠ .reading →
      Recovers depth frame echo items (n.reporting e) errors lines o →
      Recovers depth frame echo (.form tokens :: items) m (e :: errors) lines o
  | stray {items : List Item} {m o : Machine} {errors : List Error} {lines : List String} :
      Recovers depth frame echo items (m.reporting .unmatchedClose) errors lines o →
      Recovers depth frame echo (.stray :: items) m (.unmatchedClose :: errors) lines o
  | unclosed (tokens : List Token) (m : Machine) :
      Recovers depth frame echo [.unclosed tokens] m [.endOfInput true] []
        (m.reporting (.endOfInput true))

theorem evalDatum_quiet {d : Datum} {outcome : Except Failure Value}
    (h : evalDatum depth frame d m = (outcome, n)) : m.Quiet n := by
  have effect := (Effect.quiet.evalDatum_keeps depth frame d).effect m
  rwa [h] at effect

theorem Recovers.transcript {items : List Item} {errors : List Error} {lines : List String}
    (h : Recovers depth frame echo items m errors lines o) :
    o.transcript.toList = m.transcript.toList ++ lines.map fun line => .output (line ++ "\n") := by
  induction h with
  | nil m => simp
  | succeeded _ evaluated _ _ ih => simp [ih, Machine.printing, (evalDatum_quiet evaluated).transcript]
  | failed _ evaluated _ _ ih => simp [ih, Machine.reporting, (evalDatum_quiet evaluated).transcript]
  | stray _ ih => simp [ih, Machine.reporting]
  | unclosed tokens m => simp [Machine.reporting]

private theorem reported_cons {e : Error} {errors : List Error} (quiet : m.Quiet n)
    (h : o.journal.errors =
      (n.reporting e).journal.errors ++ (n.reporting e).journal.kept errors) :
    o.journal.errors = m.journal.errors ++ m.journal.kept (e :: errors) := by
  have same : (n.journal.add ⟨.error, e.report⟩).threshold = m.journal.threshold := by
    rw [Journal.threshold_add, quiet.threshold]
  rw [h, Machine.reporting, Journal.errors_add_error, quiet.errors, List.append_assoc,
    Journal.kept_of_threshold quiet.threshold, Journal.kept_of_threshold same, ← Journal.kept_append]
  rfl

theorem Recovers.journal_errors {items : List Item} {errors : List Error} {lines : List String}
    (h : Recovers depth frame echo items m errors lines o) :
    o.journal.errors = m.journal.errors ++ m.journal.kept errors := by
  induction h with
  | nil m => simp [Journal.kept]
  | @succeeded _ _ _ _ m n _ errors _ _ _ evaluated _ _ ih =>
    have quiet := evalDatum_quiet evaluated
    rw [ih]
    simp only [Machine.printing]
    rw [quiet.errors, Journal.kept_of_threshold quiet.threshold]
  | failed _ evaluated _ _ ih => exact reported_cons (evalDatum_quiet evaluated) ih
  | stray _ ih => exact reported_cons (.refl _) ih
  | unclosed tokens m => exact reported_cons (.refl m) (by simp [Journal.kept])

/-- A datum that was read ends the evaluation of the text: by its own evaluation, or with echo when the
result is to be written. -/
inductive Breaks (depth : Nat) (frame : FrameId) : Bool → Datum → Machine → Failure → Machine → Prop
  | evaluated {echo : Bool} {d : Datum} {failure : Failure} {m n : Machine} : failure.Fatal →
      evalDatum depth frame d m = (.error failure, n) → Breaks depth frame echo d m failure n
  | shown {d : Datum} {v : Value} {failure : Failure} {m n : Machine} : failure.Fatal →
      evalDatum depth frame d m = (.ok v, n) → v.display depth = .error failure →
      Breaks depth frame true d m failure n

/-- An item ends the evaluation of the text: it cannot be read, or the datum that it spells ends it. -/
inductive BreaksAt (depth : Nat) (frame : FrameId) (echo : Bool) :
    Item → Machine → Failure → Machine → Prop
  | unread {item : Item} {failure : Failure} {m : Machine} : failure.Fatal →
      (Datum.next depth item.tokens).1 = .error failure → BreaksAt depth frame echo item m failure m
  | datum {tokens : List Token} {d : Datum} {failure : Failure} {m n : Machine} :
      Datum.Spells tokens d → Breaks depth frame echo d m failure n →
      BreaksAt depth frame echo (.form tokens) m failure n

/-- The evaluation of the items ends at one of them, after the errors of those before it. -/
def BreaksOff (depth : Nat) (frame : FrameId) (echo : Bool) (items : List Item) (m : Machine)
    (errors : List Error) (failure : Failure) (o : Machine) : Prop :=
  ∃ done item rest lines n, items = done ++ item :: rest ∧
    Recovers depth frame echo done m errors lines n ∧ BreaksAt depth frame echo item n failure o

private theorem BreaksOff.here {item : Item} {rest : List Item} {failure : Failure}
    (h : BreaksAt depth frame echo item m failure o) :
    BreaksOff depth frame echo (item :: rest) m [] failure o :=
  ⟨[], item, rest, [], m, rfl, .nil m, h⟩

private theorem BreaksOff.past {item : Item} {items : List Item} {errors all : List Error}
    {failure : Failure} (h : BreaksOff depth frame echo items n errors failure o)
    (past : ∀ {done : List Item} {lines : List String} {n' : Machine},
      Recovers depth frame echo done n errors lines n' →
        ∃ lines', Recovers depth frame echo (item :: done) m all lines' n') :
    BreaksOff depth frame echo (item :: items) m all failure o := by
  obtain ⟨done, last, rest, lines, n', rfl, recovers, breaks⟩ := h
  obtain ⟨lines', recovers⟩ := past recovers
  exact ⟨item :: done, last, rest, lines', n', rfl, recovers, breaks⟩

private theorem Breaks.fatal {d : Datum} {failure : Failure}
    (h : Breaks depth frame echo d m failure n) : failure.Fatal := by
  cases h with
  | evaluated fatal _ => exact fatal
  | shown fatal _ _ => exact fatal

private theorem Breaks.quiet {d : Datum} {failure : Failure}
    (h : Breaks depth frame echo d m failure n) : m.Quiet n := by
  cases h with
  | evaluated _ evaluated => exact evalDatum_quiet evaluated
  | shown _ evaluated _ => exact evalDatum_quiet evaluated

theorem BreaksAt.fatal {item : Item} {failure : Failure}
    (h : BreaksAt depth frame echo item m failure n) : failure.Fatal := by
  cases h with
  | unread fatal _ => exact fatal
  | datum _ breaks => exact breaks.fatal

private theorem print_cases (depth : Nat) (v : Value) (m : Machine) :
    (∃ line, Echoes depth true v line ∧ print depth v m = (.ok (), m.printing line)) ∨
      ∃ failure, failure.Fatal ∧ v.display depth = .error failure ∧
        print depth v m = (.error failure, m) := by
  by_cases unit : v = .unit
  · rw [unit]
    exact .inl ⟨[], .unit, by simp [print, Machine.printing, Action.pure_apply]⟩
  have shown : print depth v = (do
      let text ← Action.lift (v.display depth)
      Action.emit (.output (text ++ "\n")) : Action Unit) := by
    unfold print
    split
    · exact absurd rfl unit
    · rfl
  simp only [shown, Action.bind_apply, Action.lift]
  cases written : v.display depth with
  | ok text => exact .inl ⟨[text], .text unit written, by simp [Action.emit, Machine.printing]⟩
  | error failure =>
    refine .inr ⟨failure, ?_, rfl, rfl⟩
    cases FailsWith.writing .display depth v failure written with
    | digitLimit => exact .digitLimit none
    | depthExhausted => exact .depthExhausted

private theorem step_of_datum (depth : Nat) (frame : FrameId) (echo : Bool) (failures : Nat)
    (d : Datum) (m : Machine) :
    (∃ v n line, evalDatum depth frame d m = (.ok v, n) ∧ Echoes depth echo v line ∧
      step depth frame echo failures (.ok d) m = (.ok failures, n.printing line)) ∨
    (∃ e n, evalDatum depth frame d m = (.error (.error e), n) ∧ e.kind.family ≠ .reading ∧
      step depth frame echo failures (.ok d) m = (.ok (failures + 1), n.reporting e)) ∨
    ∃ failure n, Breaks depth frame echo d m failure n ∧
      step depth frame echo failures (.ok d) m = (.error failure, n) := by
  have fails := (Effect.quiet.evalDatum_keeps depth frame d).failure m
  simp only [step, Action.attempt, Action.lift, Action.bind_apply]
  rcases evaluated : evalDatum depth frame d m with ⟨failure | v, n⟩
  · rw [evaluated] at fails
    cases fails failure rfl with
    | @error e family => exact .inr (.inl ⟨e, n, rfl, family, rfl⟩)
    | digitLimit => exact .inr (.inr ⟨_, n, .evaluated (.digitLimit none) evaluated, rfl⟩)
    | depthExhausted => exact .inr (.inr ⟨_, n, .evaluated .depthExhausted evaluated, rfl⟩)
    | interrupted => exact .inr (.inr ⟨_, n, .evaluated .interrupted evaluated, rfl⟩)
  · cases echo with
    | false => exact .inl ⟨v, n, [], rfl, .off v, by simp [Machine.printing, Action.pure_apply]⟩
    | true =>
      simp only [if_true]
      rcases print_cases depth v n with ⟨line, echoes, printed⟩ | ⟨failure, fatal, unwritten, printed⟩
      · exact .inl ⟨v, n, line, rfl, echoes, by rw [Action.bind_apply, printed]; rfl⟩
      · exact .inr (.inr ⟨failure, n, .shown fatal evaluated unwritten,
          by rw [Action.bind_apply, printed]⟩)

private theorem step_of_fatal {failure : Failure} (fatal : failure.Fatal) (failures : Nat)
    (m : Machine) :
    step depth frame echo failures (.error failure) m = (.error failure, m) := by
  cases failure with
  | error e => exact absurd rfl (fatal e)
  | _ => rfl

private theorem step_of_error (e : Error) (failures : Nat) (m : Machine) :
    step depth frame echo failures (.error (.error e)) m = (.ok (failures + 1), m.reporting e) :=
  rfl

/-- However the evaluation of a text ends, what it reports as an error is errors of its readings and of
evaluation. -/
theorem evalSource_reports {P : Error → Prop} (evaluating : ∀ e, e.kind.family ≠ .reading → P e)
    {source : String}
    (reading : ∀ e, .error (.error e) ∈ Datum.readings depth (Token.tokenize source) → P e)
    (m : Machine) : m.Reports P (evalSource depth frame echo source m).2 := by
  refine Action.foldlM_effect (fun m => .of_quiet (.refl m)) .trans (fun failures r hr m => ?_) 0 m
  cases r with
  | error failure =>
    cases failure with
    | error e => exact .one (reading e hr) m
    | _ => exact .of_quiet (.refl m)
  | ok d =>
    rcases step_of_datum depth frame echo failures d m with
      ⟨v, n, line, evaluated, -, stepped⟩ | ⟨e, n, evaluated, family, stepped⟩ |
        ⟨failure, n, breaks, stepped⟩
    · have quiet := evalDatum_quiet evaluated
      rw [stepped]
      exact .of_none quiet.threshold quiet.errors
    · rw [stepped]
      exact .trans (.of_quiet (evalDatum_quiet evaluated)) (.one (evaluating e family) n)
    · rw [stepped]
      exact .of_quiet breaks.quiet

theorem evalSource_reports_of_complete (depth : Nat) (frame : FrameId) (echo : Bool)
    {source : String} (complete : Token.needsMore (Token.tokenize source) = false) (m : Machine) :
    m.Reports (·.kind ≠ .unexpectedEndOfInput) (evalSource depth frame echo source m).2 := by
  have evaluating (e : Error) (family : e.kind.family ≠ .reading) : e.kind ≠ .unexpectedEndOfInput := by
    intro ended
    rw [ended] at family
    exact family rfl
  refine evalSource_reports evaluating (fun e he ended => ?_) m
  obtain ⟨inside, rfl⟩ := Error.eq_endOfInput ended
  exact Datum.readings_ne_endOfInput depth complete he inside rfl

/-- The readings of tokens come to what the items of the tokens come to, or they break off at one of
them. -/
theorem foldlM_step_ends {tokens : List Token} {items : List Item} (h : Splits tokens items)
    (failures : Nat) (m : Machine) :
    (∃ errors lines o,
      (Datum.readings depth tokens).foldlM (step depth frame echo) failures m =
        (.ok (failures + errors.length), o) ∧ Recovers depth frame echo items m errors lines o) ∨
      ∃ errors failure o,
        (Datum.readings depth tokens).foldlM (step depth frame echo) failures m = (.error failure, o) ∧
          BreaksOff depth frame echo items m errors failure o := by
  induction h generalizing failures m with
  | nil => exact .inl ⟨[], [], m, rfl, .nil m⟩
  | @form tokens rest items hform _ ih =>
    rw [Datum.readings_of_ne_nil depth (List.append_ne_nil_of_left_ne_nil hform.ne_nil rest)]
    rw [List.foldlM_cons]
    rcases Datum.next_of_isForm hform depth rest with ⟨d, spelled, read⟩ | fails
    · rw [read]
      rcases step_of_datum depth frame echo failures d m with
        ⟨v, n, line, evaluated, echoes, stepped⟩ | ⟨e, n, evaluated, family, stepped⟩ |
          ⟨failure, n, breaks, stepped⟩
      · simp only [Action.bind_apply, stepped]
        rcases ih failures (n.printing line) with ⟨errors, lines, o, ran, recovers⟩ |
          ⟨errors, failure, o, ran, breaks⟩
        · exact .inl ⟨errors, line ++ lines, o, ran, .succeeded spelled evaluated echoes recovers⟩
        · refine .inr ⟨errors, failure, o, ran, breaks.past fun recovers => ?_⟩
          exact ⟨_, .succeeded spelled evaluated echoes recovers⟩
      · simp only [Action.bind_apply, stepped]
        rcases ih (failures + 1) (n.reporting e) with ⟨errors, lines, o, ran, recovers⟩ |
          ⟨errors, failure, o, ran, breaks⟩
        · refine .inl ⟨e :: errors, lines, o, ?_, .failed spelled evaluated family recovers⟩
          rw [ran, List.length_cons, Nat.add_assoc, Nat.add_comm 1]
        · refine .inr ⟨e :: errors, failure, o, ran, breaks.past fun recovers => ?_⟩
          exact ⟨_, .failed spelled evaluated family recovers⟩
      · simp only [Action.bind_apply, stepped]
        exact .inr ⟨[], failure, n, rfl, .here (.datum spelled breaks)⟩
    · -- The form cannot be read, whatever comes after it, so that the item itself is at fault.
      obtain ⟨failure, fatal, read⟩ := fails
      have same := Datum.next_of_isForm_append hform depth rest
      rw [read] at same ⊢
      simp only [Action.bind_apply, step_of_fatal fatal]
      exact .inr ⟨[], failure, m, rfl, .here (.unread fatal same)⟩
  | @stray rest items _ ih =>
    have read : Datum.next depth (.closing :: rest) = (.error (.error .unmatchedClose), rest) := rfl
    rw [Datum.readings_of_ne_nil depth (List.cons_ne_nil _ rest), read, List.foldlM_cons]
    simp only [Action.bind_apply, step_of_error]
    rcases ih (failures + 1) (m.reporting .unmatchedClose) with ⟨errors, lines, o, ran, recovers⟩ |
      ⟨errors, failure, o, ran, breaks⟩
    · refine .inl ⟨.unmatchedClose :: errors, lines, o, ?_, .stray recovers⟩
      rw [ran, List.length_cons, Nat.add_assoc, Nat.add_comm 1]
    · refine .inr ⟨.unmatchedClose :: errors, failure, o, ran, breaks.past fun recovers => ?_⟩
      exact ⟨_, .stray recovers⟩
  | @unclosed tokens hopen =>
    rw [Datum.readings_of_ne_nil depth hopen.1, List.foldlM_cons]
    rcases Datum.next_of_unclosed hopen depth with read | ⟨failure, fatal, read⟩
    · rw [read]
      exact .inl ⟨[.endOfInput true], [], m.reporting (.endOfInput true), rfl, .unclosed tokens m⟩
    · simp only [read, Action.bind_apply, step_of_fatal fatal]
      exact .inr ⟨[], failure, m, rfl, .here (.unread fatal read)⟩

/-- The readings of tokens come to what the items of the tokens come to, unless something fatal happens
on the way. -/
theorem foldlM_step_recovers {tokens : List Token} {items : List Item} (h : Splits tokens items)
    (failures : Nat) (m : Machine) :
    (∃ errors lines o,
      (Datum.readings depth tokens).foldlM (step depth frame echo) failures m =
        (.ok (failures + errors.length), o) ∧ Recovers depth frame echo items m errors lines o) ∨
      FailsFatally ((Datum.readings depth tokens).foldlM (step depth frame echo) failures m) := by
  rcases foldlM_step_ends h failures m with returned | ⟨errors, failure, o, ran, breaks⟩
  · exact .inl returned
  · obtain ⟨-, item, -, -, n, -, -, breaks⟩ := breaks
    exact .inr ⟨failure, breaks.fatal, congrArg Prod.fst ran⟩

theorem evalSource_returns (depth : Nat) (frame : FrameId) (echo : Bool) (source : String)
    (m : Machine) :
    (∃ failures o, evalSource depth frame echo source m = (.ok failures, o)) ∨
      FailsFatally (evalSource depth frame echo source m) := by
  obtain ⟨items, split⟩ := Token.exists_splits (Token.tokenize source)
  rcases foldlM_step_recovers split 0 m with ⟨errors, lines, o, ran, -⟩ | fatal
  · exact .inl ⟨_, o, ran⟩
  · exact .inr fatal

/-- Any tokens fall into items in exactly one way. If nothing fatal happens, the evaluation of a text
takes the items of its tokens in order, each on the machine that the one before it left, and returns how
many errors it reports; nothing else is reported as an error, and nothing else is printed. -/
theorem evalSource_recovers :
    (∀ tokens, ∃! items, Splits tokens items) ∧
    ∀ (depth : Nat) (frame : FrameId) (echo : Bool) (source : String) (m : Machine)
      (items : List Item), Splits (Token.tokenize source) items →
      (∀ failure : Failure, failure.Fatal →
        (evalSource depth frame echo source m).1 ≠ .error failure) →
      ∃ errors lines o, evalSource depth frame echo source m = (.ok errors.length, o) ∧
        Recovers depth frame echo items m errors lines o ∧
        o.journal.errors = m.journal.errors ++ m.journal.kept errors ∧
        o.transcript.toList =
          m.transcript.toList ++ lines.map fun line => .output (line ++ "\n") := by
  refine ⟨fun tokens => ?_, fun depth frame echo source m items split safe => ?_⟩
  · obtain ⟨items, split⟩ := Token.exists_splits tokens
    exact ⟨items, split, fun others other => other.unique split rfl⟩
  · rcases foldlM_step_recovers split 0 m with ⟨errors, lines, o, ran, recovers⟩ | fatal
    · rw [Nat.zero_add] at ran
      exact ⟨errors, lines, o, ran, recovers, recovers.journal_errors, recovers.transcript⟩
    · obtain ⟨failure, fatal, escaped⟩ := fatal
      exact absurd escaped (safe failure fatal)

/-- A definition, a form that fails after it changed the definition, a closing parenthesis too many, a
form that prints what is left, and a list that is not closed. -/
theorem evalSource_recovers_mixture :
    let m : Machine := { Machine.start 30 with store := (Store.empty.addFrame [] none).2 }
    let source := "(define x 2) (begin (define x 3) y) ) x (f"
    let definition : List Token := [.opening, .word "define", .word "x", .word "2", .closing]
    let failing : List Token := [.opening, .word "begin", .opening, .word "define", .word "x",
      .word "3", .closing, .word "y", .closing]
    let items : List Item :=
      [.form definition, .form failing, .stray, .form [.word "x"], .unclosed [.opening, .word "f"]]
    Splits (Token.tokenize source) items ∧
      ∃ errors lines o, evalSource 10 0 true source m = (.ok errors.length, o) ∧
        Recovers 10 0 true items m errors lines o ∧ errors.length = 3 ∧
        o.journal.errors = m.journal.kept errors ∧
        m.journal.kept errors = ["UnboundVariable: unbound symbol: y",
          "UnmatchedCloseParen: unexpected )",
          "UnexpectedEndOfInput: unexpected EOF while reading list"] ∧
        o.written = "3\n" := by
  intro m source definition failing items
  have atom (text : String) {others : List Token} (h : Token.AreForms others) :
      Token.AreForms (.word text :: others) := .cons (.word text) h
  have simple : Token.IsForm definition := .list (atom _ (atom _ (atom _ .nil)))
  have inner : Token.IsForm [.opening, .word "define", .word "x", .word "3", .closing] :=
    .list (atom _ (atom _ (atom _ .nil)))
  have nested : Token.IsForm failing := .list (atom _ (.cons inner (atom _ .nil)))
  have unclosed : Token.Unclosed [.opening, .word "f"] :=
    ⟨by simp, [.closing], by simp, .list (atom _ .nil)⟩
  have split : Splits (Token.tokenize source) items := by
    have tokens : Token.tokenize source =
        definition ++ (failing ++ (.closing :: ([.word "x"] ++ [.opening, .word "f"]))) := by
      decide +kernel
    rw [tokens]
    exact .form simple (.form nested (.stray (.form (.word "x") (.unclosed unclosed))))
  have count : (evalSource 10 0 true source m).1.toOption = some 3 := by decide +kernel
  have safe : ∀ failure : Failure, failure.Fatal →
      (evalSource 10 0 true source m).1 ≠ .error failure := by
    intro failure _ escaped
    rw [escaped] at count
    cases count
  obtain ⟨errors, lines, o, ran, recovers, reported, -⟩ :=
    evalSource_recovers.2 10 0 true source m items split safe
  have journal : (evalSource 10 0 true source m).2.journal.errors =
      ["UnboundVariable: unbound symbol: y", "UnmatchedCloseParen: unexpected )",
        "UnexpectedEndOfInput: unexpected EOF while reading list"] := by decide +kernel
  have written : (evalSource 10 0 true source m).2.written = "3\n" := by decide +kernel
  rw [ran] at count journal written
  refine ⟨split, errors, lines, o, ran, recovers, Option.some.inj count, reported, ?_, written⟩
  exact reported.symm.trans journal

end Program

end SmallScheme
