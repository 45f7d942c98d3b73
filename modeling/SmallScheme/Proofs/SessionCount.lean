import Mathlib.Algebra.BigOperators.Group.List.Basic
import Mathlib.Algebra.GroupWithZero.Nat
import SmallScheme.Proofs.SessionTrace

/-!
The count of a session. Each text that a session evaluates comes to a tally: the errors that were
reported for its forms, and whether an interrupt ended it. A form that failed was either reported or
interrupted. The count misses some of them: an interrupt counts as one failure, and the errors
reported for earlier forms of the same text are forgotten.
-/

set_option autoImplicit false
set_option relaxedAutoImplicit false

namespace SmallScheme

namespace Program

open Token (Item Splits)

variable {depth : Nat} {frame : FrameId} {echo : Bool} {m o : Machine}

private theorem exists_form_of_interrupted {items : List Item} {errors : List Error}
    (h : BreaksOff depth frame echo items m errors .interrupted o) :
    ∃ done tokens rest lines n d, items = done ++ .form tokens :: rest ∧
      Recovers depth frame echo done m errors lines n ∧ Datum.Spells tokens d ∧
      evalDatum depth frame d n = (.error .interrupted, o) := by
  obtain ⟨done, item, rest, lines, n, rfl, recovers, breaks⟩ := h
  cases breaks with
  | unread _ unread => cases Datum.reading_of_next unread
  | @datum tokens d _ _ _ spelled breaks =>
    cases breaks with
    | evaluated _ evaluated =>
      exact ⟨done, tokens, rest, lines, n, d, rfl, recovers, spelled, evaluated⟩
    | shown _ _ unwritten => cases FailsWith.writing _ _ _ _ unwritten

end Program

namespace Session

/-- What one text comes to. -/
structure Tally where
  /-- The errors reported for its forms. -/
  reported : List Error
  interrupted : Bool

namespace Tally

/-- How many of its forms failed: those that were reported, and the one that was interrupted. -/
def failed (t : Tally) : Nat :=
  t.reported.length + t.interrupted.toNat

/-- What the session adds to its count. -/
def counted (t : Tally) : Nat :=
  if t.interrupted then 1 else t.reported.length

def forgotten (t : Tally) : Nat :=
  if t.interrupted then t.reported.length else 0

theorem counted_add_forgotten (t : Tally) : t.counted + t.forgotten = t.failed := by
  obtain ⟨reported, _ | _⟩ := t
  · rfl
  · exact Nat.add_comm 1 reported.length

theorem forgotten_eq_zero_iff {t : Tally} :
    t.forgotten = 0 ↔ (t.interrupted = true → t.reported = []) := by
  obtain ⟨reported, _ | _⟩ := t
  · simp [forgotten]
  · simp [forgotten]

end Tally

open Token (Splits)
open Program (Recovers evalSource evalDatum)

/-- The evaluation of a text in a session comes to the tally: all its items are taken, or an interrupt
ends the evaluation of one of its forms and nothing after that form is taken. -/
inductive Comes (depth : Nat) (frame : FrameId) (source : String) (m : Machine) :
    Tally → Machine → Prop
  | returned {items : List Token.Item} {errors : List Error} {lines : List String} {o : Machine} :
      Splits (Token.tokenize source) items → Recovers depth frame true items m errors lines o →
      evalSource depth frame true source m = (.ok errors.length, o) →
      Comes depth frame source m ⟨errors, false⟩ o
  | interrupted {done rest : List Token.Item} {tokens : List Token} {errors : List Error}
      {lines : List String} {d : Datum} {n o : Machine} :
      Splits (Token.tokenize source) (done ++ .form tokens :: rest) →
      Recovers depth frame true done m errors lines n → Datum.Spells tokens d →
      evalDatum depth frame d n = (.error .interrupted, o) →
      evalSource depth frame true source m = (.error .interrupted, o) →
      Comes depth frame source m ⟨errors, true⟩
        { o with transcript := o.transcript.push (.output "\nKeyboardInterrupt\n") }

/-- The acts of a session come to tallies, one for each text that is evaluated. -/
inductive AllCome (depth : Nat) (frame : FrameId) (prompts : Prompts) :
    List Act → Machine → List Tally → Machine → Prop
  | nil (m : Machine) : AllCome depth frame prompts [] m [] m
  | read {continued : Bool} {brought : Option Event} {acts : List Act} {ts : List Tally}
      {m o : Machine} :
      AllCome depth frame prompts acts
        { m with transcript :=
          m.transcript ++ (Act.shown prompts (.read continued brought)).toArray } ts o →
      AllCome depth frame prompts (.read continued brought :: acts) m ts o
  | evaluated {source : String} {acts : List Act} {t : Tally} {ts : List Tally} {m n o : Machine} :
      Comes depth frame source m t n → AllCome depth frame prompts acts n ts o →
      AllCome depth frame prompts (.evaluated source :: acts) m (t :: ts) o

variable {depth : Nat} {frame : FrameId} {prompts : Prompts} {m n o : Machine}

private theorem exists_comes_of_evaluate {failures k : Nat} {source : String}
    (h : evaluate depth frame failures source m = (.ok k, o)) :
    ∃ t, Comes depth frame source m t o ∧ k = failures + t.counted := by
  obtain ⟨items, split⟩ := Token.exists_splits (Token.tokenize source)
  simp only [evaluate, Action.bind_apply, Action.attempt] at h
  rcases Program.foldlM_step_ends split 0 m with
    ⟨errors, lines, n, ran, recovers⟩ | ⟨errors, failure, n, ran, breaks⟩
  · have ran : evalSource depth frame true source m = (.ok errors.length, n) := by
      rwa [Nat.zero_add] at ran
    rw [ran] at h
    cases h
    exact ⟨⟨errors, false⟩, .returned split recovers ran, rfl⟩
  · have ran : evalSource depth frame true source m = (.error failure, n) := ran
    rw [ran] at h
    cases failure with
    | interrupted =>
      cases h
      obtain ⟨done, tokens, rest, lines, n', d, rfl, recovers, spelled, evaluated⟩ :=
        Program.exists_form_of_interrupted breaks
      exact ⟨⟨errors, true⟩, .interrupted split recovers spelled evaluated ran, rfl⟩
    | error e =>
      obtain ⟨_, _, _, _, _, _, _, breaks⟩ := breaks
      exact absurd rfl (breaks.fatal e)
    | _ => cases h

private theorem Comes.journal {source : String} {t : Tally} (h : Comes depth frame source m t o) :
    o.journal.errors = m.journal.errors ++ m.journal.kept t.reported ∧
      o.journal.threshold = m.journal.threshold := by
  have keeps := (Program.evalSource_reports (P := fun _ => True) (fun _ _ => trivial)
    (fun _ _ => trivial) m : m.Reports _ (evalSource depth frame true source m).2).threshold
  cases h with
  | returned _ recovers ran =>
    rw [ran] at keeps
    exact ⟨recovers.journal_errors, keeps⟩
  | interrupted _ recovers _ evaluated ran =>
    rw [ran] at keeps
    refine ⟨?_, keeps⟩
    have quiet := Program.evalDatum_quiet evaluated
    exact quiet.errors.trans recovers.journal_errors

/-- The acts of a session add to the count what their tallies say. -/
theorem exists_allCome_of_perform {acts : List Act} {failures k : Nat}
    (h : acts.foldlM (Act.perform depth frame prompts) failures m = (.ok k, o)) :
    ∃ ts, AllCome depth frame prompts acts m ts o ∧ k = failures + (ts.map Tally.counted).sum := by
  induction acts generalizing failures m with
  | nil =>
    cases h
    exact ⟨[], .nil _, rfl⟩
  | cons act acts ih =>
    cases act with
    | read continued brought =>
      have reads : ∀ act ∈ [Act.read continued brought], act.brought?.isSome := by
        simp [Act.brought?]
      rw [← List.singleton_append, List.foldlM_append, Action.bind_apply,
        foldlM_perform_reads failures reads, List.flatMap_singleton] at h
      obtain ⟨ts, all, counted⟩ := ih h
      exact ⟨ts, .read all, counted⟩
    | evaluated source =>
      rw [List.foldlM_cons, Action.bind_apply] at h
      rcases performed : Act.perform depth frame prompts failures (.evaluated source) m with
        ⟨failure | between, n⟩
      · rw [performed] at h
        cases h
      · rw [performed] at h
        obtain ⟨t, comes, rfl⟩ := exists_comes_of_evaluate performed
        obtain ⟨ts, all, rfl⟩ := ih h
        exact ⟨t :: ts, .evaluated comes all, by simp [Nat.add_assoc]⟩

theorem AllCome.journal_errors {acts : List Act} {ts : List Tally}
    (h : AllCome depth frame prompts acts m ts o) :
    o.journal.errors = m.journal.errors ++ m.journal.kept (ts.flatMap Tally.reported) := by
  induction h with
  | nil m => simp [Journal.kept]
  | read _ ih => exact ih
  | evaluated comes _ ih =>
    obtain ⟨errors, threshold⟩ := comes.journal
    rw [ih, errors, List.flatMap_cons, Journal.kept_append, Journal.kept_of_threshold threshold,
      List.append_assoc]

theorem sum_failed (ts : List Tally) :
    (ts.map Tally.failed).sum =
      (ts.flatMap Tally.reported).length + ts.countP Tally.interrupted := by
  induction ts with
  | nil => rfl
  | cons t ts ih =>
    obtain ⟨reported, _ | _⟩ := t
    · simp [Tally.failed, ih]
      omega
    · simp [Tally.failed, ih]
      omega

/-- A session that returns evaluated its texts one after the other, each with a tally, and the errors in
the journal are those of the tallies. What it returns is one for each text that was interrupted and the
number of errors reported for each other one. With the errors reported for forms before an interrupt
this makes the number of forms that failed: all errors reported and all interrupts. So the count is right
just if no error was reported for a text before it was interrupted. -/
theorem run_counts (depth : Nat) (frame : FrameId) (prompts : Prompts) (events : List Event)
    (m o : Machine) (count : Nat)
    (returned : Session.run depth frame prompts events m = (.ok count, o)) :
    ∃ ts, AllCome depth frame prompts (trace events) m ts o ∧
      o.journal.errors = m.journal.errors ++ m.journal.kept (ts.flatMap Tally.reported) ∧
      count = (ts.map Tally.counted).sum ∧
      count + (ts.map Tally.forgotten).sum =
        (ts.flatMap Tally.reported).length + ts.countP Tally.interrupted ∧
      (count = (ts.flatMap Tally.reported).length + ts.countP Tally.interrupted ↔
        ∀ t ∈ ts, t.interrupted = true → t.reported = []) := by
  rw [run_eq_trace] at returned
  obtain ⟨ts, all, counted⟩ := exists_allCome_of_perform returned
  rw [Nat.zero_add] at counted
  have balance : count + (ts.map Tally.forgotten).sum =
      (ts.flatMap Tally.reported).length + ts.countP Tally.interrupted := by
    rw [counted, ← List.sum_map_add, ← sum_failed]
    simp only [Tally.counted_add_forgotten]
  have forgets : (ts.map Tally.forgotten).sum = 0 ↔ ∀ t ∈ ts, t.interrupted = true → t.reported = [] := by
    rw [List.sum_eq_zero_iff_forall_eq_nat]
    simp [Tally.forgotten_eq_zero_iff]
  refine ⟨ts, all, all.journal_errors, counted, balance, ?_⟩
  rw [← forgets]
  constructor
  · intro right
    omega
  · intro nothing
    omega

/-- A form that fails and then, in the same line, one that is interrupted: two forms fail, and the session
returns one. -/
theorem run_counts_one_of_two :
    let globals : Machine := (Action.newGlobals (Machine.start 30)).2
    let m : Machine := (Action.definePrimitive 0 Primitive.interrupt globals).2
    let line := "(car (list)) (interrupt!)"
    let events : List Event := [.line line]
    ∃ o ts, Session.run 20 0 {} events m = (.ok 1, o) ∧
      o.journal.errors = ["EmptyListAccess: car of empty list"] ∧
      o.printed = "\nKeyboardInterrupt\n\n" ∧ AllCome 20 0 {} (trace events) m ts o ∧
      (ts.flatMap Tally.reported).length + ts.countP Tally.interrupted = 2 := by
  intro globals m line events
  have count : (Session.run 20 0 {} events m).1.toOption = some 1 := by decide +kernel
  have errors : (Session.run 20 0 {} events m).2.journal.errors =
    ["EmptyListAccess: car of empty list"] := by decide +kernel
  have printed : (Session.run 20 0 {} events m).2.printed = "\nKeyboardInterrupt\n\n" := by
    decide +kernel
  have acts : trace events =
    [.read false (some (.line line)), .evaluated line, .read false none] := by decide +kernel
  let prompted : Machine :=
    { m with transcript := m.transcript ++ (Act.shown {} (.read false (some (.line line)))).toArray }
  have stopped : (evalSource 20 0 true line prompted).1.toOption = none := by
    decide +kernel
  have before : m.journal.errors = [] := by decide +kernel
  have keeps : m.journal.threshold ≤ Severity.error.rank := by decide +kernel
  rcases ran : Session.run 20 0 {} events m with ⟨failure | k, o⟩
  · rw [ran] at count
    cases count
  rw [ran] at count errors printed
  obtain rfl : k = 1 := Option.some.inj count
  obtain ⟨ts, all, journal, -, -, -⟩ := run_counts 20 0 {} events m o 1 ran
  have reported : (ts.flatMap Tally.reported).length = 1 := by
    rw [errors, before, Journal.kept, if_pos keeps] at journal
    simpa using congrArg List.length journal.symm
  refine ⟨o, ts, rfl, errors, printed, all, ?_⟩
  rw [acts] at all
  obtain _ | all := all
  obtain _ | _ | ⟨comes, all⟩ := all
  obtain _ | all := all
  obtain _ | _ := all
  cases comes with
  | returned _ _ ended =>
    rw [ended] at stopped
    cases stopped
  | interrupted =>
    rw [reported]
    rfl

end Session

end SmallScheme
