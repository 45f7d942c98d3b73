import Mathlib.Data.List.Induction
import SmallScheme.Proofs.Correspondence.Evaluation
import SmallScheme.Proofs.Reading
import SmallScheme.Session

/-!
Sessions against text that is evaluated at once. A session evaluates its lines in chunks, each as soon
as it leaves no list open; the chunks together are the longest complete part of the input, and
evaluating that part at once gives the same count, store, reports and output. Only prompts differ,
and no evaluation looks at them.
-/

set_option autoImplicit false
set_option relaxedAutoImplicit false

namespace SmallScheme

namespace Machine

theorem printed_output (m : Machine) (text : String) :
    { m with transcript := m.transcript.push (.output text) }.printed = m.printed ++ text := by
  simp [printed, Emission.output?, String.join_append]

private theorem printed_prompt (m : Machine) (text : String) :
    { m with transcript := m.transcript.push (.prompt text) }.printed = m.printed := by
  have nothing : List.filterMap Emission.output? [.prompt text] = [] := rfl
  simp [printed, nothing]

structure SameButPrompts (m m' : Machine) : Prop where
  store : m.store = m'.store
  journal : m.journal = m'.journal
  printed : m.printed = m'.printed

namespace SameButPrompts

variable {m m' : Machine}

theorem refl (m : Machine) : m.SameButPrompts m :=
  ⟨rfl, rfl, rfl⟩

private theorem withOutput (h : m.SameButPrompts m') (text : String) :
    { m with transcript := m.transcript.push (.output text) }.SameButPrompts
      { m' with transcript := m'.transcript.push (.output text) } := by
  refine ⟨h.store, h.journal, ?_⟩
  rw [printed_output, printed_output, h.printed]

theorem withPrompt (h : m.SameButPrompts m') (text : String) :
    { m with transcript := m.transcript.push (.prompt text) }.SameButPrompts m' := by
  refine ⟨h.store, h.journal, ?_⟩
  rw [printed_prompt, h.printed]

end SameButPrompts

end Machine

def Correspondence.beyondPrompts : Correspondence :=
  .ofMachines Machine.SameButPrompts (fun _ => False) (fun h => h.store)
    (fun _ h => ⟨rfl, h.journal, h.printed⟩)
    (fun _ h => ⟨h.store, by rw [h.journal], h.printed⟩)
    (fun text h => h.withOutput text)

theorem Correspondence.evalSource_eq (C : Correspondence) (strict : ∀ failure, ¬ C.excused failure)
    (known : ∀ d, C.data d) (w : C.World) {m m' : Machine} {f f' : FrameId} (hm : C.machines w m m')
    (hf : C.frames w f f') (depth : Nat) (echo : Bool) (source : String) :
    (Program.evalSource depth f echo source m).1 = (Program.evalSource depth f' echo source m').1 ∧
      ∃ u, C.machines u (Program.evalSource depth f echo source m).2
        (Program.evalSource depth f' echo source m').2 := by
  have agree : C.Agrees w (fun _ => Eq) (Program.evalSource depth f echo source m)
      (Program.evalSource depth f' echo source m') :=
    steps_agree (fun e => strict (.error e)) (.refl depth) (fun d _ => known d) hm hf
  exact agree.outcome_eq strict

namespace Program

variable {depth : Nat} {frame : FrameId} {echo : Bool}

private theorem evalSource_sameButPrompts (depth : Nat) (frame : FrameId) (echo : Bool)
    (source : String) {m m' : Machine} (h : m.SameButPrompts m') :
    (evalSource depth frame echo source m).1 = (evalSource depth frame echo source m').1 ∧
      (evalSource depth frame echo source m).2.SameButPrompts
        (evalSource depth frame echo source m').2 := by
  obtain ⟨outcome, _, same⟩ := Correspondence.beyondPrompts.evalSource_eq (fun _ excused => excused)
    (fun _ => trivial) () h rfl depth echo source
  exact ⟨outcome, same⟩

private theorem step_add (earlier failures : Nat) (reading : Except Failure Datum) :
    step depth frame echo (earlier + failures) reading =
      step depth frame echo failures reading >>= fun n => pure (earlier + n) := by
  simp only [step, bind_assoc]
  congr 1
  funext outcome
  cases outcome with
  | ok value => cases echo <;> simp
  | error failure =>
    cases failure with
    | error e => simp [Nat.add_assoc]
    | _ => rfl

private theorem foldlM_step_add (earlier failures : Nat) (readings : List (Except Failure Datum)) :
    readings.foldlM (step depth frame echo) (earlier + failures) =
      readings.foldlM (step depth frame echo) failures >>= fun n => pure (earlier + n) := by
  induction readings generalizing failures with
  | nil => simp
  | cons reading readings ih =>
    simp only [List.foldlM_cons, step_add, bind_assoc, pure_bind, ih]

/-- Evaluating complete lines and then others is evaluating both together. -/
theorem evalSource_append {first : List String}
    (complete : Token.needsMore (Token.tokenize ("\n".intercalate first)) = false)
    (second : List String) :
    evalSource depth frame echo ("\n".intercalate (first ++ second)) = do
      let earlier ← evalSource depth frame echo ("\n".intercalate first)
      let failed ← evalSource depth frame echo ("\n".intercalate second)
      return earlier + failed := by
  rw [Token.tokenize_lines] at complete
  simp only [evalSource, Token.tokenize_lines, List.flatMap_append]
  rw [Datum.readings_append depth complete, List.foldlM_append]
  congr 1
  funext earlier
  exact foldlM_step_add earlier 0 _

end Program

namespace Session

def Complete (lines : List String) : Prop :=
  Token.needsMore (Token.tokenize ("\n".intercalate lines)) = false

instance (lines : List String) : Decidable (Complete lines) :=
  inferInstanceAs (Decidable (_ = false))

private theorem complete_append {first : List String} (h : Complete first) (second : List String) :
    Complete (first ++ second) ↔ Complete second := by
  unfold Complete at *
  rw [Token.tokenize_lines] at h
  rw [Token.tokenize_lines, Token.tokenize_lines, List.flatMap_append, Token.needsMore_append h]

/-- The part of the lines is complete, and no longer beginning of them is. -/
structure LongestComplete (lines part : List String) : Prop where
  start : part <+: lines
  complete : Complete part
  longest : ∀ other, other <+: lines → Complete other → other.length ≤ part.length

namespace LongestComplete

variable {lines part : List String} {line : String}

private theorem nil : LongestComplete [] [] :=
  ⟨List.prefix_refl [], rfl, fun _ start _ => start.length_le⟩

theorem of_complete (h : Complete lines) : LongestComplete lines lines :=
  ⟨List.prefix_refl lines, h, fun _ start _ => start.length_le⟩

theorem concat (h : LongestComplete lines part) (incomplete : ¬ Complete (lines ++ [line])) :
    LongestComplete (lines ++ [line]) part := by
  refine ⟨h.start.trans (List.prefix_append lines [line]), h.complete, fun other start complete => ?_⟩
  rcases List.prefix_concat_iff.mp start with rfl | start
  · exact absurd complete incomplete
  · exact h.longest other start complete

private theorem eq_of_complete (h : LongestComplete lines part) (complete : Complete lines) :
    part = lines :=
  h.start.eq_of_length_le (h.longest lines (List.prefix_refl lines) complete)

private theorem of_concat (h : LongestComplete (lines ++ [line]) part)
    (incomplete : ¬ Complete (lines ++ [line])) : LongestComplete lines part := by
  refine ⟨?_, h.complete, fun other start complete => ?_⟩
  · rcases List.prefix_concat_iff.mp h.start with rfl | start
    · exact absurd h.complete incomplete
    · exact start
  · exact h.longest other (start.trans (List.prefix_append lines [line])) complete

/-- Every input has a longest complete part. -/
theorem exists_of (lines : List String) : ∃ part, LongestComplete lines part := by
  induction lines using List.reverseRecOn with
  | nil => exact ⟨[], nil⟩
  | append_singleton lines line ih =>
    by_cases complete : Complete (lines ++ [line])
    · exact ⟨_, of_complete complete⟩
    · obtain ⟨part, h⟩ := ih
      exact ⟨part, h.concat complete⟩

end LongestComplete

/-- What a session has done with its lines so far, beside the evaluation of a part of them at once: it
keeps the lines after the part for later, or has ended with the same failure. -/
inductive Follows (lines part : List String) :
    Except Failure Session × Machine → Except Failure Nat × Machine → Prop
  | ok {s : Session} {m m' : Machine} : lines = part ++ s.lines → m.SameButPrompts m' →
      Follows lines part (.ok s, m) (.ok s.failures, m')
  | error {failure : Failure} {m m' : Machine} : m.SameButPrompts m' →
      Follows lines part (.error failure, m) (.error failure, m')

variable {depth : Nat} {frame : FrameId} {prompts : Prompts} {m m' : Machine}
  {lines part : List String} {line : String}

private theorem step_of_incomplete {s : Session} (incomplete : ¬ Complete (s.lines ++ [line])) :
    Session.step depth frame prompts s (.line line) m =
      (.ok ⟨s.lines ++ [line], s.failures⟩,
        { m with transcript := m.transcript.push (.prompt (s.prompt prompts)) }) := by
  have more : Token.needsMore (Token.tokenize ("\n".intercalate (s.lines ++ [line]))) = true := by
    simpa [Complete] using incomplete
  simp only [Session.step, feed, more, if_true]
  rfl

private theorem step_of_complete {s : Session} (complete : Complete (s.lines ++ [line])) :
    Session.step depth frame prompts s (.line line) m =
      (do
        let failures ← evaluate depth frame s.failures ("\n".intercalate (s.lines ++ [line]))
        return ⟨[], failures⟩ : Action Session)
        { m with transcript := m.transcript.push (.prompt (s.prompt prompts)) } := by
  unfold Complete at complete
  simp only [Session.step, feed, complete, Bool.false_eq_true, if_false]
  rfl

private theorem evaluate_of_uninterrupted {failures : Nat} {source : String}
    (h : (Program.evalSource depth frame true source m).1 ≠ .error .interrupted) :
    evaluate depth frame failures source m =
      (do return failures + (← Program.evalSource depth frame true source) : Action Nat) m := by
  simp only [evaluate, Action.bind_apply, Action.attempt]
  rcases hr : Program.evalSource depth frame true source m with ⟨outcome, n⟩
  rw [hr] at h
  cases outcome with
  | ok failed => rfl
  | error failure =>
    cases failure with
    | interrupted => exact absurd rfl h
    | _ => rfl

private theorem Follows.keep {x : Action Session} {b : Except Failure Nat × Machine}
    (h : Follows lines part (x m) b) (complete : Complete part)
    (incomplete : ¬ Complete (lines ++ [line])) :
    Follows (lines ++ [line]) part
      ((x >>= fun s => Session.step depth frame prompts s (.line line)) m) b := by
  rw [Action.bind_apply]
  generalize x m = r at h
  cases h with
  | error same => exact .error same
  | @ok s n n' cut same =>
    rw [cut, List.append_assoc, complete_append complete] at incomplete
    simp only [step_of_incomplete incomplete]
    refine .ok (s := ⟨s.lines ++ [line], s.failures⟩) ?_ (same.withPrompt _)
    rw [cut, List.append_assoc]

private theorem Follows.close {x : Action Session}
    (h : Follows lines part (x m) (Program.evalSource depth frame true ("\n".intercalate part) m))
    (start : part <+: lines) (complete : Complete part) (closed : Complete (lines ++ [line]))
    (uninterrupted : (Program.evalSource depth frame true ("\n".intercalate (lines ++ [line])) m).1 ≠
      .error .interrupted) :
    Follows (lines ++ [line]) (lines ++ [line])
      ((x >>= fun s => Session.step depth frame prompts s (.line line)) m)
      (Program.evalSource depth frame true ("\n".intercalate (lines ++ [line])) m) := by
  obtain ⟨rest, rfl⟩ := start
  rw [List.append_assoc, Program.evalSource_append complete, Action.bind_apply] at uninterrupted ⊢
  rw [List.append_assoc, complete_append complete] at closed
  rw [Action.bind_apply]
  generalize x m = r at h
  generalize Program.evalSource depth frame true ("\n".intercalate part) m = b at h uninterrupted ⊢
  cases h with
  | error same => exact .error same
  | @ok s n n' cut same =>
    obtain rfl : rest = s.lines := List.append_cancel_left cut
    simp only [Action.bind_apply] at uninterrupted
    simp only [step_of_complete closed, Action.bind_apply]
    obtain ⟨outcome, same⟩ := Program.evalSource_sameButPrompts depth frame true
      ("\n".intercalate (s.lines ++ [line])) (same.withPrompt (s.prompt prompts))
    rw [evaluate_of_uninterrupted, Action.bind_apply]
    · generalize Program.evalSource depth frame true _ _ = r at outcome same
      generalize Program.evalSource depth frame true _ n' = b at outcome same
      obtain ⟨_ | failed, o⟩ := b <;> obtain ⟨_, _⟩ := r <;> cases outcome
      · exact .error same
      · exact .ok (s := ⟨[], s.failures + failed⟩) (List.append_nil _).symm same
    · rw [outcome]
      intro interrupted
      generalize Program.evalSource depth frame true _ n' = b at uninterrupted interrupted
      obtain ⟨_, o⟩ := b
      cases interrupted
      exact uninterrupted rfl

private theorem evalSource_part_uninterrupted {rest : List String} (complete : Complete part)
    (h : (Program.evalSource depth frame true ("\n".intercalate (part ++ rest)) m).1 ≠
      .error .interrupted) :
    (Program.evalSource depth frame true ("\n".intercalate part) m).1 ≠ .error .interrupted := by
  rw [Program.evalSource_append complete, Action.bind_apply] at h
  intro interrupted
  generalize Program.evalSource depth frame true ("\n".intercalate part) m = b at h interrupted
  obtain ⟨_, n⟩ := b
  cases interrupted
  exact h rfl

/-- After any lines the session is where the evaluation of their longest complete part is. -/
theorem foldlM_follows (depth : Nat) (frame : FrameId) (prompts : Prompts) (m : Machine)
    (h : LongestComplete lines part)
    (uninterrupted : (Program.evalSource depth frame true ("\n".intercalate part) m).1 ≠
      .error .interrupted) :
    Follows lines part ((lines.map Event.line).foldlM (Session.step depth frame prompts) {} m)
      (Program.evalSource depth frame true ("\n".intercalate part) m) := by
  -- By the last line: it closes all that is open, or it is kept and the complete part is the one before.
  induction lines using List.reverseRecOn generalizing part with
  | nil =>
    obtain rfl := List.prefix_nil.mp h.start
    exact .ok rfl (.refl m)
  | append_singleton lines line ih =>
    rw [List.map_append, List.foldlM_append]
    simp only [List.map_cons, List.map_nil, List.foldlM_cons, List.foldlM_nil, bind_pure]
    by_cases closed : Complete (lines ++ [line])
    · obtain rfl := h.eq_of_complete closed
      obtain ⟨earlier, before⟩ := LongestComplete.exists_of lines
      have followed := ih before ?_
      · exact followed.close before.start before.complete closed uninterrupted
      · obtain ⟨rest, rfl⟩ := before.start
        rw [List.append_assoc] at uninterrupted
        exact evalSource_part_uninterrupted before.complete uninterrupted
    · have before := h.of_concat closed
      exact (ih before uninterrupted).keep h.complete closed

/-- A session whose evaluations are not interrupted ends as the evaluation of the longest complete part
of its lines does, with the same failure or with the same count and one more newline. -/
theorem run_eq_evalSource_longestComplete (depth : Nat) (frame : FrameId) (prompts : Prompts)
    (m : Machine) {lines part : List String} (h : LongestComplete lines part)
    (uninterrupted : (Program.evalSource depth frame true ("\n".intercalate part) m).1 ≠
      .error .interrupted) :
    let session := Session.run depth frame prompts (lines.map Event.line) m
    let batch := Program.evalSource depth frame true ("\n".intercalate part) m
    session.1 = batch.1 ∧ session.2.store = batch.2.store ∧ session.2.journal = batch.2.journal ∧
      (∀ failures, batch.1 = .ok failures → session.2.printed = batch.2.printed ++ "\n") ∧
      (∀ failure, batch.1 = .error failure → session.2.printed = batch.2.printed) := by
  have followed := foldlM_follows depth frame prompts m h uninterrupted
  simp only [Session.run, Action.bind_apply]
  generalize List.foldlM (Session.step depth frame prompts) {} _ m = r at followed
  generalize Program.evalSource depth frame true _ m = b at followed
  cases followed with
  | error same => exact ⟨rfl, same.store, same.journal, by simp, fun _ _ => same.printed⟩
  | @ok s n n' _ same =>
    have prompted := same.withPrompt (s.prompt prompts)
    refine ⟨rfl, same.store, same.journal, fun _ _ => ?_, by simp⟩
    exact (Machine.printed_output _ _).trans (congrArg (· ++ "\n") prompted.printed)

/-- A closing parenthesis too many is reported, and a list still open at the end is not evaluated. -/
theorem run_eq_evalSource_longestComplete_stray_close :
    let m : Machine := { Machine.start 30 with store := (Store.empty.addFrame [] none).2 }
    let lines := ["(define x", "2) )", "x", "(car"]
    let part := ["(define x", "2) )", "x"]
    LongestComplete lines part ∧
      (Program.evalSource 20 0 true ("\n".intercalate part) m).1 = .ok 1 ∧
      (Session.run 20 0 {} (lines.map Event.line) m).1 = .ok 1 ∧
      (Session.run 20 0 {} (lines.map Event.line) m).2.printed = "2\n\n" := by
  intro m lines part
  have complete : Complete part := by decide +kernel
  have incomplete : ¬ Complete (part ++ ["(car"]) := by decide +kernel
  have longest : LongestComplete lines part := (LongestComplete.of_complete complete).concat incomplete
  have batch : (Program.evalSource 20 0 true ("\n".intercalate part) m).1 = .ok 1 := by
    have result : (Program.evalSource 20 0 true ("\n".intercalate part) m).1.toOption = some 1 := by
      decide +kernel
    cases found : (Program.evalSource 20 0 true ("\n".intercalate part) m).1 with
    | error failure => simp [found, Except.toOption] at result
    | ok failures => simpa [found, Except.toOption] using result
  have printed : (Program.evalSource 20 0 true ("\n".intercalate part) m).2.printed = "2\n" := by
    decide +kernel
  obtain ⟨outcome, -, -, output, -⟩ := run_eq_evalSource_longestComplete 20 0 {} m longest
    (by rw [batch]; simp)
  refine ⟨longest, batch, outcome.trans batch, ?_⟩
  rw [output 1 batch, printed]
  rfl

end Session

end SmallScheme
