import SmallScheme.Proofs.Correspondence.Driver
import SmallScheme.Proofs.Recovery

/-!
The threshold for reports. Nothing looks at the journal, and the messages of reports are made whether
or not they are kept; so the threshold decides which reports are kept and nothing else. A run with a
threshold is the run that keeps every report, with the reports below the threshold left out of its journal.
-/

set_option autoImplicit false
set_option relaxedAutoImplicit false

namespace SmallScheme

namespace Journal

/-- The journal that would have been kept with the given threshold. -/
def sifted (threshold : Nat) (j : Journal) : Journal :=
  ⟨threshold, j.reports.filter fun r => threshold ≤ r.severity.rank⟩

private theorem sifted_add {j : Journal} (all : j.threshold = 0) (threshold : Nat) (r : Report) :
    (j.add r).sifted threshold = (j.sifted threshold).add r := by
  have kept : j.add r = { j with reports := j.reports.push r } := by
    have low : j.threshold ≤ r.severity.rank := by omega
    rw [add, if_pos low]
  rw [kept]
  by_cases severe : threshold ≤ r.severity.rank
  · simp [sifted, add, severe]
  · simp [sifted, add, severe]

end Journal

namespace Machine

def sifted (threshold : Nat) (m : Machine) : Machine :=
  { m with journal := m.journal.sifted threshold }

def listening (threshold : Nat) (m : Machine) : Machine :=
  { m with journal := .empty threshold }

end Machine

/-- The action goes the same way whatever the threshold: with any of them its outcome, the store and what
is written are those of the run that keeps every report, and it keeps the reports of that run that are
severe enough, in their order. -/
def Action.Unheeding {α : Type} (x : Action α) : Prop :=
  ∀ (m : Machine) (threshold : Nat),
    x (m.listening threshold) = ((x (m.listening 0)).1, (x (m.listening 0)).2.sifted threshold)

def Correspondence.sifting (threshold : Nat) : Correspondence :=
  .ofMachines (fun m m' => m.journal.threshold = 0 ∧ m' = m.sifted threshold) (fun _ => False)
    (fun h => h.2 ▸ rfl)
    (fun _ h => ⟨h.1, h.2 ▸ rfl⟩)
    (fun r h => by
      obtain ⟨all, rfl⟩ := h
      refine ⟨(Journal.threshold_add _ r).trans all, ?_⟩
      simp only [Machine.sifted, Journal.sifted_add all])
    (fun _ h => ⟨h.1, h.2 ▸ rfl⟩)

namespace Correspondence

variable {threshold : Nat}

theorem sifting_lenient : (sifting threshold).Lenient :=
  fun _ excused => excused.elim

theorem sifting_prompts : (sifting threshold).KeepsPrompts := by
  rintro w m m' text ⟨all, rfl⟩
  exact ⟨w, (sifting threshold).later_refl w, all, rfl⟩

private theorem sifting_listening (m : Machine) :
    (sifting threshold).machines () (m.listening 0) (m.listening threshold) :=
  ⟨rfl, by simp [Machine.listening, Machine.sifted, Journal.sifted, Journal.empty]⟩

end Correspondence

/-- Whatever keeps the correspondence does not heed the threshold. -/
theorem Action.Unheeding.of_agrees {α : Type} {x : Action α}
    (h : ∀ {threshold m m'}, (Correspondence.sifting threshold).machines () m m' →
      (Correspondence.sifting threshold).Agrees () (fun _ => Eq) (x m) (x m')) : x.Unheeding := by
  intro m threshold
  have start : (Correspondence.sifting threshold).machines () (m.listening 0) (m.listening threshold) :=
    Correspondence.sifting_listening m
  have agrees := h start
  obtain ⟨outcome, -, -, machine⟩ := agrees.outcome_eq fun _ excused => excused
  exact Prod.ext outcome.symm machine

namespace CommandLine

open Correspondence

private theorem supervised_agrees {threshold depth : Nat} {frame : FrameId} {files : Files}
    {prompts : Prompts} {events : List Event} {task : Task} {m m' : Machine}
    (hm : (sifting threshold).machines () m m') :
    (sifting threshold).Agrees () (fun _ => Eq)
      (supervised depth frame files prompts events task m)
      (supervised depth frame files prompts events task m') := by
  have performed := task_agrees sifting_lenient (fun _ => trivial) sifting_prompts (.refl depth)
    files prompts events task hm (rfl : frame = frame)
  refine performed.attempt ?_ ?_ fun _ _ excused => excused.elim
  · intro u status _ n n' _ hn same
    subst same
    exact .pure hn rfl
  · intro u failure n n' _ hn
    cases failure with
    | depthExhausted => exact (Agrees.report _ _ hn).bind fun v _ _ o o' _ ho _ => .pure ho rfl
    | _ => exact .fail _ hn

theorem unheeding_supervised (depth : Nat) (frame : FrameId) (files : Files) (prompts : Prompts)
    (events : List Event) (task : Task) :
    (supervised depth frame files prompts events task).Unheeding :=
  .of_agrees supervised_agrees

/-- The reports on standard error with a threshold are those of the run that keeps every report, less
those below the threshold. -/
theorem exists_rows (files : Files) (events : List Event) (o : Options) :
    ∃ (ending : Ending) (stdout : String) (rows : List Report), ∀ threshold,
      execute threshold files events o = ⟨ending, stdout, String.join
        ((rows.filter fun r => threshold ≤ r.severity.rank).map (·.message ++ "\n"))⟩ := by
  cases planned : o.plan with
  | error ending =>
    refine ⟨ending, "", [], fun threshold => ?_⟩
    simp only [execute, planned]
    rfl
  | ok plan =>
    obtain ⟨depth, task⟩ := plan
    let r := launch 0 files events o.prompts depth task
    refine ⟨(Outcome.ofRun r).ending, r.2.written, r.2.journal.reports.toList, fun threshold => ?_⟩
    have sifted : launch threshold files events o.prompts depth task =
        (r.1, r.2.sifted threshold) :=
      unheeding_supervised depth 0 files o.prompts events task (freshMachine 0) threshold
    have seen : execute threshold files events o =
        Outcome.ofRun (launch threshold files events o.prompts depth task) := by
      simp only [execute, planned]
      rfl
    rw [seen, sifted]
    rcases r with ⟨failure | status, m⟩ <;>
      simp [Outcome.ofRun, Outcome.reports, Machine.sifted, Journal.sifted, Machine.written]

end CommandLine

open CommandLine Correspondence in
/-- The threshold for reports has no influence on what is evaluated: not on single expressions, on
program text, on sessions or on tasks, wherever they end and however. On the whole program it has none
but that the reports below it are missing from standard error. -/
theorem threshold_unheeded :
    (∀ depth e frame, (eval depth e frame).Unheeding) ∧
    (∀ depth frame source, (Program.run depth frame source).Unheeding) ∧
    (∀ depth frame echo source, (Program.evalSource depth frame echo source).Unheeding) ∧
    (∀ depth frame prompts events, (Session.run depth frame prompts events).Unheeding) ∧
    (∀ depth frame files prompts events task,
      (supervised depth frame files prompts events task).Unheeding) ∧
    ∀ files events o, ∃ (ending : Ending) (stdout : String) (rows : List Report), ∀ threshold,
      execute threshold files events o = ⟨ending, stdout, String.join
        ((rows.filter fun r => threshold ≤ r.severity.rank).map (·.message ++ "\n"))⟩ := by
  refine ⟨?_, ?_, ?_, ?_, unheeding_supervised, exists_rows⟩
  · intro depth e frame
    exact .of_agrees fun hm => eval_agrees (.refl depth) hm rfl rfl
  · intro depth frame source
    exact .of_agrees fun hm => program_agrees (fun _ _ _ _ => trivial) hm rfl
  · intro depth frame echo source
    exact .of_agrees fun hm =>
      evalSource_agrees sifting_lenient (fun _ => trivial) (.refl depth) echo source hm rfl
  · intro depth frame prompts events
    exact .of_agrees fun hm => session_agrees sifting_lenient (fun _ => trivial) sifting_prompts
      (.refl depth) prompts events hm rfl

end SmallScheme
