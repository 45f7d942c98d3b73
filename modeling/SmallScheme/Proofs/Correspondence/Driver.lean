import SmallScheme.CommandLine.Run
import SmallScheme.Proofs.Correspondence.Evaluation
import SmallScheme.Proofs.Reading

/-!
The program as a whole keeps every correspondence that prompts do not break: the evaluation of a text,
a session, a row of files, a task. The two runs may be allowed to nest differently deep, where
running out is excused; then their readings differ at most where the first runs out.
-/

set_option autoImplicit false
set_option relaxedAutoImplicit false

namespace SmallScheme

namespace CommandLine

variable {depth : Nat} {frame : FrameId} {files : Files} {path : Path}

theorem runFile_of_nul (nul : path.hasNul = true) :
    runFile depth frame files path = Action.fail .nulInPath := by
  simp only [runFile, nul, if_true]
  rfl

theorem runFile_of_fault {fault : FileFault} (plain : path.hasNul = false)
    (found : files path = .error fault) :
    runFile depth frame files path = (do
      Action.report .error s!"Error reading {path.text}: {fault.message path}"
      return none) := by
  simp only [runFile, plain, found, Bool.false_eq_true, if_false]

theorem runFile_of_text {source : String} (plain : path.hasNul = false)
    (found : files path = .ok source) :
    runFile depth frame files path = (do
      Action.report .info s!"Running {path.text}"
      return some (← Program.evalSource depth frame false source)) := by
  simp only [runFile, plain, found, Bool.false_eq_true, if_false]

def givenUp (m : Machine) : Machine :=
  { m with journal := m.journal.add ⟨.critical, "Fatal: maximum recursion depth exceeded"⟩ }

section Supervised

variable {prompts : Prompts} {events : List Event} {task : Task} {m n : Machine}

theorem supervised_of_exhausted
    (h : perform depth frame files prompts events task m = (.error .depthExhausted, n)) :
    supervised depth frame files prompts events task m = (.ok Ending.tooDeep, givenUp n) := by
  simp only [supervised, Action.bind_apply, Action.attempt, h]
  rfl

theorem supervised_of_finished
    (h : (perform depth frame files prompts events task m).1 ≠ .error .depthExhausted) :
    supervised depth frame files prompts events task m =
      perform depth frame files prompts events task m := by
  simp only [supervised, Action.bind_apply, Action.attempt]
  rcases done : perform depth frame files prompts events task m with ⟨failure | status, n⟩
  · rw [done] at h
    cases failure with
    | depthExhausted => exact absurd rfl h
    | _ => rfl
  · rfl

end Supervised

def freshMachine (threshold : Nat) : Machine :=
  (Action.newGlobals (Machine.start threshold)).2

/-- Do a task on a fresh machine: the exit status or the failure that escapes, and the machine left. -/
def launch (threshold : Nat) (files : Files) (events : List Event) (prompts : Prompts)
    (depth : Nat) (task : Task) : Except Failure Nat × Machine :=
  supervised depth 0 files prompts events task (freshMachine threshold)

/-- What is seen of a run from outside. -/
def Outcome.ofRun : Except Failure Nat × Machine → Outcome
  | (.ok status, m) => ⟨.exit status, m.written, Outcome.reports m.journal⟩
  | (.error failure, m) => ⟨.escaped failure, m.written, Outcome.reports m.journal⟩

theorem execute_eq_launch {o : Options} {task : Task} (threshold : Nat) (files : Files)
    (events : List Event) (allowed : depthOf o.recursionLimit = .ok depth)
    (asked : o.task = .ok task) :
    execute threshold files events o =
      Outcome.ofRun (launch threshold files events o.prompts depth task) := by
  have plan : o.plan = .ok (depth, task) := by
    simp only [Options.plan, allowed, asked]
    rfl
  simp only [execute, plan]
  rfl

end CommandLine

namespace Correspondence

variable {C : Correspondence} {w : C.World} {m m' : Machine} {f f' : FrameId} {depth depth' : Nat}

/-- At most running out of room is excused. -/
def Lenient (C : Correspondence) : Prop :=
  ∀ failure, C.excused failure → failure = .depthExhausted

/-- Machines that belong together still do when both show a prompt. -/
def KeepsPrompts (C : Correspondence) : Prop :=
  ∀ {w m m'} (text : String), C.machines w m m' →
    ∃ w', C.later w w' ∧ C.machines w' { m with transcript := m.transcript.push (.prompt text) }
      { m' with transcript := m'.transcript.push (.prompt text) }

private theorem Lenient.recoverable (lenient : C.Lenient) (e : Error) : ¬ C.excused (.error e) := by
  intro excused
  cases lenient _ excused

private theorem Agrees.prompt (prompting : C.KeepsPrompts) (text : String)
    (hm : C.machines w m m') :
    C.Agrees w (fun _ _ _ => True) (Action.emit (.prompt text) m) (Action.emit (.prompt text) m') := by
  obtain ⟨u, hu, hn⟩ := prompting text hm
  exact .ok hu hn trivial

section Evaluation

variable (lenient : C.Lenient) (known : ∀ d, C.data d)
include lenient known

private theorem readings_agree {echo : Bool} {failures : Nat} (excused : C.excused .depthExhausted)
    (hd : depth ≤ depth') (tokens : List Token) (hm : C.machines w m m') (hf : C.frames w f f') :
    C.Agrees w (fun _ => Eq)
      ((Datum.readings depth tokens).foldlM (Program.step depth f echo) failures m)
      ((Datum.readings depth' tokens).foldlM (Program.step depth' f' echo) failures m') := by
  induction hn : tokens.length using Nat.strongRecOn generalizing w m m' tokens failures with
  | _ n ih =>
    by_cases none : tokens = []
    · subst none
      exact .pure hm rfl
    · rw [Datum.readings_of_ne_nil depth none, Datum.readings_of_ne_nil depth' none,
        List.foldlM_cons, List.foldlM_cons]
      rcases Datum.next_eq_of_le hd tokens with exhausted | same
      · rw [exhausted, Action.bind_apply]
        exact .excused excused
      · rw [← same]
        have shorter := Datum.next_length_lt depth none
        refine (step_agrees lenient.recoverable ⟨hd, .inr excused⟩ (fun d _ => known d) hm hf).bind
          fun u k k' n n' hu hn hk => ?_
        subst hk
        exact ih _ (by omega) _ hn (C.frames_later hu hf) rfl

theorem evalSource_agrees (hd : C.Fits depth depth') (echo : Bool) (source : String)
    (hm : C.machines w m m') (hf : C.frames w f f') :
    C.Agrees w (fun _ => Eq) (Program.evalSource depth f echo source m)
      (Program.evalSource depth' f' echo source m') := by
  rcases hd.exact with rfl | excused
  · exact steps_agree lenient.recoverable hd (fun d _ => known d) hm hf
  · exact readings_agree lenient known excused hd.le _ hm hf

private theorem evaluate_agrees (hd : C.Fits depth depth') (failures : Nat) (source : String)
    (hm : C.machines w m m') (hf : C.frames w f f') :
    C.Agrees w (fun _ => Eq) (Session.evaluate depth f failures source m)
      (Session.evaluate depth' f' failures source m') := by
  refine (evalSource_agrees lenient known hd true source hm hf).attempt ?_ ?_ ?_
  · intro u failed _ n n' _ hn same
    subst same
    exact .pure hn rfl
  · intro u failure n n' _ hn
    cases failure with
    | interrupted => exact (Agrees.emit _ hn).bind fun v _ _ o o' _ ho _ => .pure ho rfl
    | _ => exact .fail _ hn
  · intro failure n excused
    rw [lenient _ excused]
    rfl

private theorem feed_agrees (hd : C.Fits depth depth') (s : Session) (e : Event)
    (hm : C.machines w m m') (hf : C.frames w f f') :
    C.Agrees w (fun _ => Eq) (s.feed depth f e m) (s.feed depth' f' e m') := by
  cases e with
  | interrupt => exact (Agrees.emit _ hm).bind fun u _ _ n n' _ hn _ => .pure hn rfl
  | line text =>
    simp only [Session.feed]
    split
    · exact .pure hm rfl
    · refine (evaluate_agrees lenient known hd _ _ hm hf).bind fun u k k' n n' _ hn same => ?_
      subst same
      exact .pure hn rfl

theorem session_agrees (prompting : C.KeepsPrompts) (hd : C.Fits depth depth') (prompts : Prompts)
    (events : List Event) (hm : C.machines w m m') (hf : C.frames w f f') :
    C.Agrees w (fun _ => Eq) (Session.run depth f prompts events m)
      (Session.run depth' f' prompts events m') := by
  have steps : C.Agrees w (fun _ => Eq) (events.foldlM (Session.step depth f prompts) {} m)
      (events.foldlM (Session.step depth' f' prompts) {} m') := by
    refine Agrees.foldlM (P := fun _ => Eq) (fun _ h => h) hm (List.forall₂_same.mpr fun _ _ => rfl)
      rfl ?_
    rintro u e _ s _ n n' hu hn rfl rfl
    refine (Agrees.prompt prompting _ hn).bind fun v _ _ o o' hv ho _ => ?_
    exact feed_agrees lenient known hd s e ho (C.frames_later (C.later_trans hu hv) hf)
  refine steps.bind fun u s s' n n' _ hn same => ?_
  subst same
  refine (Agrees.prompt prompting _ hn).bind fun v _ _ o o' _ ho _ => ?_
  exact (Agrees.emit _ ho).bind fun x _ _ q q' _ hq _ => .pure hq rfl

open CommandLine

private theorem runFile_agrees (hd : C.Fits depth depth') (files : Files) (path : Path)
    (hm : C.machines w m m') (hf : C.frames w f f') :
    C.Agrees w (fun _ => Eq) (runFile depth f files path m) (runFile depth' f' files path m') := by
  cases nul : path.hasNul with
  | true =>
    rw [runFile_of_nul nul, runFile_of_nul nul]
    exact .fail _ hm
  | false =>
    cases found : files path with
    | error fault =>
      rw [runFile_of_fault nul found, runFile_of_fault nul found]
      exact (Agrees.report _ _ hm).bind fun u _ _ n n' _ hn _ => .pure hn rfl
    | ok source =>
      rw [runFile_of_text nul found, runFile_of_text nul found]
      refine (Agrees.report _ _ hm).bind fun u _ _ n n' hu hn _ => ?_
      refine (evalSource_agrees lenient known hd false source hn (C.frames_later hu hf)).bind
        fun v k k' o o' _ ho same => ?_
      subst same
      exact .pure ho rfl

private theorem runFiles_agrees (prompting : C.KeepsPrompts) (hd : C.Fits depth depth')
    (files : Files) (prompts : Prompts) (failures : Nat) (events : List Event) (names : List String)
    (hm : C.machines w m m') (hf : C.frames w f f') :
    C.Agrees w (fun _ => Eq) (runFiles depth f files prompts failures events names m)
      (runFiles depth' f' files prompts failures events names m') := by
  induction names generalizing w m m' failures events with
  | nil => exact .pure hm rfl
  | cons name names ih =>
    simp only [runFiles]
    split
    · refine (session_agrees lenient known prompting hd prompts events hm hf).bind
        fun u k k' n n' hu hn same => ?_
      subst same
      exact ih _ _ hn (C.frames_later hu hf)
    · refine (runFile_agrees lenient known hd files _ hm hf).bind fun u k k' n n' hu hn same => ?_
      subst same
      cases k with
      | none => exact .pure hn rfl
      | some failed => exact ih _ _ hn (C.frames_later hu hf)

theorem task_agrees (prompting : C.KeepsPrompts) (hd : C.Fits depth depth') (files : Files)
    (prompts : Prompts) (events : List Event) (task : Task) (hm : C.machines w m m')
    (hf : C.frames w f f') :
    C.Agrees w (fun _ => Eq) (perform depth f files prompts events task m)
      (perform depth' f' files prompts events task m') := by
  cases task with
  | expression source =>
    refine (evalSource_agrees lenient known hd true source hm hf).bind fun u k k' n n' _ hn same => ?_
    subst same
    exact .pure hn rfl
  | files names => exact runFiles_agrees lenient known prompting hd files prompts 0 events names hm hf

end Evaluation

end Correspondence

end SmallScheme
