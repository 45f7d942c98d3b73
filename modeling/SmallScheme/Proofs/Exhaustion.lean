import SmallScheme.Proofs.Chronology
import SmallScheme.Proofs.Correspondence.Driver
import SmallScheme.Proofs.SessionTrace
import SmallScheme.Proofs.Spelling

/-!
Running out of depth. The incidents of a run are its readings, the beginnings and ends of its
evaluations and calls at every level, and the writing of its results. Once one of them runs out of
depth, nothing but the ends of what was going on follows, all on the same machine, and the run ends as
one that went too deep. A run in which no incident runs out is the same under every larger limit.
-/

set_option autoImplicit false
set_option relaxedAutoImplicit false

namespace SmallScheme

/-- Something that happens in a run. -/
inductive Incident where
  /-- A read comes out so. -/
  | read (outcome : Except Failure Datum) (m : Machine)
  /-- An evaluation or a call begins or ends. -/
  | moment (μ : Moment)
  /-- The writing of a result comes out so. -/
  | shown (outcome : Except Failure String) (m : Machine)

namespace Incident

def machine : Incident → Machine
  | .read _ m => m
  | .moment μ => μ.machine
  | .shown _ m => m

def failure? : Incident → Option Failure
  | .read (.error failure) _ => some failure
  | .moment (.ends _ (.error failure) _) => some failure
  | .shown (.error failure) _ => some failure
  | _ => none

/-- The incident runs out of depth. -/
def Exhausted (i : Incident) : Prop :=
  i.failure? = some .depthExhausted

instance : DecidablePred Exhausted :=
  fun i => inferInstanceAs (Decidable (i.failure? = some .depthExhausted))

/-- An evaluation or a call that was going on ends for lack of depth, on the machine as it was. -/
def Unwinding (m : Machine) (i : Incident) : Prop :=
  ∃ a, i = .moment (.ends a (.error .depthExhausted) m)

def after {α : Type} (r : Except Failure α × Machine) (next : α → Machine → List Incident) :
    List Incident :=
  match r with
  | (.ok a, m) => next a m
  | (.error _, _) => []

private theorem after_none {α : Type} (r : Except Failure α × Machine) :
    after r (fun _ _ => []) = [] := by
  unfold after
  split <;> rfl

def ofFold {α β : Type} (f : β → α → Action β) (incidents : α → Machine → List Incident) :
    β → List α → Machine → List Incident
  | _, [], _ => []
  | b, a :: rest, m => incidents a m ++ after (f b a m) fun b n => ofFold f incidents b rest n

end Incident

open Incident (Exhausted Unwinding after ofFold)

/-- Incidents beside what they come to: none runs out of depth and neither does the whole, or the first
that does is followed by unwinding only and the whole runs out on the same machine. -/
inductive Unwinds {α : Type} : List Incident → Except Failure α × Machine → Prop
  | calm {incidents : List Incident} {r : Except Failure α × Machine} :
      (∀ i ∈ incidents, ¬ i.Exhausted) → r.1 ≠ .error .depthExhausted → Unwinds incidents r
  | cut {before unwinding : List Incident} {i : Incident} : (∀ j ∈ before, ¬ j.Exhausted) →
      i.Exhausted → (∀ j ∈ unwinding, j.Unwinding i.machine) →
      Unwinds (before ++ i :: unwinding) (.error .depthExhausted, i.machine)

namespace Unwinds

variable {α β : Type} {first rest : List Incident} {m : Machine}

private theorem silent {r : Except Failure α × Machine} (h : r.1 ≠ .error .depthExhausted) :
    Unwinds [] r := by
  refine .calm ?_ h
  intro i hi
  cases hi

private theorem returned (a : α) (m : Machine) : Unwinds [] (.ok a, m) := by
  refine .silent ?_
  intro failed
  cases failed

private theorem last {i : Incident} (calm : ∀ j ∈ first, ¬ j.Exhausted) (exhausted : i.Exhausted) :
    @Unwinds α (first ++ [i]) (.error .depthExhausted, i.machine) := by
  refine .cut calm exhausted ?_
  intro j hj
  cases hj

theorem finished {r : Except Failure α × Machine} (h : Unwinds first r)
    (calm : ∀ i ∈ first, ¬ i.Exhausted) : r.1 ≠ .error .depthExhausted := by
  cases h with
  | calm _ finished => exact finished
  | @cut before _ i _ exhausted _ =>
    exact absurd exhausted (calm i (List.mem_append_right before List.mem_cons_self))

theorem exists_cut {r : Except Failure α × Machine} (h : Unwinds first r)
    (some : ∃ i ∈ first, i.Exhausted) : ∃ before i unwinding, first = before ++ i :: unwinding ∧
      (∀ j ∈ before, ¬ j.Exhausted) ∧ i.Exhausted ∧ (∀ j ∈ unwinding, j.Unwinding i.machine) ∧
      r = (.error .depthExhausted, i.machine) := by
  cases h with
  | calm calm _ =>
    obtain ⟨i, hi, exhausted⟩ := some
    exact absurd exhausted (calm i hi)
  | @cut before unwinding i calm exhausted unwound =>
    exact ⟨before, i, unwinding, rfl, calm, exhausted, unwound, rfl⟩

private theorem prepend {r : Except Failure α × Machine} (calm : ∀ i ∈ first, ¬ i.Exhausted)
    (h : Unwinds rest r) : Unwinds (first ++ rest) r := by
  have both {others : List Incident} (calm' : ∀ i ∈ others, ¬ i.Exhausted) :
      ∀ i ∈ first ++ others, ¬ i.Exhausted := by
    intro i hi
    exact (List.mem_append.mp hi).elim (calm i) (calm' i)
  cases h with
  | calm calm' finished => exact .calm (both calm') finished
  | cut calm' exhausted unwinding =>
    rw [← List.append_assoc]
    exact .cut (both calm') exhausted unwinding

private theorem attempt {x : Action α} {handle : Except Failure α → Action β}
    {next : α → Machine → List Incident} (h : Unwinds first (x m))
    (returned : ∀ a n, x m = (.ok a, n) → Unwinds (next a n) (handle (.ok a) n))
    (failed : ∀ failure n, failure ≠ .depthExhausted →
      (handle (.error failure) n).1 ≠ .error .depthExhausted)
    (exhausted : ∀ n, handle (.error .depthExhausted) n = (.error .depthExhausted, n)) :
    Unwinds (first ++ after (x m) next) ((Action.attempt x >>= handle) m) := by
  rw [Action.bind_apply]
  simp only [Action.attempt]
  generalize x m = r at h returned
  cases h with
  | calm calm finished =>
    obtain ⟨failure | a, n⟩ := r
    · have other : failure ≠ .depthExhausted := fun he => finished (congrArg Except.error he)
      exact .prepend calm (.silent (failed failure n other))
    · exact .prepend calm (returned a n rfl)
  | cut calm out unwinding =>
    simp only [after, List.append_nil, exhausted]
    exact .cut calm out unwinding

private theorem bind {x : Action α} {f : α → Action β} {next : α → Machine → List Incident}
    (h : Unwinds first (x m)) (k : ∀ a n, x m = (.ok a, n) → Unwinds (next a n) (f a n)) :
    Unwinds (first ++ after (x m) next) ((x >>= f) m) := by
  let handle : Except Failure α → Action β
    | .ok a => f a
    | .error failure => Action.fail failure
  have handled : (x >>= f) m = (Action.attempt x >>= handle) m := by
    simp only [Action.bind_apply, Action.attempt]
    rcases x m with ⟨_ | _, _⟩ <;> rfl
  rw [handled]
  refine h.attempt k (fun failure n other same => other ?_) fun n => rfl
  exact Except.error.inj same

private theorem conclude {x : Action α} {f : α → Action β} (h : Unwinds first (x m))
    (succeeds : ∀ a n, ∃ b o, f a n = (.ok b, o)) : Unwinds first ((x >>= f) m) := by
  have bound : Unwinds (first ++ after (x m) fun _ _ => []) ((x >>= f) m) := by
    refine h.bind fun a n _ => ?_
    obtain ⟨b, o, done⟩ := succeeds a n
    rw [done]
    exact .returned b o
  rwa [Incident.after_none, List.append_nil] at bound

private theorem foldlM {f : β → α → Action β} {incidents : α → Machine → List Incident}
    (h : ∀ b a m, Unwinds (incidents a m) (f b a m)) (b : β) (as : List α) (m : Machine) :
    Unwinds (ofFold f incidents b as m) (as.foldlM f b m) := by
  induction as generalizing b m with
  | nil => exact .returned b m
  | cons a as ih =>
    rw [List.foldlM_cons]
    exact (h b a m).bind fun c n _ => ih c n

end Unwinds

/-- The incidents of an evaluation or a call: all moments of it. -/
def Activity.incidents (depth : Nat) (a : Activity) (m : Machine) : List Incident :=
  (a.moments depth m).map .moment

private def Plan.incidents (depth : Nat) (plan : Plan) (m : Machine) : List Incident :=
  (plan.moments (Activity.perform depth) (Activity.moments depth) m).map .moment

private theorem Plan.incidents_unwind {depth : Nat}
    (inner : ∀ a m, Unwinds (Activity.incidents depth a m) (a.perform depth m)) (plan : Plan)
    (m : Machine) :
    (∀ i ∈ plan.incidents depth m, ¬ i.Exhausted) ∨
      Unwinds (plan.incidents depth m) (plan.run (Activity.perform depth) m) := by
  induction plan generalizing m with
  | finish x =>
    refine .inl fun i hi => ?_
    cases hi
  | enter x next ih =>
    simp only [incidents, moments, run, Action.bind_apply]
    rcases x m with ⟨failure | f, n⟩
    · refine .inl fun i hi => ?_
      cases hi
    · exact ih f n
  | ask a next ih =>
    have asked := inner a m
    simp only [incidents, moments, run, Action.bind_apply, List.map_append]
    rw [Activity.incidents] at asked
    generalize a.perform depth m = r at asked
    generalize (Activity.moments depth a m).map Incident.moment = first at asked
    cases asked with
    | calm calm finished =>
      obtain ⟨failure | v, n⟩ := r
      · exact .inl (by simpa using calm)
      · rcases ih v n with rest | rest
        · refine .inl fun i hi => ?_
          exact (List.mem_append.mp hi).elim (calm i) (rest i)
        · exact .inr (.prepend calm rest)
    | cut calm exhausted unwinding =>
      rw [List.map_nil, List.append_nil]
      exact .inr (.cut calm exhausted unwinding)

/-- Whatever an evaluation or a call does, comparisons and the texts of messages included, it does with
more depth as well, unless it runs out. -/
theorem Activity.perform_eq_of_le {depth depth' : Nat} (h : depth ≤ depth') {a : Activity}
    {m : Machine} (finished : (a.perform depth m).1 ≠ .error .depthExhausted) :
    a.perform depth m = a.perform depth' m := by
  cases a with
  | eval e frame => exact eval_eq_of_le h finished
  | call f args => exact call_eq_of_le h finished

/-- An evaluation or a call that runs out of depth at any level ends there. -/
theorem Activity.incidents_unwind (depth : Nat) (a : Activity) (m : Machine) :
    Unwinds (a.incidents depth m) (a.perform depth m) := by
  induction depth generalizing a m with
  | zero =>
    rw [perform_zero]
    have ends : (Incident.moment (.ends a (.error .depthExhausted) m)).Exhausted := rfl
    show Unwinds ([.moment (.begins 0 a m)] ++ [.moment (.ends a (.error .depthExhausted) m)]) _
    refine .last ?_ ends
    intro j hj
    obtain rfl := List.mem_singleton.mp hj
    intro exhausted
    cases exhausted
  | succ depth ih =>
    have begun : ∀ i ∈ [Incident.moment (.begins (depth + 1) a m)], ¬ i.Exhausted := by
      intro i hi
      obtain rfl := List.mem_singleton.mp hi
      intro exhausted
      cases exhausted
    have plan := Plan.incidents_unwind ih (Plan.ofActivity depth a) m
    rw [Plan.run_ofActivity] at plan
    have split : a.incidents (depth + 1) m = [.moment (.begins (depth + 1) a m)] ++
        (Plan.incidents depth (Plan.ofActivity depth a) m ++
          [.moment (.ends a (a.perform (depth + 1) m).1 (a.perform (depth + 1) m).2)]) := by
      simp [incidents, moments, Plan.incidents]
    rw [split]
    refine .prepend begun ?_
    rcases ended : a.perform (depth + 1) m with ⟨outcome, n⟩
    rw [ended] at plan
    -- What was asked for did not run out, so that the end of the whole is the first to do so.
    have own (calm : ∀ i ∈ Plan.incidents depth (Plan.ofActivity depth a) m, ¬ i.Exhausted) :
        Unwinds (Plan.incidents depth (Plan.ofActivity depth a) m ++
          [.moment (.ends a outcome n)]) (outcome, n) := by
      by_cases out : outcome = .error .depthExhausted
      · rw [out]
        have ends : (Incident.moment (.ends a (.error .depthExhausted) n)).Exhausted := rfl
        exact .last calm ends
      · refine .prepend calm (.calm ?_ out)
        intro i hi exhausted
        obtain rfl := List.mem_singleton.mp hi
        cases outcome with
        | ok v => cases exhausted
        | error failure => exact out (congrArg Except.error (Option.some.inj exhausted))
    rcases plan with calm | unwinds
    · exact own calm
    · -- What runs out inside ends this activity as well: its own end is one more that unwinds.
      generalize Plan.incidents depth (Plan.ofActivity depth a) m = asked at own unwinds
      generalize hr : (outcome, n) = r at unwinds
      cases unwinds with
      | calm calm _ =>
        rw [← hr]
        exact own calm
      | @cut before unwinding i calm exhausted unwound =>
        cases hr
        rw [List.append_assoc, List.cons_append]
        refine .cut calm exhausted fun j hj => ?_
        rcases List.mem_append.mp hj with hj | hj
        · exact unwound j hj
        · exact ⟨a, List.mem_singleton.mp hj⟩

namespace Program

def incidentsOfDatum (depth : Nat) (frame : FrameId) (d : Datum) (m : Machine) : List Incident :=
  after (Action.load d m) fun e n => (Activity.eval e frame).incidents depth n

/-- The incidents of printing a result; the unit value is not written. -/
def incidentsOfResult (depth : Nat) (v : Value) (m : Machine) : List Incident :=
  match v with
  | .unit => []
  | v => [.shown (v.display depth) m]

def incidentsOfReading (depth : Nat) (frame : FrameId) (echo : Bool)
    (reading : Except Failure Datum) (m : Machine) : List Incident :=
  (.read reading m :: after (Action.lift reading m) (incidentsOfDatum depth frame)) ++
    after ((do evalDatum depth frame (← Action.lift reading) : Action Value) m) fun v n =>
      if echo then incidentsOfResult depth v n else []

def incidents (depth : Nat) (frame : FrameId) (echo : Bool) (source : String) (m : Machine) :
    List Incident :=
  ofFold (step depth frame echo) (incidentsOfReading depth frame echo) 0
    (Datum.readings depth (Token.tokenize source)) m

variable (depth : Nat) (frame : FrameId)

private theorem incidentsOfDatum_unwind (d : Datum) (m : Machine) :
    Unwinds (incidentsOfDatum depth frame d m) (evalDatum depth frame d m) := by
  have loaded : Unwinds [] (Action.load d m) := .returned _ _
  exact loaded.bind fun e n _ => (Activity.eval e frame).incidents_unwind depth n

private theorem outcome_unwinds {α : Type} {i : Incident} {x : Except Failure α} {m : Machine}
    (same : i.failure? = match x with | .ok _ => none | .error failure => some failure)
    (on : i.machine = m) : Unwinds [i] (x, m) := by
  subst on
  by_cases out : x = .error .depthExhausted
  · subst out
    show Unwinds ([] ++ [i]) _
    refine .last ?_ same
    intro j hj
    cases hj
  · refine .calm ?_ out
    intro j hj exhausted
    obtain rfl := List.mem_singleton.mp hj
    cases x with
    | ok a => cases same.symm.trans exhausted
    | error failure => exact out (congrArg Except.error (Option.some.inj (same.symm.trans exhausted)))

private theorem incidentsOfResult_unwind (v : Value) (m : Machine) :
    Unwinds (incidentsOfResult depth v m) (print depth v m) := by
  by_cases unit : v = .unit
  · subst unit
    exact .returned _ _
  · have written : Unwinds [.shown (v.display depth) m] (Action.lift (v.display depth) m) := by
      refine outcome_unwinds ?_ rfl
      cases v.display depth <;> rfl
    have shown := written.conclude (f := fun text => Action.emit (.output (text ++ "\n")))
      fun _ _ => ⟨_, _, rfl⟩
    cases v with
    | unit => exact absurd rfl unit
    | _ => exact shown

private theorem incidentsOfReading_unwind (echo : Bool) (failures : Nat)
    (reading : Except Failure Datum)
    (m : Machine) :
    Unwinds (incidentsOfReading depth frame echo reading m)
      (step depth frame echo failures reading m) := by
  have read : Unwinds [.read reading m] (Action.lift reading m) := by
    refine outcome_unwinds ?_ rfl
    cases reading <;> rfl
  have evaluated : Unwinds (.read reading m :: after (Action.lift reading m)
      (incidentsOfDatum depth frame))
      ((do evalDatum depth frame (← Action.lift reading) : Action Value) m) :=
    read.bind fun d n _ => incidentsOfDatum_unwind depth frame d n
  refine evaluated.attempt ?_ ?_ fun n => rfl
  · intro v n _
    cases echo with
    | false => exact .returned _ _
    | true => exact (incidentsOfResult_unwind depth v n).conclude fun _ _ => ⟨_, _, rfl⟩
  · intro failure n other failed
    cases failure with
    | depthExhausted => exact other rfl
    | _ => cases failed

private theorem incidents_unwind (echo : Bool) (source : String) (m : Machine) :
    Unwinds (incidents depth frame echo source m) (evalSource depth frame echo source m) :=
  .foldlM (fun failures reading n => incidentsOfReading_unwind depth frame echo failures reading n) 0 _ m

end Program

namespace Session

def Act.incidents (depth : Nat) (frame : FrameId) (act : Act) (m : Machine) : List Incident :=
  match act with
  | .read _ _ => []
  | .evaluated source => Program.incidents depth frame true source m

def incidents (depth : Nat) (frame : FrameId) (prompts : Prompts) (events : List Event)
    (m : Machine) : List Incident :=
  ofFold (Act.perform depth frame prompts) (Act.incidents depth frame) 0 (trace events) m

variable (depth : Nat) (frame : FrameId) (prompts : Prompts)

private theorem Act.incidents_unwind (failures : Nat) (act : Act) (m : Machine) :
    Unwinds (act.incidents depth frame m) (act.perform depth frame prompts failures m) := by
  match act with
  | .read _ (some (.line _)) => exact .returned _ _
  | .read _ (some .interrupt) => exact .returned _ _
  | .read _ none => exact .returned _ _
  | .evaluated source =>
    have evaluated : Unwinds (Program.incidents depth frame true source m ++
        after (Program.evalSource depth frame true source m) fun _ _ => [])
        (evaluate depth frame failures source m) := by
      refine (Program.incidents_unwind depth frame true source m).attempt
        (fun failed n _ => .returned _ _) ?_ fun n => rfl
      intro failure n other failed
      cases failure with
      | depthExhausted => exact other rfl
      | _ => cases failed
    rwa [Incident.after_none, List.append_nil] at evaluated

private theorem incidents_unwind (events : List Event) (m : Machine) :
    Unwinds (incidents depth frame prompts events m) (Session.run depth frame prompts events m) := by
  rw [run_eq_trace]
  exact .foldlM (fun failures act n => act.incidents_unwind depth frame prompts failures n) 0 _ m

end Session

namespace CommandLine

variable (depth : Nat) (frame : FrameId) (files : Files) (prompts : Prompts)

def incidentsOfFile (path : Path) (m : Machine) : List Incident :=
  match path.hasNul, files path with
  | false, .ok source =>
      after (Action.report .info s!"Running {path.text}" m) fun _ n =>
        Program.incidents depth frame false source n
  | _, _ => []

def incidentsOfFiles (events : List Event) : List String → Machine → List Incident
  | [], _ => []
  | name :: rest, m =>
      if name = "-" then
        Session.incidents depth frame prompts events m ++
          after (Session.run depth frame prompts events m) fun _ n => incidentsOfFiles [] rest n
      else
        incidentsOfFile depth frame files (Path.ofText name) m ++
          after (runFile depth frame files (Path.ofText name) m) fun failed n =>
            match failed with
            | none => []
            | some _ => incidentsOfFiles events rest n

/-- The incidents of a task. -/
def Task.incidents (events : List Event) (task : Task) (m : Machine) : List Incident :=
  match task with
  | .expression source => Program.incidents depth frame true source m
  | .files names => incidentsOfFiles depth frame files prompts events names m

private theorem incidentsOfFile_unwind (path : Path) (m : Machine) :
    Unwinds (incidentsOfFile depth frame files path m) (runFile depth frame files path m) := by
  cases nul : path.hasNul with
  | true =>
    rw [runFile_of_nul nul, incidentsOfFile, nul]
    refine .silent ?_
    intro failed
    cases failed
  | false =>
    cases found : files path with
    | error fault =>
      rw [runFile_of_fault nul found, incidentsOfFile, nul, found]
      exact .returned _ _
    | ok source =>
      rw [runFile_of_text nul found, incidentsOfFile, nul, found]
      have announced : Unwinds [] (Action.report .info s!"Running {path.text}" m) :=
        .returned _ _
      have ran := announced.bind fun _ n _ =>
        (Program.incidents_unwind depth frame false source n).conclude
          (f := fun failed => (return some failed : Action (Option Nat)))
          fun _ _ => ⟨_, _, rfl⟩
      exact ran

private theorem incidentsOfFiles_unwind (events : List Event) (failures : Nat) (names : List String)
    (m : Machine) :
    Unwinds (incidentsOfFiles depth frame files prompts events names m)
      (runFiles depth frame files prompts failures events names m) := by
  induction names generalizing events failures m with
  | nil => exact .returned _ _
  | cons name names ih =>
    simp only [incidentsOfFiles, runFiles]
    split
    · refine (Session.incidents_unwind depth frame prompts events m).bind fun failed n _ => ?_
      exact ih [] (failures + failed) n
    · refine (incidentsOfFile_unwind depth frame files (Path.ofText name) m).bind fun failed n _ => ?_
      cases failed with
      | none => exact .returned _ _
      | some failed => exact ih events (failures + failed) n

theorem Task.incidents_unwind (events : List Event) (task : Task) (m : Machine) :
    Unwinds (task.incidents depth frame files prompts events m)
      (perform depth frame files prompts events task m) := by
  cases task with
  | expression source =>
    exact (Program.incidents_unwind depth frame true source m).conclude
      fun _ _ => ⟨_, _, rfl⟩
  | files names => exact incidentsOfFiles_unwind depth frame files prompts events 0 names m

variable {depth frame files prompts}

theorem perform_eq_of_le {depth' : Nat} (h : depth ≤ depth') {events : List Event} {task : Task}
    {m : Machine}
    (finished : (perform depth frame files prompts events task m).1 ≠ .error .depthExhausted) :
    perform depth frame files prompts events task m =
      perform depth' frame files prompts events task m := by
  have lenient : Correspondence.deeper.Lenient := fun failure excused => excused
  have prompting : Correspondence.deeper.KeepsPrompts := by
    rintro w n _ text rfl
    exact ⟨w, Correspondence.deeper.later_refl w, rfl⟩
  refine Correspondence.Agrees.eq_of_deeper ?_ finished
  exact Correspondence.task_agrees lenient (fun _ => trivial) prompting
    (Correspondence.deeper_fits h) files prompts events task rfl rfl

theorem depthOf_le {limit limit' : Int} {depth depth' : Nat}
    (accepted : depthOf (.value limit) = .ok depth)
    (accepted' : depthOf (.value limit') = .ok depth') (h : limit ≤ limit') : depth ≤ depth' := by
  have allowed {limit : Int} {depth : Nat} (h : depthOf (.value limit) = .ok depth) :
      depth = limit.toNat := by
    simp only [depthOf] at h
    split at h
    · cases h
    · split at h
      · cases h
      · split at h
        · cases h
        · exact (Except.ok.inj h).symm
  rw [allowed accepted, allowed accepted']
  exact Int.toNat_le_toNat h

/-- Two limits that are accepted, the second not smaller. If nothing runs out of depth under the first, the
run under the second is the same: its exit status or the failure that escapes, its machine, and what is
seen of it. If something does, then after the first incident that does the run only ends what was going
on, its machine stays as it is but for one last report, and the exit status tells. To an evaluation or a
call that does not run out the limit makes no difference, so nothing inside it ran out either. -/
theorem launch_raised_limit {limit limit' : Int} {depth depth' : Nat}
    (accepted : depthOf (.value limit) = .ok depth)
    (accepted' : depthOf (.value limit') = .ok depth') (le : limit ≤ limit') (threshold : Nat)
    (files : Files) (events : List Event) (o : Options) {task : Task} (asked : o.task = .ok task) :
    let incidents := task.incidents depth 0 files o.prompts events (freshMachine threshold)
    let run (depth : Nat) := launch threshold files events o.prompts depth task
    let seen (limit : Int) := execute threshold files events { o with recursionLimit := .value limit }
    seen limit = Outcome.ofRun (run depth) ∧
    ((∀ i ∈ incidents, ¬ i.Exhausted) → run depth' = run depth ∧ seen limit' = seen limit) ∧
    ((∃ i ∈ incidents, i.Exhausted) → ∃ before i unwinding, incidents = before ++ i :: unwinding ∧
      (∀ j ∈ before, ¬ j.Exhausted) ∧ i.Exhausted ∧ (∀ j ∈ unwinding, j.Unwinding i.machine) ∧
      run depth = (.ok Ending.tooDeep, givenUp i.machine) ∧
      (seen limit).ending = .exit Ending.tooDeep) ∧
    ∀ room a m, .moment (.begins room a m) ∈ incidents →
      (a.perform room m).1 ≠ .error .depthExhausted →
      ∀ room', room ≤ room' → a.perform room' m = a.perform room m := by
  intro incidents run seen
  have sees : seen limit = Outcome.ofRun (run depth) :=
    execute_eq_launch threshold files events accepted asked
  have sees' : seen limit' = Outcome.ofRun (run depth') :=
    execute_eq_launch threshold files events accepted' asked
  have unwinds := task.incidents_unwind depth 0 files o.prompts events (freshMachine threshold)
  refine ⟨sees, fun calm => ?_, fun some => ?_, fun room a m _ finished room' more => ?_⟩
  · have finished := unwinds.finished calm
    have same := perform_eq_of_le (depthOf_le accepted accepted' le) finished
    have run_eq : run depth' = run depth := by
      show supervised _ _ _ _ _ _ _ = supervised _ _ _ _ _ _ _
      rw [supervised_of_finished finished, supervised_of_finished (same ▸ finished), same]
    exact ⟨run_eq, by rw [sees', run_eq, sees]⟩
  · obtain ⟨before, i, unwinding, split, calm, exhausted, unwound, ended⟩ := unwinds.exists_cut some
    have given : run depth = (.ok Ending.tooDeep, givenUp i.machine) := supervised_of_exhausted ended
    refine ⟨before, i, unwinding, split, calm, exhausted, unwound, given, ?_⟩
    rw [sees, given]
    rfl
  · exact (a.perform_eq_of_le more finished).symm

/-- A comparison of lists nested nine deep. Under a limit of eleven it runs out and ends the run before the
last form; under twelve it does not, and under forty nothing is different. -/
theorem launch_raised_limit_comparison :
    let o : Options :=
      { expression := .value "(define x (quote (((((((((a))))))))))) (equal? x x) (+ 1 1)" }
    let seen (limit : Int) :=
      execute 30 (fun _ => .error .missing) [] { o with recursionLimit := .value limit }
    (seen 11).ending = .exit Ending.tooDeep ∧ (seen 11).stdout = "" ∧ (seen 12).stdout = "#t\n2\n" ∧
      seen 40 = seen 12 := by
  intro o seen
  have eleven := @launch_raised_limit 11 12 _ _ rfl rfl (by decide) 30
    (fun _ => .error .missing) [] o _ rfl
  have twelve := @launch_raised_limit 12 40 _ _ rfl rfl (by decide) 30
    (fun _ => .error .missing) [] o _ rfl
  obtain ⟨-, -, -, -, -, -, -, -, ended⟩ := eleven.2.2.1 (by decide +kernel)
  refine ⟨ended, by decide +kernel, by decide +kernel, ?_⟩
  exact (twelve.2.1 (by decide +kernel)).2

end CommandLine

end SmallScheme
