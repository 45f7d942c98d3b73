import SmallScheme.Proofs.Correspondence.Driver
import SmallScheme.Proofs.Recovery
import SmallScheme.Proofs.SessionBatch

/-!
Running files in order. Each file is run on the machine that the one before it left, all in one global
frame. The row ends after the last file, at the first that cannot be read, or where a failure escapes;
the exit status tells which, and nothing of what comes later has any effect. Where each text but the last
leaves no list open, running the files is evaluating their texts as one.
-/

set_option autoImplicit false
set_option relaxedAutoImplicit false

namespace SmallScheme

namespace Journal

private theorem errors_add_of_ne {r : Report} (other : r.severity ≠ .error) (j : Journal) :
    (j.add r).errors = j.errors := by
  unfold add errors
  split
  · simp [other]
  · rfl

private theorem errors_add_congr {j j' : Journal} (threshold : j.threshold = j'.threshold)
    (errors : j.errors = j'.errors) (r : Report) : (j.add r).errors = (j'.add r).errors := by
  by_cases severe : r.severity = .error
  · have one (j : Journal) : (j.add r).errors =
        j.errors ++ if j.threshold ≤ r.severity.rank then [r.message] else [] := by
      unfold add Journal.errors
      split <;> simp [severe]
    rw [one, one, threshold, errors]
  · rw [errors_add_of_ne severe, errors_add_of_ne severe, errors]

end Journal

namespace Machine

/-- Machines that differ in reports other than errors only. -/
structure SameButNotes (m m' : Machine) : Prop where
  store : m.store = m'.store
  transcript : m.transcript = m'.transcript
  threshold : m.journal.threshold = m'.journal.threshold
  errors : m.journal.errors = m'.journal.errors

theorem SameButNotes.refl (m : Machine) : m.SameButNotes m :=
  ⟨rfl, rfl, rfl, rfl⟩

theorem SameButNotes.trans {m n o : Machine} (h : m.SameButNotes n) (h' : n.SameButNotes o) :
    m.SameButNotes o :=
  ⟨h.store.trans h'.store, h.transcript.trans h'.transcript, h.threshold.trans h'.threshold,
    h.errors.trans h'.errors⟩

end Machine

def Correspondence.beyondNotes : Correspondence :=
  .ofMachines Machine.SameButNotes (fun _ => False) (fun h => h.store)
    (fun _ h => ⟨rfl, h.transcript, h.threshold, h.errors⟩)
    (fun r h => ⟨h.store, h.transcript, by simp [h.threshold],
      Journal.errors_add_congr h.threshold h.errors r⟩)
    (fun _ h => ⟨h.store, by rw [h.transcript], h.threshold, h.errors⟩)

namespace Program

private theorem Recovers.lines_eq_nil {depth : Nat} {frame : FrameId} {items : List Token.Item}
    {m o : Machine} {errors : List Error} {lines : List String}
    (h : Recovers depth frame false items m errors lines o) : lines = [] := by
  induction h with
  | nil m => rfl
  | succeeded _ _ echoes _ ih =>
    cases echoes with
    | off v => exact ih
  | failed _ _ _ _ ih => exact ih
  | stray _ ih => exact ih
  | unclosed tokens m => rfl

private theorem evalSource_sameButNotes (depth : Nat) (frame : FrameId) (echo : Bool)
    (source : String) {m m' : Machine} (h : m.SameButNotes m') :
    (evalSource depth frame echo source m).1 = (evalSource depth frame echo source m').1 ∧
      (evalSource depth frame echo source m).2.SameButNotes
        (evalSource depth frame echo source m').2 := by
  obtain ⟨outcome, _, same⟩ := Correspondence.beyondNotes.evalSource_eq (fun _ excused => excused)
    (fun _ => trivial) () h rfl depth echo source
  exact ⟨outcome, same⟩

end Program

namespace CommandLine

/-- The file of that name can be read and holds the text. -/
structure Holds (files : Files) (name text : String) : Prop where
  plain : (Path.ofText name).hasNul = false
  found : files (Path.ofText name) = .ok text

/-- The file of that name cannot be read for the given fault. -/
structure Refuses (files : Files) (name : String) (fault : FileFault) : Prop where
  plain : (Path.ofText name).hasNul = false
  found : files (Path.ofText name) = .error fault

def announcing (m : Machine) (name : String) : Machine :=
  { m with journal := m.journal.add ⟨.info, s!"Running {(Path.ofText name).text}"⟩ }

private theorem announcing_sameButNotes (m : Machine) (name : String) :
    (announcing m name).SameButNotes m :=
  ⟨rfl, rfl, Journal.threshold_add _ _, Journal.errors_add_of_ne (by simp) _⟩

def refusing (m : Machine) (name : String) (fault : FileFault) : Machine :=
  { m with journal := m.journal.add ⟨.error,
      s!"Error reading {(Path.ofText name).text}: {fault.message (Path.ofText name)}"⟩ }

/-- Files that are run one after the other, each to its end, with the errors of their forms: each text is
evaluated in the given frame, on the machine that the file before it left. -/
inductive RunsThrough (depth : Nat) (frame : FrameId) (files : Files) :
    List String → Machine → List Error → Machine → Prop
  | nil (m : Machine) : RunsThrough depth frame files [] m [] m
  | cons {name text : String} {names : List String} {items : List Token.Item} {m n o : Machine}
      {errors others : List Error} : Holds files name text →
      Token.Splits (Token.tokenize text) items →
      Program.Recovers depth frame false items (announcing m name) errors [] n →
      Program.evalSource depth frame false text (announcing m name) = (.ok errors.length, n) →
      RunsThrough depth frame files names n others o →
      RunsThrough depth frame files (name :: names) m (errors ++ others) o

/-- The file at which a row of files ends before its last, and what the row comes to. -/
inductive StopsAt (depth : Nat) (frame : FrameId) (files : Files) (name : String) (n : Machine) :
    Except Failure Nat × Machine → Prop
  | refused {fault : FileFault} : Refuses files name fault →
      StopsAt depth frame files name n (.ok Ending.badFile, refusing n name fault)
  | nul : (Path.ofText name).hasNul = true →
      StopsAt depth frame files name n (.error .nulInPath, n)
  | broken {text : String} {failure : Failure} {o : Machine} : Holds files name text →
      Program.evalSource depth frame false text (announcing n name) = (.error failure, o) →
      StopsAt depth frame files name n (.error failure, o)

/-- Recursion is exhausted in one of the files, after those before it were run to their ends. -/
def RunsOut (depth : Nat) (frame : FrameId) (files : Files) (names : List String) (m o : Machine) :
    Prop :=
  ∃ before name later text errors n, names = before ++ name :: later ∧
    RunsThrough depth frame files before m errors n ∧ Holds files name text ∧
    Program.evalSource depth frame false text (announcing n name) = (.error .depthExhausted, o)

section Row

variable {depth : Nat} {frame : FrameId} {files : Files} {prompts : Prompts} {events : List Event}
  {failures : Nat} {name : String} {names rest : List String} {m n : Machine} {errors : List Error}

private theorem Holds.runs {text : String} (holds : Holds files name text) (depth : Nat)
    (frame : FrameId) (m : Machine) :
    (∃ items errors n, Token.Splits (Token.tokenize text) items ∧
      Program.Recovers depth frame false items (announcing m name) errors [] n ∧
      Program.evalSource depth frame false text (announcing m name) = (.ok errors.length, n)) ∨
      ∃ r, StopsAt depth frame files name m r := by
  obtain ⟨items, split⟩ := Token.exists_splits (Token.tokenize text)
  have ends := @Program.foldlM_step_ends depth frame false _ _ split 0 (announcing m name)
  rcases ends with ⟨errors, lines, n, ran, recovers⟩ | ⟨errors, failure, o, ran, -⟩
  · rw [Nat.zero_add] at ran
    obtain rfl := recovers.lines_eq_nil
    exact .inl ⟨items, errors, n, split, recovers, ran⟩
  · exact .inr ⟨_, .broken holds ran⟩

/-- Files are run one after the other until one of them stops the row. -/
theorem runsThrough_or_stopsAt (depth : Nat) (frame : FrameId) (files : Files) (names : List String)
    (m : Machine) :
    (∃ errors n, RunsThrough depth frame files names m errors n) ∨
      ∃ before name later errors n r, names = before ++ name :: later ∧
        RunsThrough depth frame files before m errors n ∧ StopsAt depth frame files name n r := by
  induction names generalizing m with
  | nil => exact .inl ⟨[], m, .nil m⟩
  | cons name names ih =>
    have here {r : Except Failure Nat × Machine} (stops : StopsAt depth frame files name m r) :
        ∃ before name' later errors n r, name :: names = before ++ name' :: later ∧
          RunsThrough depth frame files before m errors n ∧ StopsAt depth frame files name' n r :=
      ⟨[], name, names, [], m, r, rfl, .nil m, stops⟩
    cases nul : (Path.ofText name).hasNul with
    | true => exact .inr (here (.nul nul))
    | false =>
      cases found : files (Path.ofText name) with
      | error fault => exact .inr (here (.refused ⟨nul, found⟩))
      | ok text =>
        have holds : Holds files name text := ⟨nul, found⟩
        rcases holds.runs depth frame m with ⟨items, errors, n, split, recovers, ran⟩ | ⟨r, stops⟩
        · rcases ih n with ⟨others, o, through⟩ |
            ⟨before, stop, later, others, o, r, rfl, through, stops⟩
          · exact .inl ⟨_, o, .cons holds split recovers ran through⟩
          · exact .inr ⟨name :: before, stop, later, _, o, r, rfl,
              .cons holds split recovers ran through, stops⟩
        · exact .inr (here stops)

private theorem runFiles_of_runsThrough (through : RunsThrough depth frame files names m errors n)
    (plain : "-" ∉ names) (failures : Nat) (rest : List String) :
    runFiles depth frame files prompts failures events (names ++ rest) m =
      runFiles depth frame files prompts (failures + errors.length) events rest n := by
  induction through generalizing failures with
  | nil m => rfl
  | @cons name text names items m n o errors others holds _ _ ran _ ih =>
    obtain ⟨different, plain⟩ : name ≠ "-" ∧ "-" ∉ names := by
      simpa [eq_comm] using plain
    have file : runFile depth frame files (Path.ofText name) m = (.ok (some errors.length), n) := by
      have ran : Program.evalSource depth frame false text
          { m with journal := m.journal.add ⟨.info, s!"Running {(Path.ofText name).text}"⟩ } =
            (.ok errors.length, n) := ran
      rw [runFile_of_text holds.plain holds.found]
      simp only [Action.bind_apply, Action.report, ran]
      rfl
    rw [List.cons_append, runFiles, if_neg different, Action.bind_apply, file]
    simp only [ih plain, List.length_append, Nat.add_assoc]

private theorem runFiles_of_stopsAt {r : Except Failure Nat × Machine}
    (stops : StopsAt depth frame files name n r) (different : name ≠ "-") (failures : Nat)
    (later : List String) :
    runFiles depth frame files prompts failures events (name :: later) n = r := by
  rw [runFiles, if_neg different, Action.bind_apply]
  cases stops with
  | refused refuses =>
    rw [runFile_of_fault refuses.plain refuses.found]
    rfl
  | nul nul =>
    rw [runFile_of_nul nul]
    rfl
  | @broken text failure o holds ran =>
    have ran : Program.evalSource depth frame false text
        { n with journal := n.journal.add ⟨.info, s!"Running {(Path.ofText name).text}"⟩ } =
          (.error failure, o) := ran
    rw [runFile_of_text holds.plain holds.found]
    simp only [Action.bind_apply, Action.report, ran]

private theorem RunsThrough.leaves (through : RunsThrough depth frame files names m errors n) :
    n.journal.threshold = m.journal.threshold ∧ n.transcript = m.transcript ∧
      n.journal.errors = m.journal.errors ++ m.journal.kept errors := by
  induction through with
  | nil m => exact ⟨rfl, rfl, by simp [Journal.kept]⟩
  | @cons name text names items m n o errors others _ _ recovers ran _ ih =>
    have reports : (announcing m name).Reports (fun _ => True)
        (Program.evalSource depth frame false text (announcing m name)).2 :=
      Program.evalSource_reports (fun _ _ => trivial) (fun _ _ => trivial) _
    rw [ran] at reports
    have start := announcing_sameButNotes m name
    have threshold : n.journal.threshold = m.journal.threshold :=
      reports.threshold.trans start.threshold
    have transcript : n.transcript = m.transcript := by
      apply Array.ext'
      simpa [announcing] using recovers.transcript
    have first := recovers.journal_errors
    rw [start.errors, Journal.kept_of_threshold start.threshold] at first
    refine ⟨ih.1.trans threshold, ih.2.1.trans transcript, ?_⟩
    rw [ih.2.2, first, Journal.kept_of_threshold threshold, Journal.kept_append, List.append_assoc]

/-- Running files whose texts fit together is evaluating their texts as one. -/
theorem RunsThrough.batch {texts : List String}
    (through : RunsThrough depth frame files names m errors n)
    (held : List.Forall₂ (Holds files) names texts)
    (complete : ∀ text ∈ texts.dropLast, Token.needsMore (Token.tokenize text) = false)
    {m' : Machine} (same : m.SameButNotes m') :
    ∃ n', Program.evalSource depth frame false ("\n".intercalate texts) m' =
        (.ok errors.length, n') ∧ n.SameButNotes n' := by
  induction through generalizing texts m' with
  | nil m =>
    cases held
    exact ⟨m', rfl, same⟩
  | @cons name text names items m n o errors others holds _ _ ran through ih =>
    obtain _ | ⟨held, heldLater⟩ := held
    rename_i text' texts
    obtain rfl : text = text' := by
      have found := holds.found
      rw [held.found] at found
      exact (Except.ok.inj found).symm
    have start := (announcing_sameButNotes m name).trans same
    obtain ⟨outcome, after⟩ := Program.evalSource_sameButNotes depth frame false text start
    rcases first : Program.evalSource depth frame false text m' with ⟨result, n'⟩
    rw [ran, first] at outcome after
    obtain rfl : .ok errors.length = result := outcome
    cases texts with
    | nil =>
      cases heldLater
      cases through
      rw [List.append_nil]
      exact ⟨n', by simpa using first, after⟩
    | cons second texts =>
      have closed : Token.needsMore (Token.tokenize ("\n".intercalate [text])) = false := by
        simpa using complete text (by simp)
      obtain ⟨o', later, final⟩ := ih heldLater
        (fun text ht => complete text (by simp [List.dropLast_cons_of_ne_nil, ht])) after
      refine ⟨o', ?_, final⟩
      -- The text of this file leaves no list open, so it can be evaluated by itself.
      have joined := @Program.evalSource_append depth frame false _ closed (second :: texts)
      have alone : "\n".intercalate [text] = text := by simp
      rw [List.singleton_append, alone] at joined
      rw [joined, Action.bind_apply, first]
      simp only [Action.bind_apply, later]
      rw [List.length_append]
      rfl

private theorem perform_of_stopsAt {r : Except Failure Nat × Machine} {later : List String}
    (through : RunsThrough depth frame files names m errors n)
    (stops : StopsAt depth frame files name n r) (plain : "-" ∉ names ++ name :: later) :
    perform depth frame files prompts events (.files (names ++ name :: later)) m = r := by
  obtain ⟨before, different⟩ : "-" ∉ names ∧ name ≠ "-" := by
    constructor
    · exact fun dash => plain (List.mem_append_left _ dash)
    · rintro rfl
      exact plain (List.mem_append_right _ List.mem_cons_self)
  rw [perform, runFiles_of_runsThrough through before, runFiles_of_stopsAt stops different]

theorem supervised_of_runsOut {o : Machine} (out : RunsOut depth frame files names m o)
    (plain : "-" ∉ names) :
    supervised depth frame files prompts events (.files names) m =
      (.ok Ending.tooDeep, givenUp o) := by
  obtain ⟨before, name, later, text, errors, n, rfl, through, holds, ran⟩ := out
  exact supervised_of_exhausted (perform_of_stopsAt through (.broken holds ran) plain)

private theorem runsThrough_of_held {texts : List String}
    (held : List.Forall₂ (Holds files) names texts) (plain : "-" ∉ names ++ rest)
    (lasting : ∀ o, ¬ RunsOut depth frame files (names ++ rest) m o)
    (handled : ∀ failure,
      (supervised depth frame files prompts events (.files (names ++ rest)) m).1 ≠ .error failure) :
    ∃ errors n, RunsThrough depth frame files names m errors n := by
  rcases runsThrough_or_stopsAt depth frame files names m with through |
    ⟨before, name, later, errors, n, r, rfl, through, stops⟩
  · exact through
  · obtain ⟨text, holds⟩ : ∃ text, Holds files name text := by
      have fromHere := List.forall₂_drop_append texts before (name :: later) held.flip
      generalize texts.drop before.length = others at fromHere
      cases fromHere with
      | cons holds _ => exact ⟨_, holds⟩
    rw [List.append_assoc, List.cons_append] at plain lasting handled
    have performed : perform depth frame files prompts events
        (.files (before ++ name :: (later ++ rest))) m = r := perform_of_stopsAt through stops plain
    cases stops with
    | refused refuses => exact absurd (refuses.found.symm.trans holds.found) nofun
    | nul nul => exact absurd (nul.symm.trans holds.plain) nofun
    | @broken text failure o holds ran =>
      by_cases out : failure = .depthExhausted
      · subst out
        exact absurd ⟨before, name, later ++ rest, text, errors, n, rfl, through, holds, ran⟩
          (lasting o)
      · have escapes : (perform depth frame files prompts events
            (.files (before ++ name :: (later ++ rest))) m).1 ≠ .error .depthExhausted := by
          rw [performed]
          exact fun same => out (Except.error.inj same)
        rw [supervised_of_finished escapes, performed] at handled
        exact absurd rfl (handled failure)

private theorem supervised_of_runsThrough (through : RunsThrough depth frame files names m errors n)
    (plain : "-" ∉ names) :
    supervised depth frame files prompts events (.files names) m =
      (.ok (if errors = [] then Ending.ok else Ending.formFailed), n) := by
  have status : Ending.ofFailures errors.length =
      if errors = [] then Ending.ok else Ending.formFailed := by
    simp [Ending.ofFailures]
  have performed : perform depth frame files prompts events (.files names) m =
      (.ok (Ending.ofFailures errors.length), n) := by
    have ran : runFiles depth frame files prompts 0 events (names ++ []) m = _ :=
      runFiles_of_runsThrough through plain 0 []
    rw [List.append_nil, Nat.zero_add] at ran
    exact ran
  rw [supervised_of_finished (by rw [performed]; nofun), performed, status]

/-- Files that can all be read are run through, unless recursion is exhausted in one of them. -/
theorem supervised_of_held {texts : List String} (held : List.Forall₂ (Holds files) names texts)
    (plain : "-" ∉ names) (lasting : ∀ o, ¬ RunsOut depth frame files names m o)
    (handled : ∀ failure,
      (supervised depth frame files prompts events (.files names) m).1 ≠ .error failure) :
    ∃ errors n, RunsThrough depth frame files names m errors n ∧
      supervised depth frame files prompts events (.files names) m =
        (.ok (if errors = [] then Ending.ok else Ending.formFailed), n) ∧
      n.journal.errors = m.journal.errors ++ m.journal.kept errors ∧ n.transcript = m.transcript ∧
      ((∀ text ∈ texts.dropLast, Token.needsMore (Token.tokenize text) = false) →
        ∃ n', Program.evalSource depth frame false ("\n".intercalate texts) m =
          (.ok errors.length, n') ∧ n.SameButNotes n') := by
  rw [← List.append_nil names] at lasting handled
  obtain ⟨errors, n, through⟩ :=
    runsThrough_of_held held (by rwa [List.append_nil]) lasting handled
  obtain ⟨-, transcript, reported⟩ := through.leaves
  exact ⟨errors, n, through, supervised_of_runsThrough through plain, reported, transcript,
    fun complete => through.batch held complete (.refl m)⟩

/-- The first file that cannot be read ends the row, unless recursion is exhausted before. -/
theorem supervised_of_refused {before later texts : List String} {bad : String} {fault : FileFault}
    (held : List.Forall₂ (Holds files) before texts) (refuses : Refuses files bad fault)
    (plain : "-" ∉ before ++ bad :: later)
    (lasting : ∀ o, ¬ RunsOut depth frame files (before ++ bad :: later) m o)
    (handled : ∀ failure, (supervised depth frame files prompts events
      (.files (before ++ bad :: later)) m).1 ≠ .error failure) :
    ∃ errors n, RunsThrough depth frame files before m errors n ∧
      supervised depth frame files prompts events (.files (before ++ bad :: later)) m =
        (.ok Ending.badFile, refusing n bad fault) := by
  obtain ⟨errors, n, through⟩ := runsThrough_of_held held plain lasting handled
  have performed : perform depth frame files prompts events (.files (before ++ bad :: later)) m =
      (.ok Ending.badFile, refusing n bad fault) :=
    perform_of_stopsAt through (.refused refuses) plain
  refine ⟨errors, n, through, ?_⟩
  rw [supervised_of_finished (by rw [performed]; nofun), performed]

end Row

/-- Files are run in order in one global frame, when there is at least one, none of them is the dash that
asks for a session, and no failure but that of recursion escapes. If all can be read and recursion is
not exhausted, the exit status tells whether a form failed, nothing is printed, and where each text but
the last leaves no list open, the errors, the store and the output are those of the texts as one. At the
first file that cannot be read the row ends with what the files before it did and one more report. If
recursion is exhausted before, the row ends there. -/
theorem launch_files_in_order {o : Options} {depth threshold : Nat} {files : Files}
    {events : List Event} (unset : o.expression = .unset) (some : o.files ≠ [])
    (plain : "-" ∉ o.files) (allowed : depthOf o.recursionLimit = .ok depth)
    (handled : ∀ failure,
      (launch threshold files events o.prompts depth (.files o.files)).1 ≠ .error failure) :
    let m := freshMachine threshold
    let r := launch threshold files events o.prompts depth (.files o.files)
    execute threshold files events o = Outcome.ofRun r ∧
    (∀ texts, List.Forall₂ (Holds files) o.files texts →
      (∀ n, ¬ RunsOut depth 0 files o.files m n) →
      ∃ errors n, RunsThrough depth 0 files o.files m errors n ∧
        r = (.ok (if errors = [] then Ending.ok else Ending.formFailed), n) ∧
        n.journal.errors = m.journal.kept errors ∧ n.transcript = #[] ∧
        ((∀ text ∈ texts.dropLast, Token.needsMore (Token.tokenize text) = false) →
          ∃ n', Program.evalSource depth 0 false ("\n".intercalate texts) m =
            (.ok errors.length, n') ∧ n.SameButNotes n')) ∧
    (∀ before bad later fault texts, o.files = before ++ bad :: later →
      List.Forall₂ (Holds files) before texts → Refuses files bad fault →
      (∀ n, ¬ RunsOut depth 0 files o.files m n) →
      ∃ errors n, RunsThrough depth 0 files before m errors n ∧
        r = (.ok Ending.badFile, refusing n bad fault)) ∧
    ∀ n, RunsOut depth 0 files o.files m n → r = (.ok Ending.tooDeep, givenUp n) := by
  intro m r
  have asked : o.task = .ok (.files o.files) := by
    simp [Options.task, unset, some]
  refine ⟨execute_eq_launch threshold files events allowed asked, ?_, ?_, ?_⟩
  · exact fun texts held lasting => supervised_of_held held plain lasting handled
  · intro before bad later fault texts split held refuses lasting
    rw [split] at plain lasting handled
    obtain ⟨errors, n, through, ended⟩ := supervised_of_refused held refuses plain lasting handled
    refine ⟨errors, n, through, ?_⟩
    show supervised depth 0 files o.prompts events (.files o.files) m = _
    rw [split, ended]
  · exact fun n out => supervised_of_runsOut out plain

/-- Two files, the second using what the first defined. A form of the first fails, and running the two is
evaluating both texts as one. -/
theorem launch_files_in_order_two :
    let files : Files := fun path =>
      if path.text = "a" then .ok "(define x 1) (car (list))"
      else if path.text = "b" then .ok "(define y x" else .error .missing
    let o : Options := { files := ["a", "b"] }
    let m := freshMachine 30
    (execute 30 files [] o).ending = .exit Ending.formFailed ∧
      ∃ errors n n', RunsThrough standardDepth 0 files o.files m errors n ∧
        launch 30 files [] o.prompts standardDepth (.files o.files) = (.ok Ending.formFailed, n) ∧
        Program.evalSource standardDepth 0 false "(define x 1) (car (list))\n(define y x" m =
          (.ok errors.length, n') ∧
        n.SameButNotes n' := by
  intro files o m
  have status : (launch 30 files [] o.prompts standardDepth (.files o.files)).1.toOption =
      some Ending.formFailed := by decide +kernel
  have handled : ∀ failure,
      (launch 30 files [] o.prompts standardDepth (.files o.files)).1 ≠ .error failure := by
    intro failure escaped
    rw [escaped] at status
    cases status
  have held : List.Forall₂ (Holds files) o.files ["(define x 1) (car (list))", "(define y x"] :=
    .cons ⟨by decide +kernel, by decide +kernel⟩ (.cons ⟨by decide +kernel, by decide +kernel⟩ .nil)
  obtain ⟨seen, readable, -, exhausted⟩ :=
    @launch_files_in_order o standardDepth 30 files [] rfl (by decide) (by decide) rfl handled
  have lasting : ∀ n, ¬ RunsOut standardDepth 0 files o.files m n := by
    intro n out
    rw [exhausted n out] at status
    cases status
  obtain ⟨errors, n, through, ended, -, -, batch⟩ := readable _ held lasting
  obtain ⟨n', whole, same⟩ := batch (by decide +kernel)
  rw [ended] at seen status
  have one : (if errors = [] then Ending.ok else Ending.formFailed) = Ending.formFailed :=
    Option.some.inj status
  rw [one] at seen ended
  exact ⟨by rw [seen]; rfl, errors, n, n', through, ended, whole, same⟩

/-- Without any file the row is empty and no form of it can fail, but a session is started, and what fails
in the session decides the exit status. A name that no file can have ends the run with a failure of its
own. -/
theorem execute_without_files :
    let files : Files := fun _ => .error .missing
    let o : Options := {}
    let m := freshMachine 30
    "-" ∉ o.files ∧ RunsThrough standardDepth 0 files o.files m [] m ∧
      (execute 30 files [.line "(car (list))"] o).ending = .exit Ending.formFailed ∧
      (execute 30 files [.line "(car (list))"] o).stdout = "> > \n" ∧
      (execute 30 files [] { o with files := ["a\x00b"] }).ending = .escaped .nulInPath := by
  intro files o m
  exact ⟨by decide, .nil m, by decide +kernel, by decide +kernel, by decide +kernel⟩

end CommandLine

end SmallScheme
