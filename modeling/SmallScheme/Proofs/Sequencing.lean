import SmallScheme.Proofs.Recovery
import SmallScheme.Proofs.Renumbering
import SmallScheme.Proofs.Spelling

/-!
The ways to run a sequence of forms. A text can be read as a whole and its forms evaluated in order;
its forms can be evaluated as the parts of a sequence expression; and a text can be evaluated form by
form with recovery. All agree: on the value or the failure, on what was done until then, and on the first
error. The only difference is when the objects in the text are counted, and nothing that is evaluated
looks at their number.
-/

set_option autoImplicit false
set_option relaxedAutoImplicit false

namespace SmallScheme

namespace Datum

theorem spellsEach_of_readings {depth : Nat} {tokens : List Token} {data : List Datum}
    (h : (readings depth tokens).mapM id = .ok data) :
    SpellsEach tokens data ∧ heights data ≤ depth := by
  have read := eq_map_ok_of_mapM_id h
  clear h
  induction data generalizing tokens with
  | nil =>
    obtain rfl := readings_eq_nil_iff.mp read
    exact ⟨.nil, Nat.zero_le depth⟩
  | cons d data ih =>
    have some : tokens ≠ [] := by
      rintro rfl
      cases read
    rw [readings_of_ne_nil depth some, List.map_cons, List.cons_eq_cons] at read
    obtain ⟨form, cut, spelled, fits⟩ := exists_form_of_next (Prod.ext read.1 rfl)
    obtain ⟨each, fit⟩ := ih read.2
    rw [cut]
    exact ⟨.cons spelled each, Nat.max_le.mpr ⟨fits, fit⟩⟩

private theorem mapM_readings_eq_of_le {depth depth' : Nat} (h : depth ≤ depth')
    (tokens : List Token) :
    (readings depth tokens).mapM id = .error .depthExhausted ∨
      (readings depth tokens).mapM id = (readings depth' tokens).mapM id := by
  induction hn : tokens.length using Nat.strongRecOn generalizing tokens with
  | _ n ih =>
    by_cases none : tokens = []
    · subst none
      exact .inr rfl
    · rw [readings_of_ne_nil depth none, readings_of_ne_nil depth' none, List.mapM_cons,
        List.mapM_cons]
      rcases next_eq_of_le h tokens with exhausted | same
      · rw [exhausted]
        exact .inl rfl
      · have shorter := next_length_lt depth none
        rw [← same]
        cases (next depth tokens).1 with
        | error failure => exact .inr rfl
        | ok d =>
          rcases ih _ (by omega) (next depth tokens).2 rfl with exhausted | same
          · rw [exhausted]
            exact .inl rfl
          · rw [same]
            exact .inr rfl

private theorem parseMany_eq_of_le {depth depth' : Nat} (h : depth ≤ depth') (source : String) :
    parseMany depth source = .error .depthExhausted ∨
      parseMany depth source = parseMany depth' source :=
  mapM_readings_eq_of_le h (Token.tokenize source)

end Datum

namespace Program

/-- The text of a sequence expression with the forms of a text. -/
def sequenced (source : String) : String :=
  "(begin " ++ source ++ "\n)"

private theorem tokenize_sequenced (source : String) :
    Token.tokenize (sequenced source) =
      .opening :: ((.word "begin" :: Token.tokenize source) ++ [.closing]) := by
  have space : Token.isDelimiter ' ' = true := by decide
  have newline : Token.isDelimiter '\n' = true := by decide
  have parenthesised : sequenced source = "(" ++ ("begin " ++ source ++ "\n") ++ ")" := by
    apply String.toList_inj.mp
    simp [sequenced]
  have keyword : Token.scan "begin".toList = [.word "begin"] := by decide
  have tail := Token.scan_append_delimiter source.toList [] newline
  have whole := Token.scan_append_delimiter "begin".toList (source.toList ++ ['\n']) space
  rw [tail, keyword] at whole
  rw [parenthesised, Token.tokenize_parenthesised]
  have inner : Token.tokenize ("begin " ++ source ++ "\n") = .word "begin" :: Token.tokenize source := by
    simpa [Token.tokenize, Token.ofDelimiter, Token.scan_nil] using whole
  rw [inner]

private theorem parseMany_sequenced {depth : Nat} {source : String} {data : List Datum}
    (h : Datum.parseMany depth source = .ok data) :
    Datum.parseMany (depth + 1) (sequenced source) = .ok [.list (.symbol "begin" :: data)] := by
  obtain ⟨each, fits⟩ := Datum.spellsEach_of_readings h
  have keyword : Datum.Spells [.word "begin"] (.symbol "begin") := .atom rfl
  have spelled : Datum.Spells (Token.tokenize (sequenced source)) (.list (.symbol "begin" :: data)) := by
    rw [tokenize_sequenced]
    exact .list (.cons keyword each)
  have deep : (Datum.list (.symbol "begin" :: data)).height ≤ depth + 1 := by
    simp only [Datum.height, Datum.heights]
    omega
  have read := Datum.next_of_spells spelled deep []
  rw [List.append_nil] at read
  have some : Token.tokenize (sequenced source) ≠ [] := by
    rw [tokenize_sequenced]
    exact List.cons_ne_nil _ _
  rw [Datum.parseMany, Datum.readings_of_ne_nil _ some, read, Datum.readings_nil]
  rfl

variable {depth : Nat} {frame : FrameId}

def evalSequence (depth : Nat) (frame : FrameId) (i : Identity) (data : List Datum) :
    Action Value := do
  let forms ← data.mapM Action.load
  eval depth (.list i (.symbol "begin" :: forms)) frame

private theorem mapM_load (data : List Datum) (m : Machine) :
    data.mapM Action.load m =
      (.ok (Value.ofData m.store.written data).1,
        m.counting (m.store.written + Datum.listsEach data)) := by
  induction data generalizing m with
  | nil => rfl
  | cons d data ih =>
    have first : Action.load d m =
        (.ok (Value.ofDatum m.store.written d).1, m.counting (m.store.written + d.lists)) := by
      rw [← Value.ofDatum_next]
      rfl
    rw [List.mapM_cons, Action.bind_apply, first]
    dsimp only
    rw [Action.bind_apply, ih]
    simp only [Value.ofData, Value.ofDatum_next, Datum.listsEach, Action.pure_apply, Machine.counting,
      Nat.add_assoc]

private theorem foldlM_evalDatum (data : List Datum) (v : Value) (m : Machine) {written : Nat}
    (counted : m.store.written + Datum.listsEach data = written) :
    let r := data.foldlM (fun _ d => evalDatum depth frame d) v m
    (Value.ofData m.store.written data).1.foldlM (fun _ e => eval depth e frame) v
        (m.counting written) = (r.1, r.2.counting written) ∧
      ∀ result, r.1 = .ok result → r.2.store.written = written := by
  induction data generalizing v m with
  | nil => exact ⟨rfl, fun _ _ => counted⟩
  | cons d data ih =>
    let read := m.counting (m.store.written + d.lists)
    have loaded : evalDatum depth frame d m =
        eval depth (Value.ofDatum m.store.written d).1 frame read := by
      simp only [read, ← Value.ofDatum_next]
      rfl
    obtain ⟨evaluated, still⟩ :=
      eval_counting depth (Value.ofDatum m.store.written d).1 frame read written
    have same : read.counting written = m.counting written := rfl
    rw [same] at evaluated
    simp only [Value.ofData, Value.ofDatum_next, List.foldlM_cons, Action.bind_apply, loaded, evaluated]
    generalize eval depth (Value.ofDatum m.store.written d).1 frame read = r at still
    obtain ⟨failure | u, n⟩ := r
    · refine ⟨rfl, ?_⟩
      intro result returned
      cases returned
    · have here : n.store.written = m.store.written + d.lists := still
      have rest : n.store.written + Datum.listsEach data = written := by
        rw [here, ← counted, Datum.listsEach, Nat.add_assoc]
      rw [← here]
      exact ih u n rest

private theorem eval_sequence (depth : Nat) (i : Identity) (es : List Value) (frame : FrameId) :
    eval (depth + 1) (.list i (.symbol "begin" :: es)) frame =
      es.foldlM (fun _ e => eval depth e frame) .unit :=
  rfl

variable {source : String} {data : List Datum}

theorem run_of_unread {failure : Failure} (unread : Datum.parseMany depth source = .error failure)
    (m : Machine) : run depth frame source m = (.error failure, m) := by
  simp only [run, unread]
  rfl

theorem run_of_parseMany (read : Datum.parseMany depth source = .ok data) :
    run depth frame source = data.foldlM (fun _ d => evalDatum depth frame d) .unit := by
  simp only [run, read]
  rfl

/-- Running a text is evaluating its forms as a sequence, after all of them were read. -/
theorem evalSequence_eq_run (read : Datum.parseMany depth source = .ok data) (i : Identity)
    (m : Machine) :
    let r := run depth frame source m
    let written := m.store.written + Datum.listsEach data
    evalSequence (depth + 1) frame i data m = (r.1, r.2.counting written) ∧
      ∀ v, r.1 = .ok v → r.2.store.written = written := by
  intro r written
  have folded := @foldlM_evalDatum depth frame data .unit m written rfl
  have ran : r = data.foldlM (fun _ d => evalDatum depth frame d) .unit m :=
    congrFun (run_of_parseMany read) m
  rw [evalSequence, Action.bind_apply, mapM_load, ran]
  dsimp only
  rw [eval_sequence]
  exact folded

theorem evalSequence_eq_of_le {depth' : Nat} (h : depth ≤ depth') (frame : FrameId) (i : Identity)
    (data : List Datum) (m : Machine) :
    (evalSequence depth frame i data m).1 = .error .depthExhausted ∨
      evalSequence depth frame i data m = evalSequence depth' frame i data m := by
  simp only [evalSequence, Action.bind_apply, mapM_load]
  by_cases out : (eval depth (.list i (.symbol "begin" :: (Value.ofData m.store.written data).1)) frame
      (m.counting (m.store.written + Datum.listsEach data))).1 = .error .depthExhausted
  · exact .inl out
  · exact .inr (eval_eq_of_le h out)

/-- Running the text of a sequence expression is running the text of its forms, when one more object
was read before. -/
theorem run_sequenced (read : Datum.parseMany depth source = .ok data) (m : Machine) :
    let r := run depth frame source (m.counting (m.store.written + 1))
    run (depth + 1) frame (sequenced source) m =
      (r.1, r.2.counting (m.store.written + 1 + Datum.listsEach data)) := by
  intro r
  let i : Identity := .written m.store.written
  let begun := m.counting (m.store.written + 1)
  have whole : run (depth + 1) frame (sequenced source) m =
      evalDatum (depth + 1) frame (.list (.symbol "begin" :: data)) m := by
    rw [run_of_parseMany (parseMany_sequenced read)]
    simp only [List.foldlM_cons, List.foldlM_nil, bind_pure]
  have sequence : evalDatum (depth + 1) frame (.list (.symbol "begin" :: data)) m =
      evalSequence (depth + 1) frame i data begun := by
    rw [evalSequence, Action.bind_apply, mapM_load]
    have free : (Value.ofData (m.store.written + 1) data).2 =
        m.store.written + 1 + Datum.listsEach data := Value.ofData_next _ data
    simp only [begun, Machine.counting, ← free]
    rfl
  rw [whole, sequence]
  exact (evalSequence_eq_run read i begun).1

/-- More depth changes no run but one that runs out. -/
theorem run_eq_of_le {depth' : Nat} (h : depth ≤ depth') (frame : FrameId) (source : String)
    (m : Machine) :
    (run depth frame source m).1 = .error .depthExhausted ∨
      run depth frame source m = run depth' frame source m := by
  rcases Datum.parseMany_eq_of_le h source with exhausted | same
  · exact .inl (congrArg Prod.fst (run_of_unread exhausted m))
  · cases read : Datum.parseMany depth source with
    | error failure =>
      rw [run_of_unread read, run_of_unread (same ▸ read)]
      exact .inr rfl
    | ok data =>
      rw [run_of_parseMany read, run_of_parseMany (same ▸ read)]
      have agrees : Correspondence.deeper.Agrees () (fun _ => Eq)
          (data.foldlM (fun _ d => evalDatum depth frame d) .unit m)
          (data.foldlM (fun _ d => evalDatum depth' frame d) .unit m) := by
        refine Correspondence.Agrees.foldlM (P := fun _ => Eq) (fun _ h => h) rfl
          (List.forall₂_same.mpr fun _ _ => rfl) rfl ?_
        rintro u d _ v _ n _ - rfl rfl rfl
        exact Correspondence.evalDatum_agrees (Correspondence.deeper_fits h) rfl rfl trivial
      by_cases out : (data.foldlM (fun _ d => evalDatum depth frame d) .unit m).1 =
          .error .depthExhausted
      · exact .inl out
      · exact .inr (agrees.eq_of_deeper out)

section Recovery

variable {m n : Machine} {failures : Nat} {d : Datum}

private theorem step_of_evaluated {v : Value} (h : evalDatum depth frame d m = (.ok v, n)) :
    step depth frame false failures (.ok d) m = (.ok failures, n) := by
  simp only [step, Action.attempt, Action.lift, Action.bind_apply, h]
  rfl

private theorem step_of_failed {e : Error}
    (h : evalDatum depth frame d m = (.error (.error e), n)) :
    step depth frame false failures (.ok d) m = (.ok (failures + 1), n.reporting e) := by
  simp only [step, Action.attempt, Action.lift, Action.bind_apply, h]
  rfl

private theorem step_of_broken {failure : Failure} (fatal : failure.Fatal)
    (h : evalDatum depth frame d m = (.error failure, n)) :
    step depth frame false failures (.ok d) m = (.error failure, n) := by
  simp only [step, Action.attempt, Action.lift, Action.bind_apply, h]
  cases failure with
  | error e => exact absurd rfl (fatal e)
  | _ => rfl

/-- The first error in data evaluated with recovery: those before it are evaluated without one and
nothing is reported or printed; then one fails and leaves a machine, the error is reported on it, and the
rest is evaluated. -/
def MeetsFirst (depth : Nat) (frame : FrameId) (data : List Datum) (m : Machine) (e : Error)
    (n : Machine) (ended : Except Failure Nat × Machine) : Prop :=
  ∃ done d rest before, data = done ++ d :: rest ∧
    (done.map .ok).foldlM (step depth frame false) 0 m = (.ok 0, before) ∧
    evalDatum depth frame d before = (.error (.error e), n) ∧ m.Quiet n ∧
    (rest.map .ok).foldlM (step depth frame false) 1 (n.reporting e) = ended

theorem foldlM_step (data : List Datum) (v : Value) (m : Machine) :
    let r := data.foldlM (fun _ d => evalDatum depth frame d) v m
    let ended := (data.map .ok).foldlM (step depth frame false) 0 m
    (∀ u, r.1 = .ok u → ended = (.ok 0, r.2)) ∧
      (∀ e, r.1 = .error (.error e) → MeetsFirst depth frame data m e r.2 ended) ∧
      ∀ failure : Failure, failure.Fatal → r.1 = .error failure → ended = (.error failure, r.2) := by
  induction data generalizing v m with
  | nil =>
    refine ⟨fun _ _ => rfl, ?_, ?_⟩
    · intro e failed
      cases failed
    · intro failure _ failed
      cases failed
  | cons d data ih =>
    simp only [List.map_cons, List.foldlM_cons, Action.bind_apply]
    rcases evaluated : evalDatum depth frame d m with ⟨failure | u, n⟩
    · refine ⟨?_, ?_, ?_⟩
      · intro u returned
        cases returned
      · intro e failed
        obtain rfl : failure = .error e := Except.error.inj failed
        rw [step_of_failed evaluated]
        exact ⟨[], d, data, m, rfl, rfl, evaluated, evalDatum_quiet evaluated, rfl⟩
      · intro failure' fatal failed
        obtain rfl : failure = failure' := Except.error.inj failed
        rw [step_of_broken fatal evaluated]
    · obtain ⟨returned, failed, broken⟩ := ih u n
      rw [step_of_evaluated evaluated]
      refine ⟨returned, ?_, broken⟩
      intro e he
      obtain ⟨done, d', rest, before, rfl, ran, fails, quiet, ended⟩ := failed e he
      refine ⟨d :: done, d', rest, before, rfl, ?_, fails,
        (evalDatum_quiet evaluated).trans quiet, ended⟩
      rw [List.map_cons, List.foldlM_cons, Action.bind_apply, step_of_evaluated evaluated]
      exact ran

theorem evalSource_of_parseMany (read : Datum.parseMany depth source = .ok data) :
    evalSource depth frame false source = (data.map .ok).foldlM (step depth frame false) 0 := by
  have readings := Datum.eq_map_ok_of_mapM_id read
  rw [evalSource, readings]

end Recovery

/-- The three ways to run the forms of a text agree. If the text cannot be read, running it fails in the
same way and leaves the machine as it was. Otherwise its run is the evaluation of the sequence expression
with the forms, which nests one level deeper: the same value or failure and the same machine, in which
only the objects of the whole text are counted already. The text of the sequence expression is run to the
same end with one level more, only that the objects in it have the next numbers, where every object that
is bound has been counted, as on every machine that arises. With less depth both can only run out. And
the evaluation with recovery returns no failure where the run succeeds, ends with the same failure where
it ends fatally, and where the run ends with an error, this is the first that is reported, on the machine
that the run leaves. -/
theorem sequences_agree (depth : Nat) (frame : FrameId) (source : String) (m : Machine) :
    let ran := run depth frame source m
    (∀ failure, Datum.parseMany depth source = .error failure → ran = (.error failure, m)) ∧
    ∀ data, Datum.parseMany depth source = .ok data →
      (∀ i,
        evalSequence (depth + 1) frame i data m =
          (ran.1, ran.2.counting (m.store.written + Datum.listsEach data)) ∧
        (∀ v, ran.1 = .ok v → evalSequence (depth + 1) frame i data m = ran) ∧
        ((evalSequence depth frame i data m).1 = .error .depthExhausted ∨
          evalSequence depth frame i data m = evalSequence (depth + 1) frame i data m)) ∧
      (m.store.Accounted →
        Action.EndsAlike (Renumbering.skipping m.store.written).toRenaming ran
          (run (depth + 1) frame (sequenced source) m)) ∧
      ((run depth frame (sequenced source) m).1 = .error .depthExhausted ∨
        run depth frame (sequenced source) m = run (depth + 1) frame (sequenced source) m) ∧
      (∀ v, ran.1 = .ok v → evalSource depth frame false source m = (.ok 0, ran.2)) ∧
      (∀ e, ran.1 = .error (.error e) →
        MeetsFirst depth frame data m e ran.2 (evalSource depth frame false source m)) ∧
      ∀ failure : Failure, failure.Fatal → ran.1 = .error failure →
        evalSource depth frame false source m = (.error failure, ran.2) := by
  intro ran
  refine ⟨fun failure unread => run_of_unread unread m, fun data read => ?_⟩
  obtain ⟨returned, failed, broken⟩ := @foldlM_step depth frame data .unit m
  rw [← congrFun (run_of_parseMany read) m, ← congrFun (evalSource_of_parseMany read) m]
    at returned failed broken
  refine ⟨fun i => ?_, fun accounted => ?_, run_eq_of_le (Nat.le_succ depth) frame _ m, returned, failed,
    broken⟩
  · obtain ⟨evaluated, counted⟩ := @evalSequence_eq_run depth frame source data read i m
    refine ⟨evaluated, fun v ok => ?_, evalSequence_eq_of_le (Nat.le_succ depth) frame i data m⟩
    rw [evaluated, ← counted v ok]
    rfl
  · rw [run_sequenced read]
    exact (run_skipping accounted depth frame source).counting _

/-- A store with an object of a text in it; then a text whose second form fails. -/
theorem sequences_agree_failing_form :
    let globals := (Host.start 30).did Action.newGlobals
    let m := (run 20 0 "(define x (quote (1 2)))" globals.machine).2
    let source := "(define y (cdr x)) (f y) (define z 3)"
    m.store.Accounted ∧ ∃ e n data, run 20 0 source m = (.error (.error e), n) ∧
      Datum.parseMany 20 source = .ok data ∧
      evalSequence 21 0 (.made 100) data m =
        (.error (.error e), n.counting (m.store.written + Datum.listsEach data)) ∧
      Action.EndsAlike (Renumbering.skipping m.store.written).toRenaming (.error (.error e), n)
        (run 21 0 (sequenced source) m) ∧
      MeetsFirst 20 0 data m e n (evalSource 20 0 false source m) ∧
      (evalSource 20 0 false source m).2.journal.errors = ["UnboundVariable: unbound symbol: f"] := by
  intro globals m source
  have accounted : m.store.Accounted :=
    (Host.Traces.run globals 20 0 _).accounted (.cons (.globals (Host.start 30)) (.nil globals))
  have readable : (Datum.parseMany 20 source).toOption.isSome = true := by decide +kernel
  have count : (evalSource 20 0 false source m).1.toOption = some 1 := by decide +kernel
  have reported : (evalSource 20 0 false source m).2.journal.errors =
      ["UnboundVariable: unbound symbol: f"] := by decide +kernel
  obtain ⟨-, agree⟩ := sequences_agree 20 0 source m
  cases read : Datum.parseMany 20 source with
  | error failure =>
    rw [read] at readable
    cases readable
  | ok data =>
    obtain ⟨sequence, wrapped, -, returned, first, broken⟩ := agree data read
    have evaluated := (sequence (.made 100)).1
    have alike := wrapped accounted
    rcases ran : run 20 0 source m with ⟨failure | v, n⟩
    · rw [ran] at evaluated alike first broken
      by_cases recoverable : ∃ e, failure = .error e
      · obtain ⟨e, rfl⟩ := recoverable
        exact ⟨accounted, e, n, data, rfl, rfl, evaluated, alike, first e rfl, reported⟩
      · have fatal : failure.Fatal := fun e same => recoverable ⟨e, same⟩
        rw [broken failure fatal rfl] at count
        cases count
    · rw [ran] at returned
      rw [returned v rfl] at count
      cases count

end Program

end SmallScheme
