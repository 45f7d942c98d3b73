import SmallScheme.Primitive.Standard
import SmallScheme.Proofs.Recovery
import SmallScheme.Proofs.SessionBatch

/-!
Sessions act by act. What a session does with its events is a list of acts that depends on the lines alone:
reads, each with its prompt, and evaluations. Carrying out these acts is running the session. So what
holds at every read and at every evaluation is read off the acts, and acts that neither evaluate
nor keep anything can be left out.
-/

set_option autoImplicit false
set_option relaxedAutoImplicit false

namespace SmallScheme

/-- The machines are the same, but that the first wrote something more at one place. -/
structure Machine.Spliced (before removed : List Emission) (m m' : Machine) : Prop where
  store : m.store = m'.store
  journal : m.journal = m'.journal
  transcript : ∃ after, m.transcript.toList = before ++ removed ++ after ∧
    m'.transcript.toList = before ++ after

private theorem Machine.Spliced.push {before removed : List Emission} {m m' : Machine}
    (h : m.Spliced before removed m') (emission : Emission) :
    { m with transcript := m.transcript.push emission }.Spliced before removed
      { m' with transcript := m'.transcript.push emission } := by
  obtain ⟨after, whole, rest⟩ := h.transcript
  exact ⟨h.store, h.journal, after ++ [emission], by simp [whole], by simp [rest]⟩

def Correspondence.beyondSplice (before removed : List Emission) : Correspondence :=
  .ofMachines (Machine.Spliced before removed) (fun _ => False) (fun h => h.store)
    (fun _ h => ⟨rfl, h.journal, h.transcript⟩)
    (fun _ h => ⟨h.store, by rw [h.journal], h.transcript⟩)
    (fun text h => h.push (.output text))

private theorem Program.evalSource_spliced (depth : Nat) (frame : FrameId) (echo : Bool)
    (source : String)
    {before removed : List Emission} {m m' : Machine} (h : m.Spliced before removed m') :
    (evalSource depth frame echo source m).1 = (evalSource depth frame echo source m').1 ∧
      (evalSource depth frame echo source m).2.Spliced before removed
        (evalSource depth frame echo source m').2 := by
  obtain ⟨outcome, _, same⟩ := (Correspondence.beyondSplice before removed).evalSource_eq
    (fun _ excused => excused) (fun _ => trivial) () h rfl depth echo source
  exact ⟨outcome, same⟩

namespace Session

/-- What a session does: it reads, with the prompt for a new form or for one that is still open, and the
read brings an event or meets the end of the input; or it evaluates a text. -/
inductive Act where
  | read (continued : Bool) (brought : Option Event)
  | evaluated (source : String)
  deriving DecidableEq

namespace Act

/-- The lines received since the last evaluation, interrupt or start: from those before the act, those
after it. -/
def track (lines : List String) : Act → List String
  | .read _ (some (.line text)) => lines ++ [text]
  | .read _ (some .interrupt) => []
  | .read _ none => lines
  | .evaluated _ => []

/-- What a read brought. -/
def brought? : Act → Option (Option Event)
  | .read _ brought => some brought
  | .evaluated _ => none

/-- Carry out an act, with so many failures before it. -/
def perform (depth : Nat) (frame : FrameId) (prompts : Prompts) (failures : Nat) : Act → Action Nat
  | .read continued brought => do
      Action.emit (.prompt (if continued then prompts.continued else prompts.fresh))
      match brought with
      | some (.line _) => return failures
      | some .interrupt =>
          notice
          return failures
      | none =>
          Action.emit (.output "\n")
          return failures
  | .evaluated source => evaluate depth frame failures source

/-- What an act has to do with the lines received before it: a read goes on with an open form if there
are any, and then they do leave a list open; what is evaluated is those lines, and they leave none open. -/
def Fits (lines : List String) : Act → Prop
  | .read continued _ => (continued = true ↔ lines ≠ []) ∧ (lines ≠ [] → ¬ Complete lines)
  | .evaluated source => source = "\n".intercalate lines ∧ Complete lines

/-- Each act fits the lines received before it. -/
def AllFit : List String → List Act → Prop
  | _, [] => True
  | lines, act :: acts => act.Fits lines ∧ AllFit (act.track lines) acts

private theorem allFit_append (lines : List String) (first second : List Act) :
    AllFit lines (first ++ second) ↔ AllFit lines first ∧ AllFit (first.foldl track lines) second := by
  induction first generalizing lines with
  | nil => simp [AllFit]
  | cons act acts ih => simp [AllFit, ih, and_assoc]

end Act

/-- The lines received since the last evaluation, interrupt or start. -/
def since (acts : List Act) : List String :=
  acts.foldl Act.track []

def respond (lines : List String) (e : Event) : List Act :=
  .read (!lines.isEmpty) (some e) ::
    match e with
    | .interrupt => []
    | .line text =>
        if Complete (lines ++ [text]) then [.evaluated ("\n".intercalate (lines ++ [text]))] else []

def actsFrom (lines : List String) : List Event → List Act
  | [] => []
  | e :: events =>
      respond lines e ++ actsFrom ((respond lines e).foldl Act.track lines) events

/-- What a session does about events, from its start. -/
def acts (events : List Event) : List Act :=
  actsFrom [] events

/-- The lines that a session has collected after some events. -/
def buffered (events : List Event) : List String :=
  since (acts events)

/-- All that a session does from some event on, when it has collected the given lines; the last read
meets the end of the input. -/
def traceFrom (lines : List String) (events : List Event) : List Act :=
  actsFrom lines events ++ [.read (!((actsFrom lines events).foldl Act.track lines).isEmpty) none]

/-- All that a session does. -/
def trace (events : List Event) : List Act :=
  traceFrom [] events

variable {depth : Nat} {frame : FrameId} {prompts : Prompts}

private theorem actsFrom_append (lines : List String) (first second : List Event) :
    actsFrom lines (first ++ second) =
      actsFrom lines first ++ actsFrom ((actsFrom lines first).foldl Act.track lines) second := by
  induction first generalizing lines with
  | nil => rfl
  | cons e events ih =>
    simp only [List.cons_append, actsFrom, ih, List.append_assoc, List.foldl_append]

private theorem acts_append (first second : List Event) :
    acts (first ++ second) = acts first ++ actsFrom (buffered first) second :=
  actsFrom_append [] first second

private theorem trace_append (first second : List Event) :
    trace (first ++ second) = acts first ++ traceFrom (buffered first) second := by
  simp only [trace, traceFrom, actsFrom_append, List.foldl_append, List.append_assoc]
  rfl

theorem brought_acts (lines : List String) (events : List Event) :
    (actsFrom lines events).filterMap Act.brought? = events.map some := by
  induction events generalizing lines with
  | nil => rfl
  | cons e events ih =>
    have brought : (respond lines e).filterMap Act.brought? = [some e] := by
      cases e with
      | interrupt => rfl
      | line text =>
        simp only [respond]
        split <;> rfl
    rw [actsFrom, List.filterMap_append, ih, brought]
    rfl

private theorem respond_of_complete {lines : List String} {text : String}
    (h : Complete (lines ++ [text])) :
    respond lines (.line text) = [.read (!lines.isEmpty) (some (.line text)),
      .evaluated ("\n".intercalate (lines ++ [text]))] := by
  simp only [respond, if_pos h]

private theorem respond_of_incomplete {lines : List String} {text : String}
    (h : ¬ Complete (lines ++ [text])) :
    respond lines (.line text) = [.read (!lines.isEmpty) (some (.line text))] := by
  simp only [respond, if_neg h]

private theorem prompt_eq (lines : List String) (failures : Nat) :
    Session.prompt prompts ⟨lines, failures⟩ =
      if !lines.isEmpty then prompts.continued else prompts.fresh := by
  cases lines <;> rfl

private theorem step_eq_respond (lines : List String) (failures : Nat) (e : Event) :
    Session.step depth frame prompts ⟨lines, failures⟩ e = (do
      let failures ← (respond lines e).foldlM (Act.perform depth frame prompts) failures
      return ⟨(respond lines e).foldl Act.track lines, failures⟩) := by
  cases e with
  | interrupt =>
    simp only [Session.step, feed, prompt_eq, respond, List.foldlM_cons, List.foldlM_nil,
      Act.perform, List.foldl_cons, List.foldl_nil, Act.track, bind_assoc, pure_bind]
  | line text =>
    by_cases complete : Complete (lines ++ [text])
    · have closed : Token.needsMore (Token.tokenize ("\n".intercalate (lines ++ [text]))) = false :=
        complete
      simp only [respond_of_complete complete, Session.step, feed, closed, prompt_eq,
        List.foldlM_cons, List.foldlM_nil, Act.perform, List.foldl_cons, List.foldl_nil, Act.track,
        bind_assoc, pure_bind, bind_pure, Bool.false_eq_true, if_false]
    · have more : Token.needsMore (Token.tokenize ("\n".intercalate (lines ++ [text]))) = true := by
        simpa [Complete] using complete
      simp only [respond_of_incomplete complete, Session.step, feed, more, prompt_eq,
        List.foldlM_cons, List.foldlM_nil, Act.perform, List.foldl_cons, List.foldl_nil, Act.track,
        bind_assoc, pure_bind, if_true]

private theorem foldlM_step_eq_acts (lines : List String) (failures : Nat) (events : List Event) :
    events.foldlM (Session.step depth frame prompts) ⟨lines, failures⟩ = (do
      let failures ← (actsFrom lines events).foldlM (Act.perform depth frame prompts) failures
      return ⟨(actsFrom lines events).foldl Act.track lines, failures⟩) := by
  induction events generalizing lines failures with
  | nil => rfl
  | cons e events ih =>
    simp only [List.foldlM_cons, step_eq_respond, actsFrom, List.foldlM_append, List.foldl_append, ih,
      bind_assoc, pure_bind]

/-- Running a session is carrying out its acts. -/
theorem run_eq_trace (events : List Event) :
    Session.run depth frame prompts events =
      (trace events).foldlM (Act.perform depth frame prompts) 0 := by
  simp only [Session.run, trace, traceFrom, List.foldlM_append, foldlM_step_eq_acts, prompt_eq,
    bind_assoc, pure_bind, List.foldlM_cons, List.foldlM_nil, Act.perform, bind_pure]

/-- Lines that are kept leave a list open; so each act fits what was received before it. -/
theorem respond_allFit {lines : List String} (waiting : lines ≠ [] → ¬ Complete lines) (e : Event) :
    Act.AllFit lines (respond lines e) ∧
      let after := (respond lines e).foldl Act.track lines
      after ≠ [] → ¬ Complete after := by
  have read : Act.Fits lines (.read (!lines.isEmpty) (some e)) := ⟨by simp, waiting⟩
  cases e with
  | interrupt => exact ⟨⟨read, trivial⟩, fun some => absurd rfl some⟩
  | line text =>
    by_cases complete : Complete (lines ++ [text])
    · rw [respond_of_complete complete]
      exact ⟨⟨read, ⟨rfl, complete⟩, trivial⟩, fun some => absurd rfl some⟩
    · rw [respond_of_incomplete complete]
      exact ⟨⟨read, trivial⟩, fun _ => complete⟩

private theorem actsFrom_allFit {lines : List String} (waiting : lines ≠ [] → ¬ Complete lines)
    (events : List Event) :
    Act.AllFit lines (actsFrom lines events) ∧
      let after := (actsFrom lines events).foldl Act.track lines
      after ≠ [] → ¬ Complete after := by
  induction events generalizing lines with
  | nil => exact ⟨trivial, waiting⟩
  | cons e events ih =>
    obtain ⟨first, still⟩ := respond_allFit waiting e
    obtain ⟨later, after⟩ := ih still
    rw [actsFrom, Act.allFit_append, List.foldl_append]
    exact ⟨⟨first, later⟩, after⟩

private theorem trace_allFit (events : List Event) : Act.AllFit [] (trace events) := by
  have start : ([] : List String) ≠ [] → ¬ Complete [] := fun some => absurd rfl some
  obtain ⟨fit, waiting⟩ := actsFrom_allFit start events
  rw [trace, traceFrom, Act.allFit_append]
  exact ⟨fit, ⟨by simp, waiting⟩, trivial⟩

theorem fits_of_trace_eq {events : List Event} {before after : List Act} {act : Act}
    (h : trace events = before ++ act :: after) : act.Fits (since before) := by
  have fit := trace_allFit events
  rw [h, Act.allFit_append] at fit
  exact fit.2.1

private theorem evaluate_cases (depth : Nat) (frame : FrameId) (failures : Nat) (source : String)
    (m : Machine) :
    let batch := Program.evalSource depth frame true source m
    (∃ failed, evaluate depth frame failures source m = (.ok (failures + failed), batch.2)) ∨
    (evaluate depth frame failures source m = (.ok (failures + 1),
      { batch.2 with transcript := batch.2.transcript.push (.output "\nKeyboardInterrupt\n") })) ∨
    ∃ failure, failure.Fatal ∧ evaluate depth frame failures source m = (.error failure, batch.2) := by
  intro batch
  have returns := Program.evalSource_returns depth frame true source m
  simp only [evaluate, Action.bind_apply, Action.attempt]
  generalize hb : Program.evalSource depth frame true source m = r at returns
  obtain rfl : batch = r := hb
  obtain ⟨failure | failed, n⟩ := batch
  · obtain ⟨_, fatal, he⟩ := returns.resolve_left (by simp)
    cases he
    cases failure with
    | error e => exact absurd rfl (fatal e)
    | interrupted => exact .inr (.inl rfl)
    | _ => exact .inr (.inr ⟨_, fatal, rfl⟩)
  · exact .inl ⟨failed, rfl⟩

private theorem perform_returns (depth : Nat) (frame : FrameId) (prompts : Prompts) (failures : Nat)
    (act : Act) (m : Machine) :
    (∃ n o, act.perform depth frame prompts failures m = (.ok n, o)) ∨
      FailsFatally (act.perform depth frame prompts failures m) := by
  match act with
  | .read _ (some (.line _)) => exact .inl ⟨_, _, rfl⟩
  | .read _ (some .interrupt) => exact .inl ⟨_, _, rfl⟩
  | .read _ none => exact .inl ⟨_, _, rfl⟩
  | .evaluated source =>
    rcases evaluate_cases depth frame failures source m with ⟨failed, h⟩ | h | ⟨failure, fatal, h⟩
    · exact .inl ⟨_, _, h⟩
    · exact .inl ⟨_, _, h⟩
    · exact .inr ⟨failure, fatal, congrArg Prod.fst h⟩

theorem foldlM_perform_returns (depth : Nat) (frame : FrameId) (prompts : Prompts) (failures : Nat)
    (acts : List Act) (m : Machine) :
    (∃ n o, acts.foldlM (Act.perform depth frame prompts) failures m = (.ok n, o)) ∨
      FailsFatally (acts.foldlM (Act.perform depth frame prompts) failures m) := by
  induction acts generalizing failures m with
  | nil => exact .inl ⟨failures, m, rfl⟩
  | cons act acts ih =>
    rw [List.foldlM_cons, Action.bind_apply]
    rcases perform_returns depth frame prompts failures act m with ⟨n, o, h⟩ | ⟨failure, fatal, h⟩
    · rw [h]
      exact ih n o
    · refine .inr ⟨failure, fatal, ?_⟩
      generalize act.perform depth frame prompts failures m = r at h
      obtain ⟨_, o⟩ := r
      cases h
      rfl

private theorem perform_spliced (depth : Nat) (frame : FrameId) (prompts : Prompts)
    {before removed : List Emission} {m m' : Machine} (h : m.Spliced before removed m')
    (failures : Nat) (act : Act) :
    (act.perform depth frame prompts failures m).1 = (act.perform depth frame prompts failures m').1 ∧
      (act.perform depth frame prompts failures m).2.Spliced before removed
        (act.perform depth frame prompts failures m').2 := by
  match act with
  | .read _ (some (.line _)) => exact ⟨rfl, h.push _⟩
  | .read _ (some .interrupt) => exact ⟨rfl, (h.push _).push _⟩
  | .read _ none => exact ⟨rfl, (h.push _).push _⟩
  | .evaluated source =>
    obtain ⟨outcome, same⟩ := Program.evalSource_spliced depth frame true source h
    simp only [Act.perform, evaluate, Action.bind_apply, Action.attempt]
    generalize Program.evalSource depth frame true source m = r at outcome same
    generalize Program.evalSource depth frame true source m' = r' at outcome same
    obtain ⟨_, n⟩ := r
    obtain ⟨failure | failed, n'⟩ := r'
    · cases outcome
      cases failure with
      | interrupted => exact ⟨rfl, same.push _⟩
      | _ => exact ⟨rfl, same⟩
    · cases outcome
      exact ⟨rfl, same⟩

private theorem foldlM_perform_spliced (depth : Nat) (frame : FrameId) (prompts : Prompts)
    {before removed : List Emission} {m m' : Machine} (h : m.Spliced before removed m')
    (failures : Nat) (acts : List Act) :
    (acts.foldlM (Act.perform depth frame prompts) failures m).1 =
        (acts.foldlM (Act.perform depth frame prompts) failures m').1 ∧
      (acts.foldlM (Act.perform depth frame prompts) failures m).2.Spliced before removed
        (acts.foldlM (Act.perform depth frame prompts) failures m').2 := by
  induction acts generalizing failures m m' with
  | nil => exact ⟨rfl, h⟩
  | cons act acts ih =>
    obtain ⟨outcome, same⟩ := perform_spliced depth frame prompts h failures act
    rw [List.foldlM_cons, Action.bind_apply, Action.bind_apply]
    generalize act.perform depth frame prompts failures m = r at outcome same
    generalize act.perform depth frame prompts failures m' = r' at outcome same
    obtain ⟨_, n⟩ := r
    obtain ⟨failure | k, n'⟩ := r'
    · cases outcome
      exact ⟨rfl, same⟩
    · cases outcome
      exact ih same k

def Act.shown (prompts : Prompts) : Act → List Emission
  | .read continued brought =>
      .prompt (if continued then prompts.continued else prompts.fresh) ::
        match brought with
        | some (.line _) => []
        | some .interrupt => [.output "\nKeyboardInterrupt\n"]
        | none => [.output "\n"]
  | .evaluated _ => []

theorem foldlM_perform_reads (failures : Nat) {acts : List Act}
    (reads : ∀ act ∈ acts, act.brought?.isSome) (m : Machine) :
    acts.foldlM (Act.perform depth frame prompts) failures m = (.ok failures,
      { m with transcript := m.transcript ++ (acts.flatMap (Act.shown prompts)).toArray }) := by
  induction acts generalizing m with
  | nil => simp [Action.pure_apply]
  | cons act acts ih =>
    obtain ⟨read, others⟩ := List.forall_mem_cons.mp reads
    have first : act.perform depth frame prompts failures m = (.ok failures,
        { m with transcript := m.transcript ++ (act.shown prompts).toArray }) := by
      match act, read with
      | .read _ (some (.line _)), _ => simp [Act.perform, Act.shown]; rfl
      | .read _ (some .interrupt), _ => simp [Act.perform, Act.shown]; rfl
      | .read _ none, _ => simp [Act.perform, Act.shown]; rfl
    rw [List.foldlM_cons, Action.bind_apply, first]
    simp only [ih others, List.flatMap_cons]
    simp

/-- The reads of lines that are collected for one form. -/
def collecting : List String → List Act
  | [] => []
  | first :: others =>
      .read false (some (.line first)) :: others.map fun line => .read true (some (.line line))

private theorem collecting_concat (lines : List String) (line : String) :
    collecting (lines ++ [line]) = collecting lines ++ [.read (!lines.isEmpty) (some (.line line))] := by
  cases lines with
  | nil => rfl
  | cons first others => simp [collecting]

private theorem exists_before_buffered (events : List Event) :
    ∃ before, events = before ++ (buffered events).map .line ∧ buffered before = [] ∧
      acts events = acts before ++ collecting (buffered events) := by
  induction events using List.reverseRecOn with
  | nil => exact ⟨[], rfl, rfl, rfl⟩
  | append_singleton events e ih =>
    have all : acts (events ++ [e]) = acts events ++ respond (buffered events) e := by
      rw [acts_append]
      simp [actsFrom]
    have left : buffered (events ++ [e]) =
        (respond (buffered events) e).foldl Act.track (buffered events) := by
      simp [buffered, since, all, List.foldl_append]
    have emptied (h : buffered (events ++ [e]) = []) :
        ∃ before, events ++ [e] = before ++ (buffered (events ++ [e])).map .line ∧
          buffered before = [] ∧
          acts (events ++ [e]) = acts before ++ collecting (buffered (events ++ [e])) :=
      ⟨events ++ [e], by simp [h], h, by simp [h, collecting]⟩
    cases e with
    | interrupt => exact emptied left
    | line text =>
      by_cases complete : Complete (buffered events ++ [text])
      · rw [respond_of_complete complete] at left
        exact emptied left
      · rw [respond_of_incomplete complete] at all left
        have more : buffered (events ++ [.line text]) = buffered events ++ [text] := left
        obtain ⟨before, cut, empty, earlier⟩ := ih
        refine ⟨before, ?_, empty, ?_⟩
        · rw [more, List.map_append, ← List.append_assoc, ← cut]
          rfl
        · rw [all, more, collecting_concat, earlier, List.append_assoc]

/-- Both runs return the same count, with the same store and journal; of what the first wrote, the second
lacks one part, in which the given texts stand besides prompts. -/
structure Lacks (texts : List String) (r r' : Except Failure Nat × Machine) : Prop where
  returned : ∃ failures, r.1 = .ok failures ∧ r'.1 = .ok failures
  store : r'.2.store = r.2.store
  journal : r'.2.journal = r.2.journal
  transcript : ∃ before removed after, r.2.transcript.toList = before ++ removed ++ after ∧
    r'.2.transcript.toList = before ++ after ∧ removed.filterMap Emission.output? = texts

private theorem lacks_reads {first idle later : List Act}
    (reads : ∀ act ∈ idle, act.brought?.isSome)
    {m o : Machine} {failures : Nat}
    (ran : (first ++ idle ++ later).foldlM (Act.perform depth frame prompts) 0 m = (.ok failures, o)) :
    Lacks ((idle.flatMap (Act.shown prompts)).filterMap Emission.output?)
      ((first ++ idle ++ later).foldlM (Act.perform depth frame prompts) 0 m)
      ((first ++ later).foldlM (Act.perform depth frame prompts) 0 m) := by
  simp only [List.foldlM_append, Action.bind_apply] at ran ⊢
  generalize first.foldlM (Act.perform depth frame prompts) 0 m = r at ran ⊢
  obtain ⟨failure | k, n⟩ := r
  · cases ran
  simp only [foldlM_perform_reads k reads] at ran ⊢
  have spliced : Machine.Spliced n.transcript.toList (idle.flatMap (Act.shown prompts))
      { n with transcript := n.transcript ++ (idle.flatMap (Act.shown prompts)).toArray } n :=
    ⟨rfl, rfl, [], by simp, by simp⟩
  obtain ⟨outcome, same⟩ := foldlM_perform_spliced depth frame prompts spliced k later
  rw [ran] at outcome same ⊢
  obtain ⟨after, whole, rest⟩ := same.transcript
  exact ⟨⟨failures, rfl, outcome.symm⟩, same.store.symm, same.journal.symm, _, _, after, whole, rest,
    rfl⟩

private theorem collecting_reads (lines : List String) (continued : Bool) (brought : Option Event) :
    ∀ act ∈ collecting lines ++ [.read continued brought], act.brought?.isSome := by
  cases lines with
  | nil => simp [collecting, Act.brought?]
  | cons first others =>
    simp only [collecting, List.mem_append, List.mem_cons, List.mem_map, List.not_mem_nil, or_false]
    rintro act ((rfl | ⟨line, -, rfl⟩) | rfl) <;> rfl

private theorem output_continued (lines : List String) :
    ((lines.map fun line => Act.read true (some (.line line))).flatMap
      (Act.shown prompts)).filterMap Emission.output? = [] := by
  induction lines with
  | nil => rfl
  | cons line lines ih => exact ih

private theorem output_collecting (lines : List String) :
    ((collecting lines).flatMap (Act.shown prompts)).filterMap Emission.output? = [] := by
  cases lines with
  | nil => rfl
  | cons first others => exact output_continued others

private theorem shown_ended (prompts : Prompts) (lines : List String) :
    ∃ removed, (collecting lines ++ [Act.read (!lines.isEmpty) none]).flatMap (Act.shown prompts) =
        .prompt prompts.fresh :: (removed ++ [.output "\n"]) ∧
      removed.filterMap Emission.output? = [] := by
  cases lines with
  | nil => exact ⟨[], rfl, rfl⟩
  | cons first others =>
    let continued := others.map fun line => Act.read true (some (.line line))
    refine ⟨continued.flatMap (Act.shown prompts) ++ [.prompt prompts.continued], ?_, ?_⟩
    · simp [collecting, Act.shown, continued]
    · rw [List.filterMap_append, output_continued]
      rfl

theorem lacks_interrupted {earlier later : List Event} {m o : Machine} {failures : Nat}
    (ran : Session.run depth frame prompts (earlier ++ .interrupt :: later) m = (.ok failures, o)) :
    ∃ before, earlier = before ++ (buffered earlier).map .line ∧
      Lacks ["\nKeyboardInterrupt\n"]
        (Session.run depth frame prompts (earlier ++ .interrupt :: later) m)
        (Session.run depth frame prompts (before ++ later) m) := by
  obtain ⟨before, cut, empty, earlierActs⟩ := exists_before_buffered earlier
  let interrupted : Act := .read (!(buffered earlier).isEmpty) (some .interrupt)
  let idle := collecting (buffered earlier) ++ [interrupted]
  have whole : trace (earlier ++ .interrupt :: later) = acts before ++ idle ++ traceFrom [] later := by
    have dropped : traceFrom (buffered earlier) (.interrupt :: later) =
        [interrupted] ++ traceFrom [] later := rfl
    rw [trace_append, dropped, earlierActs, List.append_assoc, List.append_assoc, List.append_assoc]
  have without : trace (before ++ later) = acts before ++ traceFrom [] later := by
    rw [trace_append, empty]
  have reads : ∀ act ∈ idle, act.brought?.isSome := collecting_reads _ _ _
  have texts : (idle.flatMap (Act.shown prompts)).filterMap Emission.output? =
      ["\nKeyboardInterrupt\n"] := by
    rw [List.flatMap_append, List.filterMap_append, output_collecting]
    rfl
  refine ⟨before, cut, ?_⟩
  rw [run_eq_trace, whole] at ran
  rw [run_eq_trace, run_eq_trace, whole, without, ← texts]
  exact lacks_reads reads ran

theorem lacks_ended {events : List Event} {m o : Machine} {failures : Nat}
    (ran : Session.run depth frame prompts events m = (.ok failures, o)) :
    ∃ before, events = before ++ (buffered events).map .line ∧
      Lacks [] (Session.run depth frame prompts events m)
        (Session.run depth frame prompts before m) := by
  obtain ⟨before, cut, empty, eventsActs⟩ := exists_before_buffered events
  refine ⟨before, cut, ?_⟩
  have whole : trace events = acts before ++
      (collecting (buffered events) ++ [.read (!(buffered events).isEmpty) none]) := by
    rw [← List.append_assoc, ← eventsActs]
    rfl
  have without : trace before = acts before ++ [.read false none] := by
    have ended : trace before = acts before ++ [.read (!(buffered before).isEmpty) none] := rfl
    rw [ended, empty]
    rfl
  have reads := collecting_reads (buffered events) (!(buffered events).isEmpty) none
  have last : ∀ act ∈ [Act.read false none], act.brought?.isSome := collecting_reads [] false none
  rw [run_eq_trace, whole] at ran
  rw [run_eq_trace, run_eq_trace, whole, without]
  simp only [List.foldlM_append (l := acts before), Action.bind_apply] at ran ⊢
  generalize (acts before).foldlM (Act.perform depth frame prompts) 0 m = r at ran ⊢
  obtain ⟨failure | k, n⟩ := r
  · cases ran
  obtain ⟨removed, shown, prompted⟩ := shown_ended prompts (buffered events)
  simp only [foldlM_perform_reads k reads, foldlM_perform_reads k last, shown]
  refine ⟨⟨k, rfl, rfl⟩, rfl, rfl, n.transcript.toList ++ [.prompt prompts.fresh], removed,
    [.output "\n"], by simp, by simp [Act.shown], prompted⟩

/-- A session reports errors, but none because its input ended too early. -/
theorem run_reports (events : List Event) (m : Machine) :
    m.Reports (·.kind ≠ .unexpectedEndOfInput) (Session.run depth frame prompts events m).2 := by
  rw [run_eq_trace]
  refine Action.foldlM_effect (fun m => .of_quiet (.refl m)) .trans (fun failures act h m => ?_) 0 m
  match act, h with
  | .read _ (some (.line _)), _ => exact .of_none rfl rfl
  | .read _ (some .interrupt), _ => exact .of_none rfl rfl
  | .read _ none, _ => exact .of_none rfl rfl
  | .evaluated source, h =>
    obtain ⟨before, after, cut⟩ := List.append_of_mem h
    obtain ⟨rfl, complete⟩ := fits_of_trace_eq cut
    have reported := Program.evalSource_reports_of_complete depth frame true complete m
    rcases evaluate_cases depth frame failures ("\n".intercalate (since before)) m with
      ⟨failed, h⟩ | h | ⟨failure, -, h⟩
    · rw [Act.perform, h]
      exact reported
    · rw [Act.perform, h]
      exact ⟨reported.threshold, reported.errors⟩
    · rw [Act.perform, h]
      exact reported

/-- A session is its acts, and its reads bring its events and then the end of the input. At every read
the prompt is that of an open form just if lines were received since the last evaluation, interrupt or
start, and then these lines leave a list open. What is evaluated is such lines that leave none open, so
no error is reported because the input ended. Where no failure of another kind escapes, lines still
collected when a read is interrupted or the input ends could as well not have come: the count, store and
journal are the same, and of what is written only the notice of the interrupt and prompts are missed. -/
theorem run_invariant (depth : Nat) (frame : FrameId) (prompts : Prompts) (events : List Event) :
    Session.run depth frame prompts events =
        (trace events).foldlM (Act.perform depth frame prompts) 0 ∧
    (trace events).filterMap Act.brought? = events.map some ++ [none] ∧
    (∀ before continued brought after, trace events = before ++ .read continued brought :: after →
      (continued = true ↔ since before ≠ []) ∧
      (since before ≠ [] →
        Token.needsMore (Token.tokenize ("\n".intercalate (since before))) = true)) ∧
    (∀ before source after, trace events = before ++ .evaluated source :: after →
      source = "\n".intercalate (since before) ∧
        Token.needsMore (Token.tokenize source) = false) ∧
    ∀ m : Machine,
      (∃ errors : List Error, (∀ e ∈ errors, e.kind ≠ .unexpectedEndOfInput) ∧
        (Session.run depth frame prompts events m).2.journal.errors =
          m.journal.errors ++ m.journal.kept errors) ∧
      ((∀ failure : Failure, failure.Fatal →
          (Session.run depth frame prompts events m).1 ≠ .error failure) →
        (∃ before, events = before ++ (buffered events).map .line ∧
          Lacks [] (Session.run depth frame prompts events m)
            (Session.run depth frame prompts before m)) ∧
        ∀ earlier later, events = earlier ++ .interrupt :: later →
          ∃ before, earlier = before ++ (buffered earlier).map .line ∧
            Lacks ["\nKeyboardInterrupt\n"] (Session.run depth frame prompts events m)
              (Session.run depth frame prompts (before ++ later) m)) := by
  refine ⟨run_eq_trace events, ?_, ?_, ?_, fun m => ⟨(run_reports events m).errors, fun safe => ?_⟩⟩
  · rw [trace, traceFrom, List.filterMap_append, brought_acts]
    rfl
  · intro before continued brought after cut
    obtain ⟨prompted, waiting⟩ := fits_of_trace_eq cut
    exact ⟨prompted, fun received => by simpa [Complete] using waiting received⟩
  · intro before source after cut
    obtain ⟨rfl, complete⟩ := fits_of_trace_eq cut
    exact ⟨rfl, complete⟩
  · have returns := foldlM_perform_returns depth frame prompts 0 (trace events) m
    rw [← run_eq_trace] at returns
    rcases returns with ⟨failures, o, ran⟩ | ⟨failure, fatal, escaped⟩
    · refine ⟨lacks_ended ran, ?_⟩
      rintro earlier later rfl
      exact lacks_interrupted ran
    · exact absurd escaped (safe failure fatal)

/-- A list left open when a read is interrupted, an evaluation that is interrupted after a definition, a
form over two lines with a closing parenthesis too many, and a list left open at the end. -/
theorem run_invariant_interrupts :
    let m : Machine := { Machine.start 30 with
      store := (Store.empty.addFrame [("stop", .primitive (.made 0) Primitive.interrupt)] none).2 }
    let later : List Event := [.line "(begin (define z 1) (stop))", .line "(define", .line "y 2) z )"]
    let events : List Event := .line "(define x" :: .interrupt :: (later ++ [.line "(f"])
    (∀ failure : Failure, failure.Fatal → (Session.run 20 0 {} events m).1 ≠ .error failure) ∧
      buffered [.line "(define x"] = ["(define x"] ∧ buffered events = ["(f"] ∧
      Lacks ["\nKeyboardInterrupt\n"] (Session.run 20 0 {} events m)
        (Session.run 20 0 {} (later ++ [.line "(f"]) m) ∧
      Lacks [] (Session.run 20 0 {} events m)
        (Session.run 20 0 {} (.line "(define x" :: .interrupt :: later) m) ∧
      (Session.run 20 0 {} events m).1.toOption = some 2 ∧
      (Session.run 20 0 {} events m).2.prompts = ["> ", "  ", "> ", "> ", "  ", "> ", "  "] ∧
      (Session.run 20 0 {} events m).2.printed =
        "\nKeyboardInterrupt\n\nKeyboardInterrupt\n1\n\n" := by
  intro m later events
  have count : (Session.run 20 0 {} events m).1.toOption = some 2 := by decide +kernel
  have safe : ∀ failure : Failure, failure.Fatal →
      (Session.run 20 0 {} events m).1 ≠ .error failure := by
    intro failure _ escaped
    rw [escaped] at count
    cases count
  have first : buffered [.line "(define x"] = ["(define x"] := by decide +kernel
  have last : buffered events = ["(f"] := by decide +kernel
  obtain ⟨⟨before, cut, ended⟩, interrupted⟩ := ((run_invariant 20 0 {} events).2.2.2.2 m).2 safe
  obtain ⟨earlier, cut', dropped⟩ := interrupted [.line "(define x"] (later ++ [.line "(f"]) rfl
  have whole : .line "(define x" :: .interrupt :: later ++ [.line "(f"] = before ++ [.line "(f"] := by
    rwa [last] at cut
  have alone : [] ++ [.line "(define x"] = earlier ++ [.line "(define x"] := by
    rwa [first] at cut'
  cases List.append_cancel_right whole
  cases List.append_cancel_right alone
  exact ⟨safe, first, last, dropped, ended, count, by decide +kernel, by decide +kernel⟩

end Session

end SmallScheme
