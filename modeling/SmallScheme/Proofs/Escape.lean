import SmallScheme.Proofs.Blame
import SmallScheme.Proofs.History
import SmallScheme.Proofs.Place

/-!
Which failures end the evaluation of a text. In a global frame, and in all that programs make of it, no
primitive interrupts. So what ends the evaluation of a text before all its items are taken is a
lack of depth or an integer that is too long: one that stands in the text and cannot be read, or one that
was met in the evaluation of a form, or stands in its result, and cannot be written.
-/

set_option autoImplicit false
set_option relaxedAutoImplicit false

namespace SmallScheme

/-- No primitive in the value interrupts. -/
def Value.Uninterrupting (v : Value) : Prop :=
  ∀ i p, Occurs (.primitive i p) v → p.operation ≠ .interrupt

def Invariant.uninterrupting : Invariant where
  World := Unit
  later _ _ := True
  holds _ := Value.Uninterrupting
  counts _ _ _ := True
  origin := ()
  later_refl _ := trivial
  later_trans _ _ := trivial
  holds_later _ h := h
  item h hv i p occurs := h i p (.item hv occurs)
  body h i p occurs := h i p (.body occurs)
  unit _ := by rintro i p ⟨⟩
  bool _ b := by rintro i p ⟨⟩
  symbol _ name := by rintro i p ⟨⟩
  number _ := by rintro i p ⟨⟩
  arithmetic _ _ _ := by rintro i p ⟨⟩
  start := trivial
  newList := by
    intro _ _ _ items _ h
    refine ⟨(), trivial, trivial, ?_⟩
    rintro i p (_ | ⟨hv, occurs⟩)
    exact h _ hv i p occurs
  newProcedure := by
    intro _ _ _ body params f _ h
    refine ⟨(), trivial, trivial, ?_⟩
    rintro i p (_ | _ | occurs)
    exact h i p occurs
  load := by
    intro _ written _ _ d _ _
    refine ⟨(), trivial, trivial, fun i p occurs => ?_⟩
    obtain ⟨n, part, text⟩ := Value.exists_datum_of_occurs occurs
    cases part <;> cases text
  globals := by
    intro _ _ made _
    refine ⟨(), trivial, trivial, fun pair hp => ?_⟩
    rcases List.mem_append.mp hp with hp | hp
    · obtain ⟨⟨q, n⟩, hq, rfl⟩ := List.mem_map.mp hp
      rintro i p ⟨⟩
      have standard : ∀ q ∈ Primitive.standard, q.operation ≠ .interrupt := by decide
      exact standard q (List.fst_mem_of_mem_zipIdx hq)
    · simp only [List.mem_cons, List.not_mem_nil, or_false] at hp
      rcases hp with rfl | rfl | rfl <;> rintro i p ⟨⟩

namespace Host

open Token (Item)
open Program (Recovers BreaksAt BreaksOff evalDatum evalSource)

variable {threshold depth : Nat} {frame : FrameId} {echo : Bool} {ms : List Moment} {h : Host}
  {n o : Machine}

private theorem History.operation_ne_interrupt (history : History (start threshold) ms h)
    {μ : Moment} (hμ : μ ∈ ms) {i : Identity} {p : Primitive} (seen : μ.Sees (.primitive i p)) :
    p.operation ≠ .interrupt := by
  obtain ⟨_, along, -⟩ := history.exists_along (holdsAt_start Invariant.uninterrupting threshold)
  obtain ⟨_, -, holds, -⟩ := along.holdsAt hμ
  exact holds.sees seen i p (.self _)

private theorem exists_history_of_printing (h : Host) (lines : List String) :
    ∃ ms h', History h ms h' ∧ h'.machine = h.machine.printing lines := by
  induction lines generalizing h with
  | nil => exact ⟨[], h, .nil h, by simp [Machine.printing]⟩
  | cons line lines ih =>
    obtain ⟨ms, h', history, machine⟩ := ih (h.did (Action.emit (.output (line ++ "\n"))))
    refine ⟨_, h', .cons (.emit h _) history, ?_⟩
    rw [machine]
    simp [Machine.printing, did, Action.emit]

private theorem exists_history_of_recovers {items : List Item} {m : Machine} {errors : List Error}
    {lines : List String} (recovers : Recovers depth frame echo items m errors lines n) {h : Host}
    (hm : h.machine = m) : ∃ ms h', History h ms h' ∧ h'.machine = n := by
  induction recovers generalizing h with
  | nil => exact ⟨[], h, .nil h, hm⟩
  | @succeeded tokens items d v m n o errors line lines spelled evaluated echoes _ ih =>
    subst hm
    obtain ⟨ms, first, history, machine, -⟩ := Traces.evalDatum h spelled depth frame
    rw [evaluated] at machine
    obtain ⟨ns, second, printed, machine'⟩ := exists_history_of_printing first line
    obtain ⟨os, h', later, last⟩ := ih (machine'.trans (congrArg (·.printing line) machine))
    exact ⟨_, h', (history.append printed).append later, last⟩
  | @failed tokens items d e m n o errors lines spelled evaluated _ _ ih =>
    subst hm
    obtain ⟨ms, first, history, machine, -⟩ := Traces.evalDatum h spelled depth frame
    rw [evaluated] at machine
    have reported : (first.did (Action.report .error e.report)).machine = n.reporting e :=
      congrArg (·.reporting e) machine
    obtain ⟨os, h', later, last⟩ := ih reported
    exact ⟨_, h', history.append (.cons (.report first _ _) later), last⟩
  | stray _ ih =>
    subst hm
    have reported : (h.did (Action.report .error (Error.report .unmatchedClose))).machine =
      h.machine.reporting .unmatchedClose := rfl
    obtain ⟨os, h', later, last⟩ := ih reported
    exact ⟨_, h', .cons (.report h _ _) later, last⟩
  | unclosed tokens m =>
    subst hm
    exact ⟨_, _, .cons (.report h .error (Error.report (.endOfInput true))) (.nil _), rfl⟩

/-- An integer is too long to be read or written, and so the item ends the evaluation of the text. -/
inductive TooLong (depth : Nat) (frame : FrameId) : Bool → Item → Machine → Failure → Machine → Prop
  | read {echo : Bool} {item : Item} {word : String} {digits : Nat} {m : Machine} :
      .word word ∈ item.tokens → Datum.Oversized digits word →
      TooLong depth frame echo item m (.digitLimit (some digits)) m
  | evaluated {echo : Bool} {tokens : List Token} {d : Datum} {μ : Moment} {v : Value}
      {m o : Machine} :
      Datum.Spells tokens d → evalDatum depth frame d m = (.error (.digitLimit none), o) →
      μ ∈ (Activity.eval (Value.ofDatum m.store.written d).1 frame).moments depth (Action.load d m).2 →
      μ.Sees v → v.Overlong → TooLong depth frame echo (.form tokens) m (.digitLimit none) o
  | shown {tokens : List Token} {d : Datum} {u v : Value} {m o : Machine} :
      Datum.Spells tokens d → evalDatum depth frame d m = (.ok v, o) → u.Occurs v → u.Overlong →
      TooLong depth frame true (.form tokens) m (.digitLimit none) o

/-- In what programs make of global frames, an item ends the evaluation of a text for lack of depth or
because of an integer that is too long. -/
theorem tooLong_of_breaksAt (history : History (start threshold) ms h) {item : Item}
    {failure : Failure} (breaks : BreaksAt depth frame echo item h.machine failure o) :
    failure = .depthExhausted ∨ TooLong depth frame echo item h.machine failure o := by
  cases breaks with
  | unread fatal unread =>
    cases Datum.reading_of_next unread with
    | endOfInput inside => exact absurd rfl (fatal _)
    | unmatchedClose => exact absurd rfl (fatal _)
    | depthExhausted => exact .inl rfl
    | digitLimit hw large => exact .inr (.read hw large)
  | @datum tokens d _ _ _ spelled breaks =>
    cases breaks with
    | evaluated fatal evaluated =>
      -- the form is read and evaluated once more, now as a part of the history
      let e := (Value.ofDatum h.machine.store.written d).1
      have given : ∀ v ∈ (Activity.eval e frame).values, (h.got (Action.load d)).Handed v := by
        intro v hv
        rw [List.mem_singleton.mp hv]
        exact .held List.mem_cons_self
      have whole := history.append (.cons (.read spelled) (.cons (.perform depth given) (.nil _)))
      have failed : (Activity.eval e frame).perform depth (Action.load d h.machine).2 =
        (.error failure, o) := evaluated
      cases Activity.due_of_perform failed with
      | error family => exact absurd rfl (fatal _)
      | depthExhausted => exact .inl rfl
      | culprit met blame =>
        obtain ⟨μ, hμ, seen⟩ := met
        cases blame with
        | overlong long => exact .inr (.evaluated spelled evaluated hμ seen long)
        -- No primitive that interrupts can be met in what programs make of global frames.
        | interrupt interrupts =>
          refine absurd interrupts (whole.operation_ne_interrupt ?_ seen)
          simp only [List.mem_append, List.mem_cons]
          exact .inr (.inr (.inr (.inl hμ)))
    | shown fatal evaluated unwritten =>
      cases FailsWith.writing _ _ _ _ unwritten with
      | depthExhausted => exact .inl rfl
      | digitLimit =>
        cases FailsWith.due_write _ _ _ _ unwritten with
        | culprit occurs blame =>
          cases blame with
          | overlong long => exact .inr (.shown spelled evaluated occurs long)

/-- The evaluation of the items ends at one of them, because an integer is too long. -/
def StopsAtInteger (depth : Nat) (frame : FrameId) (echo : Bool) (items : List Item) (m : Machine)
    (failure : Failure) (o : Machine) : Prop :=
  ∃ done item rest errors lines n, items = done ++ item :: rest ∧
    Recovers depth frame echo done m errors lines n ∧ TooLong depth frame echo item n failure o

theorem TooLong.ne_depthExhausted {item : Item} {m : Machine} {failure : Failure}
    (h : TooLong depth frame echo item m failure o) : failure ≠ .depthExhausted := by
  cases h <;> nofun

theorem stopsAtInteger_of_breaksOff (history : History (start threshold) ms h) {items : List Item}
    {errors : List Error} {failure : Failure}
    (breaks : BreaksOff depth frame echo items h.machine errors failure o) :
    failure = .depthExhausted ∨ StopsAtInteger depth frame echo items h.machine failure o := by
  obtain ⟨done, item, rest, lines, n, rfl, recovers, breaks⟩ := breaks
  obtain ⟨ns, before, later, machine⟩ := exists_history_of_recovers recovers rfl
  rw [← machine] at breaks
  rcases tooLong_of_breaksAt (history.append later) breaks with exhausted | long
  · exact .inl exhausted
  · rw [machine] at long
    exact .inr ⟨done, item, rest, errors, lines, n, rfl, recovers, long⟩

/-- In any frame that programs made from global frames, the evaluation of a text takes all its items and
returns how many errors it reported, or it ends at one of them: for lack of depth, or because of an
integer with too many digits, which the item holds and cannot be read, or which is met in the
evaluation of the item, or in its result, and cannot be written. So nothing but the lack of depth escapes
just if there is no such integer. -/
theorem evalSource_stops_at_integers {threshold : Nat} {ms : List Moment} {h : Host}
    (history : History (start threshold) ms h) (depth : Nat) (frame : FrameId) (echo : Bool)
    (source : String) (items : List Item) (split : Token.Splits (Token.tokenize source) items) :
    ((∃ errors lines o, evalSource depth frame echo source h.machine = (.ok errors.length, o) ∧
        Recovers depth frame echo items h.machine errors lines o) ∨
      (∃ errors o, evalSource depth frame echo source h.machine = (.error .depthExhausted, o) ∧
        BreaksOff depth frame echo items h.machine errors .depthExhausted o) ∨
      ∃ failure o, evalSource depth frame echo source h.machine = (.error failure, o) ∧
        StopsAtInteger depth frame echo items h.machine failure o) ∧
    ((∃ failures, (evalSource depth frame echo source h.machine).1 = .ok failures) ∨
        (evalSource depth frame echo source h.machine).1 = .error .depthExhausted ↔
      ¬ ∃ failure o, evalSource depth frame echo source h.machine = (.error failure, o) ∧
        StopsAtInteger depth frame echo items h.machine failure o) := by
  rcases Program.foldlM_step_ends split 0 h.machine with
    ⟨errors, lines, o, ran, recovers⟩ | ⟨errors, failure, o, ran, breaks⟩
  · have ran : evalSource depth frame echo source h.machine = (.ok errors.length, o) := by
      rwa [Nat.zero_add] at ran
    rw [ran]
    refine ⟨.inl ⟨errors, lines, o, rfl, recovers⟩, ?_⟩
    simp
  · have ran : evalSource depth frame echo source h.machine = (.error failure, o) := ran
    rw [ran]
    rcases stopsAtInteger_of_breaksOff history breaks with rfl | stops
    · refine ⟨.inr (.inl ⟨errors, o, rfl, breaks⟩), ?_⟩
      simp only [or_true, true_iff]
      rintro ⟨failure, o', same, _, _, _, _, _, _, _, _, long⟩
      cases same
      exact long.ne_depthExhausted rfl
    · refine ⟨.inr (.inr ⟨failure, o, rfl, stops⟩), ?_⟩
      have stopped : ∃ failure' o', (Except.error failure, o) = ((.error failure', o') :
          Except Failure Nat × Machine) ∧
          StopsAtInteger depth frame echo items h.machine failure' o' := ⟨failure, o, rfl, stops⟩
      obtain ⟨_, _, _, _, _, _, _, _, long⟩ := stops
      simp only [stopped, not_true_eq_false, iff_false]
      rintro (⟨failures, same⟩ | same)
      · cases same
      · exact long.ne_depthExhausted (Except.error.inj same)

/-- A definition gives a name to an integer of 4301 digits and then cannot write it in a message; the form
after it is never evaluated. -/
theorem evalSource_stops_at_integers_definition :
    let globals := (start 30).did Action.newGlobals
    let source := "(define x (expt 10 4300)) (+ 1 1)"
    let definition : List Token := [.opening, .word "define", .word "x", .opening, .word "expt",
      .word "10", .word "4300", .closing, .closing]
    let sum : List Token := [.opening, .word "+", .word "1", .word "1", .closing]
    let r := evalSource 20 0 true source globals.machine
    r.1 = .error (.digitLimit none) ∧ r.2.store.binds "x" 0 = true ∧ r.2.printed = "" ∧
      StopsAtInteger 20 0 true [.form definition, .form sum] globals.machine (.digitLimit none) r.2 := by
  intro globals source definition sum r
  have failed : r.1 = .error (.digitLimit none) := by decide +kernel
  have bound : r.2.store.binds "x" 0 = true := by decide +kernel
  have printed : r.2.printed = "" := by decide +kernel
  have atom (text : String) {others : List Token} (h : Token.AreForms others) :
      Token.AreForms (.word text :: others) := .cons (.word text) h
  have power : Token.IsForm [.opening, .word "expt", .word "10", .word "4300", .closing] :=
    .list (atom _ (atom _ (atom _ .nil)))
  have split : Token.Splits (Token.tokenize source) [.form definition, .form sum] := by
    have tokens : Token.tokenize source = definition ++ (sum ++ []) := by decide +kernel
    rw [tokens]
    exact .form (.list (atom _ (atom _ (.cons power .nil))))
      (.form (.list (atom _ (atom _ (atom _ .nil)))) .nil)
  have history : History (start 30) [.rests globals] globals := .cons (.globals _) (.nil _)
  obtain ⟨ends, -⟩ := evalSource_stops_at_integers history 20 0 true source _ split
  refine ⟨failed, bound, printed, ?_⟩
  rcases ends with ⟨errors, lines, o, ran, -⟩ | ⟨errors, o, ran, -⟩ | ⟨failure, o, ran, stops⟩
  · cases failed.symm.trans (congrArg Prod.fst ran)
  · cases failed.symm.trans (congrArg Prod.fst ran)
  · cases failed.symm.trans (congrArg Prod.fst ran)
    have last : r.2 = o := congrArg Prod.snd ran
    rw [last]
    exact stops

end Host

end SmallScheme
