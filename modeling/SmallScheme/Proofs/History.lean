import SmallScheme.Proofs.Grammar
import SmallScheme.Proofs.Invariant
import SmallScheme.Proofs.SessionTrace

/-!
Histories of a machine. A host works on a machine in small steps: it makes global frames, takes in data
that it has read, looks names up and binds them, and evaluates and calls what it holds. A history is such
steps one after the other, with the moments that go by. Running a text, evaluating one with
recovery and a whole session are histories, whether they fail or not; and an invariant of values holds
at every moment of a history.
-/

set_option autoImplicit false
set_option relaxedAutoImplicit false

namespace SmallScheme

namespace Datum

private theorem spells_of_next {depth : Nat} {tokens rest : List Token} {d : Datum}
    (h : next depth tokens = (.ok d, rest)) : ∃ form, Spells form d := by
  obtain ⟨form, -, spelled, -⟩ := exists_form_of_next h
  exact ⟨form, spelled⟩

theorem spells_of_mem_readings {depth : Nat} {tokens : List Token} {d : Datum}
    (h : .ok d ∈ readings depth tokens) : ∃ form, Spells form d := by
  unfold readings at h
  generalize tokens.length = n at h
  induction n generalizing tokens with
  | zero => simp [readingsWithin] at h
  | succ n ih =>
    cases tokens with
    | nil => simp [readingsWithin] at h
    | cons t tokens =>
      simp only [readingsWithin] at h
      generalize read : next depth (t :: tokens) = r at h
      obtain ⟨outcome, rest⟩ := r
      rcases List.mem_cons.mp h with rfl | h
      · exact spells_of_next read
      · exact ih h

private theorem mapM_id_ok_cons {d : Datum} {outcomes : List (Except Failure Datum)}
    {data : List Datum} (h : (.ok d :: outcomes : List (Except Failure Datum)).mapM id = .ok data) :
    ∃ others, data = d :: others ∧ outcomes.mapM id = .ok others := by
  rw [List.mapM_cons] at h
  cases rest : outcomes.mapM id with
  | error failure => simp [rest, Bind.bind, Except.bind] at h
  | ok others =>
    refine ⟨others, ?_, rfl⟩
    simpa [rest, Bind.bind, Except.bind, Pure.pure, Except.pure] using h.symm

theorem eq_map_ok_of_mapM_id {outcomes : List (Except Failure Datum)} {data : List Datum}
    (h : outcomes.mapM id = .ok data) : outcomes = data.map .ok := by
  induction outcomes generalizing data with
  | nil =>
    cases h
    rfl
  | cons outcome outcomes ih =>
    cases outcome with
    | error failure => cases h
    | ok d =>
      obtain ⟨others, rfl, rest⟩ := mapM_id_ok_cons h
      rw [List.map_cons, ← ih rest]

private theorem ok_mem_of_mapM_id {outcomes : List (Except Failure Datum)} {data : List Datum}
    (h : outcomes.mapM id = .ok data) {d : Datum} (hd : d ∈ data) : .ok d ∈ outcomes := by
  rw [eq_map_ok_of_mapM_id h]
  exact List.mem_map_of_mem hd

private theorem spells_of_parseMany {depth : Nat} {source : String} {data : List Datum}
    (h : parseMany depth source = .ok data) : ∀ d ∈ data, ∃ form, Spells form d :=
  fun _ hd => spells_of_mem_readings (ok_mem_of_mapM_id h hd)

end Datum

namespace Host

/-- The values that a host has to hand: those it holds and their parts, and atoms. A host knows no number
but finite ones. -/
inductive Handed (h : Host) : Value → Prop
  | held {v : Value} : v ∈ h.held → Handed h v
  | unit : Handed h .unit
  | bool (b : Bool) : Handed h (.bool b)
  | symbol (name : String) : Handed h (.symbol name)
  | number {n : Number} : n.isFinite = true → Handed h (.number n)
  | item {i : Identity} {items : List Value} {v : Value} : Handed h (.list i items) → v ∈ items →
      Handed h v
  | body {i : Identity} {params : List String} {body : Value} {frame : FrameId} :
      Handed h (.procedure i params body frame) → Handed h body

/-- One step of a host's work, with the moments that go by meanwhile. -/
inductive Work : Host → List Moment → Host → Prop
  | globals (h : Host) : Work h [] (h.did Action.newGlobals)
  | read {h : Host} {tokens : List Token} {d : Datum} : Datum.Spells tokens d →
      Work h [.reads d h.machine] (h.got (Action.load d))
  | newList {h : Host} {items : List Value} : (∀ v ∈ items, h.Handed v) →
      Work h [] (h.got (Action.newList items))
  | define {h : Host} {v : Value} (f : FrameId) (name : String) : h.Handed v →
      Work h [] (h.did (Action.define f name v))
  | assign {h : Host} {v : Value} (f : FrameId) (name : String) : h.Handed v →
      Work h [] (h.did (Action.assign f name v))
  | lookup (h : Host) (f : FrameId) (name : String) : Work h [] (h.got (Action.lookup f name))
  | perform {h : Host} {a : Activity} (depth : Nat) : (∀ v ∈ a.values, h.Handed v) →
      Work h (a.moments depth h.machine) (h.got (a.perform depth))
  | report (h : Host) (severity : Severity) (message : String) :
      Work h [] (h.did (Action.report severity message))
  | emit (h : Host) (emission : Emission) : Work h [] (h.did (Action.emit emission))

/-- Steps one after the other; after each of them the host rests. -/
inductive History : Host → List Moment → Host → Prop
  | nil (h : Host) : History h [] h
  | cons {h h' h'' : Host} {ms ns : List Moment} : Work h ms h' → History h' ns h'' →
      History h (ms ++ .rests h' :: ns) h''

theorem History.append {h h' h'' : Host} {ms ns : List Moment} (first : History h ms h')
    (second : History h' ns h'') : History h (ms ++ ns) h'' := by
  induction first with
  | nil => exact second
  | cons work _ ih =>
    rw [List.append_assoc, List.cons_append]
    exact .cons work (ih second)

theorem History.exists_rests_of_reads {h h' : Host} {ms : List Moment} (history : History h ms h')
    {k : Nat} {d : Datum} {m : Machine} (hk : ms[k]? = some (.reads d m)) :
    ∃ rest, ms[k + 1]? = some (.rests rest) ∧ (Value.ofDatum m.store.written d).1 ∈ rest.held := by
  induction history generalizing k with
  | nil => simp at hk
  | @cons h next h' before after work _ ih =>
    rcases Nat.lt_trichotomy k before.length with inside | here | beyond
    · rw [List.getElem?_append_left inside] at hk
      have read := List.mem_of_getElem? hk
      cases work with
      | read spelled =>
        obtain rfl : k = 0 := by simpa using inside
        obtain ⟨rfl, rfl⟩ : _ = d ∧ h.machine = m := by simpa using hk
        exact ⟨_, rfl, List.mem_cons_self⟩
      | perform depth given =>
        rcases Activity.begins_or_ends_of_mem read with ⟨_, _, _, other⟩ | ⟨_, _, _, other⟩
        · cases other
        · cases other
      | _ => simp at read
    · rw [here, List.getElem?_append_right (Nat.le_refl _)] at hk
      simp at hk
    · obtain ⟨l, rfl⟩ := Nat.exists_eq_add_of_lt beyond
      have later : after[l]? = some (.reads d m) := by
        rw [List.getElem?_append_right (by omega)] at hk
        simpa [Nat.add_assoc] using hk
      obtain ⟨rest, hrest, held⟩ := ih later
      refine ⟨rest, ?_, held⟩
      rw [List.getElem?_append_right (by omega)]
      simpa [Nat.add_assoc] using hrest

/-- A history carries out the action, and then the given holds of the host and the result. -/
def Traces {α : Type} (h : Host) (given : Host → α → Prop) (x : Action α) : Prop :=
  ∃ ms h', History h ms h' ∧ h'.machine = (x h.machine).2 ∧
    ∀ a, (x h.machine).1 = .ok a → given h' a

namespace Traces

variable {α β : Type} {h : Host} {P : Host → α → Prop} {Q : Host → β → Prop}

private theorem of_did {ms : List Moment} {x : Action α} (work : Work h ms (h.did x)) :
    h.Traces (fun _ _ => True) x :=
  ⟨_, _, .cons work (.nil _), rfl, fun _ _ => trivial⟩

private theorem of_got {ms : List Moment} {x : Action Value} (work : Work h ms (h.got x)) :
    h.Traces (fun h' v => h'.Handed v) x := by
  refine ⟨_, _, .cons work (.nil _), ?_, fun v returned => .held ?_⟩
  · unfold got
    split <;> (rename_i ended; rw [ended])
  · unfold got
    split
    · rename_i ended
      rw [ended] at returned
      cases returned
      exact List.mem_cons_self
    · rename_i ended
      rw [ended] at returned
      cases returned

private theorem lift (r : Except Failure α) : h.Traces (fun _ a => r = .ok a) (Action.lift r) :=
  ⟨[], h, .nil h, rfl, fun _ returned => returned⟩

private theorem pure {a : α} (ha : P h a) : h.Traces P (Pure.pure a : Action α) := by
  refine ⟨[], h, .nil h, rfl, ?_⟩
  rintro _ ⟨⟩
  exact ha

private theorem fail (failure : Failure) : h.Traces P (Action.fail failure : Action α) :=
  ⟨[], h, .nil h, rfl, nofun⟩

private theorem bind {x : Action α} {f : α → Action β} (first : h.Traces P x)
    (next : ∀ h' a, P h' a → h'.Traces Q (f a)) : h.Traces Q (x >>= f) := by
  obtain ⟨ms, h', history, machine, given⟩ := first
  unfold Traces
  rw [Action.bind_apply]
  generalize x h.machine = r at machine given
  obtain ⟨failure | a, n⟩ := r
  · exact ⟨ms, h', history, machine, nofun⟩
  · obtain ⟨ns, h'', later, last, result⟩ := next h' a (given a rfl)
    rw [machine] at last result
    exact ⟨ms ++ ns, h'', history.append later, last, result⟩

/-- The outcome of an action, a failure included, as the result of another. -/
theorem attempt {x : Action α} {f : Except Failure α → Action β} (first : h.Traces P x)
    (ok : ∀ h' a, P h' a → h'.Traces Q (f (.ok a)))
    (error : ∀ (h' : Host) failure, h'.Traces Q (f (.error failure))) :
    h.Traces Q (Action.attempt x >>= f) := by
  obtain ⟨ms, h', history, machine, given⟩ := first
  have attempted : h.Traces (fun h' outcome => ∀ a, outcome = .ok a → P h' a) (Action.attempt x) := by
    refine ⟨ms, h', history, machine, ?_⟩
    rintro _ ⟨⟩
    exact given
  refine attempted.bind fun h' outcome given => ?_
  cases outcome with
  | error failure => exact error h' failure
  | ok a => exact ok h' a (given a rfl)

private theorem foldlM {f : β → α → Action β} {xs : List α} {b : β} (start : Q h b)
    (step : ∀ (h' : Host) b, ∀ a ∈ xs, Q h' b → h'.Traces Q (f b a)) : h.Traces Q (xs.foldlM f b) := by
  induction xs generalizing h b with
  | nil => exact .pure start
  | cons a xs ih =>
    rw [List.foldlM_cons]
    refine (step h b a List.mem_cons_self start).bind fun h' c given => ih given ?_
    exact fun h'' c x hx => step h'' c x (List.mem_cons_of_mem a hx)

theorem evalDatum (h : Host) {tokens : List Token} {d : Datum} (spelled : Datum.Spells tokens d)
    (depth : Nat) (f : FrameId) : h.Traces Handed (Program.evalDatum depth f d) := by
  have loaded : h.Traces Handed (Action.load d) := .of_got (.read spelled)
  refine loaded.bind fun h' e he => ?_
  have given : ∀ v ∈ (Activity.eval e f).values, h'.Handed v := by simpa [Activity.values] using he
  exact .of_got (.perform (a := .eval e f) depth given)

theorem run (h : Host) (depth : Nat) (f : FrameId) (source : String) :
    h.Traces Handed (Program.run depth f source) := by
  refine (lift _).bind fun h' data read => foldlM .unit fun h'' _ d hd _ => ?_
  obtain ⟨form, spelled⟩ := Datum.spells_of_parseMany read d hd
  exact evalDatum h'' spelled depth f

private theorem print (h : Host) (depth : Nat) (v : Value) :
    h.Traces (fun _ _ => True) (Program.print depth v) := by
  have shown : h.Traces (fun _ _ => True) (do
      let text ← Action.lift (v.display depth)
      Action.emit (.output (text ++ "\n")) : Action Unit) :=
    (lift _).bind fun h' _ _ => .of_did (.emit h' _)
  cases v with
  | unit => exact .pure trivial
  | _ => exact shown

theorem evalSource (h : Host) (depth : Nat) (f : FrameId) (echo : Bool) (source : String) :
    h.Traces (fun _ _ => True) (Program.evalSource depth f echo source) := by
  refine foldlM trivial fun h' failures reading hr _ => ?_
  have evaluated : h'.Traces Handed (do Program.evalDatum depth f (← Action.lift reading)) := by
    refine (lift reading).bind fun h'' d read => ?_
    obtain ⟨form, spelled⟩ := Datum.spells_of_mem_readings (read ▸ hr)
    exact evalDatum h'' spelled depth f
  refine evaluated.attempt (fun h'' v _ => ?_) fun h'' failure => ?_
  · have done {h : Host} : h.Traces (fun _ _ => True) (Pure.pure failures : Action Nat) :=
      .pure trivial
    cases echo with
    | true => exact (print h'' depth v).bind fun _ _ _ => done
    | false => exact done
  · cases failure with
    | error e => exact (of_did (.report h'' _ _)).bind fun _ _ _ => .pure trivial
    | _ => exact .fail _

theorem session (h : Host) (depth : Nat) (f : FrameId) (prompts : Prompts) (events : List Event) :
    h.Traces (fun _ _ => True) (Session.run depth f prompts events) := by
  have emitted (h : Host) (emission : Emission) {k : Action Nat}
      (later : ∀ h' : Host, h'.Traces (fun _ _ => True) k) :
      h.Traces (fun _ _ => True) (do Action.emit emission; k) :=
    (of_did (.emit h emission)).bind fun h' _ _ => later h'
  rw [Session.run_eq_trace]
  refine foldlM trivial fun h' failures act _ _ => ?_
  match act with
  | .read _ (some (.line _)) => exact emitted h' _ fun _ => .pure trivial
  | .read _ (some .interrupt) => exact emitted h' _ fun h'' => emitted h'' _ fun _ => .pure trivial
  | .read _ none => exact emitted h' _ fun h'' => emitted h'' _ fun _ => .pure trivial
  | .evaluated source =>
    refine (evalSource h' depth f true source).attempt (fun _ _ _ => .pure trivial) ?_
    intro h'' failure
    cases failure with
    | interrupted => exact emitted h'' _ fun _ => .pure trivial
    | _ => exact .fail _

end Traces

section Invariants

variable {I : Invariant} {w : I.World} {h h' : Host}

theorem Handed.holds {v : Value} (hv : h.Handed v) (sound : I.HoldsAt w (.rests h)) :
    I.holds w v := by
  induction hv with
  | held hv => exact sound.atHand _ hv
  | unit => exact I.unit w
  | bool b => exact I.bool w b
  | symbol name => exact I.symbol w name
  | number finite => exact I.number finite
  | item _ hv ih => exact I.item ih hv
  | body _ ih => exact I.body ih

private theorem exists_holdsAt_did {α : Type} {x : Action α} {Q : I.World → α → α → Prop}
    (sound : I.HoldsAt w (.rests h))
    (agrees : I.correspondence.Agrees w Q (x h.machine) (x h.machine)) :
    ∃ w', I.later w w' ∧ I.HoldsAt w' (.rests (h.did x)) := by
  unfold did
  generalize x h.machine = r at agrees
  cases agrees with
  | ok hw hm _ => exact ⟨_, hw, hm.1, fun v hv => I.holds_later hw (sound.atHand v hv)⟩
  | error hw hm => exact ⟨_, hw, hm.1, fun v hv => I.holds_later hw (sound.atHand v hv)⟩
  | excused impossible => exact impossible.elim

private theorem holdsAt_got {w' : I.World} {x : Action Value} (sound : I.HoldsAt w (.rests h))
    (hw : I.later w w') (ended : I.Ended w' (x h.machine)) : I.HoldsAt w' (.rests (h.got x)) := by
  have before : ∀ v ∈ h.held, I.holds w' v := fun v hv => I.holds_later hw (sound.atHand v hv)
  obtain ⟨machine, result⟩ := ended
  unfold got
  generalize x h.machine = r at machine result
  obtain ⟨failure | v, n⟩ := r
  · exact ⟨machine, before⟩
  · exact ⟨machine, List.forall_mem_cons.mpr ⟨result v rfl, before⟩⟩

private theorem exists_holdsAt_got {x : Action Value} (sound : I.HoldsAt w (.rests h))
    (agrees : I.correspondence.Agrees w I.correspondence.values (x h.machine) (x h.machine)) :
    ∃ w', I.later w w' ∧ I.HoldsAt w' (.rests (h.got x)) := by
  obtain ⟨w', hw, ended⟩ := Invariant.exists_ended agrees
  exact ⟨w', hw, holdsAt_got sound hw ended⟩

/-- One step of work keeps the invariant. -/
theorem Work.exists_along {ms : List Moment} (work : Work h ms h')
    (sound : I.HoldsAt w (.rests h)) :
    ∃ w', I.Along w ms w' ∧ I.HoldsAt w' (.rests h') := by
  have here : I.correspondence.machines w h.machine h.machine := ⟨sound.machine, rfl⟩
  have silent {h' : Host} (done : ∃ w', I.later w w' ∧ I.HoldsAt w' (.rests h')) :
      ∃ w', I.Along w [] w' ∧ I.HoldsAt w' (.rests h') := by
    obtain ⟨w', hw, holds⟩ := done
    exact ⟨w', .nil hw, holds⟩
  -- A host passes moments only when it reads a text or asks the evaluator for something.
  cases work with
  | globals =>
    obtain ⟨w', hw, counts, holds⟩ := I.globals sound.machine.counts
    have grown := (sound.machine.recount hw counts).addFrame none holds
    exact ⟨w', .nil hw, grown, fun v hv => I.holds_later hw (sound.atHand v hv)⟩
  | @read tokens d spelled =>
    have reads : I.HoldsAt w (.reads d h.machine) := ⟨sound.machine, by simp [Moment.atHand]⟩
    obtain ⟨w', hw, holds⟩ :=
      exists_holdsAt_got sound (Correspondence.Agrees.load here ⟨_, spelled⟩)
    exact ⟨w', .cons (I.later_refl w) reads (.nil hw), holds⟩
  | newList given =>
    have items := Invariant.forall₂_values fun v hv => (given v hv).holds sound
    exact silent (exists_holdsAt_got sound (.newList here items))
  | define f name given =>
    have value : I.correspondence.values w _ _ := ⟨given.holds sound, rfl⟩
    exact silent (exists_holdsAt_did sound
      (Correspondence.Agrees.define here rfl value ⟨I.symbol w name, rfl⟩))
  | assign f name given =>
    have value : I.correspondence.values w _ _ := ⟨given.holds sound, rfl⟩
    exact silent (exists_holdsAt_did sound
      (Correspondence.Agrees.assign here rfl value ⟨I.symbol w name, rfl⟩))
  | lookup f name =>
    exact silent (exists_holdsAt_got sound
      (Correspondence.Agrees.lookup here rfl ⟨I.symbol w name, rfl⟩))
  | perform depth given =>
    obtain ⟨w', along, ended⟩ :=
      Activity.exists_along depth sound.machine fun v hv => (given v hv).holds sound
    exact ⟨w', along, holdsAt_got sound along.later ended⟩
  | report => exact ⟨w, .nil (I.later_refl w), sound.machine.of_store rfl, sound.atHand⟩
  | emit => exact ⟨w, .nil (I.later_refl w), sound.machine.of_store rfl, sound.atHand⟩

/-- The invariant holds at every moment of a history, in worlds that come one after the other. -/
theorem History.exists_along {ms : List Moment} (history : History h ms h')
    (sound : I.HoldsAt w (.rests h)) :
    ∃ w', I.Along w ms w' ∧ I.HoldsAt w' (.rests h') := by
  induction history generalizing w with
  | nil => exact ⟨w, .nil (I.later_refl w), sound⟩
  | cons work _ ih =>
    obtain ⟨u, first, rests⟩ := work.exists_along sound
    obtain ⟨w', later, holds⟩ := ih rests
    exact ⟨w', first.append (.cons (I.later_refl u) rests later), holds⟩

theorem holdsAt_start (I : Invariant) (threshold : Nat) :
    I.HoldsAt I.origin (.rests (start threshold)) :=
  ⟨⟨I.start, by simp [Moment.machine, start, Machine.start, Store.bindings, Store.empty]⟩,
    by simp [Moment.atHand, start]⟩

end Invariants

end Host

end SmallScheme
