import SmallScheme.Proofs.History
import SmallScheme.Proofs.ObjectIdentity
import SmallScheme.Proofs.Renaming

/-!
Machines that are the same but for the numbers of the objects in text. Frames and what was made have the
same numbers on both sides, so every frame is compared with itself. Evaluation never looks at a
number, so it takes such machines to such machines; the numbers have to go on in step only if more text
is read.
-/

set_option autoImplicit false
set_option relaxedAutoImplicit false

namespace SmallScheme

/-- The number of an object in text is changed, that of a made one is not. -/
def Identity.renumber (number : Nat → Nat) : Identity → Identity
  | .written n => .written (number n)
  | .made n => .made n

private theorem Identity.renumber_eq_self {number : Nat → Nat} {i : Identity}
    (h : ∀ n, i = .written n → number n = n) : i.renumber number = i := by
  cases i with
  | written n => exact congrArg Identity.written (h n rfl)
  | made n => rfl

private theorem Identity.renumber_injective {number : Nat → Nat}
    (injective : Function.Injective number) :
    Function.Injective (Identity.renumber number) := by
  intro i j same
  cases i with
  | written n =>
    cases j with
    | written k => rw [injective (Identity.written.inj same)]
    | made k => cases same
  | made n =>
    cases j with
    | written k => cases same
    | made k => exact same

/-- Frames stand for themselves, objects in text for those with other numbers. -/
def Renaming.renumber (number : Nat → Nat) : Renaming :=
  ⟨Eq, fun i j => i.renumber number = j⟩

private theorem Renaming.biUnique_renumber {number : Nat → Nat}
    (injective : Function.Injective number) :
    Relator.BiUnique (renumber number).identities := by
  constructor
  · intro i j k hi hj
    exact Identity.renumber_injective injective (Eq.trans hi (Eq.symm hj))
  · intro i j k hj hk
    exact Eq.trans (Eq.symm hj) hk

namespace Value

/-- Every object of a text that occurs in the value keeps its number. -/
def Keeps (number : Nat → Nat) (v : Value) : Prop :=
  ∀ (u : Value) (n : Nat), u.Occurs v → u.identity? = some (.written n) → number n = n

mutual

private theorem renamed_self {number : Nat → Nat} {v : Value} (h : v.Keeps number) :
    v.Renamed (.renumber number) v := by
  cases v with
  | unit => exact .unit
  | bool b => exact .bool b
  | number n => exact .number n
  | symbol name => exact .symbol name
  | list i items =>
    have kept : i.renumber number = i :=
      Identity.renumber_eq_self fun n hi => h _ n (.self _) (congrArg some hi)
    exact .of_items kept (renamed_self_each fun v hv u n occurs => h u n (.item hv occurs))
  | procedure i params body f =>
    have kept : i.renumber number = i :=
      Identity.renumber_eq_self fun n hi => h _ n (.self _) (congrArg some hi)
    exact .procedure kept (renamed_self fun u n occurs => h u n (.body occurs)) rfl
  | primitive i p =>
    exact .primitive (Identity.renumber_eq_self fun n hi => h _ n (.self _) (congrArg some hi))

private theorem renamed_self_each {number : Nat → Nat} {vs : List Value}
    (h : ∀ v ∈ vs, v.Keeps number) : List.Forall₂ (Renamed (.renumber number)) vs vs := by
  cases vs with
  | nil => exact .nil
  | cons v vs =>
    obtain ⟨first, others⟩ := List.forall_mem_cons.mp h
    exact .cons (renamed_self first) (renamed_self_each others)

end

private theorem Renamed.eq_of_id {v v' : Value} (h : v.Renamed (.renumber id) v') : v = v' := by
  have unchanged {i j : Identity} (hi : (Renaming.renumber id).identities i j) : i = j :=
    (Identity.renumber_eq_self fun _ _ => rfl).symm.trans hi
  induction h with
  | list hi hl _ ih =>
    have items : List.Forall₂ Eq _ _ := List.forall₂_iff_zip.mpr ⟨hl, ih⟩
    rw [List.forall₂_eq_eq_eq] at items
    rw [unchanged hi, items]
  | procedure hi _ hf ih => rw [unchanged hi, ih, hf]
  | primitive hi => rw [unchanged hi]
  | _ => rfl

end Value

structure Frame.Renamed (ρ : Renaming) (frame frame' : Frame) : Prop where
  outer : frame.outer = frame'.outer
  bindings : frame.bindings.Renamed ρ frame'.bindings

private theorem Frame.Renamed.eq_of_id {frame frame' : Frame}
    (h : frame.Renamed (.renumber id) frame') :
    frame = frame' := by
  have bindings : List.Forall₂ Eq frame.bindings frame'.bindings :=
    h.bindings.imp fun _ _ hp => Prod.ext hp.1 hp.2.eq_of_id
  rw [List.forall₂_eq_eq_eq] at bindings
  have outer := h.outer
  cases frame
  cases frame'
  simp_all

namespace Store

/-- Stores whose frames are the same one by one, up to a renaming, with as many objects made. -/
structure Renamed (ρ : Renaming) (s t : Store) : Prop where
  frames : ∀ f : FrameId, Option.Rel (Frame.Renamed ρ) s.frames[f]? t.frames[f]?
  made : s.made = t.made

namespace Renamed

variable {ρ : Renaming} {s t : Store} (h : s.Renamed ρ t)
include h

private theorem frames_cases (f : FrameId) :
    (s.frames[f]? = none ∧ t.frames[f]? = none) ∨
      ∃ frame frame', s.frames[f]? = some frame ∧ t.frames[f]? = some frame' ∧
        frame.Renamed ρ frame' := by
  have both := h.frames f
  generalize s.frames[f]? = o, t.frames[f]? = o' at both
  cases both with
  | none => exact .inl ⟨rfl, rfl⟩
  | some alike => exact .inr ⟨_, _, rfl, rfl, alike⟩

private theorem size : s.frames.size = t.frames.size := by
  have exists_iff (f : Nat) : f < s.frames.size ↔ f < t.frames.size := by
    rcases h.frames_cases f with ⟨left, right⟩ | ⟨_, _, left, right, -⟩
    · rw [Array.getElem?_eq_none_iff] at left right
      omega
    · exact ⟨fun _ => lt_of_frames right, fun _ => lt_of_frames left⟩
  have first := exists_iff s.frames.size
  have second := exists_iff t.frames.size
  omega

private theorem outer? (f : FrameId) : s.outer? f = t.outer? f := by
  rcases h.frames_cases f with ⟨left, right⟩ | ⟨_, _, left, right, alike⟩
  · simp only [Store.outer?, left, right]
  · rw [outer?_of_frames left, outer?_of_frames right, alike.outer]

private theorem bindings (f : FrameId) : (s.bindings f).Renamed ρ (t.bindings f) := by
  rcases h.frames_cases f with ⟨left, right⟩ | ⟨_, _, left, right, alike⟩
  · simp only [Store.bindings, left, right]
    exact .nil
  · rw [bindings_of_frames left, bindings_of_frames right]
    exact alike.bindings

private theorem chain (f : FrameId) : s.chain f = t.chain f :=
  chain_congr h.outer? f

private theorem owner? (f : FrameId) (name : String) : s.owner? f name = t.owner? f name := by
  have binds : s.binds name = t.binds name := by
    funext g
    have found := (h.bindings g).get? name
    simp only [Store.binds]
    generalize (s.bindings g).get? name = o, (t.bindings g).get? name = o' at found
    cases found <;> rfl
  rw [Store.owner?, Store.owner?, h.chain, binds]

private theorem lookup? (f : FrameId) (name : String) :
    Option.Rel (Value.Renamed ρ) (s.lookup? f name) (t.lookup? f name) := by
  rw [Store.lookup?, Store.lookup?, h.owner?]
  cases t.owner? f name with
  | none => exact .none
  | some owner => exact (h.bindings owner).get? name

private theorem describe (f : FrameId) : s.describe f = t.describe f := by
  have names : (s.bindings f).length = (t.bindings f).length := (h.bindings f).length_eq
  simp only [Store.describe, h.chain, names]

private theorem define (f : FrameId) (name : String) {v v' : Value} (hv : v.Renamed ρ v') :
    (s.define f name v).Renamed ρ (t.define f name v') where
  frames g := by
    simp only [Store.define, Array.getElem?_modify]
    split
    · rcases h.frames_cases g with ⟨left, right⟩ | ⟨_, _, left, right, alike⟩
      · rw [left, right]
        exact .none
      · rw [left, right]
        exact .some ⟨alike.outer, alike.bindings.put name hv⟩
    · exact h.frames g
  made := h.made

private theorem addFrame {bindings bindings' : Bindings} (outer : Option FrameId)
    (hb : bindings.Renamed ρ bindings') :
    (s.addFrame bindings outer).2.Renamed ρ (t.addFrame bindings' outer).2 where
  frames g := by
    simp only [Store.addFrame, Array.getElem?_push, h.size]
    split
    · exact .some ⟨rfl, hb⟩
    · exact h.frames g
  made := h.made

end Renamed

end Store

/-- Machines that are the same up to a renaming, however many objects stand in the text read. -/
structure Machine.Renamed (ρ : Renaming) (m n : Machine) : Prop where
  store : m.store.Renamed ρ n.store
  journal : m.journal = n.journal
  transcript : m.transcript = n.transcript

def Machine.counting (m : Machine) (written : Nat) : Machine :=
  { m with store := { m.store with written } }

namespace Machine.Renamed

variable {m n : Machine}

private theorem self_counting {number : Nat → Nat}
    (h : ∀ f, ∀ pair ∈ m.store.bindings f, pair.2.Keeps number) (written : Nat) :
    m.Renamed (.renumber number) (m.counting written) := by
  refine ⟨⟨fun f => ?_, rfl⟩, rfl, rfl⟩
  have bound := h f
  show Option.Rel _ m.store.frames[f]? m.store.frames[f]?
  cases found : m.store.frames[f]? with
  | none => exact .none
  | some frame =>
    rw [Store.bindings_of_frames found] at bound
    refine .some ⟨rfl, List.forall₂_same.mpr ?_⟩
    intro pair hp
    exact ⟨rfl, Value.renamed_self (bound pair hp)⟩

private theorem eq_counting_of_id (h : m.Renamed (.renumber id) n) :
    n = m.counting n.store.written := by
  have frames : m.store.frames = n.store.frames := by
    apply Array.ext_getElem?
    intro f
    rcases h.store.frames_cases f with ⟨left, right⟩ | ⟨frame, frame', left, right, alike⟩
    · rw [left, right]
    · rw [left, right, alike.eq_of_id]
  have made := h.store.made
  have journal := h.journal
  have transcript := h.transcript
  obtain ⟨⟨_, _, _⟩, _, _⟩ := m
  obtain ⟨⟨_, _, _⟩, _, _⟩ := n
  simp_all [Machine.counting]

end Machine.Renamed

/-- Two ways to number the objects in text. -/
structure Renumbering where
  number : Nat → Nat
  injective : Function.Injective number
  /-- How many objects stand in the text read on the two sides. -/
  counts : Nat → Nat → Prop
  /-- More text may be read. -/
  reads : Prop
  /-- What is read next is numbered in step. -/
  row : reads → ∀ {n n'}, counts n n' → ∀ k, number (n + k) = n' + k ∧ counts (n + k) (n' + k)

namespace Renumbering

def recounted (written written' : Nat) : Renumbering where
  number := id
  injective := Function.injective_id
  counts n n' := n = written ∧ n' = written'
  reads := False
  row impossible := impossible.elim

def skipping (first : Nat) : Renumbering where
  number n := if n < first then n else n + 1
  injective := by
    intro n k same
    dsimp only at same
    split at same <;> split at same <;> omega
  counts n n' := first ≤ n ∧ n' = n + 1
  reads := True
  row := by
    rintro - n _ ⟨le, rfl⟩ k
    have beyond : ¬ n + k < first := by omega
    refine ⟨?_, by omega, by omega⟩
    rw [if_neg beyond]
    omega

def toRenaming (R : Renumbering) : Renaming :=
  .renumber R.number

def correspondence (R : Renumbering) : Correspondence where
  World := Unit
  later _ _ := True
  machines _ m m' := m.Renamed R.toRenaming m' ∧ R.counts m.store.written m'.store.written
  values _ := Value.Renamed R.toRenaming
  frames _ := Eq
  data _ := R.reads
  excused _ := False
  later_refl _ := trivial
  later_trans _ _ := trivial
  values_later _ h := h
  frames_later _ h := h
  alike := Value.Renamed.alike
  same := by
    intro _ a a' b b' ha hb
    exact ha.same_eq (Renaming.biUnique_renumber R.injective) hb
  unit _ := .unit
  bool _ b := .bool b
  number _ _ _ := .number _
  lookup := by
    rintro _ m m' f _ name ⟨hm, -⟩ rfl -
    exact hm.store.lookup? f name
  owner := by
    rintro _ m m' f _ name ⟨hm, -⟩ rfl -
    rw [hm.store.owner? f name]
    exact Correspondence.optionRel_refl _
  describe := by
    rintro _ m m' f _ ⟨hm, -⟩ rfl
    exact hm.store.describe f
  define := by
    rintro _ m m' f _ name v v' ⟨hm, counts⟩ rfl hv -
    exact ⟨(), trivial, ⟨hm.store.define f name hv, hm.journal, hm.transcript⟩, counts⟩
  newFrame := by
    rintro _ m m' i j params body body' f f' args args' ⟨hm, counts⟩ hp hargs -
    cases hp with
    | procedure _ _ hf =>
      obtain rfl : f = f' := hf
      have given := (Bindings.Renamed.zip params hargs).ofList
      exact ⟨(), trivial, hm.store.size,
        ⟨hm.store.addFrame (some f) given, hm.journal, hm.transcript⟩, counts⟩
  newList := by
    rintro _ m m' items items' ⟨hm, counts⟩ hitems
    have made : m.store.made = m'.store.made := hm.store.made
    refine ⟨(), trivial, ⟨⟨⟨hm.store.frames, ?_⟩, hm.journal, hm.transcript⟩, counts⟩,
      .of_items ?_ hitems⟩
    · exact congrArg (· + 1) made
    · exact congrArg Identity.made made
  newProcedure := by
    rintro _ m m' params body body' f _ ⟨hm, counts⟩ hbody rfl -
    have made : m.store.made = m'.store.made := hm.store.made
    refine ⟨(), trivial, ⟨⟨⟨hm.store.frames, ?_⟩, hm.journal, hm.transcript⟩, counts⟩,
      .procedure ?_ hbody rfl⟩
    · exact congrArg (· + 1) made
    · exact congrArg Identity.made made
  load := by
    rintro _ m m' d ⟨hm, counts⟩ reads
    have row := R.row reads counts
    refine ⟨(), trivial, ⟨⟨⟨hm.store.frames, hm.store.made⟩, hm.journal, hm.transcript⟩, ?_⟩, ?_⟩
    · simp only [Value.ofDatum_next]
      exact (row d.lists).2
    · exact Value.renamed_ofDatum fun k _ => congrArg Identity.written (row k).1
  report := by
    rintro _ m m' severity message ⟨hm, counts⟩
    exact ⟨(), trivial, ⟨hm.store, congrArg (Journal.add · _) hm.journal, hm.transcript⟩, counts⟩
  emit := by
    rintro _ m m' text ⟨hm, counts⟩
    exact ⟨(), trivial, ⟨hm.store, hm.journal, congrArg (Array.push · _) hm.transcript⟩, counts⟩

end Renumbering

/-- How two actions ended is the same up to a renaming. -/
inductive Action.EndsAlike (ρ : Renaming) :
    Except Failure Value × Machine → Except Failure Value × Machine → Prop
  | ok {v v' : Value} {m m' : Machine} : v.Renamed ρ v' → m.Renamed ρ m' →
      EndsAlike ρ (.ok v, m) (.ok v', m')
  | error {failure : Failure} {m m' : Machine} : m.Renamed ρ m' →
      EndsAlike ρ (.error failure, m) (.error failure, m')

private theorem Action.EndsAlike.of_agrees {R : Renumbering} {r r' : Except Failure Value × Machine}
    (h : R.correspondence.Agrees () R.correspondence.values r r') : EndsAlike R.toRenaming r r' := by
  cases h with
  | ok _ hm hv => exact .ok hv hm.1
  | error _ hm => exact .error hm.1
  | excused impossible => exact impossible.elim

theorem Action.EndsAlike.counting {ρ : Renaming} {r r' : Except Failure Value × Machine}
    (h : EndsAlike ρ r r') (written : Nat) : EndsAlike ρ r (r'.1, r'.2.counting written) := by
  have recounted {m m' : Machine} (hm : m.Renamed ρ m') : m.Renamed ρ (m'.counting written) :=
    ⟨⟨hm.store.frames, hm.store.made⟩, hm.journal, hm.transcript⟩
  cases h with
  | ok hv hm => exact .ok hv (recounted hm)
  | error hm => exact .error (recounted hm)

/-- How many objects stand in the text read makes no difference to evaluation, and evaluation does not
change it. -/
theorem eval_counting (depth : Nat) (e : Value) (frame : FrameId) (m : Machine) (written : Nat) :
    eval depth e frame (m.counting written) =
        ((eval depth e frame m).1, (eval depth e frame m).2.counting written) ∧
      (eval depth e frame m).2.store.written = m.store.written := by
  let R := Renumbering.recounted m.store.written written
  have unchanged : m.Renamed R.toRenaming (m.counting written) :=
    .self_counting (fun _ _ _ _ _ _ _ => rfl) written
  have expression : e.Renamed R.toRenaming e := Value.renamed_self fun _ _ _ _ => rfl
  have agrees : R.correspondence.Agrees () R.correspondence.values (eval depth e frame m)
      (eval depth e frame (m.counting written)) :=
    Correspondence.eval_agrees (.refl depth) ⟨unchanged, rfl, rfl⟩ expression rfl
  have recount {n n' : Machine} (hn : R.correspondence.machines () n n') :
      n' = n.counting written ∧ n.store.written = m.store.written := by
    obtain ⟨renamed, still, counted⟩ := hn
    have machine := renamed.eq_counting_of_id
    rw [counted] at machine
    exact ⟨machine, still⟩
  generalize eval depth e frame m = r, eval depth e frame (m.counting written) = r' at agrees
  cases agrees with
  | ok _ hn hv =>
    obtain ⟨machine, still⟩ := recount hn
    exact ⟨Prod.ext (congrArg Except.ok hv.eq_of_id.symm) machine, still⟩
  | error _ hn =>
    obtain ⟨machine, still⟩ := recount hn
    exact ⟨Prod.ext rfl machine, still⟩
  | excused impossible => exact impossible.elim

/-- Every object that occurs in a binding is one that there is. -/
def Store.Accounted (s : Store) : Prop :=
  ∀ f, ∀ pair ∈ s.bindings f, ∀ (u : Value) (i : Identity), u.Occurs pair.2 →
    u.identity? = some i → s.Issued i

private theorem Host.History.accounted {threshold : Nat} {ms : List Moment} {h : Host}
    (history : History (start threshold) ms h) : h.machine.store.Accounted := by
  obtain ⟨exist, -, holds⟩ := history.exists_along (holdsAt_start Invariant.coherent threshold)
  intro f pair bound u i occurs hi
  have there : exist u := holds.machine.bound f pair bound u i occurs hi
  have issued : i.Before h.machine.store.written h.machine.store.made :=
    holds.machine.counts.issued there hi
  cases i with
  | written n => exact issued
  | made n => exact issued

theorem Host.Traces.accounted {threshold : Nat} {ms : List Moment} {h : Host} {α : Type}
    {P : Host → α → Prop} {x : Action α} (traces : h.Traces P x)
    (history : History (start threshold) ms h) : (x h.machine).2.store.Accounted := by
  obtain ⟨ns, h', later, machine, -⟩ := traces
  rw [← machine]
  exact (history.append later).accounted

/-- A text run when one more object was read before: only the objects of the text are numbered
differently. -/
theorem Program.run_skipping {m : Machine} (accounted : m.store.Accounted) (depth : Nat)
    (frame : FrameId) (source : String) :
    Action.EndsAlike (Renumbering.skipping m.store.written).toRenaming (run depth frame source m)
      (run depth frame source (m.counting (m.store.written + 1))) := by
  have kept : ∀ f, ∀ pair ∈ m.store.bindings f,
      pair.2.Keeps (Renumbering.skipping m.store.written).number := by
    intro f pair bound u n occurs hi
    have issued : n < m.store.written := accounted f pair bound u _ occurs hi
    exact if_pos issued
  have start : (Renumbering.skipping m.store.written).correspondence.machines () m
      (m.counting (m.store.written + 1)) :=
    ⟨.self_counting kept _, Nat.le_refl _, rfl⟩
  exact .of_agrees (Correspondence.program_agrees (fun _ _ _ _ => trivial) start rfl)

end SmallScheme
