import SmallScheme.Program
import SmallScheme.Proofs.Courses

/-!
What evaluation does to a machine. An effect says what evaluation in a frame may do, and what a call may
do. It has to allow the single changes that the evaluator makes: then nothing that is evaluated or
called does anything else, whether it ends with a result or a failure. Nor does evaluation fail in
other ways than its own; faults of reading are not among them.
-/

set_option autoImplicit false
set_option relaxedAutoImplicit false

namespace SmallScheme

/-- The failures that an evaluation can end with. -/
inductive Failure.Evaluating : Failure → Prop
  | error {e : Error} : e.kind.family ≠ .reading → Evaluating (.error e)
  | digitLimit : Evaluating (.digitLimit none)
  | depthExhausted : Evaluating .depthExhausted
  | interrupted : Evaluating .interrupted

/-- Among the failures are those that any evaluation can end with: errors, but not those of reading, and
running out of depth. -/
structure Failure.Admits (P : Failure → Prop) : Prop where
  error : ∀ {e : Error}, e.kind.family ≠ .reading → P (.error e)
  depthExhausted : P .depthExhausted

private theorem Failure.Admits.evaluating : Failure.Admits Failure.Evaluating :=
  ⟨.error, .depthExhausted⟩

/-- Among the failures are those that a primitive can end with by itself: a wrong number of arguments,
the errors inside built-in procedures, and running out of depth. -/
structure Failure.Refuses (P : Failure → Prop) : Prop where
  error : ∀ {e : Error}, e.kind = .arityMismatch ∨ e.kind.family = .builtin → P (.error e)
  depthExhausted : P .depthExhausted

theorem Failure.Admits.refuses {P : Failure → Prop} (admits : Failure.Admits P) :
    Failure.Refuses P where
  error := by
    rintro e (arity | builtin)
    · exact admits.error (by rw [arity]; nofun)
    · exact admits.error (by rw [builtin]; nofun)
  depthExhausted := admits.depthExhausted

variable {α β : Type}

inductive Failure.Writing : Failure → Prop
  | digitLimit : Writing (.digitLimit none)
  | depthExhausted : Writing .depthExhausted

private theorem Failure.Writing.evaluating {failure : Failure} (h : failure.Writing) :
    failure.Evaluating := by
  cases h with
  | digitLimit => exact .digitLimit
  | depthExhausted => exact .depthExhausted

def FailsWith (P : Failure → Prop) (x : Except Failure α) : Prop :=
  ∀ failure, x = .error failure → P failure

namespace FailsWith

variable {P Q : Failure → Prop}

theorem ok (a : α) : FailsWith P (.ok a) := by
  intro failure h
  cases h

theorem error {failure : Failure} (h : P failure) :
    FailsWith P (.error failure : Except Failure α) := by
  intro other he
  cases he
  exact h

theorem mono {x : Except Failure α} (h : FailsWith P x) (imp : ∀ {failure}, P failure → Q failure) :
    FailsWith Q x :=
  fun failure he => imp (h failure he)

theorem bind {x : Except Failure α} {f : α → Except Failure β} (hx : FailsWith P x)
    (hf : ∀ a, FailsWith P (f a)) : FailsWith P (x >>= f) := by
  cases x with
  | error failure => exact error (hx failure rfl)
  | ok a => exact hf a

theorem mapM {f : α → Except Failure β} {xs : List α} (hf : ∀ a ∈ xs, FailsWith P (f a)) :
    FailsWith P (xs.mapM f) := by
  induction xs with
  | nil => exact ok []
  | cons x xs ih =>
    obtain ⟨first, others⟩ := List.forall_mem_cons.mp hf
    rw [List.mapM_cons]
    exact first.bind fun b => (ih others).bind fun bs => ok (b :: bs)

private theorem allM {f : α → Except Failure Bool} (hf : ∀ a, FailsWith P (f a)) (xs : List α) :
    FailsWith P (xs.allM f) := by
  induction xs with
  | nil => exact ok true
  | cons x xs ih =>
    rw [List.allM_cons]
    refine (hf x).bind fun b => ?_
    cases b with
    | true => exact ih
    | false => exact ok false

theorem writing (style : Style) (room : Nat) (v : Value) :
    FailsWith Failure.Writing (v.write style room) := by
  induction room generalizing v with
  | zero => exact error .depthExhausted
  | succ room ih =>
    cases v with
    | number n =>
      simp only [Value.write, Number.text]
      split
      · exact ok _
      · exact error .digitLimit
    | list i items => exact (mapM fun v _ => ih v).bind fun _ => ok _
    | _ => exact ok _

private theorem write (style : Style) (room : Nat) (v : Value) :
    FailsWith Failure.Evaluating (v.write style room) :=
  (writing style room v).mono Failure.Writing.evaluating

private theorem equal (refuses : Failure.Refuses P) (room : Nat) (a b : Value) :
    FailsWith P (a.equal room b) := by
  induction room generalizing a b with
  | zero => exact error refuses.depthExhausted
  | succ room ih =>
    unfold Value.equal
    split
    · rename_i hroom
      cases hroom
    · rename_i hroom
      cases hroom
      split
      · exact allM (fun _ => ih _ _) _
      · exact ok false
    · exact ok _

variable {room : Nat} {v : Value}

theorem complain {e : String → Error} (h : ∀ text, P (.error (e text)))
    (text : FailsWith P (v.literal room)) :
    FailsWith P (Primitive.complain room e v : Except Failure α) :=
  text.bind fun text => error (h text)

private theorem number (refuses : Failure.Refuses P) (callee : String)
    (text : FailsWith P (v.literal room)) :
    FailsWith P (Primitive.number room callee v) := by
  cases v with
  | number n => exact ok n
  | _ => exact complain (e := .notNumber callee) (fun _ => refuses.error (.inr rfl)) text

private theorem numbers (refuses : Failure.Refuses P) (callee : String) {args : List Value}
    (texts : ∀ v ∈ args, FailsWith P (v.literal room)) :
    FailsWith P (Primitive.numbers room callee args) :=
  mapM fun v hv => number refuses callee (texts v hv)

theorem items (refuses : Failure.Refuses P) (callee : String) (text : FailsWith P (v.literal room)) :
    FailsWith P (Primitive.items room callee v) := by
  cases v with
  | list i items => exact ok items
  | _ => exact complain (e := .notList callee) (fun _ => refuses.error (.inr rfl)) text

theorem procedure (refuses : Failure.Refuses P) (callee : String)
    (text : FailsWith P (v.literal room)) : FailsWith P (Primitive.procedure room callee v) := by
  unfold Primitive.procedure
  split
  · exact ok ()
  · exact complain (e := .notProcedure callee) (fun _ => refuses.error (.inr rfl)) text

private theorem numeric (refuses : Failure.Refuses P) (callee : String)
    (r : Except NumericFault Number) :
    FailsWith P (Primitive.numeric callee r) := by
  cases r with
  | ok n => exact ok _
  | error fault => exact error (refuses.error (.inr (by cases fault <;> rfl)))

end FailsWith

namespace Action

theorem foldlM_effect {R : Machine → Machine → Prop} (refl : ∀ m, R m m)
    (trans : ∀ {m n o}, R m n → R n o → R m o) {f : β → α → Action β} {xs : List α}
    (hf : ∀ b, ∀ a ∈ xs, ∀ m, R m (f b a m).2) (b : β) (m : Machine) : R m (xs.foldlM f b m).2 := by
  induction xs generalizing b m with
  | nil => exact refl m
  | cons x xs ih =>
    have first := hf b x List.mem_cons_self m
    rw [List.foldlM_cons, bind_apply]
    generalize f b x m = r at first ⊢
    obtain ⟨failure | b, n⟩ := r
    · exact first
    · exact trans first (ih (fun b a ha => hf b a (List.mem_cons_of_mem x ha)) b n)

/-- However the action ends, the machines before and after it are related; and it fails in the given
ways only. -/
structure Keeps (R : Machine → Machine → Prop) (P : Failure → Prop) (x : Action α) : Prop where
  effect : ∀ m, R m (x m).2
  failure : ∀ m, FailsWith P (x m).1

namespace Keeps

variable {R S : Machine → Machine → Prop} {P : Failure → Prop}

private theorem of_forall {x : Action α} (h : ∀ m, R m (x m).2 ∧ FailsWith P (x m).1) :
    x.Keeps R P :=
  ⟨fun m => (h m).1, fun m => (h m).2⟩

theorem mono {x : Action α} (h : x.Keeps R P) (imp : ∀ {m n}, R m n → S m n) : x.Keeps S P :=
  ⟨fun m => imp (h.effect m), h.failure⟩

theorem pure (refl : ∀ m, R m m) (a : α) : (Pure.pure a : Action α).Keeps R P :=
  ⟨refl, fun _ => .ok a⟩

theorem lift (refl : ∀ m, R m m) {x : Except Failure α} (h : FailsWith P x) :
    (Action.lift x).Keeps R P :=
  ⟨refl, fun _ => h⟩

private theorem raise (refl : ∀ m, R m m) {e : Error} (h : P (.error e)) :
    (Action.raise e : Action α).Keeps R P :=
  ⟨refl, fun _ => .error h⟩

theorem view (refl : ∀ m, R m m) (f : Store → α) : (Action.view f).Keeps R P :=
  ⟨refl, fun _ => .ok _⟩

theorem change {f : Store → α × Store} (h : ∀ m, R m { m with store := (f m.store).2 }) :
    (Action.change f).Keeps R P :=
  ⟨h, fun _ => .ok _⟩

theorem bind {x : Action α} {f : α → Action β} (trans : ∀ {m n o}, R m n → R n o → R m o)
    (hx : x.Keeps R P) (hf : ∀ a, (f a).Keeps R P) : (x >>= f).Keeps R P := by
  refine .of_forall fun m => ?_
  have first := hx.effect m
  have fails := hx.failure m
  rw [Action.bind_apply]
  generalize x m = r at first fails ⊢
  obtain ⟨failure | a, n⟩ := r
  · exact ⟨first, .error (fails failure rfl)⟩
  · exact ⟨trans first ((hf a).effect n), (hf a).failure n⟩

theorem mapM {f : α → Action β} (refl : ∀ m, R m m) (trans : ∀ {m n o}, R m n → R n o → R m o)
    (hf : ∀ a, (f a).Keeps R P) (xs : List α) : (xs.mapM f).Keeps R P := by
  induction xs with
  | nil => exact .pure refl []
  | cons x xs ih =>
    rw [List.mapM_cons]
    exact (hf x).bind trans fun b => ih.bind trans fun bs => .pure refl (b :: bs)

private theorem foldlM {f : β → α → Action β} (refl : ∀ m, R m m)
    (trans : ∀ {m n o}, R m n → R n o → R m o) (hf : ∀ b a, (f b a).Keeps R P) (b : β) (xs : List α) :
    (xs.foldlM f b).Keeps R P := by
  induction xs generalizing b with
  | nil => exact .pure refl b
  | cons x xs ih =>
    rw [List.foldlM_cons]
    exact (hf b x).bind trans ih

end Keeps

end Action

/-- What evaluation and calls may do to a machine. -/
structure Effect where
  /-- What the evaluation of an expression in the frame may do. -/
  inside : FrameId → Machine → Machine → Prop
  /-- What a call may do. -/
  outside : Machine → Machine → Prop
  refl : ∀ m, outside m m
  outside_trans : ∀ {m n o}, outside m n → outside n o → outside m o
  inside_trans : ∀ {f m n o}, inside f m n → inside f n o → inside f m o
  inside_of_outside : ∀ {f m n}, outside m n → inside f m n
  define : ∀ m f name v, inside f m { m with store := m.store.define f name v }
  assign : ∀ {m f name owner} v, m.store.owner? f name = some owner →
    outside m { m with store := m.store.define owner name v }
  make : ∀ m, outside m { m with store := m.store.make.2 }
  load : ∀ m written, outside m { m with store := { m.store with written } }
  note : ∀ m message, outside m { m with journal := m.journal.add ⟨.debug, message⟩ }
  /-- The frame of a call is new, so what is done in it is done by the call. -/
  enter : ∀ {m n bindings outer},
    inside m.store.frames.size { m with store := (m.store.addFrame bindings outer).2 } n →
    outside m n

namespace Effect

variable (E : Effect) {room : Nat} {eval : Value → FrameId → Action Value}
  {call : Value → List Value → Action Value}

private theorem inside_refl (f : FrameId) (m : Machine) : E.inside f m m :=
  E.inside_of_outside (E.refl m)

variable {P : Failure → Prop}

private theorem newList_keeps (items : List Value) : (Action.newList items).Keeps E.outside P :=
  .change E.make

private theorem mapped_keeps (refuses : Failure.Refuses P) (callee : String)
    (hcall : ∀ f args, (call f args).Keeps E.outside P) {f : Value} {rows : List Value}
    (texts : ∀ v ∈ f :: rows, FailsWith P (v.literal room)) :
    (Primitive.mapped room callee call f rows).Keeps E.outside P := by
  obtain ⟨text, others⟩ := List.forall_mem_cons.mp texts
  have tables : FailsWith P (rows.mapM (Primitive.items room callee)) :=
    .mapM fun v hv => .items refuses callee (others v hv)
  refine (Action.Keeps.lift E.refl (.procedure refuses callee text)).bind E.outside_trans fun _ => ?_
  refine (Action.Keeps.lift E.refl tables).bind E.outside_trans fun tables => ?_
  cases tables with
  | nil => exact E.newList_keeps []
  | cons first others =>
    simp only
    split
    · exact (Action.Keeps.mapM E.refl E.outside_trans (hcall f) _).bind E.outside_trans E.newList_keeps
    · exact .raise E.refl (refuses.error (.inr rfl))

/-- A primitive does what calls may do, if the caller that it is given does; and it fails in no other
way than by an error or by writing one of its arguments, unless it interrupts. -/
theorem primitive_keeps (refuses : Failure.Refuses P)
    (hcall : ∀ f args, (call f args).Keeps E.outside P) (p : Primitive) {args : List Value}
    (texts : ∀ v ∈ args, FailsWith P (v.literal room))
    (interrupts : p.operation = .interrupt → P .interrupted) :
    (p.run room call args).Keeps E.outside P := by
  have computed {x : Except Failure Value} (h : FailsWith P x) : (Action.lift x).Keeps E.outside P :=
    .lift E.refl h
  have numbers : FailsWith P (Primitive.numbers room p.name args) := .numbers refuses p.name texts
  have items {v : Value} (hv : v ∈ args) : FailsWith P (Primitive.items room p.name v) :=
    .items refuses p.name (texts v hv)
  have listed {f : List Value → Action Value} {v : Value} (hv : v ∈ args)
      (hf : ∀ items, (f items).Keeps E.outside P) :
      (Action.lift (Primitive.items room p.name v) >>= f).Keeps E.outside P :=
    (Action.Keeps.lift E.refl (items hv)).bind E.outside_trans hf
  obtain ⟨n, count⟩ : ∃ n, args.length = n := ⟨_, rfl⟩
  cases p.course n with
  | misapplied _ ran =>
    rw [ran room call args count]
    exact .raise E.refl (refuses.error (.inl rfl))
  | calculates _ ran =>
    rw [ran room call args count]
    exact computed (numbers.bind fun _ => .numeric refuses _ _)
  | compares _ ran =>
    rw [ran room call args count]
    exact computed (numbers.bind fun _ => .ok _)
  | equal _ ran =>
    obtain ⟨a, b, rfl⟩ := List.length_eq_two.mp count
    rw [ran]
    exact computed ((FailsWith.equal refuses room a b).bind fun _ => .ok _)
  | same _ ran =>
    obtain ⟨a, b, rfl⟩ := List.length_eq_two.mp count
    rw [ran]
    exact .pure E.refl _
  | tests _ _ ran =>
    obtain ⟨a, rfl⟩ := List.length_eq_one_iff.mp count
    rw [ran]
    exact .pure E.refl _
  | cons _ ran =>
    obtain ⟨a, rest, rfl⟩ := List.length_eq_two.mp count
    rw [ran]
    exact listed (by simp) fun items => E.newList_keeps (a :: items)
  | car _ ran =>
    obtain ⟨a, rfl⟩ := List.length_eq_one_iff.mp count
    rw [ran]
    refine listed List.mem_cons_self fun items => ?_
    cases items with
    | nil => exact .raise E.refl (refuses.error (.inr rfl))
    | cons first _ => exact .pure E.refl first
  | cdr _ ran =>
    obtain ⟨a, rfl⟩ := List.length_eq_one_iff.mp count
    rw [ran]
    refine listed List.mem_cons_self fun items => ?_
    cases items with
    | nil => exact .raise E.refl (refuses.error (.inr rfl))
    | cons _ rest => exact E.newList_keeps rest
  | append _ ran =>
    rw [ran]
    have tables := Action.Keeps.lift E.refl (FailsWith.mapM fun v hv => items hv)
    exact tables.bind E.outside_trans fun _ => E.newList_keeps _
  | list _ ran =>
    rw [ran]
    exact E.newList_keeps args
  | length _ ran =>
    obtain ⟨a, rfl⟩ := List.length_eq_one_iff.mp count
    rw [ran]
    exact computed ((items List.mem_cons_self).bind fun _ => .ok _)
  | apply _ ran =>
    obtain ⟨f, a, rfl⟩ := List.length_eq_two.mp count
    rw [ran]
    have checked := FailsWith.procedure refuses p.name (texts f List.mem_cons_self)
    refine (Action.Keeps.lift E.refl checked).bind E.outside_trans fun _ => ?_
    exact listed (by simp) (hcall f)
  | map _ ran =>
    obtain ⟨f, others, rfl⟩ := List.exists_of_length_succ args count
    obtain ⟨row, rows, rfl⟩ := List.exists_of_length_succ others (Nat.succ.inj count)
    rw [ran]
    exact E.mapped_keeps refuses p.name hcall texts
  | interrupt op ran =>
    rw [ran]
    exact ⟨E.refl, fun _ => .error (interrupts op)⟩

theorem assign_keeps_of_admits (admits : Failure.Admits P) (f : FrameId) (name : String) (v : Value) :
    (Action.assign f name v).Keeps E.outside P := by
  refine .of_forall fun m => ?_
  simp only [Action.assign, Action.view, Action.bind_apply]
  cases found : m.store.owner? f name with
  | some owner => exact ⟨E.assign v found, .ok ()⟩
  | none => exact ⟨E.refl m, .error (admits.error nofun)⟩

theorem assign_keeps (f : FrameId) (name : String) (v : Value) :
    (Action.assign f name v).Keeps E.outside Failure.Evaluating :=
  E.assign_keeps_of_admits .evaluating f name v

theorem report_keeps (message : String) : (Action.report .debug message).Keeps E.outside P :=
  ⟨fun m => E.note m message, fun _ => .ok ()⟩

private theorem form_keeps (heval : ∀ e f, (eval e f).Keeps (E.inside f) Failure.Evaluating)
    (hcall : ∀ f args, (call f args).Keeps E.outside Failure.Evaluating) (f : FrameId) (form : Form) :
    (Eval.form room eval call f form).Keeps (E.inside f) Failure.Evaluating := by
  have refl := E.inside_refl f
  have trans {m n o : Machine} : E.inside f m n → E.inside f n o → E.inside f m o := E.inside_trans
  have away {α : Type} {x : Action α} (h : x.Keeps E.outside Failure.Evaluating) :
      x.Keeps (E.inside f) Failure.Evaluating := h.mono E.inside_of_outside
  have literal (v : Value) : (Action.lift (v.literal room)).Keeps (E.inside f) Failure.Evaluating :=
    .lift refl (.write .literal room v)
  have place : (Action.view (·.describe f)).Keeps (E.inside f) Failure.Evaluating := .view refl _
  cases form with
  | quote datum => exact .pure refl datum
  | conditional test consequent alternative =>
    refine (heval test f).bind trans fun v => ?_
    split
    · exact heval consequent f
    · exact heval alternative f
  | assignment name e =>
    refine (heval e f).bind trans fun v => (away (E.assign_keeps f name v)).bind trans fun _ => ?_
    refine (literal v).bind trans fun _ => (away (E.report_keeps _)).bind trans fun _ => ?_
    exact .pure refl _
  | definition name e =>
    have defined (v : Value) : (Action.define f name v).Keeps (E.inside f) Failure.Evaluating :=
      .change fun m => E.define m f name v
    refine (heval e f).bind trans fun v => (defined v).bind trans fun _ => ?_
    refine (literal v).bind trans fun _ => place.bind trans fun _ => ?_
    exact (away (E.report_keeps _)).bind trans fun _ => .pure refl _
  | abstraction params body =>
    have made : (Action.change Store.make).Keeps (E.inside f) Failure.Evaluating :=
      away (.change E.make)
    refine made.bind trans fun i => (literal _).bind trans fun _ => place.bind trans fun _ => ?_
    exact (away (E.report_keeps _)).bind trans fun _ => .pure refl _
  | sequence es => exact .foldlM refl trans (fun _ e => heval e f) _ es
  | application operator operands =>
    refine (heval operator f).bind trans fun g => ?_
    refine (Action.Keeps.mapM refl trans (fun e => heval e f) operands).bind trans fun args => ?_
    exact away (hcall g args)
  | misshapen form => exact .raise refl (.error nofun)
  | unnamed form got =>
    exact .lift refl (.complain (e := .formSymbol form) (fun _ => .error nofun)
      (.write .literal room got))
  | unparametrised => exact .raise refl (.error nofun)

private theorem expression_keeps (heval : ∀ e f, (eval e f).Keeps (E.inside f) Failure.Evaluating)
    (hcall : ∀ f args, (call f args).Keeps E.outside Failure.Evaluating) (e : Value) (f : FrameId) :
    (Eval.expression room eval call e f).Keeps (E.inside f) Failure.Evaluating := by
  have refl := E.inside_refl f
  cases e with
  | symbol name =>
    refine (Action.Keeps.view refl _).bind E.inside_trans fun found => ?_
    cases found with
    | some v => exact .pure refl v
    | none => exact .raise refl (.error nofun)
  | list i items =>
    cases items with
    | nil => exact .raise refl (.error nofun)
    | cons head rest => exact E.form_keeps heval hcall f _
  | _ => exact .pure refl _

theorem refused_keeps (admits : Failure.Admits P) {f : Value} (text : FailsWith P (f.literal room)) :
    (do
      let text ← Action.lift (f.shown room)
      let literal ← Action.lift (f.literal room)
      Action.raise (.notApplicable text literal) : Action Value).Keeps E.outside P := by
  have shown : FailsWith P (f.shown room) := by
    cases f with
    | symbol name => exact .ok name
    | _ => exact text
  refine (Action.Keeps.lift E.refl shown).bind E.outside_trans fun _ => ?_
  refine (Action.Keeps.lift E.refl text).bind E.outside_trans fun _ => ?_
  exact .raise E.refl (admits.error nofun)

private theorem application_keeps (heval : ∀ e f, (eval e f).Keeps (E.inside f) Failure.Evaluating)
    (hcall : ∀ f args, (call f args).Keeps E.outside Failure.Evaluating) (f : Value)
    (args : List Value) :
    (Eval.application room eval call f args).Keeps E.outside Failure.Evaluating := by
  cases f with
  | procedure i params body frame =>
    refine .of_forall fun m => ?_
    simp only [Eval.application, Action.enter, Action.bind_apply]
    by_cases same : params.length = args.length
    · rw [if_pos same]
      exact ⟨E.enter ((heval body _).effect _), (heval body _).failure _⟩
    · rw [if_neg same]
      exact ⟨E.refl m, .error (.error (by rintro ⟨⟩))⟩
  | primitive i p =>
    simp only [Eval.application]
    split
    · have texts : ∀ v ∈ args, FailsWith Failure.Evaluating (v.literal room) :=
        fun v _ => .write .literal room v
      exact E.primitive_keeps Failure.Admits.evaluating.refuses hcall p texts fun _ => .interrupted
    · exact .raise E.refl (.error (by rintro ⟨⟩))
  | _ => exact E.refused_keeps .evaluating (.write .literal room _)

/-- Evaluation does to the machine what the effect says, and so does a call. -/
theorem eval_call_keep (depth : Nat) :
    (∀ e f, (SmallScheme.eval depth e f).Keeps (E.inside f) Failure.Evaluating) ∧
      ∀ f args, (SmallScheme.call depth f args).Keeps E.outside Failure.Evaluating := by
  induction depth with
  | zero =>
    exact ⟨fun _ f => ⟨E.inside_refl f, fun _ => .error .depthExhausted⟩,
      fun _ _ => ⟨E.refl, fun _ => .error .depthExhausted⟩⟩
  | succ depth ih =>
    obtain ⟨heval, hcall⟩ := ih
    exact ⟨E.expression_keeps heval hcall, E.application_keeps heval hcall⟩

theorem eval_keeps (depth : Nat) (e : Value) (f : FrameId) :
    (SmallScheme.eval depth e f).Keeps (E.inside f) Failure.Evaluating :=
  (E.eval_call_keep depth).1 e f

theorem call_keeps (depth : Nat) (f : Value) (args : List Value) :
    (SmallScheme.call depth f args).Keeps E.outside Failure.Evaluating :=
  (E.eval_call_keep depth).2 f args

theorem evalDatum_keeps (depth : Nat) (f : FrameId) (d : Datum) :
    (Program.evalDatum depth f d).Keeps (E.inside f) Failure.Evaluating := by
  have loaded : (Action.load d).Keeps (E.inside f) Failure.Evaluating :=
    .change fun m => E.inside_of_outside (E.load m _)
  exact loaded.bind E.inside_trans fun e => E.eval_keeps depth e f

end Effect

end SmallScheme
