import Mathlib.Data.List.Forall2
import SmallScheme.Eval
import SmallScheme.Proofs.Courses

/-!
Two runs side by side. A correspondence says which machines, values and frames of two runs belong
together, depending on a world that grows while the runs go on. It has to be kept by the operations
on the store and by the making of values; whatever is built from these then keeps it as well. An
invariant of one run is a correspondence of the run with itself.

Failures may be excused: once the first run ends with such a failure, nothing is asked of the second.
This compares runs that are allowed to nest differently deep.
-/

set_option autoImplicit false
set_option relaxedAutoImplicit false

namespace SmallScheme

/-- Values of one shape, with the parts related as given. -/
inductive Value.Alike (values : Value → Value → Prop) (frames : FrameId → FrameId → Prop) :
    Value → Value → Prop
  | unit : Alike values frames .unit .unit
  | bool (b : Bool) : Alike values frames (.bool b) (.bool b)
  | number (n : Number) : Alike values frames (.number n) (.number n)
  | symbol (name : String) : Alike values frames (.symbol name) (.symbol name)
  | list {i j : Identity} {items items' : List Value} : List.Forall₂ values items items' →
      Alike values frames (.list i items) (.list j items')
  | procedure {i j : Identity} {params : List String} {body body' : Value}
      {frame frame' : FrameId} : values body body' → frames frame frame' →
      Alike values frames (.procedure i params body frame) (.procedure j params body' frame')
  | primitive {i j : Identity} {p : Primitive} :
      Alike values frames (.primitive i p) (.primitive j p)

structure Correspondence where
  World : Type
  /-- The second world comes after the first. -/
  later : World → World → Prop
  machines : World → Machine → Machine → Prop
  values : World → Value → Value → Prop
  frames : World → FrameId → FrameId → Prop
  /-- The data that may be read. -/
  data : Datum → Prop
  excused : Failure → Prop
  later_refl : ∀ w, later w w
  later_trans : ∀ {u v w}, later u v → later v w → later u w
  values_later : ∀ {w w' v v'}, later w w' → values w v v' → values w' v v'
  frames_later : ∀ {w w' f f'}, later w w' → frames w f f' → frames w' f f'
  alike : ∀ {w v v'}, values w v v' → Value.Alike (values w) (frames w) v v'
  same : ∀ {w a a' b b'}, values w a a' → values w b b' → a.same b = a'.same b'
  unit : ∀ w, values w .unit .unit
  bool : ∀ w b, values w (.bool b) (.bool b)
  number : ∀ {w room call p args args' m n}, Operation.isArithmetic p.operation = true →
    List.Forall₂ (values w) args args' → (Primitive.run room call p args m).1 = .ok (.number n) →
    values w (.number n) (.number n)
  lookup : ∀ {w m m' f f' name}, machines w m m' → frames w f f' →
    values w (.symbol name) (.symbol name) →
    Option.Rel (values w) (m.store.lookup? f name) (m'.store.lookup? f' name)
  owner : ∀ {w m m' f f' name}, machines w m m' → frames w f f' →
    values w (.symbol name) (.symbol name) →
    Option.Rel (frames w) (m.store.owner? f name) (m'.store.owner? f' name)
  describe : ∀ {w m m' f f'}, machines w m m' → frames w f f' →
    m.store.describe f = m'.store.describe f'
  define : ∀ {w m m' f f' name v v'}, machines w m m' → frames w f f' → values w v v' →
    values w (.symbol name) (.symbol name) →
    ∃ w', later w w' ∧ machines w' { m with store := m.store.define f name v }
      { m' with store := m'.store.define f' name v' }
  newFrame : ∀ {w m m' i j params body body' f f' args args'}, machines w m m' →
    values w (.procedure i params body f) (.procedure j params body' f') →
    List.Forall₂ (values w) args args' → params.length = args.length →
    ∃ w', later w w' ∧ frames w' m.store.frames.size m'.store.frames.size ∧
      machines w' { m with store := (m.store.addFrame (.ofList (params.zip args)) (some f)).2 }
        { m' with store := (m'.store.addFrame (.ofList (params.zip args')) (some f')).2 }
  newList : ∀ {w m m' items items'}, machines w m m' → List.Forall₂ (values w) items items' →
    ∃ w', later w w' ∧ machines w' { m with store := m.store.make.2 }
      { m' with store := m'.store.make.2 } ∧
      values w' (.list m.store.make.1 items) (.list m'.store.make.1 items')
  newProcedure : ∀ {w m m' params body body' f f'}, machines w m m' → values w body body' →
    frames w f f' → (∀ name ∈ params, values w (.symbol name) (.symbol name)) →
    ∃ w', later w w' ∧ machines w' { m with store := m.store.make.2 }
      { m' with store := m'.store.make.2 } ∧
      values w' (.procedure m.store.make.1 params body f) (.procedure m'.store.make.1 params body' f')
  load : ∀ {w m m' d}, machines w m m' → data d →
    ∃ w', later w w' ∧
      machines w'
        { m with store := { m.store with written := (Value.ofDatum m.store.written d).2 } }
        { m' with store := { m'.store with written := (Value.ofDatum m'.store.written d).2 } } ∧
      values w' (Value.ofDatum m.store.written d).1 (Value.ofDatum m'.store.written d).1
  report : ∀ {w m m' severity message}, machines w m m' →
    ∃ w', later w w' ∧ machines w' { m with journal := m.journal.add ⟨severity, message⟩ }
      { m' with journal := m'.journal.add ⟨severity, message⟩ }
  emit : ∀ {w m m' text}, machines w m m' →
    ∃ w', later w w' ∧ machines w' { m with transcript := m.transcript.push (.output text) }
      { m' with transcript := m'.transcript.push (.output text) }

namespace Correspondence

variable (C : Correspondence) {α β γ δ : Type}

/-- The room of the two runs: either the same, or the first may run out of it. -/
structure Fits (room room' : Nat) : Prop where
  le : room ≤ room'
  exact : room = room' ∨ C.excused .depthExhausted

variable {C}

theorem Fits.refl (room : Nat) : C.Fits room room :=
  ⟨Nat.le_refl _, .inl rfl⟩

theorem Fits.pred {room room' : Nat} (h : C.Fits (room + 1) (room' + 1)) : C.Fits room room' :=
  ⟨Nat.le_of_succ_le_succ h.le, h.exact.imp_left Nat.succ.inj⟩

/-- Computations without a machine that belong together: related results or the same failure, unless
the first failure is excused. -/
inductive Settles (C : Correspondence) (Q : α → β → Prop) :
    Except Failure α → Except Failure β → Prop
  | ok {a : α} {b : β} : Q a b → Settles C Q (.ok a) (.ok b)
  | error (failure : Failure) : Settles C Q (.error failure) (.error failure)
  | excused {failure : Failure} {y : Except Failure β} : C.excused failure →
      Settles C Q (.error failure) y

namespace Settles

variable {P Q : α → β → Prop} {R : γ → δ → Prop}

theorem of_eq {x y : Except Failure α} (h : x = y) : C.Settles Eq x y := by
  subst h
  cases x with
  | error failure => exact .error failure
  | ok a => exact .ok rfl

theorem imp {x : Except Failure α} {y : Except Failure β} (h : C.Settles P x y)
    (hq : ∀ a b, P a b → Q a b) : C.Settles Q x y := by
  cases h with
  | ok hp => exact .ok (hq _ _ hp)
  | error failure => exact .error failure
  | excused he => exact .excused he

theorem bind {x : Except Failure α} {y : Except Failure β} {f : α → Except Failure γ}
    {g : β → Except Failure δ} (h : C.Settles P x y)
    (k : ∀ a b, P a b → C.Settles R (f a) (g b)) : C.Settles R (x >>= f) (y >>= g) := by
  cases h with
  | ok hp => exact k _ _ hp
  | error failure => exact .error failure
  | excused he => exact .excused he

theorem mapM {xs : List α} {ys : List β} {f : α → Except Failure γ} {g : β → Except Failure δ}
    (h : List.Forall₂ P xs ys) (k : ∀ a b, P a b → C.Settles R (f a) (g b)) :
    C.Settles (List.Forall₂ R) (xs.mapM f) (ys.mapM g) := by
  induction h with
  | nil => exact .ok .nil
  | cons hp _ ih =>
    rw [List.mapM_cons, List.mapM_cons]
    refine (k _ _ hp).bind fun c d hr => ih.bind fun cs ds hrs => ?_
    exact .ok (.cons hr hrs)

/-- No room is no room for the second run either, unless the first is excused. -/
theorem noRoom {room' : Nat} {y : Except Failure β}
    (h : room' = 0 ∨ C.excused .depthExhausted) (hy : room' = 0 → y = .error .depthExhausted) :
    C.Settles Q (.error .depthExhausted) y := by
  rcases h with h | h
  · rw [hy h]
    exact .error _
  · exact .excused h

end Settles

/-- Actions carried out that belong together: corresponding machines in a later world, with related
results or the same failure, unless the first failure is excused. -/
inductive Agrees (C : Correspondence) (w : C.World) (Q : C.World → α → β → Prop) :
    Except Failure α × Machine → Except Failure β × Machine → Prop
  | ok {w' : C.World} {a : α} {b : β} {m m' : Machine} :
      C.later w w' → C.machines w' m m' → Q w' a b → Agrees C w Q (.ok a, m) (.ok b, m')
  | error {w' : C.World} {failure : Failure} {m m' : Machine} :
      C.later w w' → C.machines w' m m' → Agrees C w Q (.error failure, m) (.error failure, m')
  | excused {failure : Failure} {m : Machine} {r : Except Failure β × Machine} :
      C.excused failure → Agrees C w Q (.error failure, m) r

namespace Agrees

variable {w u : C.World} {P Q : C.World → α → β → Prop} {R : C.World → γ → δ → Prop}
  {m m' : Machine}

private theorem earlier {r : Except Failure α × Machine} {r' : Except Failure β × Machine}
    (hw : C.later w u) (h : C.Agrees u Q r r') : C.Agrees w Q r r' := by
  cases h with
  | ok hu hm hq => exact .ok (C.later_trans hw hu) hm hq
  | error hu hm => exact .error (C.later_trans hw hu) hm
  | excused he => exact .excused he

theorem outcome_eq {r r' : Except Failure α × Machine} (h : C.Agrees w (fun _ => Eq) r r')
    (strict : ∀ failure, ¬ C.excused failure) : r.1 = r'.1 ∧ ∃ u, C.machines u r.2 r'.2 := by
  cases h with
  | ok _ hm equal => exact ⟨congrArg Except.ok equal, _, hm⟩
  | error _ hm => exact ⟨rfl, _, hm⟩
  | excused he => exact absurd he (strict _)

theorem pure {a : α} {b : β} (hm : C.machines w m m') (hq : Q w a b) :
    C.Agrees w Q ((Pure.pure a : Action α) m) ((Pure.pure b : Action β) m') :=
  .ok (C.later_refl w) hm hq

theorem fail (failure : Failure) (hm : C.machines w m m') :
    C.Agrees w Q ((Action.fail failure : Action α) m) ((Action.fail failure : Action β) m') :=
  .error (C.later_refl w) hm

theorem lift {x : Except Failure α} {y : Except Failure β} (hm : C.machines w m m')
    (h : C.Settles (Q w) x y) : C.Agrees w Q (Action.lift x m) (Action.lift y m') := by
  cases h with
  | ok hq => exact .ok (C.later_refl w) hm hq
  | error failure => exact .error (C.later_refl w) hm
  | excused he => exact .excused he

theorem bind {x : Action α} {y : Action β} {f : α → Action γ} {g : β → Action δ}
    (h : C.Agrees w P (x m) (y m'))
    (k : ∀ u a b n n', C.later w u → C.machines u n n' → P u a b →
      C.Agrees u R (f a n) (g b n')) :
    C.Agrees w R ((x >>= f) m) ((y >>= g) m') := by
  rw [Action.bind_apply, Action.bind_apply]
  generalize x m = r at h
  generalize y m' = r' at h
  cases h with
  | ok hu hm hp => exact (k _ _ _ _ _ hu hm hp).earlier hu
  | error hu hm => exact .error hu hm
  | excused he => exact .excused he

/-- The outcome of an action, a failure included, as the result of another. -/
theorem attempt {x : Action α} {y : Action β} {f : Except Failure α → Action γ}
    {g : Except Failure β → Action δ} (h : C.Agrees w P (x m) (y m'))
    (hok : ∀ u a b n n', C.later w u → C.machines u n n' → P u a b →
      C.Agrees u R (f (.ok a) n) (g (.ok b) n'))
    (herror : ∀ u failure n n', C.later w u → C.machines u n n' →
      C.Agrees u R (f (.error failure) n) (g (.error failure) n'))
    (hexcused : ∀ failure n, C.excused failure → f (.error failure) n = (.error failure, n)) :
    C.Agrees w R ((Action.attempt x >>= f) m) ((Action.attempt y >>= g) m') := by
  rw [Action.bind_apply, Action.bind_apply]
  simp only [Action.attempt]
  generalize x m = r at h
  generalize y m' = r' at h
  cases h with
  | ok hu hm hp => exact (hok _ _ _ _ _ hu hm hp).earlier hu
  | error hu hm => exact (herror _ _ _ _ hu hm).earlier hu
  | excused he =>
    simp only [hexcused _ _ he]
    exact .excused he

theorem mapM {xs : List α} {ys : List β} {f : α → Action γ} {g : β → Action δ}
    (hp : ∀ {u v a b}, C.later u v → P u a b → P v a b)
    (hr : ∀ {u v c d}, C.later u v → R u c d → R v c d)
    (hm : C.machines w m m') (h : List.Forall₂ (P w) xs ys)
    (k : ∀ u a b n n', C.later w u → C.machines u n n' → P u a b →
      C.Agrees u R (f a n) (g b n')) :
    C.Agrees w (fun u => List.Forall₂ (R u)) (xs.mapM f m) (ys.mapM g m') := by
  induction xs generalizing w m m' ys with
  | nil =>
    cases h
    exact .pure hm .nil
  | cons a xs ih =>
    obtain _ | ⟨hab, hrest⟩ := h
    rw [List.mapM_cons, List.mapM_cons]
    refine (k _ _ _ _ _ (C.later_refl w) hm hab).bind fun u c d n n' hu hn hcd => ?_
    refine (ih hn (hrest.imp fun _ _ => hp hu) fun v a b n n' hv => k v a b n n'
      (C.later_trans hu hv)).bind fun v cs ds o o' hv ho hcds => ?_
    exact .pure ho (.cons (hr hv hcd) hcds)

theorem foldlM {xs : List α} {ys : List β} {f : γ → α → Action γ} {g : δ → β → Action δ}
    {c : γ} {d : δ} (hp : ∀ {u v a b}, C.later u v → P u a b → P v a b)
    (hm : C.machines w m m') (h : List.Forall₂ (P w) xs ys) (hcd : R w c d)
    (k : ∀ u a b c d n n', C.later w u → C.machines u n n' → P u a b → R u c d →
      C.Agrees u R (f c a n) (g d b n')) :
    C.Agrees w R (xs.foldlM f c m) (ys.foldlM g d m') := by
  induction xs generalizing w m m' ys c d with
  | nil =>
    cases h
    exact .pure hm hcd
  | cons a xs ih =>
    obtain _ | ⟨hab, hrest⟩ := h
    rw [List.foldlM_cons, List.foldlM_cons]
    refine (k _ _ _ _ _ _ _ (C.later_refl w) hm hab hcd).bind fun u c d n n' hu hn hcd => ?_
    exact ih hn (hrest.imp fun _ _ => hp hu) hcd fun v a b c d n n' hv =>
      k v a b c d n n' (C.later_trans hu hv)

theorem report (severity : Severity) (message : String) (hm : C.machines w m m') :
    C.Agrees w (fun _ _ _ => True) (Action.report severity message m)
      (Action.report severity message m') := by
  obtain ⟨u, hu, hn⟩ := C.report hm
  exact .ok hu hn trivial

theorem emit (text : String) (hm : C.machines w m m') :
    C.Agrees w (fun _ _ _ => True) (Action.emit (.output text) m)
      (Action.emit (.output text) m') := by
  obtain ⟨u, hu, hn⟩ := C.emit hm
  exact .ok hu hn trivial

theorem newList {items items' : List Value} (hm : C.machines w m m')
    (h : List.Forall₂ (C.values w) items items') :
    C.Agrees w C.values (Action.newList items m) (Action.newList items' m') := by
  obtain ⟨u, hu, hn, hv⟩ := C.newList hm h
  exact .ok hu hn hv

theorem load {d : Datum} (hm : C.machines w m m') (hd : C.data d) :
    C.Agrees w C.values (Action.load d m) (Action.load d m') := by
  obtain ⟨u, hu, hn, hv⟩ := C.load hm hd
  exact .ok hu hn hv

theorem lookup {f f' : FrameId} {name : String} (hm : C.machines w m m') (hf : C.frames w f f')
    (hname : C.values w (.symbol name) (.symbol name)) :
    C.Agrees w C.values (Action.lookup f name m) (Action.lookup f' name m') := by
  have hl := C.lookup hm hf hname
  simp only [Action.lookup, Action.view, Action.bind_apply]
  generalize m.store.lookup? f name = found at hl
  generalize m'.store.lookup? f' name = found' at hl
  cases hl with
  | some hv => exact .pure hm hv
  | none => exact .fail _ hm

theorem define {f f' : FrameId} {name : String} {v v' : Value} (hm : C.machines w m m')
    (hf : C.frames w f f') (hv : C.values w v v')
    (hname : C.values w (.symbol name) (.symbol name)) :
    C.Agrees w (fun _ _ _ => True) (Action.define f name v m) (Action.define f' name v' m') := by
  obtain ⟨u, hu, hn⟩ := C.define hm hf hv hname
  exact .ok hu hn trivial

theorem assign {f f' : FrameId} {name : String} {v v' : Value} (hm : C.machines w m m')
    (hf : C.frames w f f') (hv : C.values w v v')
    (hname : C.values w (.symbol name) (.symbol name)) :
    C.Agrees w (fun _ _ _ => True) (Action.assign f name v m) (Action.assign f' name v' m') := by
  have ho := C.owner hm hf hname
  simp only [Action.assign, Action.view, Action.bind_apply]
  generalize m.store.owner? f name = found at ho
  generalize m'.store.owner? f' name = found' at ho
  cases ho with
  | some ho => exact .define hm ho hv hname
  | none => exact .fail _ hm

theorem enter {i j : Identity} {params : List String} {body body' : Value} {f f' : FrameId}
    {args args' : List Value} (hm : C.machines w m m')
    (hp : C.values w (.procedure i params body f) (.procedure j params body' f'))
    (hargs : List.Forall₂ (C.values w) args args') :
    C.Agrees w C.frames (Action.enter params args (some f) m)
      (Action.enter params args' (some f') m') := by
  simp only [Action.enter, ← hargs.length_eq]
  split
  · rename_i hl
    obtain ⟨u, hu, hf, hn⟩ := C.newFrame hm hp hargs hl
    exact .ok hu hn hf
  · exact .fail _ hm

end Agrees

private theorem alike_refl (v : Value) : Value.Alike Eq Eq v v := by
  cases v with
  | unit => exact .unit
  | bool b => exact .bool b
  | number n => exact .number n
  | symbol name => exact .symbol name
  | list i items => exact .list (List.forall₂_same.mpr fun _ _ => rfl)
  | procedure i params body frame => exact .procedure rfl rfl
  | primitive i p => exact .primitive

theorem optionRel_refl {α : Type} (o : Option α) : Option.Rel Eq o o := by
  cases o with
  | none => exact .none
  | some a => exact .some rfl

/-- Runs that go through the same stores: values and frames are the same in both, and the machines are
related by what else they hold. -/
def ofMachines (related : Machine → Machine → Prop) (excused : Failure → Prop)
    (store_eq : ∀ {m m'}, related m m' → m.store = m'.store)
    (withStore : ∀ {m m'} s, related m m' → related { m with store := s } { m' with store := s })
    (withReport : ∀ {m m'} r, related m m' →
      related { m with journal := m.journal.add r } { m' with journal := m'.journal.add r })
    (withOutput : ∀ {m m'} text, related m m' →
      related { m with transcript := m.transcript.push (.output text) }
        { m' with transcript := m'.transcript.push (.output text) }) : Correspondence where
  World := Unit
  later _ _ := True
  machines _ := related
  values _ := Eq
  frames _ := Eq
  data _ := True
  excused := excused
  later_refl _ := trivial
  later_trans _ _ := trivial
  values_later _ h := h
  frames_later _ h := h
  alike := by
    rintro _ v _ rfl
    exact alike_refl v
  same := by
    rintro _ a _ b _ rfl rfl
    rfl
  unit _ := rfl
  bool _ _ := rfl
  number _ _ _ := rfl
  lookup := by
    rintro _ m m' f _ name hm rfl -
    rw [store_eq hm]
    exact optionRel_refl _
  owner := by
    rintro _ m m' f _ name hm rfl -
    rw [store_eq hm]
    exact optionRel_refl _
  describe := by
    rintro _ m m' f _ hm rfl
    rw [store_eq hm]
  define := by
    rintro _ m m' f _ name v _ hm rfl rfl -
    refine ⟨(), trivial, ?_⟩
    rw [store_eq hm]
    exact withStore _ hm
  newFrame := by
    rintro _ m m' i j params body _ f _ args args' hm heq hargs -
    obtain ⟨-, -, -, rfl⟩ := Value.procedure.inj heq
    obtain rfl : args = args' := by simpa using hargs
    refine ⟨(), trivial, by rw [store_eq hm], ?_⟩
    rw [store_eq hm]
    exact withStore _ hm
  newList := by
    rintro _ m m' items items' hm hitems
    obtain rfl : items = items' := by simpa using hitems
    refine ⟨(), trivial, ?_, by rw [store_eq hm]⟩
    rw [store_eq hm]
    exact withStore _ hm
  newProcedure := by
    rintro _ m m' params body _ f _ hm rfl rfl -
    refine ⟨(), trivial, ?_, by rw [store_eq hm]⟩
    rw [store_eq hm]
    exact withStore _ hm
  load := by
    rintro _ m m' d hm -
    refine ⟨(), trivial, ?_, by rw [store_eq hm]⟩
    rw [store_eq hm]
    exact withStore _ hm
  report hm := ⟨(), trivial, withReport _ hm⟩
  emit hm := ⟨(), trivial, withOutput _ hm⟩

end Correspondence

end SmallScheme
