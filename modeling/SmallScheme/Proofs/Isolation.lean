import Mathlib.Data.List.Induction
import Mathlib.Logic.Function.Basic
import SmallScheme.Proofs.Renaming

/-!
Separate environments do not interfere. A workspace holds any number of environments on one machine, each
with a global frame of its own. Steps are addressed to one environment each; what is seen of an
environment's steps, and what its global frame holds in the end, is the same as if no other
environment had ever been there.
-/

set_option autoImplicit false
set_option relaxedAutoImplicit false

namespace SmallScheme

inductive Value.Kind where
  | unit
  | boolean
  | integer
  | float
  | symbol
  | list
  | procedure
  | primitive
  deriving DecidableEq, Repr

def Value.kind : Value → Value.Kind
  | .unit => .unit
  | .bool _ => .boolean
  | .number (.int _) => .integer
  | .number (.float _) => .float
  | .symbol _ => .symbol
  | .list _ _ => .list
  | .procedure _ _ _ _ => .procedure
  | .primitive _ _ => .primitive

/-- What is seen of a value: its kind, its display text and its literal text. -/
structure Appearance where
  kind : Value.Kind
  display : Except Failure String
  literal : Except Failure String

def Value.appearance (depth : Nat) (v : Value) : Appearance :=
  ⟨v.kind, v.display depth, v.literal depth⟩

/-- An environment: its global frame, and the results of its steps so far. -/
structure Environment where
  frame : FrameId
  results : List Value

/-- How a value is made in an environment: from atoms, from results of earlier steps, by running a
text, and as a list of such values. -/
inductive Recipe where
  | unit
  | bool (b : Bool)
  | number (n : Number)
  | symbol (name : String)
  | list (parts : List Recipe)
  /-- The result of the step of that number, of those that had one; unit if there is none. -/
  | result (n : Nat)
  | run (source : String)

mutual

def Recipe.make (depth : Nat) (env : Environment) : Recipe → Action Value
  | .unit => return .unit
  | .bool b => return .bool b
  | .number n => return .number n
  | .symbol name => return .symbol name
  | .list parts => do Action.newList (← makeEach depth env parts)
  | .result n => return env.results[n]?.getD .unit
  | .run source => Program.run depth env.frame source

def Recipe.makeEach (depth : Nat) (env : Environment) : List Recipe → Action (List Value)
  | [] => return []
  | part :: parts => do
      let v ← make depth env part
      return v :: (← makeEach depth env parts)

end

/-- A step of an environment. -/
inductive Request where
  /-- Nothing, but the environment is made if it is not there. -/
  | create
  | run (source : String)
  | form (source : String)
  | lookup (name : String)
  | define (name : String) (value : Recipe)
  | assign (name : String) (value : Recipe)

def Request.perform (depth : Nat) (env : Environment) : Request → Action Value
  | .create => return .unit
  | .run source => Program.run depth env.frame source
  | .form source => Program.evalForm depth env.frame source
  | .lookup name => Action.lookup env.frame name
  | .define name value => do
      Action.define env.frame name (← value.make depth env)
      return .unit
  | .assign name value => do
      Action.assign env.frame name (← value.make depth env)
      return .unit

namespace Environment

/-- The environment, or a new one; its global frame is numbered after the frames there are. -/
def access (m : Machine) : Option Environment → Environment × Machine
  | some env => (env, m)
  | none => (⟨m.store.frames.size, []⟩, (Action.newGlobals m).2)

def after (env : Environment) : Except Failure Value → Environment
  | .ok v => { env with results := env.results ++ [v] }
  | .error _ => env

end Environment

/-- What is seen of a step: the failure or the appearance of the result, and how messages show the
environment then. -/
structure Observation where
  outcome : Except Failure Appearance
  place : String

structure Workspace (κ : Type) where
  machine : Machine
  environments : κ → Option Environment
  log : List (κ × Observation)

namespace Workspace

variable {κ : Type} [DecidableEq κ]

def start (threshold : Nat) : Workspace κ :=
  ⟨.start threshold, fun _ => none, []⟩

/-- A step of one environment, which is made at its first step. -/
def step (depth : Nat) (w : Workspace κ) (k : κ) (r : Request) : Workspace κ :=
  let (env, m) := Environment.access w.machine (w.environments k)
  let (outcome, m) := r.perform depth env m
  { machine := m
    environments := Function.update w.environments k (some (env.after outcome))
    log := w.log ++ [(k, ⟨outcome.map (·.appearance depth), m.store.describe env.frame⟩)] }

def run (depth threshold : Nat) (schedule : List (κ × Request)) : Workspace κ :=
  schedule.foldl (fun w step => w.step depth step.1 step.2) (start threshold)

def bindings (depth : Nat) (w : Workspace κ) (k : κ) : Option (List (String × Appearance)) :=
  (w.environments k).map fun env =>
    (w.machine.store.bindings env.frame).map fun pair => (pair.1, pair.2.appearance depth)

end Workspace

/-- Environments that are the same up to a renaming. -/
structure Environment.Renamed (ρ : Renaming) (env env' : Environment) : Prop where
  frame : ρ.frames env.frame env'.frame
  results : List.Forall₂ (Value.Renamed ρ) env.results env'.results

theorem Environment.Renamed.mono {ρ σ : Renaming} (h : σ.Extends ρ) {env env' : Environment}
    (he : env.Renamed ρ env') : env.Renamed σ env' :=
  ⟨h.frames he.frame, he.results.imp fun _ _ hv => hv.mono h⟩

namespace Correspondence

private theorem Settles.eq_of_renamed {α : Type} {x y : Except Failure α}
    (h : renamed.Settles Eq x y) : x = y := by
  cases h with
  | ok he => rw [he]
  | error failure => rfl
  | excused impossible => exact impossible.elim

private theorem appearance_eq (w : Paired) {v v' : Value} (h : v.Renamed w.via v') (depth : Nat) :
    v.appearance depth = v'.appearance depth := by
  have kind : v.kind = v'.kind := by cases h <;> rfl
  have values : renamed.values w v v' := h
  have display : v.display depth = v'.display depth :=
    (write_settles .display values (.refl depth)).eq_of_renamed
  have literal : v.literal depth = v'.literal depth :=
    (write_settles .literal values (.refl depth)).eq_of_renamed
  simp only [Value.appearance, kind, display, literal]

theorem appearances_eq (w : Paired) {bindings bindings' : Bindings}
    (h : bindings.Renamed w.via bindings') (depth : Nat) :
    bindings.map (fun pair => (pair.1, pair.2.appearance depth)) =
      bindings'.map fun pair => (pair.1, pair.2.appearance depth) := by
  induction h with
  | nil => rfl
  | cons hp _ ih => rw [List.map_cons, List.map_cons, ih, hp.1, appearance_eq w hp.2 depth]

private theorem result_renamed {ρ : Renaming} {results results' : List Value}
    (h : List.Forall₂ (Value.Renamed ρ) results results') (n : Nat) :
    (results[n]?.getD .unit).Renamed ρ (results'[n]?.getD .unit) := by
  induction h generalizing n with
  | nil => exact .unit
  | cons hv _ ih =>
    cases n with
    | zero => exact hv
    | succ n => exact ih n

mutual

private theorem recipe_agrees {w : Paired} {m m' : Machine} {env env' : Environment} (depth : Nat)
    (hm : renamed.machines w m m') (he : env.Renamed w.via env') (r : Recipe) :
    renamed.Agrees w renamed.values (r.make depth env m) (r.make depth env' m') := by
  cases r with
  | unit => exact .pure hm .unit
  | bool b => exact .pure hm (.bool b)
  | number n => exact .pure hm (.number n)
  | symbol name => exact .pure hm (.symbol name)
  | list parts =>
    exact (recipes_agree depth hm he parts).bind fun _ _ _ _ _ _ hn hvs => .newList hn hvs
  | result n => exact .pure hm (result_renamed he.results n)
  | run source => exact program_agrees (fun _ _ _ _ => trivial) hm he.frame

private theorem recipes_agree {w : Paired} {m m' : Machine} {env env' : Environment} (depth : Nat)
    (hm : renamed.machines w m m') (he : env.Renamed w.via env') (parts : List Recipe) :
    renamed.Agrees w (fun u => List.Forall₂ (renamed.values u)) (Recipe.makeEach depth env parts m)
      (Recipe.makeEach depth env' parts m') := by
  cases parts with
  | nil => exact .pure hm .nil
  | cons part parts =>
    refine (recipe_agrees depth hm he part).bind fun u v v' n n' hu hn hv => ?_
    refine (recipes_agree depth hn (he.mono hu.wider) parts).bind fun x vs vs' o o' hx ho hvs => ?_
    exact .pure ho (.cons (renamed.values_later hx hv) hvs)

end

variable {w : Paired} {m m' : Machine} {env env' : Environment} (depth : Nat)

private theorem perform_agrees (hm : renamed.machines w m m') (he : env.Renamed w.via env')
    (r : Request) :
    renamed.Agrees w renamed.values (r.perform depth env m) (r.perform depth env' m') := by
  cases r with
  | create => exact .pure hm .unit
  | run source => exact program_agrees (fun _ _ _ _ => trivial) hm he.frame
  | form source =>
    simp only [Request.perform, Program.evalForm, Action.bind_apply, Action.lift]
    cases Datum.parse depth source with
    | error failure => exact .error (.refl w) hm
    | ok d => exact evalDatum_agrees (.refl depth) hm he.frame trivial
  | lookup name => exact .lookup hm he.frame (.symbol name)
  | define name value =>
    refine (recipe_agrees depth hm he value).bind fun u v v' n n' hu hn hv => ?_
    refine (Agrees.define hn (hu.wider.frames he.frame) hv (.symbol name)).bind
      fun _ _ _ _ _ _ ho _ => ?_
    exact .pure ho .unit
  | assign name value =>
    refine (recipe_agrees depth hm he value).bind fun u v v' n n' hu hn hv => ?_
    refine (Agrees.assign hn (hu.wider.frames he.frame) hv (.symbol name)).bind
      fun _ _ _ _ _ _ ho _ => ?_
    exact .pure ho .unit

end Correspondence

private theorem Primitive.globals_renamed {ρ : Renaming} {n n' : Nat}
    (h : ∀ k, k < standard.length → ρ.identities (.made (n + k)) (.made (n' + k))) :
    Bindings.Renamed ρ (globals n) (globals n') := by
  have numbered : ∀ (ps : List Primitive) (n n' : Nat),
      (∀ k, k < ps.length → ρ.identities (.made (n + k)) (.made (n' + k))) →
      Bindings.Renamed ρ
        ((ps.zipIdx n).map fun pair => (pair.1.name, Value.primitive (.made pair.2) pair.1))
        ((ps.zipIdx n').map fun pair => (pair.1.name, Value.primitive (.made pair.2) pair.1)) := by
    intro ps
    induction ps with
    | nil => exact fun _ _ _ => .nil
    | cons p ps ih =>
      intro n n' h
      refine .cons ⟨rfl, .primitive (h 0 (Nat.succ_pos _))⟩ (ih (n + 1) (n' + 1) fun k hk => ?_)
      simpa only [Nat.add_assoc, Nat.add_comm 1 k] using h (k + 1) (Nat.succ_lt_succ hk)
  refine List.rel_append (numbered standard n n' h) ?_
  exact .cons ⟨rfl, .bool true⟩ (.cons ⟨rfl, .bool false⟩ (.cons ⟨rfl, .number _⟩ .nil))

namespace Environment

variable {w : Paired} {m m' : Machine}

private theorem access_agrees (hm : Correspondence.renamed.machines w m m')
    {found found' : Option Environment} (h : Option.Rel (Renamed w.via) found found') :
    ∃ w', w.Later w' ∧
      Correspondence.renamed.machines w' (access m found).2 (access m' found').2 ∧
      (access m found).1.Renamed w'.via (access m' found').1 := by
  obtain ⟨left, right⟩ := hm
  cases h with
  | some he => exact ⟨w, .refl w, ⟨left, right⟩, he⟩
  | none =>
    let numbered := w.made Primitive.standard.length
    have globals : (Primitive.globals w.left.made).Renamed numbered.via
        (Primitive.globals w.right.made) :=
      Primitive.globals_renamed fun k hk => .inr ⟨k, hk, rfl, rfl⟩
    have outermost : Option.Rel numbered.via.frames none none := .none
    refine ⟨numbered.entered outermost globals,
      (w.later_made _).trans (numbered.later_entered outermost globals), ⟨?_, ?_⟩, ?_, .nil⟩
    · simp only [access, Action.newGlobals, Action.change, left]
      rfl
    · simp only [access, Action.newGlobals, Action.change, right]
      rfl
    · exact .inr ⟨congrArg (·.frames.size) left, congrArg (·.frames.size) right⟩

end Environment

namespace Workspace

variable {κ : Type} [DecidableEq κ]

/-- A step of environments that are the same up to a renaming: it is seen alike, and the environments
stay the same up to a later renaming. -/
theorem step_agrees (depth : Nat) {w : Paired} {together alone : Workspace κ} {k : κ} (r : Request)
    (hm : Correspondence.renamed.machines w together.machine alone.machine)
    (h : Option.Rel (Environment.Renamed w.via) (together.environments k) (alone.environments k)) :
    ∃ w' env env' seen, w.Later w' ∧
      Correspondence.renamed.machines w' (together.step depth k r).machine
        (alone.step depth k r).machine ∧
      env.Renamed w'.via env' ∧
      (together.step depth k r).environments = Function.update together.environments k (some env) ∧
      (alone.step depth k r).environments = Function.update alone.environments k (some env') ∧
      (together.step depth k r).log = together.log ++ [(k, seen)] ∧
      (alone.step depth k r).log = alone.log ++ [(k, seen)] := by
  obtain ⟨u, hu, hn, he⟩ := Environment.access_agrees hm h
  simp only [step]
  generalize Environment.access together.machine (together.environments k) = a at hn he
  generalize Environment.access alone.machine (alone.environments k) = a' at hn he
  obtain ⟨env, n⟩ := a
  obtain ⟨env', n'⟩ := a'
  have performed := Correspondence.perform_agrees depth hn he r
  simp only at performed ⊢
  generalize r.perform depth env n = p at performed
  generalize r.perform depth env' n' = p' at performed
  cases performed with
  | @ok x v v' o o' hx ho hv =>
    have he := he.mono hx.wider
    have place := Correspondence.renamed.describe ho he.frame
    refine ⟨x, env.after (.ok v), env'.after (.ok v'), _, hu.trans hx, ho, ⟨he.frame, ?_⟩, rfl, rfl,
      rfl, ?_⟩
    · exact List.rel_append he.results (.cons hv .nil)
    · simp only [Except.map, Correspondence.appearance_eq x hv, place]
  | @error x failure o o' hx ho =>
    have he := he.mono hx.wider
    have place := Correspondence.renamed.describe ho he.frame
    refine ⟨x, env, env', _, hu.trans hx, ho, he, rfl, rfl, rfl, ?_⟩
    simp only [Except.map, place]
  | excused impossible => exact impossible.elim

/-- Environments together and each alone: the same up to a renaming for each, and no two of them share
a frame. -/
structure Isolated (together : Workspace κ) (alone : κ → Workspace κ) (ρ : κ → Renaming) :
    Prop where
  agree : ∀ k, together.machine.store.Matches (ρ k) (alone k).machine.store
  apart : ∀ {j k f g g'}, j ≠ k → (ρ j).frames f g → ¬ (ρ k).frames f g'
  environments : ∀ k,
    Option.Rel (Environment.Renamed (ρ k)) (together.environments k) ((alone k).environments k)
  log : ∀ k, together.log.filter (·.1 = k) = (alone k).log

private theorem isolated_start (threshold : Nat) :
    Isolated (start threshold : Workspace κ) (fun _ => start threshold) fun _ => .empty where
  agree _ :=
    have older : Store.empty.OuterOlder := by simp [Store.OuterOlder, Store.outer?, Store.empty]
    .empty older older
  apart _ h := h.elim
  environments _ := .none
  log _ := rfl

/-- A step of one environment touches no frame of another. -/
theorem Isolated.step {together : Workspace κ} {alone : κ → Workspace κ} {ρ : κ → Renaming}
    (h : Isolated together alone ρ) (depth : Nat) (j : κ) (r : Request) :
    ∃ ρ', Isolated (together.step depth j r)
      (Function.update alone j ((alone j).step depth j r)) ρ' := by
  let w : Paired := ⟨ρ j, together.machine.store, (alone j).machine.store, h.agree j⟩
  have hm : Correspondence.renamed.machines w together.machine (alone j).machine := ⟨rfl, rfl⟩
  obtain ⟨w', env, env', seen, later, ⟨left, right⟩, he, envs, envs', log, log'⟩ :=
    step_agrees depth r hm (h.environments j)
  -- Only the renaming of the environment that took the step grows.
  refine ⟨Function.update ρ j w'.via, ?_, ?_, ?_, ?_⟩
  · intro k
    by_cases hk : k = j
    · subst hk
      simp only [Function.update_self, left, right]
      exact w'.agree
    · simp only [Function.update_of_ne hk, left]
      refine (h.agree k).elsewhere w'.agree.older later.issued fun {f f'} hf => ?_
      exact later.untouched ((h.agree k).lt hf).1 fun g hg => h.apart (Ne.symm hk) hg hf
  · -- Only frames that are new by now can have been paired for `j`; all others were so before.
    have new {k : κ} {f g g' : FrameId} (hk : k ≠ j) (hf : w'.via.frames f g) :
        ¬ (ρ k).frames f g' := by
      intro hf'
      rcases later.fresh hf with old | new
      · exact h.apart (Ne.symm hk) old hf'
      · exact Nat.not_lt.mpr new ((h.agree k).lt hf').1
    intro i k f g g' hne hf hf'
    by_cases hi : i = j
    · subst hi
      simp only [Function.update_self, Function.update_of_ne (Ne.symm hne)] at hf hf'
      exact new (Ne.symm hne) hf hf'
    · by_cases hk : k = j
      · subst hk
        simp only [Function.update_self, Function.update_of_ne hi] at hf hf'
        exact new hi hf' hf
      · simp only [Function.update_of_ne hi, Function.update_of_ne hk] at hf hf'
        exact h.apart hne hf hf'
  · intro k
    by_cases hk : k = j
    · subst hk
      simp only [envs, envs', Function.update_self]
      exact .some he
    · simp only [envs, Function.update_of_ne hk]
      exact h.environments k
  · intro k
    by_cases hk : k = j
    · subst hk
      simp only [Function.update_self, log, log', List.filter_append, h.log k]
      simp
    · simp only [Function.update_of_ne hk, log, List.filter_append, h.log k]
      simp [Ne.symm hk]

theorem isolated_run (depth threshold : Nat) (schedule : List (κ × Request)) :
    ∃ ρ, Isolated (run depth threshold schedule)
      (fun k => run depth threshold (schedule.filter (·.1 = k))) ρ := by
  induction schedule using List.reverseRecOn with
  | nil => exact ⟨_, isolated_start threshold⟩
  | append_singleton schedule step ih =>
    obtain ⟨j, r⟩ := step
    obtain ⟨ρ, h⟩ := ih
    obtain ⟨ρ', h'⟩ := h.step depth j r
    refine ⟨ρ', ?_⟩
    have alone : (fun k => run depth threshold ((schedule ++ [(j, r)]).filter (·.1 = k))) =
        Function.update (fun k => run depth threshold (schedule.filter (·.1 = k))) j
          ((run depth threshold (schedule.filter (·.1 = j))).step depth j r) := by
      funext k
      by_cases hk : k = j
      · subst hk
        simp [run, List.filter_append]
      · simp [run, List.filter_append, Function.update_of_ne hk, Ne.symm hk]
    rw [alone]
    simpa [run] using h'

/-- Whatever steps other environments take in between, the steps of an environment are seen as if they
were taken alone, and so is what its global frame binds in the end. The frames and objects that can
be reached from there are the same up to a renaming. -/
theorem run_filter_isolated (depth threshold : Nat) (schedule : List (κ × Request)) (k : κ) :
    let together := run depth threshold schedule
    let alone := run depth threshold (schedule.filter (·.1 = k))
    together.log.filter (·.1 = k) = alone.log ∧
      together.bindings depth k = alone.bindings depth k ∧
      ∃ ρ, together.machine.store.Matches ρ alone.machine.store ∧
        Option.Rel (fun env env' => ρ.frames env.frame env'.frame) (together.environments k)
          (alone.environments k) := by
  obtain ⟨ρ, h⟩ := isolated_run depth threshold schedule
  have agree := h.agree k
  have environments := h.environments k
  refine ⟨h.log k, ?_, ρ k, agree, ?_⟩
  · simp only [bindings]
    generalize (run depth threshold schedule).environments k = found at environments
    generalize (run depth threshold (schedule.filter (·.1 = k))).environments k = found' at environments
    cases environments with
    | none => rfl
    | some he =>
      let w : Paired := ⟨ρ k, _, _, agree⟩
      exact congrArg some (Correspondence.appearances_eq w (agree.bindings he.frame) depth)
  · generalize (run depth threshold schedule).environments k = found at environments
    generalize (run depth threshold (schedule.filter (·.1 = k))).environments k = found' at environments
    cases environments with
    | none => exact .none
    | some he => exact .some he.frame

end Workspace

end SmallScheme
