import Mathlib.Logic.Relator
import SmallScheme.Primitive.Standard
import SmallScheme.Proofs.Correspondence.Evaluation
import SmallScheme.Proofs.Scope

/-!
Stores that are the same up to the numbers of frames and objects. A renaming pairs frames and objects of
two stores one to one; two stores match if paired frames bind the same names, in the same order, to
values that differ by the renaming only, and have paired outer frames. Whatever runs on both stores
alike keeps them matching and pairs what it makes. In the first store it touches no frame but paired
ones and new ones.
-/

set_option autoImplicit false
set_option relaxedAutoImplicit false

namespace SmallScheme

/-- Which frames and objects of one store stand for which of another. -/
structure Renaming where
  frames : FrameId → FrameId → Prop
  identities : Identity → Identity → Prop

namespace Renaming

def empty : Renaming :=
  ⟨fun _ _ => False, fun _ _ => False⟩

/-- Whatever is paired stays so. -/
structure Extends (σ ρ : Renaming) : Prop where
  frames : ∀ {f g}, ρ.frames f g → σ.frames f g
  identities : ∀ {i j}, ρ.identities i j → σ.identities i j

theorem Extends.refl (ρ : Renaming) : ρ.Extends ρ :=
  ⟨id, id⟩

theorem Extends.trans {ρ σ τ : Renaming} (h : τ.Extends σ) (h' : σ.Extends ρ) : τ.Extends ρ :=
  ⟨fun hf => h.frames (h'.frames hf), fun hi => h.identities (h'.identities hi)⟩

def withIdentities (ρ : Renaming) (new : Identity → Identity → Prop) : Renaming :=
  ⟨ρ.frames, fun i j => ρ.identities i j ∨ new i j⟩

def withFrame (ρ : Renaming) (f f' : FrameId) : Renaming :=
  ⟨fun g g' => ρ.frames g g' ∨ (g = f ∧ g' = f'), ρ.identities⟩

private theorem extends_withIdentities (ρ : Renaming) (new : Identity → Identity → Prop) :
    (ρ.withIdentities new).Extends ρ :=
  ⟨id, .inl⟩

private theorem extends_withFrame (ρ : Renaming) (f f' : FrameId) : (ρ.withFrame f f').Extends ρ :=
  ⟨.inl, id⟩

end Renaming

private theorem biUnique_or {α β : Type} {R S : α → β → Prop} {P : α → Prop} {Q : β → Prop}
    (hR : Relator.BiUnique R) (hS : Relator.BiUnique S) (known : ∀ {a b}, R a b → P a ∧ Q b)
    (new : ∀ {a b}, S a b → ¬ P a ∧ ¬ Q b) : Relator.BiUnique fun a b => R a b ∨ S a b := by
  constructor
  · rintro a b c (ha | ha) (hb | hb)
    · exact hR.1 ha hb
    · exact absurd (known ha).2 (new hb).2
    · exact absurd (known hb).2 (new ha).2
    · exact hS.1 ha hb
  · rintro a b c (ha | ha) (hb | hb)
    · exact hR.2 ha hb
    · exact absurd (known ha).1 (new hb).1
    · exact absurd (known hb).1 (new ha).1
    · exact hS.2 ha hb

/-- Objects numbered one after the other on both sides. -/
def Identity.InRow (kind : Nat → Identity) (n n' count : Nat) (i j : Identity) : Prop :=
  ∃ k, k < count ∧ i = kind (n + k) ∧ j = kind (n' + k)

private theorem Identity.biUnique_inRow {kind : Nat → Identity}
    (injective : Function.Injective kind)
    (n n' count : Nat) : Relator.BiUnique (Identity.InRow kind n n' count) := by
  constructor
  · rintro i j _ ⟨k, -, rfl, rfl⟩ ⟨l, -, rfl, hl⟩
    have same : n' + k = n' + l := injective hl
    rw [Nat.add_left_cancel same]
  · rintro _ i j ⟨k, -, rfl, rfl⟩ ⟨l, -, hl, rfl⟩
    have same : n + k = n + l := injective hl
    rw [Nat.add_left_cancel same]

private theorem exists_of_rel_some {α β : Type} {R : α → β → Prop} {a : α} {o : Option β}
    (h : Option.Rel R (some a) o) : ∃ b, o = some b ∧ R a b := by
  cases h with
  | some hab => exact ⟨_, rfl, hab⟩

private theorem eq_none_of_rel_none {α β : Type} {R : α → β → Prop} {o : Option β}
    (h : Option.Rel R (none : Option α) o) : o = none := by
  cases h
  rfl

/-- Values that differ by a renaming of frames and objects. -/
inductive Value.Renamed (ρ : Renaming) : Value → Value → Prop
  | unit : Renamed ρ .unit .unit
  | bool (b : Bool) : Renamed ρ (.bool b) (.bool b)
  | number (n : Number) : Renamed ρ (.number n) (.number n)
  | symbol (name : String) : Renamed ρ (.symbol name) (.symbol name)
  | list {i j : Identity} {items items' : List Value} : ρ.identities i j →
      items.length = items'.length → (∀ {v v'}, (v, v') ∈ items.zip items' → Renamed ρ v v') →
      Renamed ρ (.list i items) (.list j items')
  | procedure {i j : Identity} {params : List String} {body body' : Value} {f f' : FrameId} :
      ρ.identities i j → Renamed ρ body body' → ρ.frames f f' →
      Renamed ρ (.procedure i params body f) (.procedure j params body' f')
  | primitive {i j : Identity} {p : Primitive} : ρ.identities i j →
      Renamed ρ (.primitive i p) (.primitive j p)

namespace Value.Renamed

variable {ρ σ : Renaming}

theorem mono (h : σ.Extends ρ) {v v' : Value} (hv : v.Renamed ρ v') : v.Renamed σ v' := by
  induction hv with
  | unit => exact .unit
  | bool b => exact .bool b
  | number n => exact .number n
  | symbol name => exact .symbol name
  | list hi hl _ ih => exact .list (h.identities hi) hl ih
  | procedure hi _ hf ih => exact .procedure (h.identities hi) ih (h.frames hf)
  | primitive hi => exact .primitive (h.identities hi)

theorem of_items {i j : Identity} {items items' : List Value} (hi : ρ.identities i j)
    (h : List.Forall₂ (Renamed ρ) items items') : Renamed ρ (.list i items) (.list j items') :=
  .list hi h.length_eq fun hm => List.forall₂_zip h hm

theorem alike {v v' : Value} (h : v.Renamed ρ v') : v.Alike (Renamed ρ) ρ.frames v' := by
  cases h with
  | unit => exact .unit
  | bool b => exact .bool b
  | number n => exact .number n
  | symbol name => exact .symbol name
  | list _ hl hitems => exact .list (List.forall₂_iff_zip.mpr ⟨hl, hitems⟩)
  | procedure _ hbody hf => exact .procedure hbody hf
  | primitive _ => exact .primitive

/-- A renaming that is one to one keeps values apart or the same. -/
theorem same_eq (unique : Relator.BiUnique ρ.identities) {a a' b b' : Value} (ha : a.Renamed ρ a')
    (hb : b.Renamed ρ b') : a.same b = a'.same b' := by
  have identity {i i' j j' : Identity} (hi : ρ.identities i i') (hj : ρ.identities j j') :
      (i == j) = (i' == j') := by
    rw [Bool.eq_iff_iff, beq_iff_eq, beq_iff_eq]
    constructor
    · rintro rfl
      exact unique.2 hi hj
    · rintro rfl
      exact unique.1 hi hj
  cases ha with
  | list hi _ _ =>
    cases hb with
    | list hj _ _ => exact identity hi hj
    | _ => rfl
  | procedure hi _ _ =>
    cases hb with
    | procedure hj _ _ => exact identity hi hj
    | _ => rfl
  | primitive hi =>
    cases hb with
    | primitive hj => exact identity hi hj
    | _ => rfl
  | number m =>
    cases m <;> cases hb with
    | number n => cases n <;> rfl
    | _ => rfl
  | _ => cases hb <;> rfl

end Value.Renamed

def Bindings.Renamed (ρ : Renaming) : Bindings → Bindings → Prop :=
  List.Forall₂ fun pair pair' => pair.1 = pair'.1 ∧ pair.2.Renamed ρ pair'.2

namespace Bindings.Renamed

variable {ρ σ : Renaming} {bindings bindings' : Bindings}

theorem mono (h : σ.Extends ρ) (hb : bindings.Renamed ρ bindings') : bindings.Renamed σ bindings' :=
  List.Forall₂.imp (fun _ _ hp => ⟨hp.1, hp.2.mono h⟩) hb

theorem get? (h : bindings.Renamed ρ bindings') (name : String) :
    Option.Rel (Value.Renamed ρ) (bindings.get? name) (bindings'.get? name) := by
  induction h with
  | nil => exact .none
  | @cons pair pair' rest rest' hp _ ih =>
    obtain ⟨n, v⟩ := pair
    obtain ⟨n', v'⟩ := pair'
    obtain ⟨rfl, hv⟩ := hp
    simp only [Bindings.get?]
    split
    · exact .some hv
    · exact ih

theorem put (h : bindings.Renamed ρ bindings') (name : String) {v v' : Value} (hv : v.Renamed ρ v') :
    (bindings.put name v).Renamed ρ (bindings'.put name v') := by
  induction h with
  | nil => exact .cons ⟨rfl, hv⟩ .nil
  | @cons pair pair' rest rest' hp hrest ih =>
    obtain ⟨n, w⟩ := pair
    obtain ⟨n', w'⟩ := pair'
    obtain ⟨rfl, hw⟩ := hp
    simp only [Bindings.put]
    split
    · exact .cons ⟨rfl, hv⟩ hrest
    · exact .cons ⟨rfl, hw⟩ ih

theorem ofList {pairs pairs' : List (String × Value)} (h : Renamed ρ pairs pairs') :
    Renamed ρ (.ofList pairs) (.ofList pairs') := by
  have go : ∀ {bindings bindings' : Bindings}, bindings.Renamed ρ bindings' →
      Renamed ρ (pairs.foldl (fun bindings pair => bindings.put pair.1 pair.2) bindings)
        (pairs'.foldl (fun bindings pair => bindings.put pair.1 pair.2) bindings') := by
    induction h with
    | nil => exact id
    | @cons pair pair' rest rest' hp _ ih =>
      intro bindings bindings' hb
      simp only [List.foldl_cons, ← hp.1]
      exact ih (hb.put pair.1 hp.2)
  exact go .nil

theorem zip (params : List String) {args args' : List Value}
    (h : List.Forall₂ (Value.Renamed ρ) args args') :
    Renamed ρ (params.zip args) (params.zip args') := by
  induction params generalizing args args' with
  | nil => exact .nil
  | cons name params ih =>
    cases h with
    | nil => exact .nil
    | cons hv hrest => exact .cons ⟨rfl, hv⟩ (ih hrest)

end Bindings.Renamed

namespace Store

def Issued (s : Store) : Identity → Prop
  | .written n => n < s.written
  | .made n => n < s.made

/-- Stores that are the same up to a renaming, as far as the renaming goes. -/
structure Matches (ρ : Renaming) (s s' : Store) : Prop where
  older : s.OuterOlder
  older' : s'.OuterOlder
  framesUnique : Relator.BiUnique ρ.frames
  identitiesUnique : Relator.BiUnique ρ.identities
  issued : ∀ {i j}, ρ.identities i j → s.Issued i ∧ s'.Issued j
  frames : ∀ {f f'}, ρ.frames f f' → ∃ frame frame', s.frames[f]? = some frame ∧
    s'.frames[f']? = some frame' ∧ Option.Rel ρ.frames frame.outer frame'.outer ∧
    frame.bindings.Renamed ρ frame'.bindings

namespace Matches

variable {ρ : Renaming} {s s' t t' : Store} {f f' : FrameId} {name : String}

theorem empty (older : s.OuterOlder) (older' : s'.OuterOlder) : s.Matches .empty s' where
  older := older
  older' := older'
  framesUnique := ⟨fun _ _ _ h => h.elim, fun _ _ _ h => h.elim⟩
  identitiesUnique := ⟨fun _ _ _ h => h.elim, fun _ _ _ h => h.elim⟩
  issued h := h.elim
  frames h := h.elim

theorem lt (h : s.Matches ρ s') (hf : ρ.frames f f') :
    f < s.frames.size ∧ f' < s'.frames.size := by
  obtain ⟨_, _, left, right, -⟩ := h.frames hf
  exact ⟨lt_of_frames left, lt_of_frames right⟩

theorem bindings (h : s.Matches ρ s') (hf : ρ.frames f f') :
    (s.bindings f).Renamed ρ (s'.bindings f') := by
  obtain ⟨_, _, left, right, -, hb⟩ := h.frames hf
  rwa [bindings_of_frames left, bindings_of_frames right]

private theorem resolves (h : s.Matches ρ s') (hf : ρ.frames f f') {owner : FrameId} {v : Value}
    (found : s.Resolves name f owner v) :
    ∃ owner' v', s'.Resolves name f' owner' v' ∧ ρ.frames owner owner' ∧ v.Renamed ρ v' := by
  induction found generalizing f' with
  | here hframe bound =>
    obtain ⟨_, frame', left, right, -, hb⟩ := h.frames hf
    cases hframe.symm.trans left
    obtain ⟨v', bound', hv⟩ := exists_of_rel_some (bound ▸ hb.get? name)
    exact ⟨f', v', .here right bound', hf, hv⟩
  | outward hframe unbound ho _ ih =>
    obtain ⟨_, frame', left, right, houter, hb⟩ := h.frames hf
    cases hframe.symm.trans left
    obtain ⟨g', ho', hg⟩ := exists_of_rel_some (ho ▸ houter)
    obtain ⟨owner', v', found', howner, hv⟩ := ih hg
    have unbound' := eq_none_of_rel_none (unbound ▸ hb.get? name)
    exact ⟨owner', v', .outward right unbound' ho' found', howner, hv⟩

private theorem unresolved (h : s.Matches ρ s') (hf : ρ.frames f f')
    (missing : s.Unresolved name f) :
    s'.Unresolved name f' := by
  induction missing generalizing f' with
  | outermost hframe unbound ho =>
    obtain ⟨_, frame', left, right, houter, hb⟩ := h.frames hf
    cases hframe.symm.trans left
    exact .outermost right (eq_none_of_rel_none (unbound ▸ hb.get? name))
      (eq_none_of_rel_none (ho ▸ houter))
  | outward hframe unbound ho _ ih =>
    obtain ⟨_, frame', left, right, houter, hb⟩ := h.frames hf
    cases hframe.symm.trans left
    obtain ⟨g', ho', hg⟩ := exists_of_rel_some (ho ▸ houter)
    exact .outward right (eq_none_of_rel_none (unbound ▸ hb.get? name)) ho' (ih hg)

private theorem walk (h : s.Matches ρ s') (hf : ρ.frames f f') {path : List FrameId}
    (hw : s.Walk f path) :
    ∃ path', s'.Walk f' path' ∧ path'.length = path.length := by
  induction hw generalizing f' with
  | last hframe ho =>
    obtain ⟨_, frame', left, right, houter, -⟩ := h.frames hf
    cases hframe.symm.trans left
    exact ⟨[f'], .last right (eq_none_of_rel_none (ho ▸ houter)), rfl⟩
  | outward hframe ho _ ih =>
    obtain ⟨_, frame', left, right, houter, -⟩ := h.frames hf
    cases hframe.symm.trans left
    obtain ⟨g', ho', hg⟩ := exists_of_rel_some (ho ▸ houter)
    obtain ⟨path', hw', hl⟩ := ih hg
    exact ⟨f' :: path', .outward right ho' hw', by rw [List.length_cons, List.length_cons, hl]⟩

private theorem owner? (h : s.Matches ρ s') (hf : ρ.frames f f') (name : String) :
    Option.Rel ρ.frames (s.owner? f name) (s'.owner? f' name) := by
  rcases resolves_or_unresolved h.older (h.lt hf).1 name with ⟨owner, v, found⟩ | missing
  · obtain ⟨owner', v', found', howner, -⟩ := h.resolves hf found
    rw [(found.owner? h.older).1, (found'.owner? h.older').1]
    exact .some howner
  · rw [missing.owner? h.older, (h.unresolved hf missing).owner? h.older']
    exact .none

private theorem lookup? (h : s.Matches ρ s') (hf : ρ.frames f f') (name : String) :
    Option.Rel (Value.Renamed ρ) (s.lookup? f name) (s'.lookup? f' name) := by
  rcases resolves_or_unresolved h.older (h.lt hf).1 name with ⟨owner, v, found⟩ | missing
  · obtain ⟨owner', v', found', -, hv⟩ := h.resolves hf found
    rw [found.lookup? h.older, found'.lookup? h.older']
    exact .some hv
  · rw [missing.lookup? h.older, (h.unresolved hf missing).lookup? h.older']
    exact .none

private theorem describe (h : s.Matches ρ s') (hf : ρ.frames f f') :
    s.describe f = s'.describe f' := by
  obtain ⟨path', hw', hl⟩ := h.walk hf (walk_chain h.older (h.lt hf).1)
  have depth : (s'.chain f').length = (s.chain f).length := by
    rw [(walk_chain h.older' (h.lt hf).2).unique hw', hl]
  have names : (s'.bindings f').length = (s.bindings f).length := (h.bindings hf).length_eq.symm
  simp only [Store.describe, depth, names]

private theorem issue (h : s.Matches ρ s') (hs : t.frames = s.frames) (hs' : t'.frames = s'.frames)
    (later : ∀ {i}, s.Issued i → t.Issued i) (later' : ∀ {j}, s'.Issued j → t'.Issued j)
    {new : Identity → Identity → Prop} (unique : Relator.BiUnique new)
    (fresh : ∀ {i j}, new i j → ¬ s.Issued i ∧ ¬ s'.Issued j)
    (issued : ∀ {i j}, new i j → t.Issued i ∧ t'.Issued j) :
    t.Matches (ρ.withIdentities new) t' where
  older f g ho := h.older f g (by rwa [outer?, ← hs])
  older' f g ho := h.older' f g (by rwa [outer?, ← hs'])
  framesUnique := h.framesUnique
  identitiesUnique := biUnique_or h.identitiesUnique unique h.issued fresh
  issued := by
    rintro i j (known | hnew)
    · exact (h.issued known).imp later later'
    · exact issued hnew
  frames := by
    intro f f' hf
    obtain ⟨frame, frame', left, right, houter, hb⟩ := h.frames hf
    exact ⟨frame, frame', by rw [hs, left], by rw [hs', right], houter,
      hb.mono (ρ.extends_withIdentities new)⟩

private theorem make (h : s.Matches ρ s') (count : Nat) :
    { s with made := s.made + count }.Matches
      (ρ.withIdentities (Identity.InRow .made s.made s'.made count))
      { s' with made := s'.made + count } := by
  have later {s : Store} {i : Identity} (hi : s.Issued i) :
      { s with made := s.made + count }.Issued i := by
    cases i with
    | written n => exact hi
    | made n => exact Nat.lt_add_right count hi
  have stored (s : Store) : { s with made := s.made + count }.frames = s.frames := rfl
  refine h.issue (stored s) (stored s') later later
    (Identity.biUnique_inRow (fun _ _ => Identity.made.inj) _ _ _) ?_ ?_
  · rintro _ _ ⟨k, -, rfl, rfl⟩
    exact ⟨Nat.not_lt.mpr (Nat.le_add_right _ k), Nat.not_lt.mpr (Nat.le_add_right _ k)⟩
  · rintro _ _ ⟨k, hk, rfl, rfl⟩
    exact ⟨Nat.add_lt_add_left hk _, Nat.add_lt_add_left hk _⟩

private theorem write (h : s.Matches ρ s') (count : Nat) :
    { s with written := s.written + count }.Matches
      (ρ.withIdentities (Identity.InRow .written s.written s'.written count))
      { s' with written := s'.written + count } := by
  have later {s : Store} {i : Identity} (hi : s.Issued i) :
      { s with written := s.written + count }.Issued i := by
    cases i with
    | written n => exact Nat.lt_add_right count hi
    | made n => exact hi
  have stored (s : Store) : { s with written := s.written + count }.frames = s.frames := rfl
  refine h.issue (stored s) (stored s') later later
    (Identity.biUnique_inRow (fun _ _ => Identity.written.inj) _ _ _) ?_ ?_
  · rintro _ _ ⟨k, -, rfl, rfl⟩
    exact ⟨Nat.not_lt.mpr (Nat.le_add_right _ k), Nat.not_lt.mpr (Nat.le_add_right _ k)⟩
  · rintro _ _ ⟨k, hk, rfl, rfl⟩
    exact ⟨Nat.add_lt_add_left hk _, Nat.add_lt_add_left hk _⟩

private theorem define (h : s.Matches ρ s') (hf : ρ.frames f f') (name : String) {v v' : Value}
    (hv : v.Renamed ρ v') : (s.define f name v).Matches ρ (s'.define f' name v') where
  older g g' ho := h.older g g' (by rwa [outer?_define] at ho)
  older' g g' ho := h.older' g g' (by rwa [outer?_define] at ho)
  framesUnique := h.framesUnique
  identitiesUnique := h.identitiesUnique
  issued := h.issued
  frames := by
    intro g g' hg
    obtain ⟨frame, frame', left, right, houter, hb⟩ := h.frames hg
    by_cases he : g = f
    · subst he
      obtain rfl := h.framesUnique.2 hf hg
      exact ⟨_, _, frames_define_self left name v, frames_define_self right name v', houter,
        hb.put name hv⟩
    · have he' : g' ≠ f' := fun hg' => he (h.framesUnique.1 hg (hg' ▸ hf))
      exact ⟨frame, frame', by rw [frames_define_of_ne he, left],
        by rw [frames_define_of_ne he', right], houter, hb⟩

private theorem addFrame (h : s.Matches ρ s') {bindings bindings' : Bindings}
    {outer outer' : Option FrameId}
    (ho : Option.Rel ρ.frames outer outer') (hb : bindings.Renamed ρ bindings') :
    (s.addFrame bindings outer).2.Matches (ρ.withFrame s.frames.size s'.frames.size)
      (s'.addFrame bindings' outer').2 := by
  have inner : ∀ g, outer = some g → g < s.frames.size := by
    rintro g rfl
    obtain ⟨g', -, hg⟩ := exists_of_rel_some ho
    exact (h.lt hg).1
  have inner' : ∀ g', outer' = some g' → g' < s'.frames.size := by
    rintro g' rfl
    cases ho with
    | some hg => exact (h.lt hg).2
  have wider := ρ.extends_withFrame s.frames.size s'.frames.size
  have outerWider : ∀ {o o' : Option FrameId}, Option.Rel ρ.frames o o' →
      Option.Rel (ρ.withFrame s.frames.size s'.frames.size).frames o o' := by
    intro o o' hr
    cases hr with
    | none => exact .none
    | some hg => exact .some (wider.frames hg)
  refine ⟨OuterOlder.addFrame h.older inner, OuterOlder.addFrame h.older' inner', ?_, h.identitiesUnique, h.issued, ?_⟩
  · refine biUnique_or (P := (· < s.frames.size)) (Q := (· < s'.frames.size)) h.framesUnique
      ⟨?_, ?_⟩ h.lt ?_
    · rintro g g' _ ⟨hg, -⟩ ⟨hg', -⟩
      exact hg.trans hg'.symm
    · rintro g _ _ ⟨-, hg⟩ ⟨-, hg'⟩
      exact hg.trans hg'.symm
    · rintro _ _ ⟨rfl, rfl⟩
      exact ⟨Nat.lt_irrefl _, Nat.lt_irrefl _⟩
  · rintro g g' (hg | ⟨rfl, rfl⟩)
    · obtain ⟨frame, frame', left, right, houter, hfb⟩ := h.frames hg
      refine ⟨frame, frame', ?_, ?_, outerWider houter, hfb.mono wider⟩
      · rw [frames_addFrame_of_lt (lt_of_frames left), left]
      · rw [frames_addFrame_of_lt (lt_of_frames right), right]
    · exact ⟨_, _, frames_addFrame_new s bindings outer, frames_addFrame_new s' bindings' outer',
        outerWider ho, hb.mono wider⟩

theorem elsewhere (h : s.Matches ρ s') (older : t.OuterOlder)
    (later : ∀ {i}, s.Issued i → t.Issued i)
    (untouched : ∀ {f f'}, ρ.frames f f' → t.frames[f]? = s.frames[f]?) : t.Matches ρ s' where
  older := older
  older' := h.older'
  framesUnique := h.framesUnique
  identitiesUnique := h.identitiesUnique
  issued hi := (h.issued hi).imp_left later
  frames hf := by
    obtain ⟨frame, frame', left, rest⟩ := h.frames hf
    exact ⟨frame, frame', (untouched hf).trans left, rest⟩

end Matches

end Store

mutual

def Datum.lists : Datum → Nat
  | .number _ => 0
  | .symbol _ => 0
  | .list items => listsEach items + 1

def Datum.listsEach : List Datum → Nat
  | [] => 0
  | d :: rest => lists d + listsEach rest

end

mutual

theorem Value.ofDatum_next (n : Nat) (d : Datum) : (ofDatum n d).2 = n + d.lists := by
  cases d with
  | number _ => rfl
  | symbol _ => rfl
  | list items =>
    simp only [ofDatum, Value.ofData_next (n + 1) items, Datum.lists]
    omega

theorem Value.ofData_next (n : Nat) (data : List Datum) :
    (ofData n data).2 = n + Datum.listsEach data := by
  cases data with
  | nil => rfl
  | cons d rest =>
    simp only [ofData, Value.ofDatum_next n d, Value.ofData_next _ rest, Datum.listsEach]
    omega

end

mutual

/-- A datum numbered from two numbers on, if these rows of numbers are paired. -/
theorem Value.renamed_ofDatum {ρ : Renaming} {n n' : Nat} {d : Datum}
    (h : ∀ k, k < d.lists → ρ.identities (.written (n + k)) (.written (n' + k))) :
    (ofDatum n d).1.Renamed ρ (ofDatum n' d).1 := by
  cases d with
  | number m => exact .number m
  | symbol name => exact .symbol name
  | list items =>
    refine .of_items (h 0 (Nat.succ_pos _)) (Value.renamed_ofData fun k hk => ?_)
    simpa only [Nat.add_assoc, Nat.add_comm 1 k] using h (k + 1) (Nat.succ_lt_succ hk)

private theorem Value.renamed_ofData {ρ : Renaming} {n n' : Nat} {data : List Datum}
    (h : ∀ k, k < Datum.listsEach data →
      ρ.identities (.written (n + k)) (.written (n' + k))) :
    List.Forall₂ (Renamed ρ) (ofData n data).1 (ofData n' data).1 := by
  cases data with
  | nil => exact .nil
  | cons d rest =>
    have first : (ofDatum n d).1.Renamed ρ (ofDatum n' d).1 :=
      Value.renamed_ofDatum fun k hk => h k (Nat.lt_add_right _ hk)
    have others : List.Forall₂ (Renamed ρ) (ofData (n + d.lists) rest).1
        (ofData (n' + d.lists) rest).1 := by
      refine Value.renamed_ofData fun k hk => ?_
      simpa only [Nat.add_assoc] using h (d.lists + k) (Nat.add_lt_add_left hk _)
    simp only [ofData, Value.ofDatum_next]
    exact .cons first others

end

/-- Two stores that match by a renaming. -/
structure Paired where
  via : Renaming
  left : Store
  right : Store
  agree : left.Matches via right

/-- The second pair comes after the first: what was paired stays so, and in the first store only paired
frames are changed and only new frames are paired. -/
structure Paired.Later (w w' : Paired) : Prop where
  wider : w'.via.Extends w.via
  size : w.left.frames.size ≤ w'.left.frames.size
  issued : ∀ {i}, w.left.Issued i → w'.left.Issued i
  fresh : ∀ {f g}, w'.via.frames f g → w.via.frames f g ∨ w.left.frames.size ≤ f
  untouched : ∀ {f}, f < w.left.frames.size → (∀ g, ¬ w.via.frames f g) →
    w'.left.frames[f]? = w.left.frames[f]?

namespace Paired.Later

variable {u v w : Paired}

theorem refl (w : Paired) : w.Later w :=
  ⟨.refl _, Nat.le_refl _, id, .inl, fun _ _ => rfl⟩

theorem trans (h : u.Later v) (h' : v.Later w) : u.Later w where
  wider := h'.wider.trans h.wider
  size := Nat.le_trans h.size h'.size
  issued hi := h'.issued (h.issued hi)
  fresh hf := by
    rcases h'.fresh hf with hf | hf
    · exact h.fresh hf
    · exact .inr (Nat.le_trans h.size hf)
  untouched := by
    intro f hf unpaired
    have later : ∀ g, ¬ v.via.frames f g := by
      intro g hg
      rcases h.fresh hg with hg | hlt
      · exact unpaired g hg
      · exact Nat.not_lt.mpr hlt hf
    rw [h'.untouched (Nat.lt_of_lt_of_le hf h.size) later, h.untouched hf unpaired]

end Paired.Later

namespace Paired

variable (w : Paired)

def made (count : Nat) : Paired :=
  ⟨_, _, _, w.agree.make count⟩

def read (count : Nat) : Paired :=
  ⟨_, _, _, w.agree.write count⟩

theorem later_made (count : Nat) : w.Later (w.made count) where
  wider := w.via.extends_withIdentities _
  size := Nat.le_refl _
  issued := by
    intro i hi
    cases i with
    | written n => exact hi
    | made n => exact Nat.lt_add_right count hi
  fresh := .inl
  untouched _ _ := rfl

private theorem later_read (count : Nat) : w.Later (w.read count) where
  wider := w.via.extends_withIdentities _
  size := Nat.le_refl _
  issued := by
    intro i hi
    cases i with
    | written n => exact Nat.lt_add_right count hi
    | made n => exact hi
  fresh := .inl
  untouched _ _ := rfl

variable {f f' : FrameId} {v v' : Value}

def defined (hf : w.via.frames f f') (name : String) (hv : v.Renamed w.via v') : Paired :=
  ⟨_, _, _, w.agree.define hf name hv⟩

private theorem later_defined (hf : w.via.frames f f') (name : String)
    (hv : v.Renamed w.via v') : w.Later (w.defined hf name hv) where
  wider := .refl _
  size := Nat.le_of_eq (w.left.size_define f name v).symm
  issued := by
    intro i hi
    cases i <;> exact hi
  fresh := .inl
  untouched := by
    intro g _ unpaired
    have hne : g ≠ f := by
      rintro rfl
      exact unpaired f' hf
    exact Store.frames_define_of_ne hne name v

variable {bindings bindings' : Bindings} {outer outer' : Option FrameId}

def entered (ho : Option.Rel w.via.frames outer outer')
    (hb : bindings.Renamed w.via bindings') : Paired :=
  ⟨_, _, _, w.agree.addFrame ho hb⟩

theorem later_entered (ho : Option.Rel w.via.frames outer outer')
    (hb : bindings.Renamed w.via bindings') : w.Later (w.entered ho hb) where
  wider := w.via.extends_withFrame _ _
  size := by
    change _ ≤ (w.left.addFrame bindings outer).2.frames.size
    rw [Store.size_addFrame]
    exact Nat.le_succ _
  issued := by
    intro i hi
    cases i <;> exact hi
  fresh := by
    rintro g g' (hg | ⟨rfl, -⟩)
    · exact .inl hg
    · exact .inr (Nat.le_refl _)
  untouched hf _ := Store.frames_addFrame_of_lt hf bindings outer

end Paired

def Correspondence.renamed : Correspondence where
  World := Paired
  later := Paired.Later
  machines w m m' := m.store = w.left ∧ m'.store = w.right
  values w := Value.Renamed w.via
  frames w := w.via.frames
  data _ := True
  excused _ := False
  later_refl := Paired.Later.refl
  later_trans := Paired.Later.trans
  values_later h hv := hv.mono h.wider
  frames_later h hf := h.wider.frames hf
  alike := Value.Renamed.alike
  same := by
    intro w a a' b b' ha hb
    exact ha.same_eq w.agree.identitiesUnique hb
  unit _ := .unit
  bool _ b := .bool b
  number _ _ _ := .number _
  lookup := by
    rintro w m m' f f' name ⟨hm, hm'⟩ hf -
    rw [hm, hm']
    exact w.agree.lookup? hf name
  owner := by
    rintro w m m' f f' name ⟨hm, hm'⟩ hf -
    rw [hm, hm']
    exact w.agree.owner? hf name
  describe := by
    rintro w m m' f f' ⟨hm, hm'⟩ hf
    rw [hm, hm']
    exact w.agree.describe hf
  define := by
    rintro w m m' f f' name v v' ⟨hm, hm'⟩ hf hv -
    exact ⟨w.defined hf name hv, w.later_defined hf name hv, by rw [hm]; rfl, by rw [hm']; rfl⟩
  newFrame := by
    rintro w m m' i j params body body' f f' args args' ⟨hm, hm'⟩ hp hargs -
    cases hp with
    | procedure _ _ hf =>
      have ho : Option.Rel w.via.frames (some f) (some f') := .some hf
      have hb := (Bindings.Renamed.zip params hargs).ofList
      refine ⟨w.entered ho hb, w.later_entered ho hb, .inr ⟨by rw [hm], by rw [hm']⟩, ?_, ?_⟩
      · rw [hm]; rfl
      · rw [hm']; rfl
  newList := by
    rintro w m m' items items' ⟨hm, hm'⟩ hitems
    refine ⟨w.made 1, w.later_made 1, ⟨by rw [hm]; rfl, by rw [hm']; rfl⟩, .of_items (.inr ?_) ?_⟩
    · exact ⟨0, Nat.one_pos, by rw [hm]; rfl, by rw [hm']; rfl⟩
    · exact hitems.imp fun _ _ hv => hv.mono (w.later_made 1).wider
  newProcedure := by
    rintro w m m' params body body' f f' ⟨hm, hm'⟩ hbody hf -
    have wider := (w.later_made 1).wider
    refine ⟨w.made 1, w.later_made 1, ⟨by rw [hm]; rfl, by rw [hm']; rfl⟩, .procedure (.inr ?_)
      (hbody.mono wider) (wider.frames hf)⟩
    exact ⟨0, Nat.one_pos, by rw [hm]; rfl, by rw [hm']; rfl⟩
  load := by
    rintro w m m' d ⟨hm, hm'⟩ -
    refine ⟨w.read d.lists, w.later_read d.lists, ⟨?_, ?_⟩, Value.renamed_ofDatum fun k hk => ?_⟩
    · rw [Value.ofDatum_next, hm]; rfl
    · rw [Value.ofDatum_next, hm']; rfl
    · exact .inr ⟨k, hk, by rw [hm], by rw [hm']⟩
  report := by
    rintro w m m' severity message ⟨hm, hm'⟩
    exact ⟨w, .refl w, hm, hm'⟩
  emit := by
    rintro w m m' text ⟨hm, hm'⟩
    exact ⟨w, .refl w, hm, hm'⟩

end SmallScheme
