import SmallScheme.Store

/-!
Where names are found. If every outer frame is older than the frames inside it, then the chain of a
frame runs through frames that exist up to one without an outer frame, and looking a name up along
the chain is what the rules of scope say: the innermost frame that binds the name counts.
-/

set_option autoImplicit false
set_option relaxedAutoImplicit false

namespace SmallScheme

namespace Bindings

theorem mem_of_get? {name : String} {value : Value} {bindings : Bindings}
    (h : bindings.get? name = some value) : (name, value) ∈ bindings := by
  induction bindings with
  | nil => simp [get?] at h
  | cons pair rest ih =>
    obtain ⟨n, v⟩ := pair
    simp only [get?] at h
    split at h
    · rename_i hn
      cases h
      simp [hn]
    · exact List.mem_cons_of_mem _ (ih h)

private theorem mem_put {name : String} {value : Value} {bindings : Bindings}
    {pair : String × Value}
    (h : pair ∈ bindings.put name value) : pair ∈ bindings ∨ pair = (name, value) := by
  induction bindings with
  | nil => exact .inr (by simpa [put] using h)
  | cons first rest ih =>
    obtain ⟨n, v⟩ := first
    simp only [put] at h
    split at h
    · rename_i hn
      rcases List.mem_cons.mp h with rfl | h
      · exact .inr (by rw [hn])
      · exact .inl (List.mem_cons_of_mem _ h)
    · rcases List.mem_cons.mp h with rfl | h
      · exact .inl List.mem_cons_self
      · exact (ih h).imp_left (List.mem_cons_of_mem _)

theorem mem_ofList {pairs : List (String × Value)} {pair : String × Value}
    (h : pair ∈ ofList pairs) : pair ∈ pairs := by
  have go : ∀ (pairs : List (String × Value)) (bindings : Bindings),
      pair ∈ pairs.foldl (fun bindings pair => bindings.put pair.1 pair.2) bindings →
      pair ∈ bindings ∨ pair ∈ pairs := by
    intro pairs
    induction pairs with
    | nil => exact fun bindings h => .inl h
    | cons first pairs ih =>
      intro bindings h
      rcases ih _ h with h | h
      · rcases mem_put h with h | rfl
        · exact .inl h
        · exact .inr List.mem_cons_self
      · exact .inr (List.mem_cons_of_mem _ h)
  exact (go pairs [] h).resolve_left (by simp)

end Bindings

namespace Store

variable {s : Store} {f g : FrameId} {name : String}

private theorem frames_of_lt (h : f < s.frames.size) : ∃ frame, s.frames[f]? = some frame :=
  ⟨s.frames[f], Array.getElem?_eq_getElem h⟩

theorem lt_of_frames {frame : Frame} (h : s.frames[f]? = some frame) : f < s.frames.size :=
  (Array.getElem?_eq_some_iff.mp h).1

theorem bindings_of_frames {frame : Frame} (h : s.frames[f]? = some frame) :
    s.bindings f = frame.bindings := by
  simp [bindings, h]

theorem outer?_of_frames {frame : Frame} (h : s.frames[f]? = some frame) :
    s.outer? f = frame.outer := by
  simp [outer?, h]

theorem size_define (s : Store) (f : FrameId) (name : String) (value : Value) :
    (s.define f name value).frames.size = s.frames.size := by
  simp [define]

theorem outer?_define (s : Store) (f g : FrameId) (name : String) (value : Value) :
    (s.define f name value).outer? g = s.outer? g := by
  simp only [outer?, define, Array.getElem?_modify]
  split
  · cases s.frames[g]? <;> rfl
  · rfl

theorem frames_define_self {frame : Frame} (h : s.frames[f]? = some frame) (name : String)
    (value : Value) :
    (s.define f name value).frames[f]? =
      some { frame with bindings := frame.bindings.put name value } := by
  simp [define, Array.getElem?_modify, h]

theorem frames_define_of_ne (h : g ≠ f) (name : String) (value : Value) :
    (s.define f name value).frames[g]? = s.frames[g]? := by
  simp [define, Array.getElem?_modify, h.symm]

theorem bindings_define_self (h : f < s.frames.size) (name : String) (value : Value) :
    (s.define f name value).bindings f = (s.bindings f).put name value := by
  obtain ⟨frame, hframe⟩ := frames_of_lt h
  simp only [bindings, frames_define_self hframe, hframe]

theorem bindings_define_of_ne (h : g ≠ f) (name : String) (value : Value) :
    (s.define f name value).bindings g = s.bindings g := by
  simp only [bindings, frames_define_of_ne h]

theorem mem_bindings_define {value : Value} {pair : String × Value}
    (h : pair ∈ (s.define f name value).bindings g) :
    pair ∈ s.bindings g ∨ pair = (name, value) := by
  simp only [bindings, define, Array.getElem?_modify] at h ⊢
  split at h
  · rename_i hfound
    split at hfound
    · obtain ⟨frame, hframe, rfl⟩ := Option.map_eq_some_iff.mp hfound
      rw [hframe]
      exact Bindings.mem_put h
    · rw [hfound]
      exact .inl h
  · simp at h

theorem size_addFrame (s : Store) (bindings : Bindings) (outer : Option FrameId) :
    (s.addFrame bindings outer).2.frames.size = s.frames.size + 1 := by
  simp [addFrame]

theorem frames_addFrame_of_lt (h : f < s.frames.size) (bindings : Bindings)
    (outer : Option FrameId) : (s.addFrame bindings outer).2.frames[f]? = s.frames[f]? := by
  simp [addFrame, Array.getElem?_push, Nat.ne_of_lt h]

theorem bindings_addFrame_of_lt (h : f < s.frames.size) (bindings : Bindings)
    (outer : Option FrameId) : (s.addFrame bindings outer).2.bindings f = s.bindings f := by
  simp only [Store.bindings, frames_addFrame_of_lt h]

theorem frames_addFrame_new (s : Store) (bindings : Bindings) (outer : Option FrameId) :
    (s.addFrame bindings outer).2.frames[s.frames.size]? = some ⟨bindings, outer⟩ := by
  simp [addFrame]

private theorem frames_addFrame_cases {bindings : Bindings} {outer : Option FrameId} {frame : Frame}
    (h : (s.addFrame bindings outer).2.frames[f]? = some frame) :
    s.frames[f]? = some frame ∨ (f = s.frames.size ∧ frame = ⟨bindings, outer⟩) := by
  by_cases hf : f < s.frames.size
  · exact .inl (by rwa [frames_addFrame_of_lt hf] at h)
  · have hlt := lt_of_frames h
    rw [size_addFrame] at hlt
    obtain rfl : f = s.frames.size := Nat.le_antisymm (Nat.le_of_lt_succ hlt) (Nat.le_of_not_lt hf)
    rw [frames_addFrame_new] at h
    exact .inr ⟨rfl, (Option.some.inj h).symm⟩

theorem mem_bindings_addFrame {bindings : Bindings} {outer : Option FrameId} {pair : String × Value}
    (h : pair ∈ (s.addFrame bindings outer).2.bindings f) :
    pair ∈ s.bindings f ∨ pair ∈ bindings := by
  cases found : (s.addFrame bindings outer).2.frames[f]? with
  | none => simp [Store.bindings, found] at h
  | some frame =>
    rw [bindings_of_frames found] at h
    rcases frames_addFrame_cases found with old | ⟨-, rfl⟩
    · exact .inl (by rwa [bindings_of_frames old])
    · exact .inr h

theorem outer?_addFrame_cases {bindings : Bindings} {outer : Option FrameId}
    (h : (s.addFrame bindings outer).2.outer? f = some g) :
    s.outer? f = some g ∨ (f = s.frames.size ∧ outer = some g) := by
  obtain ⟨frame, hframe, ho⟩ := Option.bind_eq_some_iff.mp h
  rcases frames_addFrame_cases hframe with hframe | ⟨hf, rfl⟩
  · exact .inl (by rw [outer?_of_frames hframe, ho])
  · exact .inr ⟨hf, ho⟩

/-- Every outer frame was made before the frame inside it. -/
def OuterOlder (s : Store) : Prop :=
  ∀ f g, s.outer? f = some g → g < f

theorem OuterOlder.addFrame (older : s.OuterOlder) {bindings : Bindings} {outer : Option FrameId}
    (houter : ∀ g, outer = some g → g < s.frames.size) :
    (s.addFrame bindings outer).2.OuterOlder := by
  intro g g' ho
  rcases outer?_addFrame_cases ho with ho | ⟨rfl, outermost⟩
  · exact older g g' ho
  · exact houter g' outermost

/-- From a frame outwards through frames that exist, to one without an outer frame. -/
inductive Walk (s : Store) : FrameId → List FrameId → Prop
  | last {f : FrameId} {frame : Frame} : s.frames[f]? = some frame → frame.outer = none →
      Walk s f [f]
  | outward {f g : FrameId} {frame : Frame} {rest : List FrameId} : s.frames[f]? = some frame →
      frame.outer = some g → Walk s g rest → Walk s f (f :: rest)

/-- The rule of scope: the name has its value in the innermost frame that binds it. -/
inductive Resolves (s : Store) (name : String) : FrameId → FrameId → Value → Prop
  | here {f : FrameId} {frame : Frame} {value : Value} : s.frames[f]? = some frame →
      frame.bindings.get? name = some value → Resolves s name f f value
  | outward {f g owner : FrameId} {frame : Frame} {value : Value} : s.frames[f]? = some frame →
      frame.bindings.get? name = none → frame.outer = some g → Resolves s name g owner value →
      Resolves s name f owner value

/-- No frame from the given one outwards binds the name. -/
inductive Unresolved (s : Store) (name : String) : FrameId → Prop
  | outermost {f : FrameId} {frame : Frame} : s.frames[f]? = some frame →
      frame.bindings.get? name = none → frame.outer = none → Unresolved s name f
  | outward {f g : FrameId} {frame : Frame} : s.frames[f]? = some frame →
      frame.bindings.get? name = none → frame.outer = some g → Unresolved s name g →
      Unresolved s name f

private theorem chainWithin_eq (older : s.OuterOlder) {n k : Nat} (hn : f < n) (hk : f < k) :
    s.chainWithin n f = s.chainWithin k f := by
  induction n generalizing f k with
  | zero => exact absurd hn (Nat.not_lt_zero f)
  | succ n ih =>
    cases k with
    | zero => exact absurd hk (Nat.not_lt_zero f)
    | succ k =>
      simp only [chainWithin]
      cases ho : s.outer? f with
      | none => rfl
      | some g =>
        have hg := older f g ho
        have before (n : Nat) (hn : f < n + 1) : g < n := Nat.lt_of_lt_of_le hg (Nat.le_of_lt_succ hn)
        exact congrArg (f :: ·) (ih (before n hn) (before k hk))

theorem chain_of_outermost (h : s.outer? f = none) : s.chain f = [f] := by
  simp [chain, chainWithin, h]

theorem chain_of_outer (older : s.OuterOlder) (h : s.outer? f = some g) :
    s.chain f = f :: s.chain g := by
  have hg := older f g h
  have inner : s.chainWithin f g = s.chain g := chainWithin_eq older hg (Nat.lt_succ_self g)
  rw [← inner]
  simp only [chain, chainWithin, h]

theorem walk_chain (older : s.OuterOlder) (h : f < s.frames.size) : s.Walk f (s.chain f) := by
  induction f using Nat.strongRecOn with
  | _ f ih =>
    obtain ⟨frame, hframe⟩ := frames_of_lt h
    cases ho : frame.outer with
    | none =>
      rw [chain_of_outermost (by rw [outer?_of_frames hframe, ho])]
      exact .last hframe ho
    | some g =>
      have houter : s.outer? f = some g := by rw [outer?_of_frames hframe, ho]
      have hg := older f g houter
      rw [chain_of_outer older houter]
      exact .outward hframe ho (ih g hg (Nat.lt_trans hg h))

/-- There is one walk from a frame. -/
theorem Walk.unique {path path' : List FrameId} (h : s.Walk f path) (h' : s.Walk f path') :
    path = path' := by
  induction h generalizing path' with
  | last hframe ho =>
    cases h' with
    | last => rfl
    | outward hframe' ho' _ =>
      cases hframe.symm.trans hframe'
      simp [ho] at ho'
  | outward hframe ho _ ih =>
    cases h' with
    | last hframe' ho' =>
      cases hframe.symm.trans hframe'
      simp [ho] at ho'
    | outward hframe' ho' rest =>
      cases hframe.symm.trans hframe'
      cases ho.symm.trans ho'
      rw [ih rest]

theorem chain_congr {s t : Store} (same : ∀ f, s.outer? f = t.outer? f) (f : FrameId) :
    s.chain f = t.chain f := by
  have within (n : Nat) : ∀ f, s.chainWithin n f = t.chainWithin n f := by
    induction n with
    | zero => exact fun _ => rfl
    | succ n ih =>
      intro f
      simp only [chainWithin, same, ih]
  exact within (f + 1) f

theorem mem_of_lookup? {v : Value} (h : s.lookup? f name = some v) :
    ∃ owner ∈ s.chain f, (name, v) ∈ s.bindings owner := by
  obtain ⟨owner, owned, found⟩ := Option.bind_eq_some_iff.mp h
  exact ⟨owner, List.mem_of_find?_eq_some owned, Bindings.mem_of_get? found⟩

theorem owner?_here {frame : Frame} {value : Value} (hframe : s.frames[f]? = some frame)
    (h : frame.bindings.get? name = some value) : s.owner? f name = some f := by
  have bound : s.binds name f = true := by simp [binds, bindings_of_frames hframe, h]
  simp [owner?, chain, chainWithin, bound]

private theorem owner?_outermost {frame : Frame} (hframe : s.frames[f]? = some frame)
    (h : frame.bindings.get? name = none) (ho : frame.outer = none) : s.owner? f name = none := by
  have unbound : s.binds name f = false := by simp [binds, bindings_of_frames hframe, h]
  rw [owner?, chain_of_outermost (by rw [outer?_of_frames hframe, ho])]
  simp [unbound]

private theorem owner?_outward (older : s.OuterOlder) {frame : Frame}
    (hframe : s.frames[f]? = some frame)
    (h : frame.bindings.get? name = none) (ho : frame.outer = some g) :
    s.owner? f name = s.owner? g name := by
  have unbound : s.binds name f = false := by simp [binds, bindings_of_frames hframe, h]
  rw [owner?, chain_of_outer older (by rw [outer?_of_frames hframe, ho])]
  simp [owner?, unbound]

/-- A name is found where the rule of scope finds it. -/
theorem Resolves.owner? (older : s.OuterOlder) {owner : FrameId} {value : Value}
    (h : s.Resolves name f owner value) :
    s.owner? f name = some owner ∧ (s.bindings owner).get? name = some value := by
  induction h with
  | here hframe h => exact ⟨owner?_here hframe h, by rw [bindings_of_frames hframe, h]⟩
  | outward hframe h ho _ ih => rw [owner?_outward older hframe h ho]; exact ih

theorem Resolves.lookup? (older : s.OuterOlder) {owner : FrameId} {value : Value}
    (h : s.Resolves name f owner value) : s.lookup? f name = some value := by
  obtain ⟨found, bound⟩ := h.owner? older
  simp [Store.lookup?, found, bound]

theorem Unresolved.owner? (older : s.OuterOlder) (h : s.Unresolved name f) :
    s.owner? f name = none := by
  induction h with
  | outermost hframe h ho => exact owner?_outermost hframe h ho
  | outward hframe h ho _ ih => rw [owner?_outward older hframe h ho]; exact ih

theorem Unresolved.lookup? (older : s.OuterOlder) (h : s.Unresolved name f) :
    s.lookup? f name = none := by
  simp [Store.lookup?, h.owner? older]

/-- The search for a name ends, and it meets frames that exist only. -/
theorem resolves_or_unresolved (older : s.OuterOlder) (h : f < s.frames.size) (name : String) :
    (∃ owner value, s.Resolves name f owner value) ∨ s.Unresolved name f := by
  induction f using Nat.strongRecOn with
  | _ f ih =>
    obtain ⟨frame, hframe⟩ := frames_of_lt h
    cases hb : frame.bindings.get? name with
    | some value => exact .inl ⟨f, value, .here hframe hb⟩
    | none =>
      cases ho : frame.outer with
      | none => exact .inr (.outermost hframe hb ho)
      | some g =>
        have hg := older f g (by rw [outer?_of_frames hframe, ho])
        rcases ih g hg (Nat.lt_trans hg h) with ⟨owner, value, found⟩ | missing
        · exact .inl ⟨owner, value, .outward hframe hb ho found⟩
        · exact .inr (.outward hframe hb ho missing)

theorem Resolves.lt {owner : FrameId} {value : Value} (h : s.Resolves name f owner value) :
    owner < s.frames.size := by
  induction h with
  | here hframe _ => exact lt_of_frames hframe
  | outward _ _ _ _ ih => exact ih

end Store

end SmallScheme
