import SmallScheme.Proofs.Correspondence.Evaluation

/-!
Results without a bound on nesting. The text of a value in a style is given by its parts; with enough room
it is what writing gives, and with less room writing gives it or runs out. The same holds of evaluation:
more depth changes no result but that of running out.
-/

set_option autoImplicit false
set_option relaxedAutoImplicit false

namespace SmallScheme

namespace Value

mutual

/-- How deep lists are nested in a value. Procedures are not written part by part. -/
def nesting : Value → Nat
  | .list _ items => nestings items + 1
  | _ => 0

def nestings : List Value → Nat
  | [] => 0
  | v :: rest => max (nesting v) (nestings rest)

end

mutual

/-- The text of a value in the given style; an integer with too many digits has none. -/
def spelling (style : Style) : Value → Except Failure String
  | .unit => .ok style.unit
  | .bool b => .ok (style.boolean b)
  | .number n => n.text
  | .symbol name => .ok (style.symbol name)
  | .list _ items => do
      let parts ← spellings style items
      return style.opening ++ style.separator.intercalate parts ++ style.closing
  | .procedure _ params _ _ => .ok (style.procedure (" ".intercalate params))
  | .primitive _ p => .ok (style.primitive p.name)

def spellings (style : Style) : List Value → Except Failure (List String)
  | [] => .ok []
  | v :: rest => do
      let text ← spelling style v
      let texts ← spellings style rest
      return text :: texts

end

mutual

/-- Room above the nesting is enough. -/
theorem write_eq_spelling (style : Style) {room : Nat} (v : Value) (h : v.nesting < room) :
    v.write style room = v.spelling style := by
  cases room with
  | zero => exact absurd h (Nat.not_lt_zero _)
  | succ room =>
    cases v with
    | list i items =>
      have inner : nestings items < room := by simpa [nesting] using h
      simp only [write, spelling, mapM_write_eq_spellings style items inner]
    | _ => rfl

private theorem mapM_write_eq_spellings (style : Style) {room : Nat} (items : List Value)
    (h : nestings items < room) : items.mapM (write style room) = spellings style items := by
  cases items with
  | nil => rfl
  | cons v rest =>
    have both : v.nesting < room ∧ nestings rest < room := by
      simpa [nestings, Nat.max_lt] using h
    rw [List.mapM_cons, write_eq_spelling style v both.1, mapM_write_eq_spellings style rest both.2]
    rfl

end

end Value

def Correspondence.deeper : Correspondence :=
  .ofMachines Eq (· = .depthExhausted) (fun h => h ▸ rfl) (fun _ h => h ▸ rfl) (fun _ h => h ▸ rfl)
    (fun _ h => h ▸ rfl)

theorem Correspondence.deeper_fits {room room' : Nat} (h : room ≤ room') : deeper.Fits room room' :=
  ⟨h, .inr rfl⟩

private theorem Correspondence.Settles.eq_of_deeper {α : Type} {x y : Except Failure α}
    (h : Correspondence.deeper.Settles Eq x y) (finished : x ≠ .error .depthExhausted) : x = y := by
  cases h with
  | ok he => rw [he]
  | error failure => rfl
  | excused he => exact absurd (congrArg Except.error he) finished

theorem Correspondence.Agrees.eq_of_deeper {α : Type} {r r' : Except Failure α × Machine}
    (h : Correspondence.deeper.Agrees () (fun _ => Eq) r r')
    (finished : r.1 ≠ .error .depthExhausted) : r = r' := by
  cases h with
  | ok _ hm he => exact Prod.ext (congrArg Except.ok he) hm
  | error _ hm => exact Prod.ext rfl hm
  | excused he => exact absurd (congrArg Except.error he) finished

theorem Value.write_eq_spelling_of_finished {style : Style} {room : Nat} {v : Value}
    (finished : v.write style room ≠ .error .depthExhausted) :
    v.write style room = v.spelling style := by
  have settles := Correspondence.write_settles (C := .deeper) (w := ()) style (rfl : v = v)
    (Correspondence.deeper_fits (Nat.le_max_left room (v.nesting + 1)))
  rw [settles.eq_of_deeper finished]
  exact write_eq_spelling style v (Nat.lt_of_lt_of_le (Nat.lt_succ_self _) (Nat.le_max_right _ _))

theorem eval_eq_of_le {depth depth' : Nat} (h : depth ≤ depth') {e : Value} {frame : FrameId}
    {m : Machine} (finished : (eval depth e frame m).1 ≠ .error .depthExhausted) :
    eval depth e frame m = eval depth' e frame m :=
  Correspondence.Agrees.eq_of_deeper
    (Correspondence.eval_agrees (Correspondence.deeper_fits h) rfl rfl rfl) finished

theorem call_eq_of_le {depth depth' : Nat} (h : depth ≤ depth') {f : Value} {args : List Value}
    {m : Machine} (finished : (call depth f args m).1 ≠ .error .depthExhausted) :
    call depth f args m = call depth' f args m :=
  Correspondence.Agrees.eq_of_deeper
    (Correspondence.call_agrees (Correspondence.deeper_fits h) rfl rfl
      (List.forall₂_same.mpr fun _ _ => rfl)) finished

/-- What a primitive gives does not depend on room that it does not run out of. -/
theorem Primitive.run_eq_of_le {room room' : Nat} (h : room ≤ room')
    {call : Value → List Value → Action Value} {p : Primitive} {args : List Value} {m : Machine}
    (finished : (p.run room call args m).1 ≠ .error .depthExhausted) :
    p.run room call args m = p.run room' call args m := by
  have same : Correspondence.deeper.CallsAgree call call := by
    rintro w n _ f _ as as' rfl rfl hargs
    obtain rfl : as = as' := List.forall₂_eq_eq_eq ▸ (hargs : List.Forall₂ Eq as as')
    rcases hr : call f as n with ⟨_ | v, o⟩
    · exact .error (Correspondence.deeper.later_refl w) rfl
    · exact .ok (Correspondence.deeper.later_refl w) rfl rfl
  refine Correspondence.Agrees.eq_of_deeper ?_ finished
  exact Correspondence.run_agrees p rfl (Correspondence.deeper_fits h) same
    (List.forall₂_same.mpr fun _ _ => rfl)

end SmallScheme
