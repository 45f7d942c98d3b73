import SmallScheme.Proofs.Renaming
import SmallScheme.Proofs.WellFormed

/-!
Places in program text. The lists of a text are numbered in the order in which they begin, so the
number of a list tells at which place of which text it stands: lists at different places have
different numbers.
-/

set_option autoImplicit false
set_option relaxedAutoImplicit false

namespace SmallScheme.Value

/-- What stands at a place: the path says into which item to go, list by list. -/
def at? : List Nat → Value → Option Value
  | [], v => some v
  | k :: path, .list _ items => items[k]?.bind (at? path)
  | _ :: _, _ => none

theorem at?_append (p q : List Nat) (v : Value) : v.at? (p ++ q) = (v.at? p).bind (at? q) := by
  induction p generalizing v with
  | nil => rfl
  | cons k p ih =>
    cases v with
    | list i items =>
      simp only [List.cons_append, at?]
      cases items[k]? with
      | none => rfl
      | some item => exact ih item
    | _ => rfl

theorem occurs_of_at? {path : List Nat} {u v : Value} (h : v.at? path = some u) : u.Occurs v := by
  induction path generalizing v with
  | nil =>
    cases h
    exact .self _
  | cons k path ih =>
    cases v with
    | list i items =>
      obtain ⟨item, found, inside⟩ := Option.bind_eq_some_iff.mp h
      exact .item (List.mem_of_getElem? found) (ih inside)
    | _ => cases h

mutual

theorem exists_datum_of_occurs {next : Nat} {d : Datum} {u : Value}
    (h : u.Occurs (ofDatum next d).1) : ∃ n part, u = (ofDatum n part).1 := by
  cases d with
  | number n =>
    cases h
    exact ⟨next, .number n, rfl⟩
  | symbol name =>
    cases h
    exact ⟨next, .symbol name, rfl⟩
  | list items =>
    cases h with
    | self => exact ⟨next, .list items, rfl⟩
    | item hv occurs => exact exists_datum_of_item hv occurs

private theorem exists_datum_of_item {next : Nat} {data : List Datum} {u v : Value}
    (hv : v ∈ (ofData next data).1) (h : u.Occurs v) : ∃ n part, u = (ofDatum n part).1 := by
  cases data with
  | nil => simp [ofData] at hv
  | cons d rest =>
    rcases List.mem_cons.mp hv with rfl | hv
    · exact exists_datum_of_occurs h
    · exact exists_datum_of_item hv h

end

mutual

/-- There are no procedures in a text, so whatever stands in it stands at a place. -/
theorem exists_at?_of_occurs {next : Nat} {d : Datum} {u : Value} (h : u.Occurs (ofDatum next d).1) :
    ∃ path, (ofDatum next d).1.at? path = some u := by
  cases d with
  | number n =>
    cases h
    exact ⟨[], rfl⟩
  | symbol name =>
    cases h
    exact ⟨[], rfl⟩
  | list items =>
    cases h with
    | self => exact ⟨[], rfl⟩
    | item hv occurs =>
      obtain ⟨k, path, found⟩ := exists_item_at?_of_occurs hv occurs
      exact ⟨k :: path, found⟩

private theorem exists_item_at?_of_occurs {next : Nat} {data : List Datum} {u v : Value}
    (hv : v ∈ (ofData next data).1) (h : u.Occurs v) :
    ∃ (k : Nat) (path : List Nat), (ofData next data).1[k]?.bind (at? path) = some u := by
  cases data with
  | nil => simp [ofData] at hv
  | cons d rest =>
    rcases List.mem_cons.mp hv with rfl | hv
    · obtain ⟨path, found⟩ := exists_at?_of_occurs h
      exact ⟨0, path, found⟩
    · obtain ⟨k, path, found⟩ := exists_item_at?_of_occurs hv h
      exact ⟨k + 1, path, found⟩

end

mutual

/-- The lists of a text have the numbers from the given one on. -/
theorem written_of_at? {next : Nat} {d : Datum} {path : List Nat} {i : Identity} {xs : List Value}
    (h : (ofDatum next d).1.at? path = some (.list i xs)) :
    ∃ n, i = .written n ∧ next ≤ n ∧ n < next + d.lists := by
  match d, path, h with
  | .number n, path, h => cases path <;> cases h
  | .symbol name, path, h => cases path <;> cases h
  | .list items, [], h =>
    cases h
    exact ⟨next, rfl, Nat.le_refl _, Nat.lt_add_of_pos_right (Nat.succ_pos _)⟩
  | .list items, k :: path, h =>
    obtain ⟨n, rfl, low, high⟩ := written_of_item_at? items h
    refine ⟨n, rfl, ?_, ?_⟩
    · omega
    · simp only [Datum.lists]
      omega

private theorem written_of_item_at? {next : Nat} (data : List Datum) {k : Nat} {path : List Nat}
    {i : Identity} {xs : List Value}
    (h : (ofData next data).1[k]?.bind (at? path) = some (.list i xs)) :
    ∃ n, i = .written n ∧ next ≤ n ∧ n < next + Datum.listsEach data := by
  match data, k, h with
  | d :: rest, 0, h =>
    obtain ⟨n, rfl, low, high⟩ := written_of_at? (d := d) h
    refine ⟨n, rfl, low, ?_⟩
    simp only [Datum.listsEach]
    omega
  | d :: rest, k + 1, h =>
    obtain ⟨n, rfl, low, high⟩ := written_of_item_at? rest h
    rw [ofDatum_next] at low high
    refine ⟨n, rfl, ?_, ?_⟩
    · omega
    · simp only [Datum.listsEach]
      omega

end

mutual

/-- Lists at different places of a text have different numbers. -/
theorem at?_unique {next : Nat} {d : Datum} {p q : List Nat} {i : Identity} {xs ys : List Value}
    (hp : (ofDatum next d).1.at? p = some (.list i xs))
    (hq : (ofDatum next d).1.at? q = some (.list i ys)) : p = q := by
  match d, p, q, hp, hq with
  | .number n, p, _, hp, _ => cases p <;> cases hp
  | .symbol name, p, _, hp, _ => cases p <;> cases hp
  | .list items, [], [], hp, hq => rfl
  | .list items, [], l :: q, hp, hq =>
    -- the whole list comes first, so it has a number of its own
    cases hp
    obtain ⟨n, same, low, -⟩ := written_of_item_at? items hq
    cases same
    omega
  | .list items, k :: p, [], hp, hq =>
    cases hq
    obtain ⟨n, same, low, -⟩ := written_of_item_at? items hp
    cases same
    omega
  | .list items, k :: p, l :: q, hp, hq =>
    obtain ⟨rfl, rfl⟩ := item_at?_unique items hp hq
    rfl

private theorem item_at?_unique {next : Nat} (data : List Datum) {k l : Nat} {p q : List Nat}
    {i : Identity} {xs ys : List Value}
    (hp : (ofData next data).1[k]?.bind (at? p) = some (.list i xs))
    (hq : (ofData next data).1[l]?.bind (at? q) = some (.list i ys)) : k = l ∧ p = q := by
  match data, k, l, hp, hq with
  | d :: rest, 0, 0, hp, hq => exact ⟨rfl, at?_unique (d := d) hp hq⟩
  | d :: rest, 0, l + 1, hp, hq =>
    obtain ⟨n, rfl, -, high⟩ := written_of_at? (d := d) hp
    obtain ⟨n', same, low, -⟩ := written_of_item_at? rest hq
    cases same
    rw [ofDatum_next] at low
    omega
  | d :: rest, k + 1, 0, hp, hq =>
    obtain ⟨n, rfl, -, high⟩ := written_of_at? (d := d) hq
    obtain ⟨n', same, low, -⟩ := written_of_item_at? rest hp
    cases same
    rw [ofDatum_next] at low
    omega
  | d :: rest, k + 1, l + 1, hp, hq =>
    obtain ⟨rfl, rfl⟩ := item_at?_unique rest hp hq
    exact ⟨rfl, rfl⟩

end

theorem items_unique {next : Nat} {d : Datum} {i : Identity} {xs ys : List Value}
    (hx : Occurs (.list i xs) (ofDatum next d).1)
    (hy : Occurs (.list i ys) (ofDatum next d).1) : xs = ys := by
  obtain ⟨p, hp⟩ := exists_at?_of_occurs hx
  obtain ⟨q, hq⟩ := exists_at?_of_occurs hy
  obtain rfl := at?_unique hp hq
  rw [hp] at hq
  cases hq
  rfl

end SmallScheme.Value
