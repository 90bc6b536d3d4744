import Firewall.Fault

/-!
# Runs that produce items

A `Run` is what a producer of items leaves behind: the items it produced, in
order, and the fault that stopped it, if one did.  Producers compose as nested
loops do: `Run.bind` feeds every item of a run to a second producer in turn,
stops at the first fault of the second, and otherwise ends as the first run
ended.  A consumer that keeps what it has received before a fault reads
`items`; one that gives up on a fault reads `toExcept`.
-/

namespace Firewall

/-- Items produced, then possibly the fault that stopped production. -/
structure Run (α : Type) where
  items : List α
  fault : Option Fault
deriving Repr, DecidableEq

namespace Run

variable {α β : Type}

/-- A run that produced the items and ended normally. -/
def ofList (xs : List α) : Run α := ⟨xs, none⟩

/-- A run that stopped at a fault before producing anything. -/
def fail (f : Fault) : Run α := ⟨[], some f⟩

/-- Feed each item to a producer in turn; stop at its first fault. -/
def feed (f : α → Run β) : List α → Run β
  | [] => ⟨[], none⟩
  | x :: xs =>
    let r := f x
    match r.fault with
    | some e => ⟨r.items, some e⟩
    | none =>
      let rest := feed f xs
      ⟨r.items ++ rest.items, rest.fault⟩

/-- Feed the items of a run to a producer; a fault of the first run comes after
everything produced from its items. -/
def bind (r : Run α) (f : α → Run β) : Run β :=
  let out := feed f r.items
  match out.fault with
  | some _ => out
  | none => ⟨out.items, r.fault⟩

/-- A run from an outcome that either is a list or a fault. -/
def ofExcept : Except Fault (List α) → Run α
  | .ok xs => ofList xs
  | .error f => fail f

/-- The items, if the run ended normally. -/
def toExcept (r : Run α) : Except Fault (List α) :=
  match r.fault with
  | some f => .error f
  | none => .ok r.items

@[simp] theorem feed_nil (f : α → Run β) : feed f [] = ⟨[], none⟩ := rfl

@[simp] theorem toExcept_ofList (xs : List α) : (ofList xs).toExcept = .ok xs := rfl

/-- Feeding a list whose items all produce without fault produces their concatenation. -/
theorem feed_ok (f : α → Run β) (xs : List α) (h : ∀ x ∈ xs, (f x).fault = none) :
    feed f xs = ⟨(xs.map fun x => (f x).items).flatten, none⟩ := by
  induction xs with
  | nil => rfl
  | cons x xs ih =>
    have hx := h x List.mem_cons_self
    have hrest := ih (fun y hy => h y (List.mem_cons_of_mem _ hy))
    simp [feed, hx, hrest]

/-- An item whose production fails ends the run with its fault, after what it produced. -/
theorem feed_cons_of_fault {f : α → Run β} {x : α} {e : Fault} (xs : List α)
    (h : (f x).fault = some e) : feed f (x :: xs) = ⟨(f x).items, some e⟩ := by
  simp [feed, h]

/-- Items that produce without fault only put their items in front of the rest of the run. -/
theorem feed_append_of_ok {f : α → Run β} {pre : List α} (rest : List α)
    (h : ∀ x ∈ pre, (f x).fault = none) :
    feed f (pre ++ rest) =
      ⟨pre.flatMap (fun x => (f x).items) ++ (feed f rest).items, (feed f rest).fault⟩ := by
  induction pre with
  | nil => rfl
  | cons x pre ih =>
    have hx := h x List.mem_cons_self
    rw [List.cons_append, feed]
    simp [hx, ih (fun y hy => h y (List.mem_cons_of_mem _ hy))]

/-- A run either produces every item's items without fault, or stops at the first item whose
production fails: it keeps the items of the items before it and what that one produced, and
ends with its fault. -/
theorem feed_cases (f : α → Run β) (xs : List α) :
    ((∀ x ∈ xs, (f x).fault = none) ∧
        feed f xs = ofList (xs.flatMap fun x => (f x).items)) ∨
      ∃ pre x post e, xs = pre ++ x :: post ∧ (∀ y ∈ pre, (f y).fault = none) ∧
        (f x).fault = some e ∧
        feed f xs = ⟨pre.flatMap (fun y => (f y).items) ++ (f x).items, some e⟩ := by
  induction xs with
  | nil => exact .inl ⟨by simp, rfl⟩
  | cons x xs ih =>
    cases hx : (f x).fault with
    | some e => exact .inr ⟨[], x, xs, e, rfl, by simp, hx, by simp [feed_cons_of_fault xs hx]⟩
    | none =>
      have hstep : feed f ([x] ++ xs) =
          ⟨[x].flatMap (fun y => (f y).items) ++ (feed f xs).items, (feed f xs).fault⟩ :=
        feed_append_of_ok xs (by simp [hx])
      rcases ih with ⟨hok, hrun⟩ | ⟨pre, y, post, e, rfl, hpre, hy, hrun⟩
      · refine .inl ⟨List.forall_mem_cons.2 ⟨hx, hok⟩, ?_⟩
        simpa [hrun, ofList] using hstep
      · refine .inr ⟨x :: pre, y, post, e, rfl, List.forall_mem_cons.2 ⟨hx, hpre⟩, hy, ?_⟩
        simpa [hrun] using hstep

/-- The fault of a run is the fault of one of its items. -/
theorem feed_fault {f : α → Run β} {xs : List α} {e : Fault} (h : (feed f xs).fault = some e) :
    ∃ x ∈ xs, (f x).fault = some e := by
  rcases feed_cases f xs with ⟨-, hrun⟩ | ⟨pre, x, post, e', rfl, -, hx, hrun⟩
  · rw [hrun] at h
    cases h
  · rw [hrun] at h
    cases h
    exact ⟨x, by simp, hx⟩

/-- Producers that agree on the items make the same run. -/
theorem feed_congr {f g : α → Run β} :
    ∀ {xs : List α}, (∀ x ∈ xs, f x = g x) → feed f xs = feed g xs
  | [], _ => rfl
  | x :: xs, h => by
    simp only [feed, h x List.mem_cons_self,
      feed_congr (fun y hy => h y (List.mem_cons_of_mem _ hy))]

end Run

end Firewall
