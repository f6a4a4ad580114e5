import Mathlib.Data.List.Forall2
import WasmBindings.Tree.Access
import WasmBindings.Workspace.Session

namespace WasmBindings

namespace Outcome

variable {ε α β σ : Type}

theorem bind_eq_ok {x : Except ε α} {f : α → Except ε β} {b : β} :
    (x >>= f) = .ok b ↔ ∃ a, x = .ok a ∧ f a = .ok b := by
  cases x <;> simp [bind, Except.bind]

theorem map_eq_ok {x : Except ε α} {f : α → β} {b : β} :
    x.map f = .ok b ↔ ∃ a, x = .ok a ∧ f a = b := by
  cases x <;> simp [Except.map]

theorem mapM_eq_ok {f : α → Except ε β} {xs : List α} {ys : List β} :
    xs.mapM f = .ok ys ↔ List.Forall₂ (fun x y => f x = .ok y) xs ys := by
  induction xs generalizing ys with
  | nil => simp [pure, Except.pure, eq_comm]
  | cons x xs ih =>
    simp only [List.mapM_cons, bind_eq_ok, List.forall₂_cons_left_iff, ih]
    constructor
    · rintro ⟨y, hy, ys, hys, h⟩
      cases h
      exact ⟨y, ys, hy, hys, rfl⟩
    · rintro ⟨y, ys, hy, hys, rfl⟩
      exact ⟨y, hy, ys, hys, rfl⟩

theorem mem_of_mapM_eq_ok {f : α → Except ε β} {xs : List α} {ys : List β}
    (h : xs.mapM f = .ok ys) {y : β} : y ∈ ys ↔ ∃ x ∈ xs, f x = .ok y := by
  have hall := mapM_eq_ok.1 h
  clear h
  induction hall with
  | nil => simp
  | cons hxy _ ih => simp [ih, hxy, eq_comm]

theorem exists_of_mapM_eq_ok {f : α → Except ε β} {xs : List α} {ys : List β}
    (h : xs.mapM f = .ok ys) {x : α} (hx : x ∈ xs) : ∃ y, f x = .ok y := by
  have hall := mapM_eq_ok.1 h
  clear h
  induction hall with
  | nil => cases hx
  | cons hxy _ ih =>
    rcases List.mem_cons.1 hx with rfl | hx
    · exact ⟨_, hxy⟩
    · exact ih hx

theorem foldlM_eq_map_foldl {step : σ → α → Except ε σ} {f : α → Except ε (List β)}
    {g : σ → β → σ} (hstep : ∀ s x, step s x = (f x).map (List.foldl g s)) (xs : List α) (s : σ) :
    xs.foldlM step s =
      (do return (← xs.mapM f).flatten : Except ε (List β)).map (List.foldl g s) := by
  induction xs generalizing s with
  | nil => rfl
  | cons x xs ih =>
    rw [List.foldlM_cons, List.mapM_cons, hstep]
    cases f x with
    | error e => rfl
    | ok list =>
      change xs.foldlM step (list.foldl g s) = _
      rw [ih]
      cases xs.mapM f with
      | error e => rfl
      | ok lists => simp [bind, Except.bind, Except.map, pure, Except.pure]

def ends : Except ε (Option α) → Bool
  | .ok none => false
  | _ => true

/-- The outcome of a search: the first that ends it, or no result. -/
def first (xs : List (Except ε (Option α))) : Except ε (Option α) :=
  (xs.find? ends).getD (.ok none)

/-- The elements up to the first that passes the test, that one included. -/
def upTo (p : α → Bool) (xs : List α) : List α := xs.take (xs.findIdx p + 1)

theorem ends_eq_false {x : Except ε (Option α)} : ends x = false ↔ x = .ok none := by
  cases x with
  | error e => simp [ends]
  | ok a => cases a <;> simp [ends]

theorem first_cons (x : Except ε (Option α)) (xs : List (Except ε (Option α))) :
    first (x :: xs) = if ends x then x else first xs := by
  rw [first, first, List.find?_cons]
  cases ends x <;> rfl

theorem first_append {xs : List (Except ε (Option α))} (h : ∀ x ∈ xs, x = .ok none)
    (ys : List (Except ε (Option α))) : first (xs ++ ys) = first ys := by
  induction xs with
  | nil => rfl
  | cons x xs ih =>
    rw [List.cons_append, first_cons, ends_eq_false.2 (h x List.mem_cons_self),
      if_neg Bool.false_ne_true, ih fun y hy => h y (List.mem_cons_of_mem x hy)]

theorem first_eq_none {xs : List (Except ε (Option α))} :
    first xs = .ok none ↔ ∀ x ∈ xs, x = .ok none := by
  constructor
  · intro h x hx
    cases hfind : xs.find? ends with
    | none => exact ends_eq_false.1 (by simpa using List.find?_eq_none.1 hfind x hx)
    | some y =>
      have hends := List.find?_some hfind
      rw [first, hfind, Option.getD_some] at h
      rw [h] at hends
      cases hends
  · intro h
    have hfirst := first_append h []
    rwa [List.append_nil] at hfirst

theorem first_map_eq_some {f : β → Except ε (Option α)} {xs : List β} {a : α} :
    first (xs.map f) = .ok (some a) ↔ ∃ before x after, xs = before ++ x :: after ∧
      (∀ y ∈ before, f y = .ok none) ∧ f x = .ok (some a) := by
  constructor
  · intro h
    rw [first, List.find?_map] at h
    cases hfind : xs.find? (ends ∘ f) with
    | none =>
      rw [hfind] at h
      cases h
    | some x =>
      rw [hfind] at h
      obtain ⟨-, before, after, hxs, hbefore⟩ := List.find?_eq_some_iff_append.1 hfind
      exact ⟨before, x, after, hxs,
        fun y hy => ends_eq_false.1 (by simpa using hbefore y hy), h⟩
  · rintro ⟨before, x, after, rfl, hbefore, hx⟩
    rw [List.map_append, first_append (by simpa using hbefore), List.map_cons, first_cons, hx]
    rfl

@[simp] theorem upTo_nil (p : α → Bool) : upTo p [] = [] := rfl

theorem upTo_cons (p : α → Bool) (x : α) (xs : List α) :
    upTo p (x :: xs) = x :: if p x then [] else upTo p xs := by
  rw [upTo, upTo, List.findIdx_cons]
  cases p x <;> simp

end Outcome

namespace Session

theorem run_bind_eq_ok {α β : Type} {x : Session α} {f : α → Session β} {w w' : Workspace}
    {b : β} : (x >>= f).run.run w = (.ok b, w') ↔
      ∃ a w₁, x.run.run w = (.ok a, w₁) ∧ (f a).run.run w₁ = (.ok b, w') := by
  rw [ExceptT.run_bind, StateT.run_bind]
  rcases x.run.run w with ⟨fault | a, w₁⟩
  · constructor
    · intro h
      cases h
    · rintro ⟨a, w₂, h, -⟩
      cases h
  · constructor
    · intro h
      exact ⟨a, w₁, rfl, h⟩
    · rintro ⟨a', w₂, h, hf⟩
      cases h
      exact hf

theorem run_ofExcept_eq_ok {α : Type} {x : Except Fault α} {w w' : Workspace} {a : α}
    (h : (ofExcept x).run.run w = (.ok a, w')) : x = .ok a := by
  cases x with
  | error fault => cases h
  | ok b =>
    cases h
    rfl

end Session

namespace Tree

theorem mem_of_select_eq_ok {test : Json → Except Fault Bool} {vs kept : List Json}
    (h : select test vs = .ok kept) {v : Json} : v ∈ kept ↔ v ∈ vs ∧ test v = .ok true := by
  induction vs generalizing kept with
  | nil =>
    cases h
    simp
  | cons c r ih =>
    obtain ⟨keep, hkeep, h⟩ := Outcome.bind_eq_ok.1 h
    obtain ⟨rest, hrest, h⟩ := Outcome.bind_eq_ok.1 h
    cases h
    have hr := ih hrest
    cases keep with
    | false =>
      have hv : v = c → test v ≠ .ok true := by
        rintro rfl
        simp [hkeep]
      grind
    | true => grind

def gather {β : Type} (test : Json → Except Fault Bool) (f : Json → Except Fault (List β))
    (vs : List Json) : Except Fault (List β) := do
  return (← (← select test vs).mapM f).flatten

theorem mem_gather {β : Type} {test : Json → Except Fault Bool}
    {f : Json → Except Fault (List β)} {vs : List Json} {ys : List β}
    (h : gather test f vs = .ok ys) {y : β} {P : Json → Prop}
    (hf : ∀ v list, f v = .ok list → (y ∈ list ↔ P v)) :
    y ∈ ys ↔ ∃ v ∈ vs, test v = .ok true ∧ P v := by
  obtain ⟨kept, hkept, h⟩ := Outcome.bind_eq_ok.1 h
  obtain ⟨lists, hlists, h⟩ := Outcome.bind_eq_ok.1 h
  cases h
  rw [List.mem_flatten]
  constructor
  · rintro ⟨list, hlist, hy⟩
    obtain ⟨v, hv, hfv⟩ := (Outcome.mem_of_mapM_eq_ok hlists).1 hlist
    obtain ⟨hv, htest⟩ := (mem_of_select_eq_ok hkept).1 hv
    exact ⟨v, hv, htest, (hf v list hfv).1 hy⟩
  · rintro ⟨v, hv, htest, hP⟩
    have hmem := (mem_of_select_eq_ok hkept).2 ⟨hv, htest⟩
    obtain ⟨list, hfv⟩ := Outcome.exists_of_mapM_eq_ok hlists hmem
    exact ⟨list, (Outcome.mem_of_mapM_eq_ok hlists).2 ⟨v, hmem, hfv⟩, (hf v list hfv).2 hP⟩

theorem foldlM_select {β σ : Type} (test : Json → Except Fault Bool)
    {f : Json → Except Fault (List β)} {step : σ → Json → Except Fault σ} {g : σ → β → σ}
    (hstep : ∀ s v, step s v = (f v).map (List.foldl g s)) (vs : List Json) (s : σ) :
    (do (← select test vs).foldlM step s) = (gather test f vs).map (List.foldl g s) := by
  rw [gather]
  cases select test vs with
  | error fault => rfl
  | ok kept => exact Outcome.foldlM_eq_map_foldl hstep kept s

end Tree

end WasmBindings
