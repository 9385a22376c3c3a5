import Mathlib.Data.List.Forall2

/- Programs that are watched while they run. A run has a result, if the passes it may spend
   suffice, and goes on after a step that is not as it should be: whether there was one is kept
   beside the result.

   `Safely x a` says that `x` comes to `a` with every step as it should be. It is a Hoare logic
   without the state: a sequence is safe if its parts are (`safely_bind`), a list of runs is safe
   if each of them is (`safely_mapM`). -/
namespace Omap4Hal.Lib

structure Watched (α : Type) where
  result : Option α
  fine : Bool

namespace Watched

variable {α β γ : Type}

instance : Monad Watched where
  pure a := ⟨some a, true⟩
  bind x f :=
    match x.result with
    | none => ⟨none, x.fine⟩
    | some a => ⟨(f a).result, x.fine && (f a).fine⟩

/-- A step that should satisfy `p`. -/
def watch (p : Prop) [Decidable p] : Watched Unit := ⟨some (), decide p⟩

/-- A loop that has no passes left. -/
def outOfPasses : Watched α := ⟨none, true⟩

def Safely (x : Watched α) (a : α) : Prop := x.result = some a ∧ x.fine = true

/-! ## Results -/

@[simp] theorem result_pure (a : α) : (pure a : Watched α).result = some a := rfl

@[simp] theorem result_watch (p : Prop) [Decidable p] : (watch p).result = some () := rfl

@[simp] theorem result_outOfPasses : (outOfPasses : Watched α).result = none := rfl

@[simp] theorem result_bind (x : Watched α) (f : α → Watched β) :
    (x >>= f).result = x.result.bind fun a => (f a).result := by
  show (match x.result with
    | none => (⟨none, x.fine⟩ : Watched β)
    | some a => ⟨(f a).result, x.fine && (f a).fine⟩).result = _
  cases x.result <;> rfl

/-! ## Safety -/

@[simp] theorem safely_pure {a b : α} : Safely (pure a) b ↔ a = b := by
  show some a = some b ∧ true = true ↔ a = b
  simp

@[simp] theorem safely_watch {p : Prop} [Decidable p] {u : Unit} : Safely (watch p) u ↔ p := by
  show some () = some u ∧ decide p = true ↔ p
  simp

@[simp] theorem safely_outOfPasses {a : α} : ¬ Safely outOfPasses a := by
  intro h
  cases h.1

variable {f : α → Watched β}

@[simp] theorem safely_bind {x : Watched α} {b : β} :
    Safely (x >>= f) b ↔ ∃ a, Safely x a ∧ Safely (f a) b := by
  show ((match x.result with
    | none => (⟨none, x.fine⟩ : Watched β)
    | some a => ⟨(f a).result, x.fine && (f a).fine⟩).result = some b ∧
    (match x.result with
    | none => (⟨none, x.fine⟩ : Watched β)
    | some a => ⟨(f a).result, x.fine && (f a).fine⟩).fine = true) ↔ _
  unfold Safely
  cases x.result with
  | none => simp
  | some a =>
    simp only [Bool.and_eq_true, Option.some.injEq]
    constructor
    · intro h
      exact ⟨a, ⟨rfl, h.2.1⟩, h.1, h.2.2⟩
    · rintro ⟨a', ⟨rfl, hx⟩, hr, hf⟩
      exact ⟨hr, hx, hf⟩

theorem map_id (x : Watched α) : id <$> x = x := by
  show (match x.result with
    | none => (⟨none, x.fine⟩ : Watched α)
    | some a => ⟨some a, x.fine && true⟩) = x
  cases x with
  | mk r b => cases r <;> simp

theorem bind_of_pure (a : α) (f : α → Watched β) : pure a >>= f = f a := by
  show (⟨(f a).result, true && (f a).fine⟩ : Watched β) = f a
  simp

theorem bind_bind (x : Watched α) (f : α → Watched β) (g : β → Watched γ) :
    x >>= f >>= g = x >>= fun a => f a >>= g := by
  cases x with
  | mk r b =>
    cases r with
    | none => rfl
    | some a =>
      show (match (⟨(f a).result, b && (f a).fine⟩ : Watched β).result with
        | none => (⟨none, b && (f a).fine⟩ : Watched γ)
        | some c => ⟨(g c).result, (b && (f a).fine) && (g c).fine⟩) =
        ⟨(match (f a).result with
          | none => (⟨none, (f a).fine⟩ : Watched γ)
          | some c => ⟨(g c).result, (f a).fine && (g c).fine⟩).result,
          b && (match (f a).result with
          | none => (⟨none, (f a).fine⟩ : Watched γ)
          | some c => ⟨(g c).result, (f a).fine && (g c).fine⟩).fine⟩
      cases (f a).result <;> simp [Bool.and_assoc]

instance : LawfulMonad Watched := LawfulMonad.mk' Watched map_id bind_of_pure bind_bind

/-! ## Lists of runs -/

theorem safely_mapM {l : List α} {bs : List β} :
    Safely (l.mapM f) bs ↔ List.Forall₂ (fun a b => Safely (f a) b) l bs := by
  induction l generalizing bs with
  | nil => simp [eq_comm]
  | cons a l ih =>
    simp only [List.mapM_cons, safely_bind, safely_pure, ih]
    constructor
    · rintro ⟨b, hb, bs', hbs, rfl⟩
      exact List.Forall₂.cons hb hbs
    · intro h
      cases h with
      | cons hb hbs => exact ⟨_, hb, _, hbs, rfl⟩

theorem safely_mapM_exists {l : List α} :
    (∃ bs, Safely (l.mapM f) bs) ↔ ∀ a ∈ l, ∃ b, Safely (f a) b := by
  induction l with
  | nil => simp
  | cons a l ih =>
    rw [List.forall_mem_cons, ← ih]
    simp only [List.mapM_cons, safely_bind, safely_pure]
    constructor
    · rintro ⟨_, b, hb, bs, hbs, -⟩
      exact ⟨⟨b, hb⟩, bs, hbs⟩
    · rintro ⟨⟨b, hb⟩, bs, hbs⟩
      exact ⟨_, b, hb, bs, hbs, rfl⟩

end Watched

end Omap4Hal.Lib
