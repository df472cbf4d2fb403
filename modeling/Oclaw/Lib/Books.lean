import Mathlib.Logic.Basic

/-!
# Items with owners, listed by owner

Two views of the same items are changed one after the other: who owns an item, and which
items are listed under an owner. What the views differ in is under way. Items are drawn,
entered and listed, and go the same way back, one by one or with the whole list of their
owner. Every step keeps the balance, and with nothing under way the views say the same.
-/

namespace Oclaw.Lib

/-- Items with their owners, the lists of the owners, and what is under way: items drawn
and not entered yet, entered and not listed yet, removed and not struck off yet, and
items whose list is gone while they still have to be removed. -/
@[ext] structure Books (U T : Type) : Type where
  owner : T → Option U
  listed : U → T → Prop
  drawing : T → Prop
  pushing : U → T → Prop
  striking : U → T → Prop
  clearing : U → T → Prop

namespace Books

variable {U T : Type} {b : Books U T} {u : U} {x : T}

/-- What differs between owners and lists is under way. -/
structure Balanced (b : Books U T) : Prop where
  drawn : ∀ {x}, b.drawing x → b.owner x = none ∧
    ∀ u, ¬ b.listed u x ∧ ¬ b.striking u x ∧ ¬ b.clearing u x
  born : ∀ {u x}, b.pushing u x → b.owner x = some u ∧
    ∀ u, ¬ b.listed u x ∧ ¬ b.striking u x ∧ ¬ b.clearing u x
  struck : ∀ {u x}, b.striking u x → b.owner x = none
  cleared : ∀ {u x}, b.clearing u x →
    (∀ u', ¬ b.listed u' x) ∧ ∀ u', b.owner x = some u' → u' = u
  kept : ∀ {u x}, b.owner x = some u → b.listed u x ∨ b.pushing u x ∨ b.clearing u x
  backed : ∀ {u x}, b.listed u x → b.owner x = some u ∨ b.striking u x
  single : ∀ {u u' x}, b.listed u x → b.listed u' x → u' = u

/-- The item occurs. -/
def Mentions (b : Books U T) (x : T) : Prop :=
  b.owner x ≠ none ∨ b.drawing x ∨
    ∃ u, b.listed u x ∨ b.pushing u x ∨ b.striking u x ∨ b.clearing u x

/-- With nothing under way, an item has an owner just when it is in that owner's list. -/
theorem Balanced.owner_iff (h : b.Balanced) (hpush : ¬ b.pushing u x) (hclear : ¬ b.clearing u x)
    (hstrike : ¬ b.striking u x) : b.owner x = some u ↔ b.listed u x := by
  constructor
  · intro howner
    rcases h.kept howner with hlisted | hp | hc
    · exact hlisted
    · exact absurd hp hpush
    · exact absurd hc hclear
  · intro hlisted
    exact (h.backed hlisted).resolve_right hstrike

/-! The steps; the last argument is what the other calls are at. A step mentions no new
item, a draw apart. -/

def draw (b : Books U T) (x : T) : Books U T :=
  { b with drawing := fun y => y = x ∨ b.drawing y }

theorem Balanced.draw (h : b.Balanced) (hnew : ¬ b.Mentions x) : (b.draw x).Balanced := by
  simp only [Mentions, not_or, not_exists, ne_eq, not_not] at hnew
  obtain ⟨howner, -, hunseen⟩ := hnew
  refine ⟨?_, h.born, h.struck, h.cleared, h.kept, h.backed, h.single⟩
  rintro y (rfl | hy)
  · exact ⟨howner, fun u => ⟨(hunseen u).1, (hunseen u).2.2.1, (hunseen u).2.2.2⟩⟩
  · exact h.drawn hy

def enter [DecidableEq T] (b : Books U T) (u : U) (x : T) (drawing : T → Prop) : Books U T :=
  { b with
    owner := fun y => if y = x then some u else b.owner y
    drawing := drawing
    pushing := fun u' y => (u' = u ∧ y = x) ∨ b.pushing u' y }

theorem Balanced.enter [DecidableEq T] {drawing : T → Prop} (h : b.Balanced) (hx : b.drawing x)
    (hsub : ∀ y, drawing y → b.drawing y ∧ y ≠ x) : (b.enter u x drawing).Balanced := by
  obtain ⟨hdrawn, hborn, hstruck, hcleared, hkept, hbacked, hsingle⟩ := h
  -- the item was in no list, so its new owner contradicts nothing
  constructor <;> simp only [Books.enter] <;> grind

theorem mentions_of_enter [DecidableEq T] {drawing : T → Prop} {y : T} (hx : b.drawing x)
    (hsub : ∀ y, drawing y → b.drawing y) (h : (b.enter u x drawing).Mentions y) :
    b.Mentions y := by
  simp only [Mentions, Books.enter] at h ⊢
  grind

def push (b : Books U T) (u : U) (x : T) (pushing : U → T → Prop) : Books U T :=
  { b with
    listed := fun u' y => b.listed u' y ∨ (u' = u ∧ y = x)
    pushing := pushing }

theorem Balanced.push {pushing : U → T → Prop} (h : b.Balanced) (hx : b.pushing u x)
    (hother : ∀ u' y, b.pushing u' y ↔ (u' = u ∧ y = x) ∨ pushing u' y)
    (honce : ∀ u', ¬ pushing u' x) : (b.push u x pushing).Balanced := by
  obtain ⟨hdrawn, hborn, hstruck, hcleared, hkept, hbacked, hsingle⟩ := h
  constructor <;> simp only [Books.push] <;> grind

theorem mentions_of_push {pushing : U → T → Prop} {y : T}
    (hother : ∀ u' y, b.pushing u' y ↔ (u' = u ∧ y = x) ∨ pushing u' y)
    (h : (b.push u x pushing).Mentions y) : b.Mentions y := by
  have hx : b.pushing u x := (hother u x).mpr (Or.inl ⟨rfl, rfl⟩)
  simp only [Mentions, Books.push] at h ⊢
  grind

def remove [DecidableEq T] (b : Books U T) (u : U) (x : T) : Books U T :=
  { b with
    owner := fun y => if y = x then none else b.owner y
    striking := fun u' y => (u' = u ∧ y = x) ∨ b.striking u' y }

theorem Balanced.remove [DecidableEq T] (h : b.Balanced) (hx : b.owner x = some u)
    (hpush : ∀ u', ¬ b.pushing u' x) : (b.remove u x).Balanced := by
  obtain ⟨hdrawn, hborn, hstruck, hcleared, hkept, hbacked, hsingle⟩ := h
  constructor <;> simp only [Books.remove] <;> grind

theorem mentions_of_remove [DecidableEq T] {y : T} (hx : b.owner x = some u)
    (h : (b.remove u x).Mentions y) : b.Mentions y := by
  simp only [Mentions, Books.remove] at h ⊢
  grind

def strike (b : Books U T) (u : U) (x : T) (striking : U → T → Prop) : Books U T :=
  { b with
    listed := fun u' y => b.listed u' y ∧ ¬ (u' = u ∧ y = x)
    striking := striking }

theorem Balanced.strike {striking : U → T → Prop} (h : b.Balanced) (hx : b.striking u x)
    (hother : ∀ u' y, b.striking u' y ↔ (u' = u ∧ y = x) ∨ striking u' y) :
    (b.strike u x striking).Balanced := by
  obtain ⟨hdrawn, hborn, hstruck, hcleared, hkept, hbacked, hsingle⟩ := h
  constructor <;> simp only [Books.strike] <;> grind

theorem mentions_of_strike {striking : U → T → Prop} {y : T}
    (hsub : ∀ u' y, striking u' y → b.striking u' y) (h : (b.strike u x striking).Mentions y) :
    b.Mentions y := by
  simp only [Mentions, Books.strike] at h ⊢
  grind

def take (b : Books U T) (u : U) : Books U T :=
  { b with
    listed := fun u' y => b.listed u' y ∧ u' ≠ u
    clearing := fun u' y => (u' = u ∧ b.listed u y) ∨ b.clearing u' y }

theorem Balanced.take (h : b.Balanced) : (b.take u).Balanced := by
  obtain ⟨hdrawn, hborn, hstruck, hcleared, hkept, hbacked, hsingle⟩ := h
  constructor <;> simp only [Books.take] <;> grind

theorem mentions_of_take {y : T} (h : (b.take u).Mentions y) : b.Mentions y := by
  simp only [Mentions, Books.take] at h ⊢
  grind

def clear (b : Books U T) (gone : T → Prop) [DecidablePred gone] (clearing : U → T → Prop) :
    Books U T :=
  { b with
    owner := fun y => if gone y then none else b.owner y
    clearing := clearing }

theorem Balanced.clear {gone : T → Prop} [DecidablePred gone] {clearing : U → T → Prop}
    (h : b.Balanced) (hpush : ∀ u' y, ¬ b.pushing u' y)
    (hother : ∀ u' y, b.clearing u' y ↔ (u' = u ∧ gone y) ∨ clearing u' y) :
    (b.clear gone clearing).Balanced := by
  have hgone (y : T) (hy : gone y) : b.clearing u y := (hother u y).mpr (Or.inl ⟨rfl, hy⟩)
  obtain ⟨hdrawn, hborn, hstruck, hcleared, hkept, hbacked, hsingle⟩ := h
  constructor <;> simp only [Books.clear] <;> grind

theorem mentions_of_clear {gone : T → Prop} [DecidablePred gone] {clearing : U → T → Prop} {y : T}
    (hsub : ∀ u' y, clearing u' y → b.clearing u' y) (h : (b.clear gone clearing).Mentions y) :
    b.Mentions y := by
  simp only [Mentions, Books.clear] at h ⊢
  grind

end Books

end Oclaw.Lib
