import Mathlib.Logic.Basic

/-!
# Postconditions of computations that may fail

A piece of C++ that can abort, throw or run into undefined behaviour is
a value of `Except ε α`. `Post F Q x` says what `x` may do: either it
returns a value satisfying `Q`, or it fails in a way that `F` admits.
The rules are those of a Hoare logic with two exits; `Post.bind` is the
sequencing rule.
-/

namespace Netpoll

variable {ε α β : Type}

/-- `x` returns a value satisfying `Q` or fails with an error satisfying `F`. -/
def Post (F : ε → Prop) (Q : α → Prop) : Except ε α → Prop
  | .ok a => Q a
  | .error e => F e

@[simp] theorem post_ok {F : ε → Prop} {Q : α → Prop} {a : α} :
    Post F Q (.ok a) ↔ Q a := Iff.rfl

@[simp] theorem post_pure {F : ε → Prop} {Q : α → Prop} {a : α} :
    Post F Q (pure a) ↔ Q a := Iff.rfl

@[simp] theorem ok_bind {a : α} {f : α → Except ε β} :
    ((Except.ok a : Except ε α) >>= f) = f a := rfl

@[simp] theorem error_bind {e : ε} {f : α → Except ε β} :
    ((Except.error e : Except ε α) >>= f) = .error e := rfl

theorem Post.true (x : Except ε α) : Post (fun _ => True) (fun _ => True) x := by
  cases x <;> trivial

theorem Post.mono {F F' : ε → Prop} {Q Q' : α → Prop} {x : Except ε α}
    (h : Post F Q x) (hF : ∀ e, F e → F' e) (hQ : ∀ a, Q a → Q' a) :
    Post F' Q' x := by
  cases x with
  | ok a => exact hQ a h
  | error e => exact hF e h

theorem Post.and {F F' : ε → Prop} {Q Q' : α → Prop} {x : Except ε α}
    (h : Post F Q x) (h' : Post F' Q' x) : Post F (fun a => Q a ∧ Q' a) x := by
  cases x with
  | ok a => exact ⟨h, h'⟩
  | error e => exact h

theorem Post.bind {F : ε → Prop} {Q : α → Prop} {Q' : β → Prop}
    {x : Except ε α} {f : α → Except ε β} (hx : Post F Q x)
    (hf : ∀ a, Q a → Post F Q' (f a)) : Post F Q' (x >>= f) := by
  cases x with
  | ok a => exact hf a hx
  | error e => exact hx

theorem Post.of_ok {F : ε → Prop} {Q : α → Prop} {x : Except ε α} {a : α}
    (h : Post F Q x) (hx : x = .ok a) : Q a := by
  subst hx
  exact h

theorem Post.of_error {F : ε → Prop} {Q : α → Prop} {x : Except ε α} {e : ε}
    (h : Post F Q x) (hx : x = .error e) : F e := by
  subst hx
  exact h

theorem Post.exists_ok {Q : α → Prop} {x : Except ε α} (h : Post (fun _ => False) Q x) :
    ∃ a, x = .ok a ∧ Q a := by
  cases x with
  | ok a => exact ⟨a, rfl, h⟩
  | error e => exact h.elim

end Netpoll
