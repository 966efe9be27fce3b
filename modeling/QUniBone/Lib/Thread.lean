import Mathlib.Tactic.Common

/-!
# Threads

Programs of threads that share a state `σ`. Between any two steps of a thread others may change
the state. A thread reads it, changes it, makes calls `κ` that are answered by a `ρ`, or fails.

* `Contract`: what a thread relies on and what it guarantees.
* `Sound`: the thread keeps the contract, and ends with a result that meets a postcondition.
-/

inductive Thread (σ κ ρ ε α : Type)
  | done (a : α)
  | read (k : σ → Thread σ κ ρ ε α)
  | write (f : σ → σ) (k : Thread σ κ ρ ε α)
  | call (c : κ) (k : ρ → Thread σ κ ρ ε α)
  | fail (e : ε)

namespace Thread

variable {σ κ ρ ε α β : Type}

def bind : Thread σ κ ρ ε α → (α → Thread σ κ ρ ε β) → Thread σ κ ρ ε β
  | .done a, f => f a
  | .read k, f => .read fun s => (k s).bind f
  | .write g k, f => .write g (k.bind f)
  | .call c k, f => .call c fun r => (k r).bind f
  | .fail e, _ => .fail e

/-- For each element of a list in turn. -/
def forEach (f : β → Thread σ κ ρ ε Unit) : List β → Thread σ κ ρ ε Unit
  | [] => .done ()
  | b :: bs => (f b).bind fun _ => forEach f bs

structure Contract (σ κ ρ ε : Type) where
  /-- what holds of the state whenever the thread reads it -/
  rely : σ → Prop
  /-- what the thread does to the state -/
  guarantee : σ → σ → Prop
  /-- the calls that it makes -/
  call : κ → Prop
  /-- the answers that it gets -/
  answer : κ → ρ → Prop
  /-- the failures that may happen -/
  fail : ε → Prop

def Sound (C : Contract σ κ ρ ε) (post : α → Prop) : Thread σ κ ρ ε α → Prop
  | .done a => post a
  | .read k => ∀ s, C.rely s → Sound C post (k s)
  | .write f k => (∀ s, C.rely s → C.guarantee s (f s)) ∧ Sound C post k
  | .call c k => C.call c ∧ ∀ r, C.answer c r → Sound C post (k r)
  | .fail e => C.fail e

variable {C : Contract σ κ ρ ε} {post post' : α → Prop}

theorem Sound.read {k : σ → Thread σ κ ρ ε α} (h : ∀ s, C.rely s → (k s).Sound C post) :
    (Thread.read k).Sound C post := h

theorem Sound.mono {x : Thread σ κ ρ ε α} (h : x.Sound C post) (hpost : ∀ a, post a → post' a) :
    x.Sound C post' := by
  induction x with
  | done a => exact hpost a h
  | read k ih => exact fun s hs => ih s (h s hs)
  | write f k ih => exact ⟨h.1, ih h.2⟩
  | call c k ih => exact ⟨h.1, fun r hr => ih r (h.2 r hr)⟩
  | fail e => exact h

theorem Sound.bind {x : Thread σ κ ρ ε α} {f : α → Thread σ κ ρ ε β} {post : β → Prop}
    (h : x.Sound C fun a => (f a).Sound C post) : (x.bind f).Sound C post := by
  induction x with
  | done a => exact h
  | read k ih => exact fun s hs => ih s (h s hs)
  | write g k ih => exact ⟨h.1, ih h.2⟩
  | call c k ih => exact ⟨h.1, fun r hr => ih r (h.2 r hr)⟩
  | fail e => exact h

/-- Two programs in a row: the result of the first one meets `mid`. -/
theorem Sound.seq {x : Thread σ κ ρ ε α} {f : α → Thread σ κ ρ ε β} {mid : α → Prop}
    {post : β → Prop} (hx : x.Sound C mid) (hf : ∀ a, mid a → (f a).Sound C post) :
    (x.bind f).Sound C post := Sound.bind (hx.mono hf)

theorem Sound.forEach {f : β → Thread σ κ ρ ε Unit} {bs : List β}
    (h : ∀ b ∈ bs, (f b).Sound C fun _ => True) : (forEach f bs).Sound C fun _ => True := by
  induction bs with
  | nil => trivial
  | cons b bs ih =>
    refine Sound.seq (h b List.mem_cons_self) fun _ _ => ?_
    exact ih fun b' hb' => h b' (List.mem_cons_of_mem b hb')

end Thread
