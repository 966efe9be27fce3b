import Mathlib.Data.List.Sort
import Mathlib.Order.Lattice
import Mathlib.Tactic.Common

/-!
# Agendas

A list of entries `(key, item)` in the order of their keys, as a multimap keeps it. An entry is
inserted behind those with the same key. The agenda is worked off from its head, up to the first
entry that is not due, so what matters is whether it is also in the order of the times at which
its items are due.

* `Agenda.insert`: insertion by key.
* `Agenda.pairwise_insert`: relations along the list that an insertion keeps.
* `Agenda.not_due`: when the head is not due, nothing is.
-/

namespace Agenda

variable {κ τ : Type*} [LinearOrder κ]

/-- Insertion behind all entries with a key that is not larger. -/
def insert (e : κ × τ) (l : List (κ × τ)) : List (κ × τ) := l.orderedInsert (fun a b => a.1 < b.1) e

theorem insert_nil (e : κ × τ) : insert e [] = [e] := rfl

theorem insert_cons (e b : κ × τ) (l : List (κ × τ)) :
    insert e (b :: l) = if e.1 < b.1 then e :: b :: l else b :: insert e l := rfl

theorem perm_insert (e : κ × τ) (l : List (κ × τ)) : (insert e l).Perm (e :: l) :=
  List.perm_orderedInsert _ e l

@[simp] theorem mem_insert {e b : κ × τ} {l : List (κ × τ)} :
    b ∈ insert e l ↔ b = e ∨ b ∈ l := by
  rw [(perm_insert e l).mem_iff, List.mem_cons]

/-- The new entry comes behind the smaller and equal keys, and before the larger ones. -/
theorem pairwise_insert {R : κ × τ → κ × τ → Prop} {e : κ × τ} {l : List (κ × τ)}
    (hkeys : l.Pairwise fun a b => a.1 ≤ b.1) (h : l.Pairwise R)
    (hbefore : ∀ b ∈ l, b.1 ≤ e.1 → R b e) (hbehind : ∀ b ∈ l, e.1 < b.1 → R e b) :
    (insert e l).Pairwise R := by
  induction l with
  | nil => simp [insert_nil]
  | cons b l ih =>
    obtain ⟨hb, hl⟩ := List.pairwise_cons.mp hkeys
    obtain ⟨hRb, hRl⟩ := List.pairwise_cons.mp h
    rw [insert_cons]
    split
    · next hlt =>
      -- All keys that follow are larger too.
      refine List.pairwise_cons.mpr ⟨fun c hc => ?_, h⟩
      rcases List.mem_cons.mp hc with rfl | hc'
      · exact hbehind c hc hlt
      · exact hbehind c hc (lt_of_lt_of_le hlt (hb c hc'))
    · next hle =>
      refine List.pairwise_cons.mpr ⟨fun c hc => ?_, ?_⟩
      · rcases mem_insert.mp hc with rfl | hc'
        · exact hbefore b (List.mem_cons_self ..) (not_lt.mp hle)
        · exact hRb c hc'
      · exact ih hl hRl (fun c hc => hbefore c (List.mem_cons_of_mem _ hc))
          fun c hc => hbehind c (List.mem_cons_of_mem _ hc)

/-- In the order of the keys. -/
theorem keys_insert {e : κ × τ} {l : List (κ × τ)} (hkeys : l.Pairwise fun a b => a.1 ≤ b.1) :
    (insert e l).Pairwise fun a b => a.1 ≤ b.1 :=
  pairwise_insert hkeys hkeys (fun _ _ h => h) fun _ _ h => h.le

omit [LinearOrder κ] in
/-- When the entries are in the order of their times, none that is due hides behind one that is
not. -/
theorem not_due {β : Type*} [LinearOrder β] (time : κ × τ → β) (now : β) {l : List (κ × τ)}
    (h : l.Pairwise fun a b => time a ≤ time b) (hhead : ∀ b ∈ l.head?, now < time b) :
    ∀ e ∈ l, now < time e := by
  cases l with
  | nil => simp
  | cons b l =>
    intro e he
    have hnow : now < time b := hhead b rfl
    rcases List.mem_cons.mp he with rfl | he'
    · exact hnow
    · exact lt_of_lt_of_le hnow ((List.pairwise_cons.mp h).1 e he')

end Agenda
