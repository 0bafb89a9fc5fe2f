import Mathlib.Algebra.BigOperators.Intervals
import Mathlib.Algebra.BigOperators.Ring.Finset
import Mathlib.Algebra.Group.Action.Defs
import Mathlib.Algebra.Order.BigOperators.Group.Finset
import Mathlib.Algebra.Order.BigOperators.Group.Multiset
import Mathlib.Logic.Relation

/-!
# Relays with a budget

Messages on their way, taken out one at a time and in any order.  A message that is taken out may
be replaced by copies, at most `D` of them, each with a smaller budget.  Whatever the order, the
messages put in from outside are followed by a bounded number of copies.

* **`Relay.copies`** — how many messages a message with a budget becomes at most, itself included.
* **`Relay.Step`** — putting a message in, and relaying one.
* **`Relay.taken_add_card_le`** — the bound, over every run of such steps.
-/

/-- Messages on their way, with the number of those taken out and of those put in from outside. -/
structure Relay (M : Type*) where
  pending : Multiset M
  taken : ℕ
  injected : ℕ

namespace Relay

/-- The messages that one with budget `k` becomes at most, with `D` copies each time. -/
def copies (D k : ℕ) : ℕ := ∑ i ∈ Finset.range (k + 1), D ^ i

theorem copies_succ (D k : ℕ) : copies D (k + 1) = 1 + D * copies D k := by
  unfold copies
  rw [Finset.sum_range_succ', Finset.mul_sum, pow_zero, Nat.add_comm]
  congr 1
  exact Finset.sum_congr rfl fun i _ => pow_succ' D i

theorem one_le_copies (D k : ℕ) : 1 ≤ copies D k := by
  cases k with
  | zero => rfl
  | succ k =>
    rw [copies_succ]
    omega

theorem copies_mono (D : ℕ) : Monotone (copies D) := fun _ _ h =>
  Finset.sum_le_sum_of_subset (Finset.range_subset_range.mpr (Nat.succ_le_succ h))

variable {M : Type*} (budget : M → ℕ) (D K : ℕ)

/-- One step: a message, or none, put in from outside; or a message relayed. -/
inductive Step : Relay M → Relay M → Prop
  | inject (s : Relay M) (new : Multiset M) (hone : new.card ≤ 1)
      (hbudget : ∀ m ∈ new, budget m ≤ K) :
      Step s { s with pending := s.pending + new, injected := s.injected + 1 }
  | relay (m : M) (rest new : Multiset M) (taken injected : ℕ) (hcard : new.card ≤ D)
      (hbudget : ∀ m' ∈ new, budget m' < budget m) :
      Step ⟨m ::ₘ rest, taken, injected⟩ ⟨rest + new, taken + 1, injected⟩

/-- The messages that those on their way become at most. -/
def owed (s : Multiset M) : ℕ := (s.map fun m => copies D (budget m)).sum

theorem owed_add (s t : Multiset M) :
    owed budget D (s + t) = owed budget D s + owed budget D t := by
  unfold owed
  rw [Multiset.map_add, Multiset.sum_add]

theorem owed_cons (m : M) (s : Multiset M) :
    owed budget D (m ::ₘ s) = copies D (budget m) + owed budget D s := by
  unfold owed
  rw [Multiset.map_cons, Multiset.sum_cons]

theorem owed_le_card_mul {s : Multiset M} {k : ℕ} (h : ∀ m ∈ s, budget m ≤ k) :
    owed budget D s ≤ s.card * copies D k := by
  unfold owed
  rw [← smul_eq_mul, ← Multiset.card_map (fun m => copies D (budget m)) s]
  apply Multiset.sum_le_card_nsmul
  intro n hn
  obtain ⟨m, hm, rfl⟩ := Multiset.mem_map.mp hn
  exact copies_mono D (h m hm)

theorem card_le_owed (s : Multiset M) : s.card ≤ owed budget D s := by
  induction s using Multiset.induction with
  | empty => exact Nat.zero_le _
  | cons m s ih =>
    have hone := one_le_copies D (budget m)
    rw [owed_cons, Multiset.card_cons]
    omega

/-- What is taken out and what is still owed is within what the messages put in allow for. -/
def Within (s : Relay M) : Prop :=
  s.taken + owed budget D s.pending ≤ s.injected * copies D K

/-- **One step.** -/
theorem Within.step {s s' : Relay M} (h : Within budget D K s) (hstep : Step budget D K s s') :
    Within budget D K s' := by
  unfold Within at *
  cases hstep with
  | inject _ new hone hbudget =>
    have hnew := owed_le_card_mul budget D hbudget
    have hle : new.card * copies D K ≤ 1 * copies D K := Nat.mul_le_mul_right _ hone
    dsimp only
    rw [owed_add, Nat.succ_mul]
    omega
  | relay m rest new taken injected hcard hbudget =>
    dsimp only at *
    rw [owed_cons] at h
    rw [owed_add]
    -- the copies take the place of their message
    have hnew : 1 + owed budget D new ≤ copies D (budget m) := by
      cases hm : budget m with
      | zero =>
        have hnone : new = 0 := Multiset.eq_zero_of_forall_notMem fun m' hm' => by
          have hlt := hbudget m' hm'
          omega
        rw [hnone]
        exact one_le_copies D 0
      | succ k =>
        have hle : owed budget D new ≤ new.card * copies D k :=
          owed_le_card_mul budget D fun m' hm' => by
            have hlt := hbudget m' hm'
            omega
        have hcopies : new.card * copies D k ≤ D * copies D k := Nat.mul_le_mul_right _ hcard
        rw [copies_succ]
        omega
    omega

/-- **Every run**: the messages taken out and those on their way are no more than those put in
become. -/
theorem taken_add_card_le {s s' : Relay M} (h : Within budget D K s)
    (hrun : Relation.ReflTransGen (Step budget D K) s s') :
    s'.taken + s'.pending.card ≤ s'.injected * copies D K := by
  have hwithin : Within budget D K s' := by
    induction hrun with
    | refl => exact h
    | tail _ hlast ih => exact ih.step budget D K hlast
  have hcard := card_le_owed budget D s'.pending
  unfold Within at hwithin
  omega

end Relay
