import Mathlib.Data.List.Pairwise
import Mathlib.Logic.Relation

/-!
# Receivers that take the next number only

A sender numbers what it sends, one number after the other; a receiver remembers the number it took
last and takes nothing but its successor.

* **`Consecutive`** — the numbers taken so far, in order, and the last one; **`map_toNat`** reads
  them as natural numbers, as long as they do not wrap.
* **`admitted`** — what of any stream the receiver takes: all of it, if it goes on where the
  receiver is (`admitted_of_consecutive`), and all but the numbers it had before, if it starts anew
  (`admitted_eq_drop`).
* **`Link`** — sender, channel and receiver.  The channel keeps the order and may lose packets.
* **`Link.Inv.next_iff`** — what arrives is the next number exactly if no smaller one is missing.
-/

namespace SuccessorGate

/-! ## Consecutive numbers

Numbers of any type with a successor that may wrap.  Below the bound they are read as natural
numbers. -/

section Consecutive

variable {N : Type*} {succ : N → N}

/-- `taken` are the numbers after `start`, each the successor of the one before; `last` is the last
of them, or `start`. -/
inductive Consecutive (succ : N → N) (start : N) : List N → N → Prop where
  | nil : Consecutive succ start [] start
  | snoc {taken : List N} {last : N} (h : Consecutive succ start taken last) :
      Consecutive succ start (taken ++ [succ last]) (succ last)

variable {start mid last : N} {taken later : List N}

/-- Where nothing is taken, the last number is still the start. -/
theorem Consecutive.last_eq (h : Consecutive succ start taken last) (htaken : taken = []) :
    last = start := by
  cases h with
  | nil => rfl
  | snoc => exact absurd htaken (List.append_ne_nil_of_right_ne_nil _ (List.cons_ne_nil _ _))

/-- Numbers taken from where the first ones ended. -/
theorem Consecutive.append (h : Consecutive succ start taken mid)
    (h' : Consecutive succ mid later last) : Consecutive succ start (taken ++ later) last := by
  induction h' with
  | nil =>
    rw [List.append_nil]
    exact h
  | snoc _ ih =>
    rw [← List.append_assoc]
    exact .snoc ih

/-- The first number taken is the successor of the start. -/
theorem Consecutive.of_cons {n : N} {numbers : List N} (h : Consecutive succ start numbers last)
    (hnumbers : numbers = n :: later) : n = succ start ∧ Consecutive succ n later last := by
  induction h generalizing later with
  | nil => cases hnumbers
  | @snoc taken last hbefore ih =>
    cases taken with
    | nil =>
      obtain ⟨rfl, rfl⟩ := List.cons.inj hnumbers
      rw [hbefore.last_eq rfl]
      exact ⟨rfl, .nil⟩
    | cons m taken =>
      obtain ⟨rfl, rfl⟩ := List.cons.inj hnumbers
      obtain ⟨hfirst, hrest⟩ := ih rfl
      exact ⟨hfirst, hrest.snoc⟩

/-- **Below the bound** where `succ` wraps, consecutive numbers are the next natural numbers. -/
theorem Consecutive.map_toNat (toNat : N → ℕ) {bound : ℕ}
    (hsucc : ∀ n, toNat n + 1 < bound → toNat (succ n) = toNat n + 1)
    (h : Consecutive succ start taken last) (hfew : toNat start + taken.length < bound) :
    taken.map toNat = List.range' (toNat start + 1) taken.length ∧
      toNat last = toNat start + taken.length := by
  induction h with
  | nil => exact ⟨rfl, rfl⟩
  | @snoc taken last _ ih =>
    rw [List.length_append, List.length_singleton] at hfew ⊢
    obtain ⟨htaken, hlast⟩ := ih (by omega)
    -- the new number does not wrap
    have hnew : toNat (succ last) = toNat start + 1 + taken.length := by
      rw [hsucc last (by omega), hlast]
      omega
    constructor
    · rw [List.map_append, htaken, List.map_singleton, hnew, List.range'_concat, Nat.one_mul]
    · rw [hnew]
      omega

end Consecutive

/-! ## Any stream

Nothing is said here of where the stream comes from: it may repeat, skip or mix.  What is taken is
the successors, in their order. -/

section Admitted

variable {N α : Type*} [DecidableEq N]

/-- What of a stream a receiver takes that took `last` before it. -/
def admitted (succ : N → N) (number : α → N) (last : N) : List α → List α
  | [] => []
  | a :: l =>
    if number a = succ last then a :: admitted succ number (number a) l
    else admitted succ number last l

variable {succ : N → N} {number : α → N} {last : N}

/-- What has another number is passed over. -/
theorem admitted_append_of_ne {l : List α} (h : ∀ a ∈ l, number a ≠ succ last) (l' : List α) :
    admitted succ number last (l ++ l') = admitted succ number last l' := by
  induction l with
  | nil => rfl
  | cons a l ih =>
    obtain ⟨ha, hl⟩ := List.forall_mem_cons.mp h
    show (if number a = succ last then _ else admitted succ number last (l ++ l')) = _
    rw [if_neg ha]
    exact ih hl

/-- **A stream that goes on** where the receiver is, is taken, and so is any beginning of it. -/
theorem admitted_of_consecutive {l l' : List α} {end' : N}
    (h : Consecutive succ last ((l ++ l').map number) end') :
    admitted succ number last l = l := by
  induction l generalizing last with
  | nil => rfl
  | cons a l ih =>
    obtain ⟨ha, hrest⟩ := h.of_cons rfl
    show (if number a = succ last then a :: admitted succ number (number a) l else _) = _
    rw [if_pos ha, ih hrest]

/-- **A stream that starts anew**, with the numbers 1, 2, 3, …, is taken from the next number on. -/
theorem admitted_eq_drop (toNat : N → ℕ)
    (hsucc : ∀ n k, 0 < toNat k → (k = succ n ↔ toNat k = toNat n + 1)) {l : List α}
    (h : l.map (fun a => toNat (number a)) = List.range' 1 l.length) :
    admitted succ number last l = l.drop (toNat last) := by
  -- from the next number on all is taken
  have htaken : ∀ (l : List α) (last : N),
      l.map (fun a => toNat (number a)) = List.range' (toNat last + 1) l.length →
      admitted succ number last l = l := by
    intro l
    induction l with
    | nil => exact fun _ _ => rfl
    | cons a l ih =>
      intro last h
      rw [List.map_cons, List.length_cons, List.range'_succ] at h
      obtain ⟨ha, hrest⟩ := List.cons.inj h
      show (if number a = succ last then a :: admitted succ number (number a) l else _) = _
      rw [if_pos ((hsucc last _ (by omega)).mpr ha), ih (number a) (by rw [ha]; exact hrest)]
  -- the numbers up to the last one are no successors of it
  have hbefore : ∀ a ∈ l.take (toNat last), number a ≠ succ last := by
    intro a ha heq
    obtain ⟨i, hi, rfl⟩ := List.mem_iff_getElem.mp ha
    rw [List.length_take] at hi
    rw [List.getElem_take] at heq
    have hnumber : toNat (number l[i]) = i + 1 := by
      have hget := congrArg (fun numbers => numbers[i]?) h
      simp only [List.getElem?_map, List.getElem?_eq_getElem (show i < l.length by omega),
        List.getElem?_range' (show i < l.length by omega), Option.map_some, Option.some_inj] at hget
      omega
    rw [hsucc last _ (by omega)] at heq
    omega
  have hafter : (l.drop (toNat last)).map (fun a => toNat (number a))
      = List.range' (toNat last + 1) (l.drop (toNat last)).length := by
    rw [List.map_drop, h, List.drop_range', List.length_drop, Nat.mul_one, Nat.add_comm 1]
  have hskip := admitted_append_of_ne hbefore (l.drop (toNat last))
  rw [List.take_append_drop] at hskip
  rw [hskip]
  exact htaken _ last hafter

end Admitted

/-! ## A link that loses

Sender, channel and receiver in one state, with the order of the numbers as the core of the
invariant.  Since numbers arrive in order, one that is missing when a larger one arrives was lost.
-/

/-- A sender, a channel and a receiver: the numbers used, those on their way (oldest first), all
that arrived, and the last one the receiver took. -/
structure Link where
  used : ℕ
  inFlight : List ℕ
  arrived : List ℕ
  accepted : ℕ

namespace Link

/-- The receiver takes the successor of the last number it took. -/
def take (l : Link) (n : ℕ) : ℕ := if n = l.accepted + 1 then n else l.accepted

/-- One step. -/
inductive Step : Link → Link → Prop where
  /-- A number is used, and what carries it is on its way. -/
  | send (l : Link) : Step l { l with used := l.used + 1, inFlight := l.inFlight ++ [l.used + 1] }
  /-- A number is used for something that never gets on its way. -/
  | skip (l : Link) : Step l { l with used := l.used + 1 }
  | lose {l : Link} {inFlight : List ℕ} (h : inFlight.Sublist l.inFlight) :
      Step l { l with inFlight }
  | deliver {l : Link} {n : ℕ} {inFlight : List ℕ} (h : l.inFlight = n :: inFlight) :
      Step l { l with inFlight, arrived := l.arrived ++ [n], accepted := l.take n }

/-- Numbers arrive in the order of sending; everything up to the last number taken has arrived, and
the next one has not. -/
structure Inv (l : Link) : Prop where
  sorted : (l.arrived ++ l.inFlight).Pairwise (· < ·)
  pos : ∀ n ∈ l.inFlight, 0 < n
  le_used : ∀ n ∈ l.arrived ++ l.inFlight, n ≤ l.used
  accepted_arrived : ∀ j, 0 < j → j ≤ l.accepted → j ∈ l.arrived
  next_not_arrived : l.accepted + 1 ∉ l.arrived

theorem inv_start : Inv ⟨0, [], [], 0⟩ where
  sorted := List.Pairwise.nil
  pos _ hn := absurd hn List.not_mem_nil
  le_used _ hn := absurd hn List.not_mem_nil
  accepted_arrived _ hpos hle := absurd hpos (Nat.not_lt.mpr hle)
  next_not_arrived := List.not_mem_nil

variable {l l' : Link} {n : ℕ} {rest : List ℕ}

/-- What is on its way comes after all that arrived. -/
theorem Inv.arrived_lt (h : Inv l) (hnext : l.inFlight = n :: rest) : ∀ j ∈ l.arrived, j < n := by
  intro j hj
  have hsorted := List.pairwise_append.mp h.sorted
  exact hsorted.2.2 j hj n (by rw [hnext]; exact List.mem_cons_self)

/-- **Losses.** What arrives is the next number exactly if every smaller number arrived before. -/
theorem Inv.next_iff (h : Inv l) (hnext : l.inFlight = n :: rest) :
    n = l.accepted + 1 ↔ ∀ j, 0 < j → j < n → j ∈ l.arrived := by
  have hlt := h.arrived_lt hnext
  constructor
  · intro hn j hpos hj
    exact h.accepted_arrived j hpos (by omega)
  · intro hall
    rcases Nat.lt_trichotomy n (l.accepted + 1) with hbelow | heq | habove
    · -- a number taken before would have arrived a second time
      have hpos : 0 < n := h.pos n (by rw [hnext]; exact List.mem_cons_self)
      have hagain := hlt n (h.accepted_arrived n hpos (by omega))
      omega
    · exact heq
    · -- the next number is one of the smaller ones, and it has not arrived
      exact absurd (hall (l.accepted + 1) (by omega) habove) h.next_not_arrived

theorem Inv.send (h : Inv l) :
    Inv { l with used := l.used + 1, inFlight := l.inFlight ++ [l.used + 1] } := by
  have hused : ∀ n ∈ (l.arrived ++ l.inFlight) ++ [l.used + 1], n ≤ l.used + 1 := by
    intro n hn
    rcases List.mem_append.mp hn with hold | hnew
    · exact Nat.le_succ_of_le (h.le_used n hold)
    · exact Nat.le_of_eq (List.mem_singleton.mp hnew)
  refine ⟨?_, ?_, ?_, h.accepted_arrived, h.next_not_arrived⟩
  · show (l.arrived ++ (l.inFlight ++ [l.used + 1])).Pairwise (· < ·)
    rw [← List.append_assoc]
    refine List.pairwise_append.mpr ⟨h.sorted, List.pairwise_singleton _ _, ?_⟩
    intro a ha b hb
    rw [List.mem_singleton.mp hb]
    exact Nat.lt_succ_of_le (h.le_used a ha)
  · intro n hn
    rcases List.mem_append.mp hn with hold | hnew
    · exact h.pos n hold
    · rw [List.mem_singleton.mp hnew]
      exact Nat.succ_pos _
  · intro n hn
    rw [← List.append_assoc] at hn
    exact hused n hn

theorem Inv.skip (h : Inv l) : Inv { l with used := l.used + 1 } :=
  ⟨h.sorted, h.pos, fun n hn => Nat.le_succ_of_le (h.le_used n hn), h.accepted_arrived,
    h.next_not_arrived⟩

theorem Inv.lose (h : Inv l) {inFlight : List ℕ} (hsub : inFlight.Sublist l.inFlight) :
    Inv { l with inFlight } := by
  have happ : (l.arrived ++ inFlight).Sublist (l.arrived ++ l.inFlight) :=
    (List.Sublist.refl _).append hsub
  exact ⟨h.sorted.sublist happ, fun n hn => h.pos n (hsub.subset hn),
    fun n hn => h.le_used n (happ.subset hn), h.accepted_arrived, h.next_not_arrived⟩

theorem Inv.deliver (h : Inv l) (hnext : l.inFlight = n :: rest) :
    Inv { l with inFlight := rest, arrived := l.arrived ++ [n], accepted := l.take n } := by
  have hlt := h.arrived_lt hnext
  have hsplit : l.arrived ++ [n] ++ rest = l.arrived ++ l.inFlight := by
    rw [hnext, List.append_assoc, List.singleton_append]
  have hold : ∀ j, 0 < j → j ≤ l.accepted → j ∈ l.arrived ++ [n] := fun j hpos hle =>
    List.mem_append_left _ (h.accepted_arrived j hpos hle)
  refine ⟨by rw [hsplit]; exact h.sorted, ?_, by rw [hsplit]; exact h.le_used, ?_, ?_⟩
  · exact fun j hj => h.pos j (by rw [hnext]; exact List.mem_cons_of_mem n hj)
  · intro j hpos hle
    replace hle : j ≤ l.take n := hle
    unfold take at hle
    split at hle
    · -- the number taken is the only one beyond the old ones
      rename_i heq
      rcases Nat.lt_or_ge j n with hj | hj
      · exact hold j hpos (by omega)
      · rw [show j = n by omega]
        exact List.mem_append_right _ List.mem_cons_self
    · exact hold j hpos hle
  · show l.take n + 1 ∉ l.arrived ++ [n]
    unfold take
    intro hmem
    split at hmem
    · rcases List.mem_append.mp hmem with hj | hj
      · have := hlt _ hj
        omega
      · have := List.mem_singleton.mp hj
        omega
    · rename_i hne
      rcases List.mem_append.mp hmem with hj | hj
      · exact h.next_not_arrived hj
      · exact hne (List.mem_singleton.mp hj).symm

/-- A step keeps the invariant. -/
theorem Inv.step (h : Inv l) (hstep : Step l l') : Inv l' := by
  cases hstep with
  | send => exact h.send
  | skip => exact h.skip
  | lose hsub => exact h.lose hsub
  | deliver hnext => exact h.deliver hnext

/-- Any number of steps keeps the invariant. -/
theorem Inv.steps (h : Inv l) (hsteps : Relation.ReflTransGen Step l l') : Inv l' := by
  induction hsteps with
  | refl => exact h
  | tail _ hstep ih => exact ih.step hstep

/-- The numbers after `used`, of which only `sent` get on their way. -/
theorem steps_sends (count : ℕ) : ∀ (l : Link) (sent : List ℕ),
    sent.Sublist (List.range' (l.used + 1) count) →
    Relation.ReflTransGen Step l
      { l with used := l.used + count, inFlight := l.inFlight ++ sent } := by
  induction count with
  | zero =>
    intro l sent hsent
    rw [List.sublist_nil.mp hsent, List.append_nil]
    exact .refl
  | succ count ih =>
    intro l sent hsent
    rw [List.range'_succ] at hsent
    cases hsent with
    | cons _ hrest =>
      refine .head (.skip l) ?_
      have := ih { l with used := l.used + 1 } sent hrest
      rwa [show l.used + 1 + count = l.used + (count + 1) by omega] at this
    | @cons_cons sent _ _ hrest =>
      refine .head (.send l) ?_
      have := ih { l with used := l.used + 1, inFlight := l.inFlight ++ [l.used + 1] } sent hrest
      rwa [show l.used + 1 + count = l.used + (count + 1) by omega, List.append_assoc] at this

end Link

end SuccessorGate
