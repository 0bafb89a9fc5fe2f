import Icsn.DataAccess.FixedSizeLRUCache
import Icsn.Lib.LinkedRing

/-!
# Icsn — the list of the cache

The doubly linked list the cache keeps through its entries.

* **`FixedSizeLRUCache.links`** — the list as a doubly linked ring through `none`, the source's
  `-1`: `head` is the successor of `none` and `tail` its predecessor.
* **`ring_linkFront`** / **`ring_removeFromList`** / **`ring_moveToFront`** — what the three list
  routines of the source do to the ring.
-/

namespace Icsn

variable {V : Type} {maxSize : Nat}

namespace FixedSizeLRUCache

/-! ## The list as a ring

With the two ends as the links of `none`, the list has no special cases: the first entry follows
`none` and the last comes before it.  Each write of the source is then one update of the links. -/

/-- The links of the entries; `head` and `tail` are those of `none`. -/
def links (c : FixedSizeLRUCache V maxSize) : Links (Option (Fin maxSize)) where
  next
    | none => c.head
    | some i => (c.entries i).next
  prev
    | none => c.tail
    | some i => (c.entries i).prev

section Writes

variable (c : FixedSizeLRUCache V maxSize) (i : Fin maxSize) (o p : Option (Fin maxSize))

@[simp] theorem links_next_none : c.links.next none = c.head := rfl

@[simp] theorem links_prev_none : c.links.prev none = c.tail := rfl

@[simp] theorem links_next_some : c.links.next (some i) = (c.entries i).next := rfl

@[simp] theorem links_prev_some : c.links.prev (some i) = (c.entries i).prev := rfl

/-- Two caches with the same links at every index and at the ends have the same links. -/
theorem links_ext {s : Links (Option (Fin maxSize))} (hhead : c.head = s.next none)
    (htail : c.tail = s.prev none) (hnext : ∀ j, (c.entries j).next = s.next (some j))
    (hprev : ∀ j, (c.entries j).prev = s.prev (some j)) : c.links = s := by
  obtain ⟨next, prev⟩ := s
  simp only [links, Links.mk.injEq]
  constructor
  · funext o
    cases o with
    | none => exact hhead
    | some j => exact hnext j
  · funext o
    cases o with
    | none => exact htail
    | some j => exact hprev j

theorem links_setPrev : (c.setPrev i p).links
    = { c.links with prev := Function.update c.links.prev (some i) p } := by
  apply links_ext
  · rfl
  · rfl
  · intro j
    rcases eq_or_ne j i with rfl | hji <;> simp [setPrev, *]
  · intro j
    rcases eq_or_ne j i with rfl | hji <;> simp [setPrev, *]

theorem links_setNext : (c.setNext i p).links
    = { c.links with next := Function.update c.links.next (some i) p } := by
  apply links_ext
  · rfl
  · rfl
  · intro j
    rcases eq_or_ne j i with rfl | hji <;> simp [setNext, *]
  · intro j
    rcases eq_or_ne j i with rfl | hji <;> simp [setNext, *]

theorem links_setHead : (c.setHead p).links
    = { c.links with next := Function.update c.links.next none p } := by
  apply links_ext
  · rfl
  · rfl
  · intro j; rfl
  · intro j; rfl

theorem links_setTail : (c.setTail p).links
    = { c.links with prev := Function.update c.links.prev none p } := by
  apply links_ext
  · rfl
  · rfl
  · intro j; rfl
  · intro j; rfl

/-- An entry may get another key, value or valid flag. -/
theorem links_update {entry : CacheEntry V maxSize} (hnext : entry.next = (c.entries i).next)
    (hprev : entry.prev = (c.entries i).prev) :
    { c with entries := Function.update c.entries i entry }.links = c.links := by
  apply links_ext
  · rfl
  · rfl
  · intro j
    rcases eq_or_ne j i with rfl | hji <;> simp [*]
  · intro j
    rcases eq_or_ne j i with rfl | hji <;> simp [*]

@[simp] theorem links_setValue (v : V) : (c.setValue i v).links = c.links :=
  links_update c i rfl rfl

@[simp] theorem links_fillEntry (key : Str) (v : V) : (c.fillEntry i key v).links = c.links :=
  links_update c i rfl rfl

@[simp] theorem links_dropEntry : (c.dropEntry i).links = c.links := links_update c i rfl rfl

@[simp] theorem links_setSlot (h : Fin (maxSize * 2)) : (c.setSlot h o).links = c.links := rfl

@[simp] theorem links_setSize (n : Nat) : (c.setSize n).links = c.links := rfl

end Writes

/-! ## The list routines

The routines read links again after they have written some.  The proofs follow the writes in the
order of the source, also for an entry that is its own neighbour, and arrive at the insertion and
the removal of `LinkedRing`. -/

section Routines

variable {c : FixedSizeLRUCache V maxSize} {i : Fin maxSize} {order : List (Fin maxSize)}

/-- Putting an entry at the front is the insertion behind `none`, when no end is missing alone. -/
theorem links_linkFront (hends : c.head = none ↔ c.tail = none) :
    (c.linkFront i).links = c.links.insertAfter none (some i) := by
  cases hhead : c.head with
  | none =>
    have htail : c.tail = none := hends.mp hhead
    have hlink : c.linkFront i
        = (((c.setPrev i none).setNext i none).setHead (some i)).setTail (some i) := by
      simp [linkFront, hhead, setPrevOf, setPrev, setNext, setHead, htail]
    rw [hlink, links_setTail, links_setHead, links_setNext, links_setPrev]
    simp [Links.insertAfter, hhead]
  | some j =>
    have htail : c.tail ≠ none := fun htail => by
      rw [hends.mpr htail] at hhead; cases hhead
    have hlink : c.linkFront i
        = (((c.setPrev i none).setNext i (some j)).setPrev j (some i)).setHead (some i) := by
      simp [linkFront, hhead, setPrevOf, setPrev, setNext, setHead, htail]
    rw [hlink, links_setHead, links_setPrev, links_setNext, links_setPrev]
    simp [Links.insertAfter, hhead]

omit c i order in
theorem unlink_next_self (s : Links (Option (Fin maxSize))) (x : Option (Fin maxSize)) :
    Function.update s.next (s.prev x) (s.next x) x = s.next x := by
  rcases eq_or_ne x (s.prev x) with hx | hx
  · rw [← hx, Function.update_self]
  · rw [Function.update_of_ne hx]

omit order in
/-- Once its predecessor leads past entry `i`, the entry's own links are read again; they are as
they were, even if it were its own neighbour. -/
theorem own_links_of_next_skipped {d : FixedSizeLRUCache V maxSize}
    (hlinks : d.links = { c.links with
      next := Function.update c.links.next (c.links.prev (some i)) (c.links.next (some i)) }) :
    (d.entries i).next = (c.entries i).next ∧ (d.entries i).prev = (c.entries i).prev := by
  constructor
  · rw [← links_next_some, hlinks]
    exact unlink_next_self c.links (some i)
  · rw [← links_prev_some, hlinks]
    rfl

/-- The write of a successor; the head is that of no entry. -/
def setNextAt (c : FixedSizeLRUCache V maxSize) (o n : Option (Fin maxSize)) :
    FixedSizeLRUCache V maxSize :=
  match o with
  | some p => c.setNext p n
  | none => c.setHead n

/-- The write of a predecessor; the tail is that of no entry. -/
def setPrevAt (c : FixedSizeLRUCache V maxSize) (o p : Option (Fin maxSize)) :
    FixedSizeLRUCache V maxSize :=
  match o with
  | some n => c.setPrev n p
  | none => c.setTail p

omit i order in
theorem links_setNextAt (o n : Option (Fin maxSize)) : (c.setNextAt o n).links
    = { c.links with next := Function.update c.links.next o n } := by
  cases o with
  | none => exact links_setHead c n
  | some p => exact links_setNext c p n

omit i order in
theorem links_setPrevAt (o p : Option (Fin maxSize)) : (c.setPrevAt o p).links
    = { c.links with prev := Function.update c.links.prev o p } := by
  cases o with
  | none => exact links_setTail c p
  | some n => exact links_setPrev c n p

/-- Taking an entry out of the list also clears its own links. -/
theorem links_removeFromList : (c.removeFromList i).links
    = { next := Function.update (c.links.unlink (some i)).next (some i) none
        prev := Function.update (c.links.unlink (some i)).prev (some i) none } := by
  obtain ⟨d, hd⟩ : ∃ d, d = c.setNextAt (c.entries i).prev (c.entries i).next := ⟨_, rfl⟩
  have hdlinks : d.links = { c.links with
      next := Function.update c.links.next (c.links.prev (some i)) (c.links.next (some i)) } := by
    rw [hd]
    exact links_setNextAt _ _
  obtain ⟨hnext, hprev⟩ := own_links_of_next_skipped hdlinks
  have hfold : c.removeFromList i
      = ((d.setPrevAt (d.entries i).next (d.entries i).prev).setPrev i none).setNext i none := by
    rw [hd]
    rfl
  rw [hfold, links_setNext, links_setPrev, links_setPrevAt, hdlinks, hnext, hprev]
  rfl

theorem ring_removeFromList {l₁ l₂ : List (Fin maxSize)}
    (h : c.links.IsRing none ((l₁ ++ i :: l₂).map some)) :
    (c.removeFromList i).links.IsRing none ((l₁ ++ l₂).map some) := by
  rw [List.map_append, List.map_cons] at h
  have hne : ∀ x ∈ none :: (l₁.map some ++ l₂.map some), x ≠ some i := fun x hx heq =>
    h.notMem_rest (heq ▸ hx)
  rw [List.map_append]
  refine h.unlink.congr (fun x hx => ?_) (fun x hx => ?_)
  · rw [links_removeFromList]
    exact Function.update_of_ne (hne x hx) _ _
  · rw [links_removeFromList]
    exact Function.update_of_ne (hne x hx) _ _

/-- In a ring the head is missing exactly when the tail is. -/
theorem head_eq_none_iff (h : c.links.IsRing none (order.map some)) :
    c.head = none ↔ c.tail = none := by
  have hbase : none ∈ none :: order.map some := List.mem_cons_self
  constructor
  · intro hhead
    have hprev := h.prev_next none hbase
    rwa [links_next_none, hhead] at hprev
  · intro htail
    have hnext := h.next_prev hbase
    rwa [links_prev_none, htail] at hnext

theorem ring_linkFront (h : c.links.IsRing none (order.map some)) (hi : i ∉ order) :
    (c.linkFront i).links.IsRing none ((i :: order).map some) := by
  rw [links_linkFront (head_eq_none_iff h), List.map_cons]
  exact h.insertAfter (by simpa using hi)

/-- `moveToFront` away from the head: the entry is taken out and put at the front. -/
theorem exists_unlinked_of_moveToFront (hhead : c.head ≠ some i)
    (hprev : (c.entries i).prev ≠ none)
    (htail : c.tail = some i ↔ (c.entries i).next = none) :
    ∃ d : FixedSizeLRUCache V maxSize,
      c.moveToFront i = d.linkFront i ∧ d.links = c.links.unlink (some i) := by
  obtain ⟨p, hp⟩ := Option.ne_none_iff_exists'.mp hprev
  -- the predecessor's link
  obtain ⟨d, hd⟩ : ∃ d, d = c.setNext p (c.entries i).next := ⟨_, rfl⟩
  have hdlinks : d.links = { c.links with
      next := Function.update c.links.next (c.links.prev (some i)) (c.links.next (some i)) } := by
    rw [hd, links_setNext, links_prev_some, hp]; rfl
  obtain ⟨hdnext, hdprev⟩ := own_links_of_next_skipped hdlinks
  have hmove : c.moveToFront i
      = (let e := d.setPrevOf (d.entries i).next (d.entries i).prev
         if e.tail = some i then e.setTail (e.entries i).prev else e).linkFront i := by
    unfold moveToFront
    rw [if_neg hhead, hp, hd]; rfl
  refine ⟨_, hmove, ?_⟩
  rw [hdnext, hdprev]
  cases hn : (c.entries i).next with
  | none =>
    -- the last entry: the tail moves instead of a successor's link
    have hdtail : d.tail = some i := by rw [hd]; exact htail.mpr hn
    show (if d.tail = some i then d.setTail (d.entries i).prev else d).links = _
    rw [if_pos hdtail, links_setTail, hdprev, hdlinks]
    simp [Links.unlink, hn]
  | some n =>
    have hdtail : d.tail ≠ some i := by
      rw [hd]
      intro ht
      rw [htail.mp ht] at hn
      cases hn
    show (if d.tail = some i then (d.setPrev n (c.entries i).prev).setTail _
      else d.setPrev n (c.entries i).prev).links = _
    rw [if_neg hdtail, links_setPrev, hdlinks]
    simp [Links.unlink, hn]

theorem ring_moveToFront {l₁ l₂ : List (Fin maxSize)}
    (h : c.links.IsRing none ((l₁ ++ i :: l₂).map some)) :
    (c.moveToFront i).links.IsRing none ((i :: (l₁ ++ l₂)).map some) := by
  have hbase : none ∈ none :: (l₁ ++ i :: l₂).map some := List.mem_cons_self
  have hi : some i ∈ none :: (l₁ ++ i :: l₂).map some := by simp
  have hnot : i ∉ l₁ ++ l₂ := by
    have hmid := (List.nodup_cons.mp h.nodup).2.of_map
    rw [List.nodup_middle, List.nodup_cons] at hmid
    exact hmid.1
  by_cases hhead : c.head = some i
  · -- already there
    have hmove : c.moveToFront i = c := if_pos hhead
    have hl₁ : l₁ = [] := by
      cases l₁ with
      | nil => rfl
      | cons j l₁ =>
        have hj : c.links.next none = some j := (List.isChain_cons_cons.mp h.path).1
        rw [links_next_none, hhead, Option.some.injEq] at hj
        exact absurd (by simp [hj]) hnot
    rw [hmove, hl₁]
    rwa [hl₁] at h
  · -- further back: it has a predecessor, and it is the last one exactly if nothing follows it
    have hprev : (c.entries i).prev ≠ none := by
      intro hp
      have hnext := h.next_prev hi
      rw [links_prev_some, hp, links_next_none] at hnext
      exact hhead hnext
    have htail : c.tail = some i ↔ (c.entries i).next = none := by
      constructor
      · intro ht
        have hnext := h.next_prev hbase
        rwa [links_prev_none, ht, links_next_some] at hnext
      · intro hn
        have hback := h.prev_next (some i) hi
        rwa [links_next_some, hn, links_prev_none] at hback
    obtain ⟨d, hd, hdlinks⟩ := exists_unlinked_of_moveToFront hhead hprev htail
    rw [List.map_append, List.map_cons] at h
    have hout := h.unlink
    rw [← List.map_append, ← hdlinks] at hout
    rw [hd]
    exact ring_linkFront hout hnot

end Routines

end FixedSizeLRUCache

end Icsn
