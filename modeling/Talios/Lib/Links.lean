import Mathlib.Tactic
import Mathlib.Data.List.Rotate

set_option autoImplicit false

/-! # Circular doubly linked lists

Nodes with a pointer to the next and one to the previous node. `Circular h l` says that the nodes of
`l` are linked to a ring, in this order; where the ring is cut open does not matter
(`Circular.rotate`). Unlinking a node takes it out of its ring and links it to itself. A ring depends
on the pointers of its nodes only, so that neither this nor putting a node in changes another ring.
-/

namespace Links

/-- The pointers of all nodes. -/
structure Heap (N : Type) where
  next : N → N
  prev : N → N

section

variable {N : Type}

/-- `b` comes after `a`. -/
def Linked (h : Heap N) (a b : N) : Prop := h.next a = b ∧ h.prev b = a

/-- `a` is linked to itself. -/
def Heap.Alone (h : Heap N) (a : N) : Prop := h.next a = a ∧ h.prev a = a

/-- The nodes of `l` are linked to a ring. -/
structure Circular (h : Heap N) (l : List N) : Prop where
  nodup : l.Nodup
  linked : ∀ (i : Nat) (a b : N), l[i]? = some a → l[(i + 1) % l.length]? = some b → Linked h a b

variable {h h' : Heap N} {l m xs ys : List N} {a b : N}

/-- The ring is the same wherever it is cut open. -/
theorem Circular.rotate (hc : Circular h l) (n : Nat) : Circular h (l.rotate n) := by
  refine ⟨List.nodup_rotate.mpr hc.nodup, fun i a b ha hb => ?_⟩
  have hi : i < l.length := by
    have := (List.getElem?_eq_some_iff.mp ha).1
    rwa [List.length_rotate] at this
  have hlen : 0 < l.length := by omega
  rw [List.getElem?_rotate hi] at ha
  rw [List.length_rotate, List.getElem?_rotate (Nat.mod_lt _ hlen)] at hb
  apply hc.linked ((i + n) % l.length) a b ha
  rw [Nat.mod_add_mod, Nat.add_right_comm, ← Nat.mod_add_mod]
  exact hb

theorem Circular.append_comm (hc : Circular h (xs ++ ys)) : Circular h (ys ++ xs) := by
  have := hc.rotate xs.length
  rwa [List.rotate_append_length_eq] at this

/-- The neighbours of the first node. -/
theorem Circular.head (hc : Circular h (a :: m)) :
    h.next a = (m ++ [a]).headD a ∧ h.prev a = (a :: m).getLastD a := by
  constructor
  · cases m with
    | nil => exact (hc.linked 0 a a rfl (by simp)).1
    | cons b m =>
        have hmod : (0 + 1) % (a :: b :: m).length = 1 := Nat.mod_eq_of_lt (by simp)
        exact (hc.linked 0 a b rfl (by rw [hmod]; rfl)).1
  · have hlast : (a :: m)[m.length]? = some ((a :: m).getLastD a) := by
      rw [List.getLastD_eq_getLast?, List.getLast?_eq_getElem?]
      simp
    have hmod : (m.length + 1) % (a :: m).length = 0 := by
      rw [List.length_cons, Nat.mod_self]
    exact (hc.linked m.length _ a hlast (by rw [hmod]; rfl)).2

/-- A node alone is a ring exactly if it is linked to itself. -/
theorem circular_singleton : Circular h [a] ↔ h.Alone a := by
  constructor
  · intro hc
    exact hc.linked 0 a a rfl (by simp)
  · intro hself
    refine ⟨List.nodup_singleton a, fun i x y hx hy => ?_⟩
    have hx := List.mem_singleton.mp (List.mem_of_getElem? hx)
    have hy := List.mem_singleton.mp (List.mem_of_getElem? hy)
    rw [hx, hy]
    exact hself

/-- The node is alone exactly if it is the only one of its ring. -/
theorem Circular.alone_iff (hc : Circular h (a :: m)) : h.Alone a ↔ m = [] := by
  constructor
  · intro halone
    cases m with
    | nil => rfl
    | cons b m =>
        have hmod : (0 + 1) % (a :: b :: m).length = 1 := Nat.mod_eq_of_lt (by simp)
        have hb : h.next a = b := (hc.linked 0 a b rfl (by rw [hmod]; rfl)).1
        have hab : a = b := halone.1.symm.trans hb
        exact absurd (hab ▸ List.mem_cons_self) (List.nodup_cons.mp hc.nodup).1
  · rintro rfl
    exact circular_singleton.mp hc

/-- A ring as a chain that ends where it starts. -/
theorem circular_cons_iff : Circular h (a :: m) ↔
    (a :: m).Nodup ∧ List.IsChain (Linked h) (a :: m ++ [a]) := by
  have hlen : (a :: m ++ [a]).length = (a :: m).length + 1 := by simp
  -- the node after the last is the first
  have hnext : ∀ i < (a :: m).length,
      (a :: m ++ [a])[i + 1]? = (a :: m)[(i + 1) % (a :: m).length]? := by
    intro i hi
    by_cases hend : i + 1 = (a :: m).length
    · rw [hend, Nat.mod_self, List.getElem?_append_right le_rfl, Nat.sub_self]
      rfl
    · rw [Nat.mod_eq_of_lt (by omega), List.getElem?_append_left (by omega)]
  constructor
  · intro hc
    refine ⟨hc.nodup, List.isChain_iff_getElem.mpr (fun i hi => ?_)⟩
    have hi' : i < (a :: m).length := by omega
    refine hc.linked i _ _ ?_ ((hnext i hi').symm.trans (List.getElem?_eq_getElem hi))
    rw [← List.getElem?_append_left hi', List.getElem?_eq_getElem]
  · rintro ⟨hnd, hchain⟩
    refine ⟨hnd, fun i x y hx hy => ?_⟩
    have hi : i < (a :: m).length := (List.getElem?_eq_some_iff.mp hx).1
    have hlink := List.isChain_iff_getElem.mp hchain i (by omega)
    rw [← hnext i hi] at hy
    have hx' : (a :: m ++ [a])[i]? = some x := (List.getElem?_append_left hi).trans hx
    obtain ⟨-, rfl⟩ := List.getElem?_eq_some_iff.mp hx'
    obtain ⟨-, rfl⟩ := List.getElem?_eq_some_iff.mp hy
    exact hlink

/-- A ring depends on the pointers of its nodes only. -/
theorem Circular.congr (hc : Circular h l)
    (hsame : ∀ x ∈ l, h'.next x = h.next x ∧ h'.prev x = h.prev x) : Circular h' l := by
  refine ⟨hc.nodup, fun i x y hx hy => ?_⟩
  obtain ⟨h1, h2⟩ := hc.linked i x y hx hy
  exact ⟨(hsame x (List.mem_of_getElem? hx)).1.trans h1,
    (hsame y (List.mem_of_getElem? hy)).2.trans h2⟩

theorem Circular.head_mem (hc : Circular h (a :: m)) : h.next a ∈ a :: m ∧ h.prev a ∈ a :: m := by
  obtain ⟨hn, hp⟩ := hc.head
  constructor
  · rw [hn]
    cases m with
    | nil => simp
    | cons b m => simp
  · rw [hp, List.getLastD_eq_getLast?, List.getLast?_eq_getElem?]
    simp

theorem Circular.next_mem (hc : Circular h l) (ha : a ∈ l) : h.next a ∈ l := by
  obtain ⟨xs, ys, rfl⟩ := List.append_of_mem ha
  have hmem : h.next a ∈ a :: ys ++ xs := hc.append_comm.head_mem.1
  exact List.perm_append_comm.mem_iff.mp hmem

end

section

variable {N : Type} [DecidableEq N]

def Heap.setNext (h : Heap N) (a b : N) : Heap N := { h with next := Function.update h.next a b }

def Heap.setPrev (h : Heap N) (a b : N) : Heap N := { h with prev := Function.update h.prev a b }

/-- The neighbours of `a` are linked to each other, and `a` to itself. -/
def Heap.unlink (h : Heap N) (a : N) : Heap N :=
  let h₁ := h.setNext (h.prev a) (h.next a)
  let h₂ := h₁.setPrev (h₁.next a) (h₁.prev a)
  (h₂.setPrev a a).setNext a a

instance (h : Heap N) (a : N) : Decidable (h.Alone a) := inferInstanceAs (Decidable (_ ∧ _))

variable {h : Heap N} {l m xs ys : List N} {a b x : N}

theorem unlink_next : (h.unlink a).next x
    = if x = a then a else if x = h.prev a then h.next a else h.next x := by
  simp only [Heap.unlink, Heap.setNext, Heap.setPrev, Function.update_apply]

theorem unlink_prev : (h.unlink a).prev x
    = if x = a then a else if x = h.next a then h.prev a else h.prev x := by
  have hnext : (if a = h.prev a then h.next a else h.next a) = h.next a := ite_self _
  simp only [Heap.unlink, Heap.setNext, Heap.setPrev, Function.update_apply, hnext]

theorem unlink_alone : (h.unlink a).Alone a := by
  constructor
  · rw [unlink_next, if_pos rfl]
  · rw [unlink_prev, if_pos rfl]

theorem unlink_next_of_ne (h1 : x ≠ a) (h2 : x ≠ h.prev a) : (h.unlink a).next x = h.next x := by
  rw [unlink_next, if_neg h1, if_neg h2]

theorem unlink_prev_of_ne (h1 : x ≠ a) (h2 : x ≠ h.next a) : (h.unlink a).prev x = h.prev x := by
  rw [unlink_prev, if_neg h1, if_neg h2]

/-- The first node is unlinked. -/
theorem Circular.unlink_head (hc : Circular h (a :: m)) : Circular (h.unlink a) m := by
  have hnodup := List.nodup_cons.mp hc.nodup
  refine ⟨hnodup.2, fun i x y hx hy => ?_⟩
  have hi : i < m.length := (List.getElem?_eq_some_iff.mp hx).1
  have hxm := List.mem_of_getElem? hx
  have hym := List.mem_of_getElem? hy
  have hxa : x ≠ a := fun h => hnodup.1 (h ▸ hxm)
  have hya : y ≠ a := fun h => hnodup.1 (h ▸ hym)
  have hlen : (a :: m).length = m.length + 1 := List.length_cons
  -- the neighbours of `a` are the first and the last node of the rest
  have hfirst : ∀ z, m[0]? = some z → h.next a = z := by
    intro z hz
    have hmod : (0 + 1) % (a :: m).length = 1 := Nat.mod_eq_of_lt (by omega)
    exact (hc.linked 0 a z rfl (by rw [hmod]; exact hz)).1
  have hlast : ∀ z, m[m.length - 1]? = some z → h.prev a = z := by
    intro z hz
    have hmod : (m.length + 1) % (a :: m).length = 0 := by rw [hlen, Nat.mod_self]
    have hz' : (a :: m)[m.length]? = some z := by
      rw [show m.length = m.length - 1 + 1 by omega, List.getElem?_cons_succ]
      exact hz
    exact (hc.linked m.length z a hz' (by rw [hmod]; rfl)).2
  by_cases hend : i + 1 = m.length
  · -- the link from the last node to the first
    rw [hend, Nat.mod_self] at hy
    have hprev : h.prev a = x := hlast x (by rw [← hend]; exact hx)
    have hnext : h.next a = y := hfirst y hy
    constructor
    · rw [unlink_next, if_neg hxa, if_pos hprev.symm, hnext]
    · rw [unlink_prev, if_neg hya, if_pos hnext.symm, hprev]
  · rw [Nat.mod_eq_of_lt (by omega)] at hy
    have hmod : (i + 1 + 1) % (a :: m).length = i + 1 + 1 := Nat.mod_eq_of_lt (by omega)
    have hold : Linked h x y := hc.linked (i + 1) x y hx (by rw [hmod]; exact hy)
    have hxlast : x ≠ h.prev a := by
      intro heq
      have hz : m[m.length - 1]? = some x := by
        rw [heq, hlast _ (List.getElem?_eq_getElem (by omega))]
        exact List.getElem?_eq_getElem _
      have := (List.getElem?_inj hi hnodup.2).mp (hx.trans hz.symm)
      omega
    have hyfirst : y ≠ h.next a := by
      intro heq
      have hz : m[0]? = some y := by
        rw [heq, hfirst _ (List.getElem?_eq_getElem (by omega))]
        exact List.getElem?_eq_getElem _
      have hlt : i + 1 < m.length := by omega
      have := (List.getElem?_inj hlt hnodup.2).mp (hy.trans hz.symm)
      omega
    constructor
    · rw [unlink_next_of_ne hxa hxlast]
      exact hold.1
    · rw [unlink_prev_of_ne hya hyfirst]
      exact hold.2

/-- **A node is unlinked**: the others stay a ring, in the same order. -/
theorem Circular.unlink (hc : Circular h (xs ++ a :: ys)) : Circular (h.unlink a) (xs ++ ys) :=
  hc.append_comm.unlink_head.append_comm

/-! ## Putting a node in -/

/-- `b` is put in after `a`. -/
def Heap.backAdd (h : Heap N) (a b : N) : Heap N :=
  let h₁ := h.setPrev b a
  let h₂ := h₁.setNext b (h₁.next a)
  let h₃ := h₂.setPrev (h₂.next a) b
  h₃.setNext a b

theorem backAdd_next : (h.backAdd a b).next x
    = if x = a then b else if x = b then h.next a else h.next x := by
  simp only [Heap.backAdd, Heap.setNext, Heap.setPrev, Function.update_apply]

theorem backAdd_prev : (h.backAdd a b).prev x
    = if x = h.next a then b else if x = b then a else h.prev x := by
  have hnext : (if a = b then h.next a else h.next a) = h.next a := ite_self _
  simp only [Heap.backAdd, Heap.setNext, Heap.setPrev, Function.update_apply, hnext]

theorem backAdd_next_of_ne (h1 : x ≠ a) (h2 : x ≠ b) : (h.backAdd a b).next x = h.next x := by
  rw [backAdd_next, if_neg h1, if_neg h2]

theorem backAdd_prev_of_ne (h1 : x ≠ h.next a) (h2 : x ≠ b) : (h.backAdd a b).prev x = h.prev x := by
  rw [backAdd_prev, if_neg h1, if_neg h2]

/-- **A node is put in** after the first. -/
theorem Circular.backAdd (hc : Circular h (a :: m)) (hb : b ∉ a :: m) :
    Circular (h.backAdd a b) (a :: b :: m) := by
  obtain ⟨hnd, hchain⟩ := circular_cons_iff.mp hc
  have hba : b ≠ a := fun he => hb (he ▸ List.mem_cons_self)
  have hbm : b ∉ m := fun hm => hb (List.mem_cons_of_mem _ hm)
  obtain ⟨ham, hm⟩ := List.nodup_cons.mp hnd
  have hnb : h.next a ≠ b := fun he => hb (he ▸ hc.head_mem.1)
  refine circular_cons_iff.mpr ⟨?_, ?_⟩
  · rw [List.nodup_cons, List.mem_cons, List.nodup_cons]
    exact ⟨fun hx => hx.elim (fun he => hba he.symm) ham, hbm, hm⟩
  · have hab : Linked (h.backAdd a b) a b := by
      constructor
      · rw [backAdd_next, if_pos rfl]
      · rw [backAdd_prev, if_neg (Ne.symm hnb), if_pos rfl]
    have hbn : Linked (h.backAdd a b) b (h.next a) := by
      constructor
      · rw [backAdd_next, if_neg hba, if_pos rfl]
      · rw [backAdd_prev, if_pos rfl]
    refine List.isChain_cons_cons.mpr ⟨hab, ?_⟩
    cases m with
    | nil =>
        have hna : h.next a = a := (circular_singleton.mp hc).1
        rw [hna] at hbn
        exact List.isChain_cons_cons.mpr ⟨hbn, List.isChain_singleton _⟩
    | cons c m =>
        obtain ⟨hac, hrest⟩ := List.isChain_cons_cons.mp hchain
        rw [hac.1] at hbn
        refine List.isChain_cons_cons.mpr ⟨hbn, ?_⟩
        -- the links behind the first are not touched
        refine hrest.imp_of_mem_tail_imp (fun x y hx hy hxy => ?_)
        have hyc : y ≠ c := by
          rintro rfl
          rcases List.mem_append.mp hy with hy | hy
          · exact (List.nodup_cons.mp hm).1 hy
          · exact ham (List.mem_singleton.mp hy ▸ List.mem_cons_self)
        have hxa : x ≠ a := fun he => hyc (hxy.1.symm.trans (he ▸ hac.1))
        have hmem : ∀ z ∈ c :: m ++ [a], z ≠ b := by
          rintro z hz rfl
          rcases List.mem_append.mp hz with hz | hz
          · exact hbm hz
          · exact hba (List.mem_singleton.mp hz)
        constructor
        · rw [backAdd_next_of_ne hxa (hmem x hx)]
          exact hxy.1
        · rw [backAdd_prev_of_ne (by rw [hac.1]; exact hyc) (hmem y (List.mem_of_mem_tail hy))]
          exact hxy.2

/-- The other rings are left alone. -/
theorem Circular.backAdd_other (hc : Circular h (a :: m)) (hl : Circular h l) (hb : b ∉ l)
    (hd : ∀ x ∈ l, x ∉ a :: m) : Circular (h.backAdd a b) l := by
  refine hl.congr (fun x hx => ?_)
  have hxb : x ≠ b := fun he => hb (he ▸ hx)
  have hxa : x ≠ a := fun he => hd x hx (he ▸ List.mem_cons_self)
  have hxn : x ≠ h.next a := fun he => hd x hx (he ▸ hc.head_mem.1)
  exact ⟨backAdd_next_of_ne hxa hxb, backAdd_prev_of_ne hxn hxb⟩

theorem Circular.unlink_other (hc : Circular h (xs ++ a :: ys)) (hl : Circular h l)
    (hd : ∀ x ∈ l, x ∉ xs ++ a :: ys) : Circular (h.unlink a) l := by
  have hhead := hc.append_comm.head_mem
  have hmem : ∀ x, x ∈ a :: ys ++ xs → x ∈ xs ++ a :: ys := fun x hx =>
    List.perm_append_comm.mem_iff.mp hx
  refine hl.congr (fun x hx => ?_)
  have hxa : x ≠ a := fun he => hd x hx (he ▸ by simp)
  have hxn : x ≠ h.next a := fun he => hd x hx (he ▸ hmem _ hhead.1)
  have hxp : x ≠ h.prev a := fun he => hd x hx (he ▸ hmem _ hhead.2)
  exact ⟨unlink_next_of_ne hxa hxp, unlink_prev_of_ne hxa hxn⟩

/-! ## Going round a ring -/

/-- The search for a node with `p`, from `a` on and until `stop` is reached again. The outer option is
none where the steps have run out. -/
def Heap.find (h : Heap N) (p : N → Bool) (stop : N) : Nat → N → Option (Option N)
  | 0, _ => none
  | fuel + 1, a =>
      if p a then some (some a)
      else if h.next a = stop then some none
      else h.find p stop fuel (h.next a)

/-- From a node of the ring on, the search goes through the rest of the list. -/
theorem Circular.find_from {p : N → Bool} {stop : N} : ∀ {ys xs : List N} {a : N} {fuel : Nat},
    Circular h (xs ++ a :: ys) → (xs ++ a :: ys).head? = some stop → ys.length < fuel →
    h.find p stop fuel a = some ((a :: ys).find? p)
  | _, _, _, 0, _, _, hf => absurd hf (by omega)
  | ys, xs, a, fuel + 1, hc, hstop, hf => by
      rw [Heap.find, List.find?_cons]
      cases hp : p a with
      | true => rw [if_pos rfl]
      | false =>
          rw [if_neg (by simp)]
          have hlen : (xs ++ a :: ys).length = xs.length + ys.length + 1 := by simp; omega
          have ha : (xs ++ a :: ys)[xs.length]? = some a := by simp
          cases ys with
          | nil =>
              -- the last node
              have hmod : (xs.length + 1) % (xs ++ [a]).length = 0 := by
                rw [hlen, List.length_nil, Nat.add_zero, Nat.mod_self]
              have hnext : h.next a = stop :=
                (hc.linked xs.length a stop ha (by rw [hmod, ← List.head?_eq_getElem?]; exact hstop)).1
              rw [if_pos hnext]
              rfl
          | cons b ys =>
              have hmod : (xs.length + 1) % (xs ++ a :: b :: ys).length = xs.length + 1 :=
                Nat.mod_eq_of_lt (by rw [hlen, List.length_cons]; omega)
              have hb : (xs ++ a :: b :: ys)[xs.length + 1]? = some b := by simp
              have hnext : h.next a = b :=
                (hc.linked xs.length a b ha (by rw [hmod]; exact hb)).1
              have hne : b ≠ stop := by
                intro heq
                rw [List.head?_eq_getElem?, ← heq, ← hb] at hstop
                have := (List.getElem?_inj (by rw [hlen]; omega) hc.nodup).mp hstop
                omega
              rw [hnext, if_neg hne]
              have hcons : xs ++ a :: b :: ys = (xs ++ [a]) ++ b :: ys := by simp
              rw [hcons] at hc hstop
              exact hc.find_from hstop (by rw [List.length_cons] at hf; omega)

/-- **Going round a ring** goes through its nodes, in their order. -/
theorem Circular.find_eq {p : N → Bool} {fuel : Nat} (hc : Circular h (a :: m))
    (hf : m.length < fuel) : h.find p a fuel a = some ((a :: m).find? p) := by
  have hc' : Circular h ([] ++ a :: m) := hc
  exact hc'.find_from rfl hf

end

end Links
