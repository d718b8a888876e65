import Talios.Lib.Links

set_option autoImplicit false

/-! # The lists of `lib.h`

`struct List` and the functions on it, on nodes with the two pointers. `Represents h head l` says that
the list at `head` holds the nodes of `l`: with the head they are linked to a ring. Each function is one
operation on sequences (`list_refines`), and touches no node of another list.
-/

namespace Talios

namespace LinkedList

open Links

section

variable {N : Type} [DecidableEq N]

/-! ## `lib.h` -/

/-- `ListInit`. -/
def listInit (h : Heap N) (list : N) : Heap N := (h.setPrev list list).setNext list list

/-- `ListForeAdd`. -/
def listForeAdd (h : Heap N) (new list : N) : Heap N :=
  let h₁ := h.setNext new list
  let h₂ := h₁.setPrev new (h₁.prev list)
  let h₃ := h₂.setNext (h₂.prev list) new
  h₃.setPrev list new

/-- `ListBackAdd`. -/
def listBackAdd (h : Heap N) (list new : N) : Heap N :=
  let h₁ := h.setPrev new list
  let h₂ := h₁.setNext new (h₁.next list)
  let h₃ := h₂.setPrev (h₂.next list) new
  h₃.setNext list new

/-- `ListDelete`. -/
def listDelete (h : Heap N) (list : N) : Heap N :=
  let h₁ := h.setNext (h.prev list) (h.next list)
  let h₂ := h₁.setPrev (h₁.next list) (h₁.prev list)
  (h₂.setPrev list list).setNext list list

/-- `ListIsEmpty`. -/
def listIsEmpty (h : Heap N) (list : N) : Bool := decide (h.next list = list ∧ h.prev list = list)

/-- The loop of `list_search`, at `ptr`; `NULL` is none. The outer option is none where the rounds have
run out. -/
def searchFrom (h : Heap N) (head tar : N) : Nat → N → Option (Option N)
  | 0, _ => none
  | fuel + 1, ptr =>
      if ptr = head then some none
      else if ptr = tar then some (some ptr)
      else searchFrom h head tar fuel (h.next ptr)

/-- `list_search`. -/
def listSearch (h : Heap N) (head tar : N) (fuel : Nat) : Option (Option N) :=
  searchFrom h head tar fuel (h.next head)

/-! ## Sequences -/

end

section

variable {N : Type} {h h' : Heap N} {head pos : N} {l m xs ys : List N}

/-- The list at `head` holds `l`. -/
def Represents (h : Heap N) (head : N) (l : List N) : Prop := Circular h (head :: l)

/-- The pointers of all nodes but those of `nodes` are the same. -/
def SameOutside (nodes : List N) (h h' : Heap N) : Prop :=
  ∀ x ∉ nodes, h'.next x = h.next x ∧ h'.prev x = h.prev x

/-- A list of other nodes is what it was. -/
theorem SameOutside.represents {nodes : List N} (hs : SameOutside nodes h h')
    (hl : Represents h head l) (hd : ∀ x ∈ head :: l, x ∉ nodes) : Represents h' head l :=
  Circular.congr hl fun x hx => hs x (hd x hx)

/-- The node before the first is the last of the ring. -/
theorem circular_last (hc : Circular h (pos :: m)) :
    ∃ front, pos :: m = front ++ [h.prev pos] ∧ h.next (h.prev pos) = pos := by
  obtain ⟨front, a, hfront⟩ : ∃ front a, pos :: m = front ++ [a] :=
    ⟨_, _, (List.dropLast_append_getLast (List.cons_ne_nil pos m)).symm⟩
  have hprev : h.prev pos = a := by
    rw [hc.head.2, hfront, List.getLastD_concat]
  have hring : Circular h (a :: front) := by
    rw [hfront] at hc
    exact hc.append_comm
  rw [hprev]
  refine ⟨front, hfront, ?_⟩
  rw [hring.head.1]
  cases front with
  | nil =>
      obtain ⟨rfl, -⟩ := List.cons.inj hfront
      rfl
  | cons b front =>
      obtain ⟨rfl, -⟩ := List.cons.inj hfront
      rfl

/-- Cutting a ring open in front of `pos`. -/
theorem circular_cut (hc : Circular h (xs ++ pos :: ys)) :
    Circular h (pos :: (ys ++ xs)) ∧ ∀ x, x ∈ pos :: (ys ++ xs) ↔ x ∈ xs ++ pos :: ys := by
  have hperm : (pos :: ys ++ xs).Perm (xs ++ pos :: ys) := List.perm_append_comm
  exact ⟨hc.append_comm, fun x => hperm.mem_iff⟩

end

section

variable {N : Type} [DecidableEq N] {h : Heap N} {head new pos : N} {l xs ys : List N}

theorem represents_listInit (h : Heap N) (head : N) : Represents (listInit h head) head [] := by
  refine circular_singleton.mpr ⟨?_, ?_⟩
  · exact Function.update_self ..
  · exact Function.update_self ..

/-! ## Putting in -/

/-- To put a node in before another is to put it in behind the one before. -/
theorem listForeAdd_eq (hnew : new ≠ pos) (hlink : h.next (h.prev pos) = pos) :
    listForeAdd h new pos = h.backAdd (h.prev pos) new := by
  have hprev : Function.update h.prev new (h.prev pos) pos = h.prev pos :=
    Function.update_of_ne (Ne.symm hnew) ..
  have hnext : (listForeAdd h new pos).next = (h.backAdd (h.prev pos) new).next := by
    funext x
    rw [backAdd_next, hlink]
    simp only [listForeAdd, Heap.setNext, Heap.setPrev, hprev, Function.update_apply]
  have hback : (listForeAdd h new pos).prev = (h.backAdd (h.prev pos) new).prev := by
    funext x
    rw [backAdd_prev, hlink]
    simp only [listForeAdd, Heap.setNext, Heap.setPrev, Function.update_apply]
  cases hf : listForeAdd h new pos
  cases hb : h.backAdd (h.prev pos) new
  rw [hf, hb] at hnext hback
  exact congrArg₂ Heap.mk hnext hback

/-- **Before a node** of a ring. -/
theorem circular_foreAdd (hc : Circular h (xs ++ pos :: ys)) (hnew : new ∉ xs ++ pos :: ys) :
    Circular (listForeAdd h new pos) (xs ++ new :: pos :: ys) ∧
      SameOutside (new :: xs ++ pos :: ys) h (listForeAdd h new pos) := by
  obtain ⟨hcut, hmem⟩ := circular_cut hc
  obtain ⟨front, hfront, hlink⟩ := circular_last hcut
  have hring : Circular h (h.prev pos :: front) := by
    rw [hfront] at hcut
    exact hcut.append_comm
  have hmem' : ∀ x, x ∈ h.prev pos :: front ↔ x ∈ xs ++ pos :: ys := by
    intro x
    have hperm : (front ++ [h.prev pos]).Perm (h.prev pos :: front) :=
      List.perm_append_singleton (h.prev pos) front
    rw [← hperm.mem_iff, ← hfront]
    exact hmem x
  have hne : new ≠ pos := fun he => hnew (he ▸ by simp)
  rw [listForeAdd_eq hne hlink]
  constructor
  · have hput : Circular (h.backAdd (h.prev pos) new) ([h.prev pos] ++ new :: front) :=
      hring.backAdd (mt (hmem' new).mp hnew)
    have hround : new :: front ++ [h.prev pos] = (new :: pos :: ys) ++ xs :=
      congrArg (new :: ·) hfront.symm
    have hput := hput.append_comm
    rw [hround] at hput
    exact hput.append_comm
  · intro x hx
    obtain ⟨hxnew, hxring⟩ := List.ne_and_not_mem_of_not_mem_cons hx
    have hxprev : x ≠ h.prev pos := fun he => hxring (he ▸ (hmem' _).mp List.mem_cons_self)
    have hxpos : x ≠ h.next (h.prev pos) := fun he => hxring (he.trans hlink ▸ by simp)
    exact ⟨backAdd_next_of_ne hxprev hxnew, backAdd_prev_of_ne hxpos hxnew⟩

/-- **Behind a node** of a ring. -/
theorem circular_backAdd (hc : Circular h (xs ++ pos :: ys)) (hnew : new ∉ xs ++ pos :: ys) :
    Circular (listBackAdd h pos new) (xs ++ pos :: new :: ys) ∧
      SameOutside (new :: xs ++ pos :: ys) h (listBackAdd h pos new) := by
  obtain ⟨hcut, hmem⟩ := circular_cut hc
  constructor
  · have hput : Circular (listBackAdd h pos new) ((pos :: new :: ys) ++ xs) :=
      hcut.backAdd (mt (hmem new).mp hnew)
    exact hput.append_comm
  · intro x hx
    obtain ⟨hxnew, hxring⟩ := List.ne_and_not_mem_of_not_mem_cons hx
    have hxpos : x ≠ pos := fun he => hxring (he ▸ by simp)
    have hxnext : x ≠ h.next pos := fun he => hxring (he ▸ (hmem _).mp hcut.head_mem.1)
    exact ⟨backAdd_next_of_ne hxpos hxnew, backAdd_prev_of_ne hxnext hxnew⟩

/-! ## Taking out -/

/-- **A node of a ring is taken out**, and linked to itself. -/
theorem circular_delete (hc : Circular h (xs ++ pos :: ys)) :
    Circular (listDelete h pos) (xs ++ ys) ∧ (listDelete h pos).Alone pos ∧
      SameOutside (xs ++ pos :: ys) h (listDelete h pos) := by
  obtain ⟨hcut, hmem⟩ := circular_cut hc
  refine ⟨hc.unlink, unlink_alone, fun x hx => ?_⟩
  have hxpos : x ≠ pos := fun he => hx (he ▸ by simp)
  have hxnext : x ≠ h.next pos := fun he => hx (he ▸ (hmem _).mp hcut.head_mem.1)
  have hxprev : x ≠ h.prev pos := fun he => hx (he ▸ (hmem _).mp hcut.head_mem.2)
  exact ⟨unlink_next_of_ne hxpos hxprev, unlink_prev_of_ne hxpos hxnext⟩

/-! ## Searching -/

/-- From a node of the list on, the search goes through the nodes behind it. -/
theorem searchFrom_chain (tar : N) : ∀ {l : List N} {a : N} {fuel : Nat},
    List.IsChain (Linked h) (a :: l ++ [head]) → head ∉ l → l.length < fuel →
    searchFrom h head tar fuel (h.next a) = some (if tar ∈ l then some tar else none)
  | _, _, 0, _, _, hf => absurd hf (by omega)
  | [], a, fuel + 1, hchain, _, _ => by
      have hnext : h.next a = head := (List.isChain_cons_cons.mp hchain).1.1
      rw [searchFrom, if_pos hnext, if_neg List.not_mem_nil]
  | b :: l, a, fuel + 1, hchain, hhead, hf => by
      obtain ⟨hlink, hrest⟩ := List.isChain_cons_cons.mp hchain
      obtain ⟨hne, hhead⟩ := List.ne_and_not_mem_of_not_mem_cons hhead
      rw [searchFrom, hlink.1, if_neg (Ne.symm hne)]
      by_cases hb : b = tar
      · rw [if_pos hb, if_pos (hb ▸ List.mem_cons_self), hb]
      · have hmem : tar ∈ b :: l ↔ tar ∈ l := by
          rw [List.mem_cons]
          exact or_iff_right (Ne.symm hb)
        rw [if_neg hb, searchFrom_chain tar hrest hhead (by rw [List.length_cons] at hf; omega)]
        simp only [hmem]

/-- **The functions of `lib.h` are operations on sequences**: the two insertions, at the head and at a node
of the list, the deletion, the search and the test for an empty list. -/
theorem list_refines (hr : Represents h head l) :
    (∀ new ∉ head :: l,
      (Represents (listForeAdd h new head) head (l ++ [new]) ∧
        SameOutside (new :: head :: l) h (listForeAdd h new head)) ∧
      (Represents (listBackAdd h head new) head (new :: l) ∧
        SameOutside (new :: head :: l) h (listBackAdd h head new)) ∧
      ∀ xs pos ys, l = xs ++ pos :: ys →
        (Represents (listForeAdd h new pos) head (xs ++ new :: pos :: ys) ∧
          SameOutside (new :: head :: l) h (listForeAdd h new pos)) ∧
        (Represents (listBackAdd h pos new) head (xs ++ pos :: new :: ys) ∧
          SameOutside (new :: head :: l) h (listBackAdd h pos new))) ∧
    (∀ xs node ys, l = xs ++ node :: ys →
      Represents (listDelete h node) head (xs ++ ys) ∧ (listDelete h node).Alone node ∧
        SameOutside (head :: l) h (listDelete h node)) ∧
    (∀ tar fuel, l.length < fuel →
      listSearch h head tar fuel = some (if tar ∈ l then some tar else none)) ∧
    (listIsEmpty h head = true ↔ l = []) := by
  refine ⟨fun new hnew => ⟨?_, ?_, ?_⟩, ?_, fun tar fuel hf => ?_, ?_⟩
  · obtain ⟨hput, hsame⟩ := circular_foreAdd (show Circular h ([] ++ head :: l) from hr) hnew
    -- the ring is cut open at the new node, not at the head
    have hput : Circular (listForeAdd h new head) ([new] ++ head :: l) := hput
    exact ⟨hput.append_comm, hsame⟩
  · exact circular_backAdd (show Circular h ([] ++ head :: l) from hr) hnew
  · rintro xs pos ys rfl
    have hring : Circular h ((head :: xs) ++ pos :: ys) := hr
    exact ⟨circular_foreAdd hring hnew, circular_backAdd hring hnew⟩
  · rintro xs node ys rfl
    exact circular_delete (show Circular h ((head :: xs) ++ node :: ys) from hr)
  · obtain ⟨hnodup, hchain⟩ := circular_cons_iff.mp hr
    exact searchFrom_chain tar hchain (List.nodup_cons.mp hnodup).1 hf
  · rw [listIsEmpty, decide_eq_true_iff]
    exact Circular.alone_iff hr

/-- Two nodes, one behind the other. -/
def pairHeap : Heap Nat := listForeAdd (listForeAdd (listInit ⟨id, id⟩ 0) 1 0) 2 0

/-- Two nodes are put in and found, and the first is taken out. -/
theorem list_refines_first :
    Represents pairHeap 0 [1, 2] ∧ listSearch pairHeap 0 2 3 = some (some 2) ∧
      Represents (listDelete pairHeap 1) 0 [2] ∧ (listDelete pairHeap 1).Alone 1 ∧
      listIsEmpty (listDelete pairHeap 1) 0 = false := by
  have hempty := list_refines (represents_listInit (⟨id, id⟩ : Heap Nat) 0)
  have hone := list_refines (hempty.1 1 (by decide)).1.1
  have hpair : Represents pairHeap 0 [1, 2] := (hone.1 2 (by decide)).1.1
  have htwo := list_refines hpair
  obtain ⟨hrest, halone, -⟩ := htwo.2.1 [] 1 [2] rfl
  have hlast := list_refines hrest
  refine ⟨hpair, htwo.2.2.1 2 3 (by decide), hrest, halone, ?_⟩
  rw [← Bool.not_eq_true, hlast.2.2.2]
  exact List.cons_ne_nil 2 []

end

end LinkedList

end Talios
