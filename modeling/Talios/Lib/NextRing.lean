import Mathlib.Tactic

set_option autoImplicit false

/-! # Rings of next pointers

Nodes with one pointer. `Leads next stop l` says that the pointers lead through `l`, and from its last
node to `stop`; where `stop` is the first node of `l`, the nodes of `l` are a ring. A node can be put
in behind any other.
-/

namespace NextRing

section

variable {N : Type}

/-- The pointers lead through the list and then to `stop`. -/
def Leads (next : N → N) (stop : N) : List N → Prop
  | [] => True
  | a :: l => next a = l.headD stop ∧ Leads next stop l

variable {next next' : N → N} {stop a b : N} {xs ys l : List N}

/-- The first part leads to the first node of the second. -/
theorem leads_append : Leads next stop (xs ++ ys) ↔ Leads next (ys.headD stop) xs ∧ Leads next stop ys := by
  induction xs with
  | nil => simp [Leads]
  | cons a xs ih =>
      have hhead : (xs ++ ys).headD stop = xs.headD (ys.headD stop) := by cases xs <;> rfl
      simp only [List.cons_append, Leads, hhead, ih, and_assoc]

/-- Only the pointers of the nodes of the list matter. -/
theorem Leads.congr (h : Leads next stop l) (hsame : ∀ x ∈ l, next' x = next x) :
    Leads next' stop l := by
  induction l with
  | nil => trivial
  | cons a l ih =>
      refine ⟨(hsame a List.mem_cons_self).trans h.1, ih h.2 (fun x hx => hsame x ?_)⟩
      exact List.mem_cons_of_mem a hx

/-- The last node leads to `stop`. -/
theorem Leads.last (h : Leads next stop (xs ++ [a])) : next a = stop := (leads_append.mp h).2.1

/-- A node that leads to `stop` is the last one, if `stop` stands nowhere behind it. -/
theorem Leads.eq_nil (h : Leads next stop (xs ++ a :: ys)) (hn : next a = stop) (hs : stop ∉ ys) :
    ys = [] := by
  have ha := (leads_append.mp h).2.1
  cases ys with
  | nil => rfl
  | cons b ys =>
      have hb : b = stop := ha.symm.trans hn
      exact absurd (hb ▸ List.mem_cons_self) hs

/-- `b` is put in behind `a`. -/
def putIn [DecidableEq N] (next : N → N) (a b : N) : N → N :=
  Function.update (Function.update next b (next a)) a b

/-- **A node is put in** behind one of the list. -/
theorem Leads.putIn [DecidableEq N] (h : Leads next stop (xs ++ a :: ys))
    (hnd : (xs ++ a :: ys).Nodup) (hb : b ∉ xs ++ a :: ys) :
    Leads (putIn next a b) stop (xs ++ a :: b :: ys) := by
  obtain ⟨hxs, ha, hys⟩ := leads_append.mp h
  have hba : b ≠ a := fun he => hb (by simp [he])
  have hsame : ∀ x ∈ xs ++ a :: ys, x ≠ a → NextRing.putIn next a b x = next x := by
    intro x hx hxa
    have hxb : x ≠ b := fun he => hb (he ▸ hx)
    rw [NextRing.putIn, Function.update_of_ne hxa, Function.update_of_ne hxb]
  obtain ⟨-, hay, hxay⟩ := List.nodup_append.mp hnd
  rw [List.nodup_cons] at hay
  refine leads_append.mpr ⟨hxs.congr (fun x hx => ?_), ?_, ?_, hys.congr (fun x hx => ?_)⟩
  · exact hsame x (List.mem_append_left _ hx) (hxay x hx a List.mem_cons_self)
  · exact Function.update_self ..
  · rw [NextRing.putIn, Function.update_of_ne hba, Function.update_self]
    exact ha
  · exact hsame x (by simp [hx]) (fun he => hay.1 (he ▸ hx))

end

end NextRing
