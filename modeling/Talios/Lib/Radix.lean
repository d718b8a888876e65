import Talios.Lib.Bitmap

set_option autoImplicit false

/-! # Radix trees in memory

A tree of fixed depth whose nodes are blocks of words. An inner word names a child or none; the
words of the nodes at the last level are the leaves. The nodes of a level are numbered by the
prefixes of the leaf numbers, so that the parent of node `k` is node `k / fanout` of the level
above and the word that names it has index `k % fanout`. Of the root only the first `top` words
belong to the tree.

`Tree.Ok` says that the nodes are separate blocks. Under it, a store into a leaf changes that
leaf only (`Tree.Ok.setLeaf`), and linking a block of zeros in place of a missing node changes no
leaf (`Tree.Ok.link`).
-/

namespace Radix

open Bitmap

/-- The shape of a tree: the words of a node, the words of the root that are used, the level of
the leaves, and the child an inner word names. -/
structure Tree where
  fanout : Nat
  top : Nat
  depth : Nat
  child : BitVec 64 → Option Nat
  fanout_pos : 0 < fanout
  top_le : top ≤ fanout
  depth_pos : 0 < depth
  child_zero : child 0 = none

namespace Tree

variable (T : Tree) (w : Memory) (root : Nat)

/-- The number of words of a node at level `l` that belong to the tree. -/
def width (l : Nat) : Nat := if l = 0 then T.top else T.fanout

/-- The block of node `k` at level `l`. -/
def node : Nat → Nat → Option Nat
  | 0, k => if k = 0 then some root else none
  | l + 1, k =>
      if k % T.fanout < T.width l then
        (node l (k / T.fanout)).bind (fun t => T.child (w (t + k % T.fanout)))
      else none

/-- The address of leaf `n`. -/
def slot (n : Nat) : Option Nat :=
  (T.node w root T.depth (n / T.fanout)).map (· + n % T.fanout)

/-- The word of leaf `n`, zero where there is no node for it. -/
def leaf (n : Nat) : BitVec 64 :=
  match T.slot w root n with
  | some a => w a
  | none => 0

/-- Blocks that do not meet. -/
def Sep (own : Nat → Prop) : Prop :=
  ∀ t u, own t → own u → ∀ i < T.fanout, ∀ j < T.fanout, t + i = u + j → t = u

/-- The nodes are blocks of `own`, each at one place of the tree only. -/
structure Ok (own : Nat → Prop) : Prop where
  own : ∀ l ≤ T.depth, ∀ k t, T.node w root l k = some t → own t
  inj : ∀ l ≤ T.depth, ∀ l' ≤ T.depth, ∀ k k' t, T.node w root l k = some t →
    T.node w root l' k' = some t → l = l' ∧ k = k'

variable {T w root}

theorem width_le (l : Nat) : T.width l ≤ T.fanout := by
  unfold width
  split
  · exact T.top_le
  · exact le_rfl

theorem width_depth : T.width T.depth = T.fanout := if_neg T.depth_pos.ne'

/-- The number of a child gives back its parent and its index. -/
theorem child_number (k : Nat) {i : Nat} (hi : i < T.fanout) :
    (k * T.fanout + i) / T.fanout = k ∧ (k * T.fanout + i) % T.fanout = i := by
  rw [Nat.mul_comm, Nat.mul_add_div T.fanout_pos, Nat.div_eq_of_lt hi, Nat.mul_add_mod,
    Nat.mod_eq_of_lt hi]
  exact ⟨rfl, rfl⟩

theorem node_succ {l k t : Nat} (hk : k % T.fanout < T.width l)
    (ht : T.node w root l (k / T.fanout) = some t) :
    T.node w root (l + 1) k = T.child (w (t + k % T.fanout)) := by
  rw [node, if_pos hk, ht]
  rfl

/-- The child that word `i` of a node names. -/
theorem node_child {p k t i : Nat} (ht : T.node w root p k = some t) (hi : i < T.width p) :
    T.node w root (p + 1) (k * T.fanout + i) = T.child (w (t + i)) := by
  obtain ⟨hdiv, hmod⟩ := child_number (T := T) k (hi.trans_le (width_le p))
  rw [node_succ (by rw [hmod]; exact hi) (by rw [hdiv]; exact ht), hmod]

/-- The parent of a node. -/
theorem node_parent {l k t : Nat} (h : T.node w root (l + 1) k = some t) :
    k % T.fanout < T.width l ∧ ∃ u, T.node w root l (k / T.fanout) = some u ∧
      T.child (w (u + k % T.fanout)) = some t := by
  rw [node] at h
  split at h
  · rename_i hk
    obtain ⟨u, hu, hc⟩ := Option.bind_eq_some_iff.mp h
    exact ⟨hk, u, hu, hc⟩
  · exact absurd h (by simp)

/-- The nodes down to level `n` depend on the inner words above only. -/
theorem node_congr {w' : Memory} {n : Nat}
    (h : ∀ l < n, ∀ k t, T.node w root l k = some t → ∀ i < T.width l, w' (t + i) = w (t + i)) :
    ∀ l ≤ n, ∀ k, T.node w' root l k = T.node w root l k := by
  intro l
  induction l with
  | zero => exact fun _ _ => rfl
  | succ l ih =>
      intro hl k
      rw [node, node, ih (by omega)]
      by_cases hk : k % T.fanout < T.width l
      · rw [if_pos hk, if_pos hk]
        cases hn : T.node w root l (k / T.fanout) with
        | none => rfl
        | some t => rw [Option.bind_some, Option.bind_some, h l (by omega) _ t hn _ hk]
      · rw [if_neg hk, if_neg hk]

theorem slot_eq_some {n a : Nat} : T.slot w root n = some a ↔
    ∃ t, T.node w root T.depth (n / T.fanout) = some t ∧ t + n % T.fanout = a := by
  rw [slot, Option.map_eq_some_iff]

theorem leaf_of_slot {n a : Nat} (h : T.slot w root n = some a) : T.leaf w root n = w a := by
  rw [leaf, h]

theorem leaf_of_none {n : Nat} (h : T.slot w root n = none) : T.leaf w root n = 0 := by
  rw [leaf, h]

/-- Where the nodes are the same and the words of the leaves are, so are the leaves. -/
theorem leaf_congr {w' : Memory} {n : Nat}
    (hn : T.node w' root T.depth (n / T.fanout) = T.node w root T.depth (n / T.fanout))
    (hw : ∀ a, T.slot w root n = some a → w' a = w a) : T.leaf w' root n = T.leaf w root n := by
  have hs : T.slot w' root n = T.slot w root n := by rw [slot, slot, hn]
  cases ha : T.slot w root n with
  | none => rw [leaf_of_none ha, leaf_of_none (hs.trans ha)]
  | some a => rw [leaf_of_slot ha, leaf_of_slot (hs.trans ha), hw a ha]

variable {own own' : Nat → Prop}

/-- Two words of nodes at the same address are the same word. -/
theorem Ok.word_eq (h : T.Ok w root own) (hs : T.Sep own) {l l' k k' t t' i i' : Nat}
    (hl : l ≤ T.depth) (hl' : l' ≤ T.depth) (ht : T.node w root l k = some t)
    (ht' : T.node w root l' k' = some t') (hi : i < T.fanout) (hi' : i' < T.fanout)
    (he : t + i = t' + i') : l = l' ∧ k = k' ∧ i = i' := by
  have htt := hs t t' (h.own l hl k t ht) (h.own l' hl' k' t' ht') i hi i' hi' he
  subst htt
  obtain ⟨h1, h2⟩ := h.inj l hl l' hl' k k' t ht ht'
  exact ⟨h1, h2, by omega⟩

/-- Different leaves have different addresses. -/
theorem Ok.slot_inj (h : T.Ok w root own) (hs : T.Sep own) {n n' a : Nat}
    (hn : T.slot w root n = some a) (hn' : T.slot w root n' = some a) : n = n' := by
  obtain ⟨t, ht, h1⟩ := slot_eq_some.mp hn
  obtain ⟨t', ht', h2⟩ := slot_eq_some.mp hn'
  have hpos := T.fanout_pos
  obtain ⟨-, hk, hi⟩ := h.word_eq hs le_rfl le_rfl ht ht' (Nat.mod_lt n hpos)
    (Nat.mod_lt n' hpos) (h1.trans h2.symm)
  rw [← Nat.div_add_mod n T.fanout, ← Nat.div_add_mod n' T.fanout, hk, hi]

/-- A tree whose root holds zeros has no other node. -/
theorem node_empty (h : ∀ i < T.top, w (root + i) = 0) :
    ∀ l k, T.node w root (l + 1) k = none := by
  intro l
  induction l with
  | zero =>
      intro k
      rw [node, node]
      by_cases hk : k % T.fanout < T.width 0
      · rw [if_pos hk]
        split
        · rw [Option.bind_some, h _ hk, T.child_zero]
        · rfl
      · rw [if_neg hk]
  | succ l ih =>
      intro k
      rw [node, ih]
      split <;> rfl

theorem root_of_empty (h : ∀ i < T.top, w (root + i) = 0) {l k t : Nat}
    (ht : T.node w root l k = some t) : l = 0 ∧ k = 0 ∧ t = root := by
  cases l with
  | zero =>
      rw [node] at ht
      split at ht
      · rename_i hk
        exact ⟨rfl, hk, (Option.some.inj ht).symm⟩
      · exact absurd ht (by simp)
  | succ l =>
      rw [node_empty h] at ht
      exact absurd ht (by simp)

theorem Ok.empty (h : ∀ i < T.top, w (root + i) = 0) (hr : own root) :
    T.Ok w root own ∧ ∀ n, T.leaf w root n = 0 := by
  refine ⟨⟨fun l _ k t ht => ?_, fun l _ l' _ k k' t ht ht' => ?_⟩, fun n => leaf_of_none ?_⟩
  · rw [(root_of_empty h ht).2.2]
    exact hr
  · obtain ⟨h1, h2, -⟩ := root_of_empty h ht
    obtain ⟨h3, h4, -⟩ := root_of_empty h ht'
    exact ⟨h1.trans h3.symm, h2.trans h4.symm⟩
  · obtain ⟨d, hd⟩ : ∃ d, T.depth = d + 1 := ⟨T.depth - 1, by have := T.depth_pos; omega⟩
    rw [slot, hd, node_empty h]
    rfl

/-- A change outside the nodes changes nothing. -/
theorem Ok.congr (h : T.Ok w root own) {w' : Memory}
    (hw : ∀ l ≤ T.depth, ∀ k t, T.node w root l k = some t → ∀ i < T.width l,
      w' (t + i) = w (t + i)) (hown : ∀ l ≤ T.depth, ∀ k t, T.node w root l k = some t → own' t) :
    T.Ok w' root own' ∧ (∀ l ≤ T.depth, ∀ k, T.node w' root l k = T.node w root l k) ∧
      ∀ n, T.leaf w' root n = T.leaf w root n := by
  have hnode : ∀ l ≤ T.depth, ∀ k, T.node w' root l k = T.node w root l k :=
    node_congr (fun l hl => hw l (by omega))
  refine ⟨⟨fun l hl k t ht => ?_, fun l hl l' hl' k k' t ht ht' => ?_⟩, hnode, fun n => ?_⟩
  · rw [hnode l hl] at ht
    exact hown l hl k t ht
  · rw [hnode l hl] at ht
    rw [hnode l' hl'] at ht'
    exact h.inj l hl l' hl' k k' t ht ht'
  · refine leaf_congr (hnode _ le_rfl _) (fun a ha => ?_)
    obtain ⟨t, ht, rfl⟩ := slot_eq_some.mp ha
    exact hw T.depth le_rfl _ t ht _ (by rw [width_depth]; exact Nat.mod_lt n T.fanout_pos)

/-- **A store into a leaf** changes that leaf only. -/
theorem Ok.setLeaf (h : T.Ok w root own) (hs : T.Sep own) {n a : Nat}
    (ha : T.slot w root n = some a) (v : BitVec 64) :
    T.Ok (Function.update w a v) root own ∧
      (∀ l ≤ T.depth, ∀ k, T.node (Function.update w a v) root l k = T.node w root l k) ∧
      ∀ m, T.leaf (Function.update w a v) root m = if m = n then v else T.leaf w root m := by
  obtain ⟨t, ht, hta⟩ := slot_eq_some.mp ha
  have hmod := Nat.mod_lt n T.fanout_pos
  have hnode : ∀ l ≤ T.depth, ∀ k,
      T.node (Function.update w a v) root l k = T.node w root l k := by
    refine node_congr (fun l hl k u hu i hi => Function.update_of_ne (fun he => ?_) ..)
    -- an inner word is no leaf
    have := (h.word_eq hs hl.le le_rfl hu ht (hi.trans_le (width_le l)) hmod
      (he.trans hta.symm)).1
    omega
  refine ⟨⟨fun l hl k u hu => ?_, fun l hl l' hl' k k' u hu hu' => ?_⟩, hnode, fun m => ?_⟩
  · rw [hnode l hl] at hu
    exact h.own l hl k u hu
  · rw [hnode l hl] at hu
    rw [hnode l' hl'] at hu'
    exact h.inj l hl l' hl' k k' u hu hu'
  · have hslot : T.slot (Function.update w a v) root m = T.slot w root m := by
      rw [slot, slot, hnode _ le_rfl]
    by_cases hm : m = n
    · subst hm
      rw [if_pos rfl, leaf_of_slot (hslot.trans ha), Function.update_self]
    · rw [if_neg hm]
      refine leaf_congr (hnode _ le_rfl _) (fun c hc => Function.update_of_ne (fun he => hm ?_) ..)
      exact h.slot_inj hs hc (he ▸ ha)

/-- The nodes after the block `q` of zeros has been linked in place of a missing one. -/
theorem Ok.node_link (h : T.Ok w root own) (hs : T.Sep own) {w' : Memory} {p k₀ t i q : Nat}
    (hp : p < T.depth) (ht : T.node w root p k₀ = some t) (hi : i < T.width p)
    (hnone : T.child (w (t + i)) = none) (hslot : T.child (w' (t + i)) = some q)
    (hzero : ∀ j < T.fanout, w' (q + j) = 0)
    (hw : ∀ l ≤ T.depth, ∀ k u, T.node w root l k = some u → ∀ j < T.width l,
      u + j ≠ t + i → w' (u + j) = w (u + j)) :
    ∀ l ≤ T.depth, ∀ k, T.node w' root l k
      = if l = p + 1 ∧ k = k₀ * T.fanout + i then some q else T.node w root l k := by
  have hif : i < T.fanout := hi.trans_le (width_le p)
  obtain ⟨hdiv, hmod⟩ := child_number (T := T) k₀ hif
  have hold := (node_child ht hi).trans hnone
  intro l
  induction l with
  | zero => intro _ k; rw [if_neg (by omega)]; rfl
  | succ l ih =>
      intro hl k
      rw [node, ih (by omega)]
      by_cases hk : k % T.fanout < T.width l
      · rw [if_pos hk]
        have hkf := hk.trans_le (width_le l)
        by_cases hnew : l = p + 1 ∧ k / T.fanout = k₀ * T.fanout + i
        · -- below the new block there is nothing
          rw [if_pos hnew, Option.bind_some, hzero _ hkf, T.child_zero, if_neg (by omega), node,
            if_pos hk, hnew.1, hnew.2, hold]
          rfl
        · rw [if_neg hnew]
          cases hn : T.node w root l (k / T.fanout) with
          | none =>
              have hne : ¬ (l + 1 = p + 1 ∧ k = k₀ * T.fanout + i) := by
                rintro ⟨hlp, rfl⟩
                obtain rfl : l = p := by omega
                rw [hdiv, ht] at hn
                exact absurd hn (by simp)
              rw [if_neg hne, node, if_pos hk, hn]
              rfl
          | some u =>
              rw [Option.bind_some]
              by_cases hu : u + k % T.fanout = t + i
              · obtain ⟨rfl, hkk, hii⟩ := h.word_eq hs (by omega) hp.le hn ht hkf hif hu
                have hkeq : k = k₀ * T.fanout + i := by
                  rw [← hkk, ← hii, Nat.mul_comm]
                  exact (Nat.div_add_mod k T.fanout).symm
                rw [if_pos ⟨rfl, hkeq⟩, hu, hslot]
              · rw [hw l (by omega) _ u hn _ hk hu, if_neg, node_succ hk hn]
                rintro ⟨hlp, rfl⟩
                obtain rfl : l = p := by omega
                refine hu ?_
                rw [hdiv, ht] at hn
                rw [hmod, Option.some.inj hn]
      · rw [if_neg hk, if_neg, node, if_neg hk]
        rintro ⟨hlp, rfl⟩
        obtain rfl : l = p := by omega
        rw [hmod] at hk
        exact hk hi

/-- **Linking a block of zeros** in place of a missing node changes no leaf. -/
theorem Ok.link (h : T.Ok w root own) (hs : T.Sep own) {w' : Memory} {p k₀ t i q : Nat}
    (hp : p < T.depth) (ht : T.node w root p k₀ = some t) (hi : i < T.width p)
    (hnone : T.child (w (t + i)) = none) (hslot : T.child (w' (t + i)) = some q)
    (hzero : ∀ j < T.fanout, w' (q + j) = 0)
    (hw : ∀ l ≤ T.depth, ∀ k u, T.node w root l k = some u → ∀ j < T.width l,
      u + j ≠ t + i → w' (u + j) = w (u + j))
    (hq : ∀ l ≤ T.depth, ∀ k u, T.node w root l k = some u → u ≠ q) (hown : own' q)
    (hsub : ∀ l ≤ T.depth, ∀ k u, T.node w root l k = some u → own' u) :
    T.Ok w' root own' ∧ T.node w' root (p + 1) (k₀ * T.fanout + i) = some q ∧
      (∀ l ≤ T.depth, ∀ k u, T.node w root l k = some u → T.node w' root l k = some u) ∧
      (∀ l ≤ T.depth, ∀ k u, T.node w' root l k = some u → T.node w root l k = some u ∨ u = q) ∧
      ∀ n, T.leaf w' root n = T.leaf w root n := by
  have hold := (node_child ht hi).trans hnone
  have hnode := h.node_link hs hp ht hi hnone hslot hzero hw
  have hcases : ∀ l ≤ T.depth, ∀ k u, T.node w' root l k = some u →
      (l = p + 1 ∧ k = k₀ * T.fanout + i ∧ u = q) ∨ T.node w root l k = some u := by
    intro l hl k u hu
    rw [hnode l hl] at hu
    split at hu
    · rename_i hnew
      exact Or.inl ⟨hnew.1, hnew.2, (Option.some.inj hu).symm⟩
    · exact Or.inr hu
  refine ⟨⟨fun l hl k u hu => ?_, fun l hl l' hl' k k' u hu hu' => ?_⟩, ?_,
    fun l hl k u hu => ?_, fun l hl k u hu => ?_, fun n => ?_⟩
  · rcases hcases l hl k u hu with ⟨-, -, rfl⟩ | hu
    · exact hown
    · exact hsub l hl k u hu
  · rcases hcases l hl k u hu with ⟨rfl, rfl, rfl⟩ | hu <;>
      rcases hcases l' hl' k' u hu' with ⟨rfl, rfl, he⟩ | hu'
    · exact ⟨rfl, rfl⟩
    · exact absurd rfl (hq l' hl' k' u hu')
    · exact absurd he (hq l hl k u hu)
    · exact h.inj l hl l' hl' k k' u hu hu'
  · rw [hnode (p + 1) hp, if_pos ⟨rfl, rfl⟩]
  · rw [hnode l hl, if_neg, hu]
    rintro ⟨rfl, rfl⟩
    rw [hold] at hu
    exact absurd hu (by simp)
  · rcases hcases l hl k u hu with ⟨-, -, rfl⟩ | hu
    · exact Or.inr rfl
    · exact Or.inl hu
  · by_cases hnew : T.depth = p + 1 ∧ n / T.fanout = k₀ * T.fanout + i
    · -- the new block holds this leaf: it was missing and is zero
      have hmod := Nat.mod_lt n T.fanout_pos
      have hs' : T.slot w' root n = some (q + n % T.fanout) := by
        rw [slot, hnode _ le_rfl, if_pos hnew]
        rfl
      have hs : T.slot w root n = none := by
        cases hc : T.slot w root n with
        | none => rfl
        | some a =>
            obtain ⟨u, hu, -⟩ := slot_eq_some.mp hc
            rw [hnew.2, hnew.1, hold] at hu
            exact absurd hu (by simp)
      rw [leaf_of_slot hs', leaf_of_none hs, hzero _ hmod]
    · refine leaf_congr (by rw [hnode _ le_rfl, if_neg hnew]) (fun a ha => ?_)
      obtain ⟨u, hu, rfl⟩ := slot_eq_some.mp ha
      have hmod := Nat.mod_lt n T.fanout_pos
      refine hw T.depth le_rfl _ u hu _ (by rw [width_depth]; exact hmod) (fun he => ?_)
      have := (h.word_eq ‹T.Sep own› le_rfl hp.le hu ht hmod (hi.trans_le (width_le p)) he).1
      omega

end Tree

end Radix
