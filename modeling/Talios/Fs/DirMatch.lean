import Talios.Fs.DirNames
import Talios.Lib.Split

set_option autoImplicit false

/-! # The entry that is found

`fat32_lookup` goes over the slots of a directory to the first that it takes for the name. This is the
first entry with that name where the search passes everything before it (`lookup_matches`): deleted
slots are compared like entries, the search does not stop at the end of the directory, and in short names
the place of the dot does not count.
-/

namespace Talios

open Bytes Word

/-! ## Names -/

/-- An entry has a name: it is its long name, or without one its short name up to case. -/
def DirItem.Matches (name : List UInt8) : DirItem → Prop
  | .deleted _ => False
  | .entry group e =>
      if group = [] then (shortSpec e).map upperCase = name.map upperCase
      else longUnits group = name.map UInt8.toNat

instance (name : List UInt8) : DecidablePred (DirItem.Matches name)
  | .deleted _ => inferInstanceAs (Decidable False)
  | .entry group e => inferInstanceAs (Decidable (if group = [] then
      (shortSpec e).map upperCase = name.map upperCase else longUnits group = name.map UInt8.toNat))

/-- The last slot of the first entry with a name; the items begin at slot `i`. -/
def matchSlot (name : List UInt8) : List DirItem → Nat → Option Nat
  | [], _ => none
  | item :: items, i =>
      if item.Matches name then some (i + (item.slots.length - 1))
      else matchSlot name items (i + item.slots.length)

/-- The result for a slot, or for none. -/
def resultAt (sb : SbInfo) (disk : Buffer) (chain : List Nat) : Option Nat → LookupResult
  | none => .missing
  | some k => .found (nodeAt sb disk chain k)

/-- The search comes to an end, and finds the first entry with the name, or nothing where there is
none. -/
def MatchesExactly (sb : SbInfo) (disk : Buffer) (inode : Inode) (chain : List Nat)
    (items : List DirItem) (name : List UInt8) : Prop :=
  ∀ r, (∃ fuel, fat32Lookup sb disk inode name fuel = some r) ↔
    r = resultAt sb disk chain (matchSlot name items 0)

/-! ## What the search does with them -/

/-- The name without its dots fits in `lname_buf`, and is that of the slot. -/
def ShortSame (name : List UInt8) (e : Buffer) : Prop :=
  (fdn2sde name).length < 256 ∧ fdn2sde name = fsde e

/-- The name without its dots fits in `lname_buf`, and is another one. -/
def ShortOther (name : List UInt8) (e : Buffer) : Prop :=
  (fdn2sde name).length < 256 ∧ fdn2sde name ≠ fsde e

/-- The low bytes of a long name, up to the first that is zero. -/
def lowLetters (group : List Buffer) : List UInt8 := (groupLetters group).takeWhile (· ≠ 0)

/-- The search takes an item for the name. The numbers of long-name slots go up to 19, and a deleted
one has 37. -/
def DirItem.Taken (name : List UInt8) : DirItem → Prop
  | .deleted e => slotLongName e = false ∧ ShortSame name e
  | .entry group e => group.length < 20 ∧
      if lowLetters group = [] then ShortSame name e else name = lowLetters group

/-- The search passes an item. -/
def DirItem.Passed (name : List UInt8) : DirItem → Prop
  | .deleted e => slotLongName e = false ∧ ShortOther name e
  | .entry group e => group.length < 20 ∧
      if lowLetters group = [] then ShortOther name e else name ≠ lowLetters group

/-- The search passes a slot, with the letters of the long-name slots before it in `lname_buf`. -/
def SlotPassed (name : List UInt8) (lnameBuf e : Buffer) : Prop :=
  if slotLongName e then NumberFits e
  else if lnameBuf 0 ≠ 0 then name ≠ cString lnameBuf
  else ShortOther name e

/-- The letters of the long-name slots that come last. -/
def lastLetters (es : List Buffer) : Buffer :=
  es.foldl (fun lnameBuf e => if slotLongName e then putLongName e lnameBuf else newBuffer) newBuffer

/-- The search passes the items before the first with the name, and takes this; where there is none, it
passes the slots behind the end as well. -/
def SearchRight (name : List UInt8) (tail : List Buffer) : List DirItem → Prop
  | [] => ∀ pre e post, tail = pre ++ e :: post → SlotPassed name (lastLetters pre) e
  | item :: items =>
      if item.Matches name then item.Taken name
      else item.Passed name ∧ SearchRight name tail items

/-! ## One slot -/

section

variable {name : List UInt8}

theorem cString_eq_nil_iff (buf : Buffer) : cString buf = [] ↔ buf 0 = 0 := by
  constructor
  · intro h
    by_contra hne
    have hrange : List.range 1024 = 0 :: List.range' 1 1023 :=
      (List.range_eq_range').trans List.range'_succ
    rw [cString_eq, hrange, List.map_cons, List.takeWhile_cons_of_pos (by simpa using hne)] at h
    exact List.cons_ne_nil _ _ h
  · intro h
    unfold cString
    rw [Nat.le_zero.mp (stringLen_le_of_zero h)]
    rfl

theorem lookupSlot_long {e : Buffer} (hl : slotLongName e = true) (hfit : NumberFits e) (i : Nat)
    (lnameBuf : Buffer) : lookupSlot name e i lnameBuf = .next (putLongName e lnameBuf) :=
  (if_pos hl).trans (if_pos ((longNameFits_iff e).mpr hfit))

theorem lookupSlot_outside {e : Buffer} (hl : slotLongName e = true) (hfit : ¬ NumberFits e) (i : Nat)
    (lnameBuf : Buffer) : lookupSlot name e i lnameBuf = .outside :=
  (if_pos hl).trans (if_neg (fun h => hfit ((longNameFits_iff e).mp h)))

theorem lookupSlot_held {e lnameBuf : Buffer} (hl : slotLongName e = false) (h : lnameBuf 0 ≠ 0)
    (i : Nat) : lookupSlot name e i lnameBuf
      = if name = cString lnameBuf then .found i else .next newBuffer :=
  (if_neg (by rw [hl]; exact Bool.false_ne_true)).trans (if_pos h)

theorem lookupSlot_short {e lnameBuf : Buffer} (hl : slotLongName e = false) (h : lnameBuf 0 = 0)
    (i : Nat) : (ShortSame name e → lookupSlot name e i lnameBuf = .found i) ∧
      (ShortOther name e → lookupSlot name e i lnameBuf = .next newBuffer) ∧
      (256 ≤ (fdn2sde name).length → lookupSlot name e i lnameBuf = .outside) := by
  have hslot : lookupSlot name e i lnameBuf = if 256 ≤ (fdn2sde name).length then .outside
      else if fdn2sde name = fsde e then .found i else .next newBuffer :=
    (if_neg (by rw [hl]; exact Bool.false_ne_true)).trans (if_neg (not_not.mpr h))
  rw [hslot]
  refine ⟨fun hs => ?_, fun ho => ?_, fun hlen => if_pos hlen⟩
  · rw [if_neg (Nat.not_le.mpr hs.1), if_pos hs.2]
  · rw [if_neg (Nat.not_le.mpr ho.1), if_neg ho.2]

/-! ## One item -/

/-- Long-name slots whose numbers fit are put together. -/
theorem lookupScan_run (es : List Buffer) : ∀ (ls : List Buffer) (i : Nat) (lnameBuf : Buffer),
    (∀ l ∈ ls, slotLongName l = true ∧ NumberFits l) →
    lookupScan name (ls ++ es) i lnameBuf = lookupScan name es (i + ls.length) (assemble ls lnameBuf)
  | [], _, _, _ => rfl
  | l :: ls, i, lnameBuf, h => by
      rw [List.forall_mem_cons] at h
      rw [List.cons_append, lookupScan, lookupSlot_long h.1.1 h.1.2, assemble_cons, List.length_cons,
        Nat.add_comm ls.length, ← Nat.add_assoc]
      exact lookupScan_run es ls (i + 1) _ h.2

theorem lookupScan_singleton (e : Buffer) (i : Nat) (lnameBuf : Buffer) :
    lookupScan name [e] i lnameBuf = lookupSlot name e i lnameBuf := by
  rw [lookupScan]
  cases lookupSlot name e i lnameBuf <;> rfl

/-- The search takes an item, passes it, or stores outside its buffer. -/
theorem lookupScan_item {item : DirItem} (hw : item.WellFormed) (i : Nat) :
    (item.Taken name → lookupScan name item.slots i newBuffer
      = .found (i + (item.slots.length - 1))) ∧
    (item.Passed name → lookupScan name item.slots i newBuffer = .next newBuffer) ∧
    (¬ item.Taken name → ¬ item.Passed name →
      lookupScan name item.slots i newBuffer = .outside) := by
  -- a comparison that is neither of the two does not fit
  have hneither : ∀ e, ¬ ShortSame name e → ¬ ShortOther name e → 256 ≤ (fdn2sde name).length := by
    intro e hs ho
    by_contra hlt
    exact ho ⟨Nat.not_le.mp hlt, fun heq => hs ⟨Nat.not_le.mp hlt, heq⟩⟩
  cases item with
  | deleted e =>
      rw [DirItem.Taken, DirItem.Passed, DirItem.slots, lookupScan_singleton]
      cases hl : slotLongName e with
      | true =>
          have hfit : ¬ NumberFits e := by
            unfold NumberFits longNumber
            rw [show e 0 = 0xe5 from hw]
            decide
          exact ⟨fun h => absurd h.1 (by decide), fun h => absurd h.1 (by decide),
            fun _ _ => lookupSlot_outside hl hfit i newBuffer⟩
      | false =>
          have hslot := @lookupSlot_short name e newBuffer hl rfl i
          exact ⟨fun h => hslot.1 h.2, fun h => hslot.2.1 h.2,
            fun hs ho => hslot.2.2 (hneither e (fun h => hs ⟨rfl, h⟩) (fun h => ho ⟨rfl, h⟩))⟩
  | entry group e =>
      have hl : slotLongName e = false := hw.2.2.1
      have hlast : (DirItem.entry group e).slots.length - 1 = group.length := by
        rw [DirItem.slots, List.length_append, List.length_singleton, Nat.add_sub_cancel]
      rw [hlast, DirItem.slots, DirItem.Taken, DirItem.Passed]
      rcases hw.2.2.2 with rfl | ⟨l, ls, rfl, hgroup⟩
      · have hslot := @lookupSlot_short name e newBuffer hl rfl i
        have hlow : lowLetters [] = [] := rfl
        rw [List.nil_append, lookupScan_singleton, if_pos hlow, if_pos hlow]
        exact ⟨fun h => hslot.1 h.2, fun h => hslot.2.1 h.2,
          fun hs ho => hslot.2.2 (hneither e (fun h => hs ⟨by decide, h⟩)
            (fun h => ho ⟨by decide, h⟩))⟩
      · by_cases hlen : (l :: ls).length < 20
        · have hfew : ls.length < 19 := Nat.lt_of_succ_lt_succ hlen
          have hfit : NumberFits l := by
            have hnum := hgroup.number
            unfold NumberFits longNumber
            omega
          have hscan := @lookupScan_run name [e] (l :: ls) i newBuffer (List.forall_mem_cons.mpr
            ⟨⟨hgroup.long, hfit⟩, hgroup.run.number_fits hfew.le⟩)
          have hname : cString (assemble (l :: ls) newBuffer) = lowLetters (l :: ls) :=
            hgroup.cString
          rw [hscan, lookupScan_singleton, and_iff_right hlen, and_iff_right hlen]
          by_cases hlow : lowLetters (l :: ls) = []
          · have hzero := (cString_eq_nil_iff _).mp (hname.trans hlow)
            have hslot := @lookupSlot_short name e _ hl hzero (i + (l :: ls).length)
            rw [if_pos hlow, if_pos hlow]
            exact ⟨hslot.1, hslot.2.1, fun hs ho => hslot.2.2 (hneither e hs ho)⟩
          · have hfirst : assemble (l :: ls) newBuffer 0 ≠ 0 :=
              fun h0 => hlow (hname.symm.trans ((cString_eq_nil_iff _).mpr h0))
            rw [if_neg hlow, if_neg hlow, lookupSlot_held hl hfirst, hname]
            exact ⟨fun h => if_pos h, fun h => if_neg h, fun hs ho => absurd ho (not_not.mpr hs)⟩
        · have hfit : ¬ NumberFits l := by
            have hnum := hgroup.number
            have hfew := hgroup.few
            rw [List.length_cons] at hlen
            unfold NumberFits longNumber
            omega
          rw [List.cons_append, lookupScan, lookupSlot_outside hgroup.long hfit]
          exact ⟨fun h => absurd h.1 hlen, fun h => absurd h.1 hlen, fun _ _ => rfl⟩

/-! ## The slots behind the end -/

/-- The slot is passed where the search goes on behind it. -/
theorem slotPassed_iff (e : Buffer) (i : Nat) (lnameBuf : Buffer) : SlotPassed name lnameBuf e ↔
    lookupSlot name e i lnameBuf
      = .next (if slotLongName e then putLongName e lnameBuf else newBuffer) := by
  unfold SlotPassed
  cases hl : slotLongName e with
  | true =>
      rw [if_pos rfl, if_pos rfl]
      constructor
      · exact fun hfit => lookupSlot_long hl hfit i lnameBuf
      · intro h
        by_contra hfit
        exact nomatch (lookupSlot_outside hl hfit i lnameBuf).symm.trans h
  | false =>
      rw [if_neg Bool.false_ne_true, if_neg Bool.false_ne_true]
      by_cases h0 : lnameBuf 0 = 0
      · rw [if_neg (not_not.mpr h0)]
        have hslot := @lookupSlot_short name e lnameBuf hl h0 i
        refine ⟨hslot.2.1, fun h => ⟨?_, fun hsame => ?_⟩⟩
        · by_contra hlen
          exact nomatch (hslot.2.2 (Nat.not_lt.mp hlen)).symm.trans h
        · by_cases hlen : (fdn2sde name).length < 256
          · exact nomatch (hslot.1 ⟨hlen, hsame⟩).symm.trans h
          · exact nomatch (hslot.2.2 (Nat.not_lt.mp hlen)).symm.trans h
      · rw [if_pos h0, lookupSlot_held hl h0]
        constructor
        · exact fun hne => if_neg hne
        · intro h heq
          rw [if_pos heq] at h
          cases h

theorem lookupSlot_next {e lnameBuf b : Buffer} {i : Nat} (h : lookupSlot name e i lnameBuf = .next b) :
    b = if slotLongName e then putLongName e lnameBuf else newBuffer := by
  unfold lookupSlot at h
  by_cases hl : slotLongName e = true
  · rw [if_pos hl] at h ⊢
    split at h
    · exact (Scan.next.inj h).symm
    · cases h
  · rw [if_neg hl] at h ⊢
    repeat' split at h
    all_goals
      cases h
      try rfl

theorem lastLetters_append (es : List Buffer) (e : Buffer) : lastLetters (es ++ [e])
    = if slotLongName e then putLongName e (lastLetters es) else newBuffer := by
  unfold lastLetters
  rw [List.foldl_append, List.foldl_cons, List.foldl_nil]

/-- The search goes over all slots where it passes each of them. -/
theorem lookupScan_passes : ∀ (es before : List Buffer) (i : Nat),
    (∃ b, lookupScan name es i (lastLetters before) = .next b) ↔
      ∀ pre e post, es = pre ++ e :: post → SlotPassed name (lastLetters (before ++ pre)) e
  | [], before, i => iff_of_true ⟨_, rfl⟩ (fun pre e post h => by simp at h)
  | e :: es, before, i => by
      have ih := lookupScan_passes es (before ++ [e]) (i + 1)
      rw [lastLetters_append] at ih
      rw [lookupScan]
      rw [Split.forall_cons, List.append_nil]
      by_cases hpass : SlotPassed name (lastLetters before) e
      · rw [(slotPassed_iff e i _).mp hpass, and_iff_right hpass]
        dsimp only
        rw [ih]
        simp only [List.append_assoc, List.singleton_append]
      · apply iff_of_false
        · rintro ⟨b, hb⟩
          apply hpass
          cases hs : lookupSlot name e i (lastLetters before) with
          | outside =>
              rw [hs] at hb
              cases hb
          | found k =>
              rw [hs] at hb
              cases hb
          | next b' =>
              rw [lookupSlot_next hs] at hs
              exact (slotPassed_iff e i _).mpr hs
        · exact fun h => hpass h.1

end

/-! ## All slots -/

section

variable {sb : SbInfo} {disk : Buffer} {inode : Inode} {chain : List Nat} {name : List UInt8}

/-- Nodes for two slots differ. -/
theorem DirChain.nodeAt_inj (h : DirChain sb disk inode chain) {k k' : Nat}
    (hk : k < chain.length * sb.slotsPerClus) (hk' : k' < chain.length * sb.slotsPerClus)
    (heq : nodeAt sb disk chain k = nodeAt sb disk chain k') : k = k' := by
  apply h.nodeAt_slot hk hk'
  · rw [heq, nodeAt, foundNode_dentryLocation]
  · rw [heq, nodeAt, foundNode_dentryPosition]

theorem slots_pos (item : DirItem) : 0 < item.slots.length := by
  cases item with
  | deleted e => exact Nat.one_pos
  | entry group e =>
      rw [DirItem.slots, List.length_append]
      exact Nat.succ_pos _

/-- The entry is one of the items. -/
theorem matchSlot_lt {k : Nat} : ∀ (items : List DirItem) (i : Nat), matchSlot name items i = some k →
    i ≤ k ∧ k < i + (items.flatMap DirItem.slots).length
  | [], _, h => nomatch h
  | item :: items, i, h => by
      have hpos := slots_pos item
      rw [List.flatMap_cons, List.length_append]
      rw [matchSlot] at h
      split at h
      · cases h
        omega
      · have ih := matchSlot_lt items _ h
        omega

theorem dirSlots_length (chain : List Nat) :
    (dirSlots sb disk chain).length = chain.length * sb.slotsPerClus := by
  induction chain with
  | nil => simp [dirSlots]
  | cons c l ih =>
      rw [dirSlots_cons, List.length_append, clusterSlots_length, ih, List.length_cons]
      ring

/-- The search from an item on is right where it passes and takes what it should. -/
theorem scan_right (h : DirChain sb disk inode chain) (tail : List Buffer) :
    ∀ (items : List DirItem) (i : Nat), (∀ item ∈ items, item.WellFormed) →
    i + (items.flatMap DirItem.slots ++ tail).length = chain.length * sb.slotsPerClus →
    ((lookupScan name (items.flatMap DirItem.slots ++ tail) i newBuffer).result sb disk chain
        = resultAt sb disk chain (matchSlot name items i) ↔ SearchRight name tail items)
  | [], i, _, hlen => by
      have hpasses := @lookupScan_passes name tail [] i
      rw [List.flatMap_nil, List.nil_append, matchSlot, SearchRight]
      refine Iff.trans ?_ hpasses
      rw [show lastLetters [] = newBuffer from rfl]
      cases hs : lookupScan name tail i newBuffer with
      | outside => exact iff_of_false (fun hr => nomatch hr) (fun hn => nomatch hn.choose_spec)
      | found k => exact iff_of_false (fun hr => nomatch hr) (fun hn => nomatch hn.choose_spec)
      | next b => exact iff_of_true rfl ⟨b, rfl⟩
  | item :: items, i, hw, hlen => by
      rw [List.forall_mem_cons] at hw
      have hpos := slots_pos item
      have hitem := @lookupScan_item name item hw.1 i
      rw [List.flatMap_cons, List.append_assoc, List.length_append] at hlen
      have ih := scan_right h tail items (i + item.slots.length) hw.2 (by omega)
      rw [List.flatMap_cons, List.append_assoc, lookupScan_append, matchSlot, SearchRight]
      -- what is found behind the item is not its last slot
      have hlater : ∀ b k, lookupScan name (items.flatMap DirItem.slots ++ tail)
          (i + item.slots.length) b = .found k →
          nodeAt sb disk chain k ≠ nodeAt sb disk chain (i + (item.slots.length - 1)) := by
        intro b k hk heq
        have hfound := lookupScan_found name _ _ _ hk
        have := h.nodeAt_inj (by omega) (by omega) heq
        omega
      by_cases hm : item.Matches name
      · rw [if_pos hm, if_pos hm]
        by_cases htaken : item.Taken name
        · rw [hitem.1 htaken]
          exact iff_of_true rfl htaken
        apply iff_of_false _ htaken
        by_cases hpassed : item.Passed name
        · rw [hitem.2.1 hpassed]
          dsimp only [Scan.andThen]
          cases hs : lookupScan name (items.flatMap DirItem.slots ++ tail)
              (i + item.slots.length) newBuffer with
          | outside => exact fun hr => nomatch hr
          | found k => exact fun hr => hlater _ k hs (LookupResult.found.inj hr)
          | next b => exact fun hr => nomatch hr
        · rw [hitem.2.2 htaken hpassed]
          exact fun hr => nomatch hr
      · rw [if_neg hm, if_neg hm]
        by_cases hpassed : item.Passed name
        · rw [hitem.2.1 hpassed, and_iff_right hpassed]
          exact ih
        apply iff_of_false _ (fun hr => hpassed hr.1)
        by_cases htaken : item.Taken name
        · rw [hitem.1 htaken]
          dsimp only [Scan.andThen]
          cases hs : matchSlot name items (i + item.slots.length) with
          | none => exact fun hr => nomatch hr
          | some k =>
              have hk := matchSlot_lt items _ hs
              intro hr
              have := h.nodeAt_inj (by omega) (by rw [List.length_append] at hlen; omega)
                (LookupResult.found.inj hr)
              omega
        · rw [hitem.2.2 htaken hpassed]
          cases matchSlot name items (i + item.slots.length) with
          | none => exact fun hr => nomatch hr
          | some k => exact fun hr => nomatch hr

/-- **The first entry with the name** is what `fat32_lookup` finds, and nothing where there is none, if
and only if the search passes what comes before it, and takes it. -/
theorem lookup_matches (h : DirChain sb disk inode chain) (layout : DirLayout (dirSlots sb disk chain))
    (h0 : 0 ∉ name) :
    MatchesExactly sb disk inode chain layout.items name ↔
      SearchRight name layout.tail layout.items := by
  have hname : name.takeWhile (· ≠ 0) = name :=
    List.takeWhile_eq_self_iff.mpr (fun c hc => decide_eq_true (fun hz => h0 (hz ▸ hc)))
  have hlen := congrArg List.length layout.slots_eq
  rw [dirSlots_length] at hlen
  have hscan := @scan_right sb disk inode chain name h layout.tail layout.items 0 layout.wellFormed
    (by rw [Nat.zero_add, hlen])
  rw [← hscan]
  have hslots := fat32Lookup_slots h name
  rw [hname, congrArg (fun es => lookupScan name es 0 newBuffer) layout.slots_eq] at hslots
  constructor
  · intro hmatch
    exact (hmatch _).mp ((hslots _).mpr rfl)
  · intro heq r
    rw [hslots r, heq]

end

/-- The file `A` is found as `a`. -/
theorem lookup_matches_example :
    MatchesExactly exampleSb entryDisk entryDir [2] entryLayout.items [97] := by
  have hmatch : (DirItem.entry [] (slot (ideRead entryDisk 34 1 newBuffer) 0)).Matches [97] := by
    decide +kernel
  apply (lookup_matches entryDisk_chain entryLayout (by decide)).mpr
  apply (if_pos hmatch).mpr
  refine ⟨by decide, (if_pos rfl).mpr ⟨by decide, by decide +kernel⟩⟩

/-- The file `A` is found as `.A` as well. -/
theorem lookup_not_matches : ¬ ∀ (sb : SbInfo) (disk : Buffer) (inode : Inode) (chain : List Nat),
    DirChain sb disk inode chain → ∀ (layout : DirLayout (dirSlots sb disk chain))
      (name : List UInt8), 0 ∉ name → MatchesExactly sb disk inode chain layout.items name := by
  intro hall
  have hmatch := hall exampleSb entryDisk entryDir [2] entryDisk_chain entryLayout [46, 65] (by decide)
  have hnone : matchSlot [46, 65] entryLayout.items 0 = none := by decide +kernel
  have hslot : lookupSlot [46, 65] (slot (ideRead entryDisk 34 1 newBuffer) 0) 0 newBuffer
      = .found 0 :=
    (lookupSlot_short (by decide +kernel) rfl 0).1 ⟨by decide, by decide +kernel⟩
  have hscan : lookupScan [46, 65] (dirSlots exampleSb entryDisk [2]) 0 newBuffer = .found 0 := by
    rw [entryLayout.slots_eq]
    show lookupScan [46, 65] (slot (ideRead entryDisk 34 1 newBuffer) 0 :: _) 0 newBuffer = _
    rw [lookupScan, hslot]
  have hfound := (fat32Lookup_slots entryDisk_chain [46, 65] _).mpr rfl
  rw [hmatch, hnone, show [46, 65].takeWhile (· ≠ (0 : UInt8)) = [46, 65] by decide, hscan] at hfound
  cases hfound

end Talios
