import Talios.Fs.DirMatch

set_option autoImplicit false

/-! # Names that are listed, and names that are found

`fat32_readdir` and `fat32_lookup` put the names of a directory together on their own. A name that the
one passes is found by the other, at the slot that it was passed for, where that slot is taken for the
name and no slot before it is (`listed_found`).
-/

namespace Talios

open Bytes Word

/-! ## Names that are passed -/

/-- The bytes that are passed on. -/
def DirName.bytes (r : DirName) : List UInt8 := (List.range r.namelen).map r.name

/-- Every name that the calls pass is found, at the slot that it is passed for. -/
def NamesFound (sb : SbInfo) (disk : Buffer) (inode : Inode) (chain : List Nat) : Prop :=
  ∀ stale pos res, DirCalls sb disk inode stale pos res → ∀ k r, res k = some r →
    ∀ result, (∃ fuel, fat32Lookup sb disk inode r.bytes fuel = some result) ↔
      result = .found (nodeAt sb disk chain (r.position / DIRECTORY_SIZE - 1))

/-- `name_buf` behind some slots: the long-name slots since the last name. -/
def lastHeld (es : List Buffer) : Buffer :=
  es.foldl (fun nameBuf e => if slotUsed e then newBuffer
    else if slotDeleted e then nameBuf else putLongName e nameBuf) newBuffer

/-- The name that is passed for a slot with `nameBuf` before it, up to its first zero. -/
def passedName (nameBuf e : Buffer) : List UInt8 :=
  (if nameBuf 0 ≠ 0 then cString nameBuf else shortListed e).takeWhile (· ≠ 0)

/-- The search takes a slot, with the letters of the long-name slots before it in `lname_buf`. -/
def SlotTaken (name : List UInt8) (lnameBuf e : Buffer) : Prop :=
  slotLongName e = false ∧ if lnameBuf 0 ≠ 0 then name = cString lnameBuf else ShortSame name e

/-- The search for a name passes some slots, and takes the one behind them. -/
def FirstTaken (name : List UInt8) (pre : List Buffer) (e : Buffer) : Prop :=
  SlotTaken name (lastLetters pre) e ∧
    ∀ pre' s post', pre = pre' ++ s :: post' → SlotPassed name (lastLetters pre') s

/-! ## The list -/

section

theorem lastHeld_append (es : List Buffer) (e : Buffer) : lastHeld (es ++ [e])
    = if slotUsed e then newBuffer
      else if slotDeleted e then lastHeld es else putLongName e (lastHeld es) := by
  unfold lastHeld
  rw [List.foldl_append, List.foldl_cons, List.foldl_nil]

/-- What is in the list of some slots: one name for each slot that is used. -/
theorem mem_listed {r : DirName} : ∀ (es before : List Buffer) (position : Nat),
    r ∈ listed es position (lastHeld before) ↔ ∃ pre e post, es = pre ++ e :: post ∧
      slotUsed e = true ∧
      r = slotName e (lastHeld (before ++ pre)) (position + (pre.length + 1) * DIRECTORY_SIZE)
  | [], before, position => iff_of_false List.not_mem_nil (fun ⟨pre, e, post, h, _⟩ => by simp at h)
  | e :: es, before, position => by
      have ih := @mem_listed r es (before ++ [e]) (position + DIRECTORY_SIZE)
      have hend : ∀ n, position + DIRECTORY_SIZE + (n + 1) * DIRECTORY_SIZE
          = position + (n + 1 + 1) * DIRECTORY_SIZE := fun n => by ring
      simp only [hend, List.append_assoc, List.singleton_append] at ih
      rw [Split.exists_cons, List.append_nil, List.length_nil, Nat.zero_add, Nat.one_mul]
      simp only [List.length_cons]
      rw [← ih, lastHeld_append]
      cases hu : slotUsed e with
      | true => rw [listed_used hu, List.mem_cons, if_pos rfl, and_iff_right rfl]
      | false =>
          have hone := listed_unused es [e] position (lastHeld before) (by simpa using hu)
          rw [List.singleton_append, List.length_singleton, Nat.one_mul, heldLetters_cons,
            heldLetters_nil] at hone
          rw [hone, if_neg Bool.false_ne_true]
          exact (or_iff_right (fun h => Bool.false_ne_true h.1)).symm

theorem DirName.letters_bytes (r : DirName) : r.letters = r.bytes.map UInt8.toNat := by
  unfold DirName.letters DirName.bytes
  rw [List.map_map]
  exact List.map_congr_left (fun i hi => rfl)

/-- The bytes that are passed for a slot. -/
theorem slotName_bytes (e nameBuf : Buffer) (position : Nat) :
    (slotName e nameBuf position).bytes.takeWhile (· ≠ 0) = passedName nameBuf e := by
  have hinj : Function.Injective UInt8.toNat := fun c d hcd => UInt8.toNat_inj.mp hcd
  unfold passedName
  congr 1
  apply hinj.list_map
  rw [← DirName.letters_bytes]
  by_cases h0 : nameBuf 0 = 0
  · rw [if_neg (not_not.mpr h0)]
    exact slotName_short h0 position
  · rw [if_pos h0]
    exact slotName_long h0 position

/-! ## The search -/

variable {name : List UInt8}

/-- What is in `lname_buf` behind slots that are passed. -/
theorem lookupScan_next {b : Buffer} : ∀ (es before : List Buffer) (i : Nat),
    lookupScan name es i (lastLetters before) = .next b → b = lastLetters (before ++ es)
  | [], before, i, h => by
      rw [List.append_nil]
      exact (Scan.next.inj h).symm
  | e :: es, before, i, h => by
      rw [lookupScan] at h
      cases hs : lookupSlot name e i (lastLetters before) with
      | outside =>
          rw [hs] at h
          cases h
      | found k =>
          rw [hs] at h
          cases h
      | next b' =>
          rw [hs] at h
          rw [lookupSlot_next hs, ← lastLetters_append] at h
          have ih := lookupScan_next es (before ++ [e]) (i + 1) h
          rwa [List.append_assoc, List.singleton_append] at ih

theorem slotTaken_iff (lnameBuf e : Buffer) (i : Nat) :
    SlotTaken name lnameBuf e ↔ lookupSlot name e i lnameBuf = .found i := by
  unfold SlotTaken
  cases hl : slotLongName e with
  | true =>
      apply iff_of_false (fun h => nomatch h.1)
      intro h
      by_cases hfit : NumberFits e
      · exact nomatch (lookupSlot_long hl hfit i lnameBuf).symm.trans h
      · exact nomatch (lookupSlot_outside hl hfit i lnameBuf).symm.trans h
  | false =>
      rw [and_iff_right rfl]
      by_cases h0 : lnameBuf 0 = 0
      · have hslot := @lookupSlot_short name e lnameBuf hl h0 i
        rw [if_neg (not_not.mpr h0)]
        refine ⟨hslot.1, fun h => ?_⟩
        by_cases hlen : (fdn2sde name).length < 256
        · refine ⟨hlen, ?_⟩
          by_contra hother
          exact nomatch (hslot.2.1 ⟨hlen, hother⟩).symm.trans h
        · exact nomatch (hslot.2.2 (Nat.not_lt.mp hlen)).symm.trans h
      · rw [if_pos h0, lookupSlot_held hl h0]
        constructor
        · exact fun heq => if_pos heq
        · intro h
          by_contra hne
          rw [if_neg hne] at h
          cases h

/-- A slot is found where the search passes all slots before it, and takes it. -/
theorem lookupScan_first (pre : List Buffer) (e : Buffer) (post : List Buffer) :
    lookupScan name (pre ++ e :: post) 0 newBuffer = .found pre.length ↔ FirstTaken name pre e := by
  have hpasses := @lookupScan_passes name pre [] 0
  rw [show lastLetters [] = newBuffer from rfl] at hpasses
  simp only [List.nil_append] at hpasses
  unfold FirstTaken
  rw [lookupScan_append, Nat.zero_add]
  cases hs : lookupScan name pre 0 newBuffer with
  | outside =>
      apply iff_of_false (fun h => by cases h)
      intro h
      rcases hpasses.mpr h.2 with ⟨b, hb⟩
      cases hs.symm.trans hb
  | found k =>
      have hk := lookupScan_found name _ _ _ hs
      apply iff_of_false
      · intro h
        have := Scan.found.inj h
        omega
      · intro h
        rcases hpasses.mpr h.2 with ⟨b, hb⟩
        cases hs.symm.trans hb
  | next b =>
      have hb : b = lastLetters pre := @lookupScan_next name b pre [] 0 hs
      rw [and_iff_left (hpasses.mp ⟨b, hs⟩), slotTaken_iff _ _ pre.length, hb]
      dsimp only [Scan.andThen]
      rw [lookupScan]
      cases hslot : lookupSlot name e pre.length (lastLetters pre) with
      | outside => exact Iff.rfl
      | found k => exact Iff.rfl
      | next b' =>
          apply iff_of_false
          · intro h
            have := lookupScan_found name _ _ _ h
            omega
          · intro h
            cases h

end

/-! ## All names -/

section

variable {sb : SbInfo} {disk : Buffer} {inode : Inode} {chain : List Nat}

/-- A name is found at a slot where the search of the slots ends there. -/
theorem found_at_iff (h : DirChain sb disk inode chain) (name : List UInt8) {k : Nat}
    (hk : k < chain.length * sb.slotsPerClus) :
    (∀ result, (∃ fuel, fat32Lookup sb disk inode name fuel = some result) ↔
      result = .found (nodeAt sb disk chain k)) ↔
    lookupScan (name.takeWhile (· ≠ 0)) (dirSlots sb disk chain) 0 newBuffer = .found k := by
  have hslots := fat32Lookup_slots h name
  constructor
  · intro hall
    have hres := (hall _).mp ((hslots _).mpr rfl)
    cases hs : lookupScan (name.takeWhile (· ≠ 0)) (dirSlots sb disk chain) 0 newBuffer with
    | outside =>
        rw [hs] at hres
        cases hres
    | next b =>
        rw [hs] at hres
        cases hres
    | found k' =>
        rw [hs] at hres
        have hk' := lookupScan_found _ _ _ _ hs
        rw [Nat.zero_add, dirSlots_length] at hk'
        rw [h.nodeAt_inj hk'.2 hk (LookupResult.found.inj hres)]
  · intro hs result
    rw [hslots result, hs]
    exact Iff.rfl

/-- What is found for the names of the list, where all calls see the same slots. -/
theorem NamesFound.scan (hf : NamesFound sb disk inode chain) (h : DirChain sb disk inode chain)
    {stale : Nat → Buffer} {es : List Buffer}
    (hseen : ∀ k, (dirSeen sb disk (stale k) chain).map cutSlot = es.map cutSlot)
    {pre : List Buffer} {e : Buffer} {post : List Buffer} (hes : es = pre ++ e :: post)
    (hu : slotUsed e = true) :
    lookupScan (passedName (lastHeld pre) e) (dirSlots sb disk chain) 0 newBuffer
      = .found pre.length := by
  have hmem := (@mem_listed (slotName e (lastHeld pre) ((pre.length + 1) * DIRECTORY_SIZE)) es [] 0).mpr
    ⟨pre, e, post, hes, hu, by rw [List.nil_append, Nat.zero_add]⟩
  rcases List.mem_iff_getElem?.mp hmem with ⟨k, hk⟩
  have hcalls := (dirCalls_listed h hseen (callPos es) (fun k => (listed es 0 newBuffer)[k]?)).mpr
    ⟨fun k => rfl, fun k => rfl⟩
  have hfound := hf stale _ _ hcalls k _ hk
  rw [slotName_position, Nat.mul_div_cancel _ (by decide), Nat.add_sub_cancel] at hfound
  have hlen := congrArg List.length (hseen 0)
  rw [List.length_map, List.length_map, dirSeen_length, hes, List.length_append,
    List.length_cons] at hlen
  have hscan := (found_at_iff h _ (by omega)).mp hfound
  rwa [slotName_bytes] at hscan

theorem slots_split (diskBuf : Buffer) {n i : Nat} (hi : i < n) : slots diskBuf n
    = (List.range i).map (slot diskBuf)
      ++ slot diskBuf i :: (List.range' (i + 1) (n - i - 1)).map (slot diskBuf) := by
  have hrange : List.range n = List.range i ++ i :: List.range' (i + 1) (n - i - 1) := by
    have happend := @List.range'_append_1 0 i (n - i)
    have hsucc : n - i = n - i - 1 + 1 := by omega
    rw [Nat.zero_add, Nat.add_sub_cancel' hi.le, hsucc, List.range'_succ] at happend
    rw [List.range_eq_range', List.range_eq_range', happend]
  unfold slots
  rw [hrange, List.map_append, List.map_cons]

/-- Two slots behind the first sector may hold the same name. -/
theorem NamesFound.secPerClus (hf : NamesFound sb disk inode chain)
    (h : DirChain sb disk inode chain) : sb.secPerClus = 1 := by
  by_contra hsec
  have hpos := sb.secPerClus_pos
  have hn := sb.slotsPerClus_eq
  rcases List.exists_cons_of_ne_nil h.nonempty with ⟨c, l, hchain⟩
  let diskBuf := ideRead disk (clusToLba sb c) 1 staleLetters
  have hslot : ∀ i, 16 ≤ i → cutSlot (slot diskBuf i) = cutSlot staleLetters := by
    intro i hi
    apply cutSlot_congr
    intro j hj
    exact slot_ideRead_behind _ (by unfold DIRECTORY_SIZE BYTE_PER_VSEC; omega)
  have hused : ∀ i, 16 ≤ i → slotUsed (slot diskBuf i) = true := by
    intro i hi
    have h0 := congrFun (hslot i hi) 0
    have h11 := congrFun (hslot i hi) 11
    exact slotUsed_congr h0 h11
  -- slot `i + 1` comes after a slot that has a name
  have hscan : ∀ i, 16 ≤ i → i + 1 < sb.slotsPerClus →
      lookupScan (passedName newBuffer staleLetters) (dirSlots sb disk chain) 0 newBuffer
        = .found (i + 1) := by
    intro i hi hlt
    have hes : dirSeen sb disk staleLetters chain
        = (List.range (i + 1)).map (slot diskBuf) ++ slot diskBuf (i + 1) ::
          ((List.range' (i + 1 + 1) (sb.slotsPerClus - (i + 1) - 1)).map (slot diskBuf)
            ++ dirSeen sb disk staleLetters l) := by
      rw [hchain, dirSeen_cons, seenSlots, slots_split _ hlt, List.append_assoc, List.cons_append]
    have hheld : lastHeld ((List.range (i + 1)).map (slot diskBuf)) = newBuffer := by
      rw [List.range_succ, List.map_append, List.map_singleton, lastHeld_append,
        if_pos (hused i hi)]
    have hname : passedName newBuffer (slot diskBuf (i + 1)) = passedName newBuffer staleLetters := by
      rw [← slotName_bytes _ _ 0, ← slotName_cut, hslot (i + 1) (by omega), slotName_cut,
        slotName_bytes]
    have hfound := hf.scan h (fun _ => rfl) hes (hused (i + 1) (by omega))
    rwa [hheld, hname, List.length_map, List.length_range] at hfound
  have h17 := hscan 16 le_rfl (by omega)
  have h18 := hscan 17 (by decide) (by omega)
  exact absurd (h17.symm.trans h18) (by simp)

/-- With one sector in each cluster the names are those for the slots of the directory. -/
theorem namesFound_iff (h : DirChain sb disk inode chain) (hsec : sb.secPerClus = 1) :
    NamesFound sb disk inode chain ↔
      ∀ pre e post, dirSlots sb disk chain = pre ++ e :: post → slotUsed e = true →
        FirstTaken (passedName (lastHeld pre) e) pre e := by
  constructor
  · intro hf pre e post hes hu
    have hscan := hf.scan h (fun _ => dirSeen_dirSlots hsec newBuffer chain) hes hu
    rw [hes] at hscan
    exact (lookupScan_first pre e post).mp hscan
  · intro hall stale pos res hcalls k r hr
    have hlist := ((dirCalls_listed h (fun k => dirSeen_dirSlots hsec (stale k) chain) pos res).mp
      hcalls).2 k
    rw [hr] at hlist
    rcases (@mem_listed r (dirSlots sb disk chain) [] 0).mp (List.mem_of_getElem? hlist.symm) with
      ⟨pre, e, post, hes, hu, rfl⟩
    rw [slotName_position, Nat.zero_add, Nat.mul_div_cancel _ (by decide), Nat.add_sub_cancel,
      List.nil_append]
    have hlen := congrArg List.length hes
    rw [dirSlots_length, List.length_append, List.length_cons] at hlen
    apply (found_at_iff h _ (by omega)).mpr
    rw [slotName_bytes, hes]
    exact (lookupScan_first pre e post).mpr (hall pre e post hes hu)

/-- The names in the list, slot by slot. -/
theorem listed_scan_iff (es : List Buffer) :
    (∀ r ∈ listed es 0 newBuffer, lookupScan (r.bytes.takeWhile (· ≠ 0)) es 0 newBuffer
        = .found (r.position / DIRECTORY_SIZE - 1)) ↔
      ∀ pre e post, es = pre ++ e :: post → slotUsed e = true →
        FirstTaken (passedName (lastHeld pre) e) pre e := by
  constructor
  · intro hall pre e post hes hu
    have hmem := (@mem_listed (slotName e (lastHeld pre) ((pre.length + 1) * DIRECTORY_SIZE)) es [] 0).mpr
      ⟨pre, e, post, hes, hu, by rw [List.nil_append, Nat.zero_add]⟩
    have hscan := hall _ hmem
    rw [slotName_position, Nat.mul_div_cancel _ (by decide), Nat.add_sub_cancel, slotName_bytes,
      hes] at hscan
    exact (lookupScan_first pre e post).mp hscan
  · intro hall r hr
    rcases (@mem_listed r es [] 0).mp hr with ⟨pre, e, post, hes, hu, rfl⟩
    rw [slotName_position, Nat.zero_add, Nat.mul_div_cancel _ (by decide), Nat.add_sub_cancel,
      List.nil_append, slotName_bytes, hes]
    exact (lookupScan_first pre e post).mpr (hall pre e post hes hu)

end

/-! ## Item by item -/

section

variable {tail : List Buffer} {name : List UInt8}

/-- The entries, at their places among the items. -/
theorem entriesFrom_iff {Q : List Buffer × Buffer × Nat → Prop} : ∀ (items : List DirItem) (n : Nat),
    (∀ x ∈ entriesFrom items (n * DIRECTORY_SIZE), Q x) ↔
      ∀ before item after, items = before ++ item :: after → ∀ group e, item = .entry group e →
        Q (group, e, (n + (before.flatMap DirItem.slots).length + group.length + 1) * DIRECTORY_SIZE)
  | [], n => by
      apply iff_of_true
      · exact fun x hx => absurd hx List.not_mem_nil
      · intro before item after h
        simp at h
  | item :: items, n => by
      have ih := @entriesFrom_iff Q items (n + item.slots.length)
      have hlen : ∀ before : List DirItem, n + ((item :: before).flatMap DirItem.slots).length
          = n + item.slots.length + (before.flatMap DirItem.slots).length := by
        intro before
        rw [List.flatMap_cons, List.length_append, Nat.add_assoc]
      rw [Split.forall_cons, List.flatMap_nil, List.length_nil, Nat.add_zero]
      simp only [hlen]
      rw [← ih]
      cases item with
      | deleted e =>
          have hstep : entriesFrom (.deleted e :: items) (n * DIRECTORY_SIZE)
              = entriesFrom items ((n + (DirItem.deleted e).slots.length) * DIRECTORY_SIZE) := by
            rw [entriesFrom, DirItem.slots, List.length_singleton, Nat.add_mul, Nat.one_mul]
          rw [hstep]
          exact (and_iff_right (fun group e' h => by cases h)).symm
      | entry group e =>
          have hend : n * DIRECTORY_SIZE + (group.length + 1) * DIRECTORY_SIZE
              = (n + group.length + 1) * DIRECTORY_SIZE := by ring
          have hslots : (n + (DirItem.entry group e).slots.length) * DIRECTORY_SIZE
              = (n + group.length + 1) * DIRECTORY_SIZE := by
            rw [DirItem.slots, List.length_append, List.length_singleton, Nat.add_assoc]
          rw [entriesFrom, hend, hslots, List.forall_mem_cons]
          apply and_congr_left'
          constructor
          · intro hq group' e' h
            cases h
            exact hq
          · exact fun hq => hq group e rfl

/-- The search ends at an entry where it passes the items before it, and takes it. -/
theorem lookupScan_entry {group : List Buffer} {e : Buffer} (after : List DirItem) :
    ∀ (before : List DirItem) (i : Nat),
    (∀ item ∈ before ++ .entry group e :: after, item.WellFormed) →
    (lookupScan name ((before ++ .entry group e :: after).flatMap DirItem.slots ++ tail) i newBuffer
        = .found (i + (before.flatMap DirItem.slots).length + group.length) ↔
      (DirItem.entry group e).Taken name ∧ ∀ item ∈ before, item.Passed name)
  | [], i, hw => by
      have hitem := @lookupScan_item name (.entry group e) (hw _ List.mem_cons_self) i
      have hlast : (DirItem.entry group e).slots.length - 1 = group.length := by
        rw [DirItem.slots, List.length_append, List.length_singleton, Nat.add_sub_cancel]
      rw [hlast] at hitem
      rw [List.nil_append, List.flatMap_cons, List.append_assoc, lookupScan_append, List.flatMap_nil,
        List.length_nil, Nat.add_zero,
        and_iff_left (fun item (h : item ∈ []) => absurd h List.not_mem_nil)]
      by_cases htaken : (DirItem.entry group e).Taken name
      · rw [hitem.1 htaken]
        exact iff_of_true rfl htaken
      apply iff_of_false _ htaken
      by_cases hpassed : (DirItem.entry group e).Passed name
      · rw [hitem.2.1 hpassed]
        intro h
        have hfound := lookupScan_found name _ _ _ h
        rw [DirItem.slots, List.length_append, List.length_singleton] at hfound
        omega
      · rw [hitem.2.2 htaken hpassed]
        intro h
        cases h
  | item :: before, i, hw => by
      rw [List.cons_append, List.forall_mem_cons] at hw
      have hitem := @lookupScan_item name item hw.1 i
      have hpos := slots_pos item
      have ih := @lookupScan_entry group e after before (i + item.slots.length) hw.2
      have hlen : i + ((item :: before).flatMap DirItem.slots).length
          = i + item.slots.length + (before.flatMap DirItem.slots).length := by
        rw [List.flatMap_cons, List.length_append, Nat.add_assoc]
      rw [List.cons_append, List.flatMap_cons, List.append_assoc, lookupScan_append, hlen,
        List.forall_mem_cons]
      by_cases hpassed : item.Passed name
      · rw [hitem.2.1 hpassed, and_iff_right hpassed]
        exact ih
      apply iff_of_false _ (fun h => hpassed h.2.1)
      by_cases htaken : item.Taken name
      · rw [hitem.1 htaken]
        intro h
        have := Scan.found.inj h
        omega
      · rw [hitem.2.2 htaken hpassed]
        intro h
        cases h

end

/-- The search for the name that is passed for an entry passes the items before it, and takes it. -/
def EntriesFound (items : List DirItem) : Prop :=
  ∀ before group e after, items = before ++ .entry group e :: after →
    (DirItem.entry group e).Taken (passedName (heldLetters group newBuffer) e) ∧
      ∀ item ∈ before, item.Passed (passedName (heldLetters group newBuffer) e)

/-- Where all entries and nothing else are in the list, the names are those of the entries. -/
theorem entriesFound_iff {items : List DirItem} {tail : List Buffer}
    (hw : ∀ item ∈ items, item.WellFormed)
    (hused : ∀ x ∈ entriesFrom items 0, slotUsed x.2.1 = true)
    (htail : ∀ e ∈ tail, slotUsed e = false) :
    (∀ r ∈ listed (items.flatMap DirItem.slots ++ tail) 0 newBuffer,
      lookupScan (r.bytes.takeWhile (· ≠ 0)) (items.flatMap DirItem.slots ++ tail) 0 newBuffer
        = .found (r.position / DIRECTORY_SIZE - 1)) ↔ EntriesFound items := by
  have hitems := entriesFrom_iff (Q := fun x =>
    lookupScan ((slotName x.2.1 (heldLetters x.1 newBuffer) x.2.2).bytes.takeWhile (· ≠ 0))
      (items.flatMap DirItem.slots ++ tail) 0 newBuffer
      = .found ((slotName x.2.1 (heldLetters x.1 newBuffer) x.2.2).position / DIRECTORY_SIZE - 1))
    items 0
  rw [Nat.zero_mul] at hitems
  rw [listed_items htail items 0 hw hused, List.forall_mem_map, hitems]
  unfold EntriesFound
  -- one entry at its place
  have hone : ∀ before group e after, items = before ++ .entry group e :: after →
      (lookupScan ((slotName e (heldLetters group newBuffer) ((0 + (before.flatMap
          DirItem.slots).length + group.length + 1) * DIRECTORY_SIZE)).bytes.takeWhile (· ≠ 0))
          (items.flatMap DirItem.slots ++ tail) 0 newBuffer
        = .found ((slotName e (heldLetters group newBuffer) ((0 + (before.flatMap
          DirItem.slots).length + group.length + 1) * DIRECTORY_SIZE)).position
            / DIRECTORY_SIZE - 1) ↔
      (DirItem.entry group e).Taken (passedName (heldLetters group newBuffer) e) ∧
        ∀ item ∈ before, item.Passed (passedName (heldLetters group newBuffer) e)) := by
    rintro before group e after rfl
    rw [slotName_bytes, slotName_position, Nat.mul_div_cancel _ (by decide), Nat.add_sub_cancel]
    exact lookupScan_entry after before 0 hw
  constructor
  · intro hall before group e after hsplit
    exact (hone before group e after hsplit).mp (hall before _ after hsplit group e rfl)
  · rintro hall before item after hsplit group e rfl
    exact (hone before group e after hsplit).mpr (hall before group e after hsplit)

section

variable {sb : SbInfo} {disk : Buffer} {inode : Inode} {chain : List Nat}

/-- **Names that are listed are found**, if and only if the clusters have one sector, and the search
for the name that is passed for a slot passes the slots before it, and takes this one. Where all entries
and nothing else are in the list, this is so for the items. -/
theorem listed_found (h : DirChain sb disk inode chain) :
    (NamesFound sb disk inode chain ↔ sb.secPerClus = 1 ∧
      ∀ pre e post, dirSlots sb disk chain = pre ++ e :: post → slotUsed e = true →
        FirstTaken (passedName (lastHeld pre) e) pre e) ∧
    ∀ layout : DirLayout (dirSlots sb disk chain),
      (∀ group e, DirItem.entry group e ∈ layout.items → e 0 ≠ 0x05) →
      (∀ e ∈ layout.tail, slotUsed e = false) →
      (NamesFound sb disk inode chain ↔ sb.secPerClus = 1 ∧ EntriesFound layout.items) := by
  have hiff : ∀ {P : Prop}, (sb.secPerClus = 1 → (NamesFound sb disk inode chain ↔ P)) →
      (NamesFound sb disk inode chain ↔ sb.secPerClus = 1 ∧ P) := by
    intro P hP
    constructor
    · intro hf
      have hsec := hf.secPerClus h
      exact ⟨hsec, (hP hsec).mp hf⟩
    · rintro ⟨hsec, hp⟩
      exact (hP hsec).mpr hp
  refine ⟨hiff (fun hsec => namesFound_iff h hsec), fun layout h5 htail => hiff (fun hsec => ?_)⟩
  have hw := layout.wellFormed
  have hused : ∀ x ∈ entriesFrom layout.items 0, slotUsed x.2.1 = true := by
    intro x hx
    have hmem := mem_entriesFrom layout.items 0 hx
    exact (wellFormed_used (hw _ hmem)).mpr (h5 _ _ hmem)
  have hentries := entriesFound_iff hw hused htail
  rw [← layout.slots_eq] at hentries
  exact ((namesFound_iff h hsec).trans (listed_scan_iff _).symm).trans hentries

end

/-- The file `A` is listed and found. -/
theorem listed_found_example : NamesFound exampleSb entryDisk entryDir [2] := by
  have htail : ∀ e ∈ entryLayout.tail, slotUsed e = false := by decide +kernel
  apply ((listed_found entryDisk_chain).2 entryLayout ?_ htail).mpr
  · refine ⟨rfl, fun before group e after hsplit => ?_⟩
    cases before with
    | nil =>
        cases hsplit
        exact ⟨⟨by decide, (if_pos rfl).mpr ⟨by decide +kernel, by decide +kernel⟩⟩,
          fun item h => absurd h List.not_mem_nil⟩
    | cons item before =>
        have hlen := congrArg List.length hsplit
        simp [entryLayout] at hlen
  · intro group e hmem
    cases List.mem_singleton.mp hmem
    decide +kernel

/-- A directory that begins with the entry for itself. -/
def dotDisk : Buffer := fun a =>
  if a < 34 * 512 then 0xff
  else if a = 34 * 512 then 46
  else if a < 34 * 512 + 11 then 32
  else if a = 34 * 512 + 11 then 0x10
  else 0

theorem dotDisk_chain : DirChain exampleSb dotDisk entryDir [2] where
  first := rfl
  first_lt := by decide
  nonempty := List.cons_ne_nil 2 []
  links := ⟨by decide, by decide +kernel, trivial⟩

/-- Its name is passed, and not found there. -/
theorem listed_not_found : ¬ ∀ (sb : SbInfo) (disk : Buffer) (inode : Inode) (chain : List Nat),
    DirChain sb disk inode chain → NamesFound sb disk inode chain := by
  intro hall
  have hslots : dirSlots exampleSb dotDisk [2] = [] ++ slot (ideRead dotDisk 34 1 newBuffer) 0 ::
      (List.range' 1 15).map (slot (ideRead dotDisk 34 1 newBuffer)) := rfl
  have hfirst := (namesFound_iff dotDisk_chain rfl).mp (hall _ _ _ _ dotDisk_chain) [] _ _ hslots
    (by decide +kernel)
  have hsame := (if_neg (not_not.mpr rfl)).mp hfirst.1.2
  exact absurd hsame.2 (by decide +kernel)

end Talios
