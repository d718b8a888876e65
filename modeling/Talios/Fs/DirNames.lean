import Talios.Fs.DirListing

set_option autoImplicit false

/-! # The names in a list

What the calls of `fat32_readdir` find is the list of the entries of the directory where each cluster is
one sector, each entry is one that the scan gets right, and nothing behind the end of the directory looks
like an entry (`readdir_lists`).
-/

namespace Talios

open Bytes Word

/-! ## The entries -/

/-- The entries of a directory with their long-name slots, and the positions behind them. -/
def entriesFrom : List DirItem → Nat → List (List Buffer × Buffer × Nat)
  | [], _ => []
  | .deleted _ :: items, position => entriesFrom items (position + DIRECTORY_SIZE)
  | .entry group e :: items, position =>
      (group, e, position + (group.length + 1) * DIRECTORY_SIZE) ::
        entriesFrom items (position + (group.length + 1) * DIRECTORY_SIZE)

/-- The names of the entries, and the positions behind them. -/
def DirLayout.names {es : List Buffer} (layout : DirLayout es) : List (List Nat × Nat) :=
  (entriesFrom layout.items 0).map (fun x => (shownName x.1 x.2.1, x.2.2))

/-- An entry whose name comes out right. 0x05 at its beginning marks it as unused, a long name has at
most five parts and a letter of one byte for each character, no blank stands within a short name, and
its extension has no letter to be made small. -/
def DirItem.ListsRight : DirItem → Prop
  | .deleted _ => True
  | .entry group e => e 0 ≠ 0x05 ∧
      (group ≠ [] → group.length ≤ 5 ∧ ∀ u ∈ longUnits group, u < 256) ∧
      (group = [] → 32 ∉ trimmed (shortBase e) ∧ 32 ∉ trimmed (shortExt e) ∧
        ((e 12).toNat / 16 % 2 = 1 → (trimmed (shortExt e)).map lowerCase = trimmed (shortExt e)))

/-- A directory whose list comes out right: its clusters have one sector, as much as a call reads of
them, and nothing behind its end looks like an entry, as the calls go on there. -/
def DirLayout.ListsRight {es : List Buffer} (sb : SbInfo) (layout : DirLayout es) : Prop :=
  sb.secPerClus = 1 ∧ (∀ item ∈ layout.items, item.ListsRight) ∧
    ∀ e ∈ layout.tail, slotUsed e = false

/-! ## What is found -/

section

variable {es : List Buffer}

theorem slotDeleted_false_iff (e : Buffer) : slotDeleted e = false ↔
    (e 0).toNat ≠ 0xe5 ∧ (e 0).toNat ≠ 0x05 ∧ (e 0).toNat ≠ 0 := by
  have hbyte : ∀ c d : UInt8, (c == d) = false ↔ c.toNat ≠ d.toNat := by
    intro c d
    rw [beq_eq_false_iff_ne, ne_eq, ← UInt8.toNat_inj]
  unfold slotDeleted
  rw [Bool.or_eq_false_iff, Bool.or_eq_false_iff, hbyte, hbyte, hbyte, and_assoc]
  exact Iff.rfl

theorem heldLetters_nil (nameBuf : Buffer) : heldLetters [] nameBuf = nameBuf := rfl

theorem heldLetters_cons (e : Buffer) (es : List Buffer) (nameBuf : Buffer) :
    heldLetters (e :: es) nameBuf
      = heldLetters es (if slotDeleted e then nameBuf else putLongName e nameBuf) := rfl

/-- Slots without a name only put letters into the buffer. -/
theorem listed_unused (es : List Buffer) : ∀ (pre : List Buffer) (position : Nat) (nameBuf : Buffer),
    (∀ e ∈ pre, slotUsed e = false) →
    listed (pre ++ es) position nameBuf
      = listed es (position + pre.length * DIRECTORY_SIZE) (heldLetters pre nameBuf)
  | [], position, nameBuf, _ => by
      rw [List.nil_append, List.length_nil, Nat.zero_mul, Nat.add_zero]
      rfl
  | e :: pre, position, nameBuf, h => by
      rw [List.forall_mem_cons] at h
      have hlen : position + (e :: pre).length * DIRECTORY_SIZE
          = position + DIRECTORY_SIZE + pre.length * DIRECTORY_SIZE := by
        rw [List.length_cons]
        ring
      rw [List.cons_append, listed, hlen, heldLetters_cons]
      cases hd : slotDeleted e with
      | true =>
          rw [if_pos rfl, if_pos rfl]
          exact listed_unused es pre _ _ h.2
      | false =>
          have hl : slotLongName e = true := by
            by_contra hl
            rw [Bool.not_eq_true] at hl
            rw [(slotUsed_iff e).mpr ⟨hd, hl⟩] at h
            cases h.1
          rw [hl, if_neg Bool.false_ne_true, if_pos rfl, if_neg Bool.false_ne_true]
          exact listed_unused es pre _ _ h.2

theorem listed_used {e : Buffer} (h : slotUsed e = true) (es : List Buffer) (position : Nat)
    (nameBuf : Buffer) : listed (e :: es) position nameBuf
      = slotName e nameBuf (position + DIRECTORY_SIZE) ::
        listed es (position + DIRECTORY_SIZE) newBuffer := by
  rcases (slotUsed_iff e).mp h with ⟨hd, hl⟩
  rw [listed, hd, hl, if_neg Bool.false_ne_true, if_neg Bool.false_ne_true]

/-- One name for each slot that is used. -/
theorem listed_length : ∀ (es : List Buffer) (position : Nat) (nameBuf : Buffer),
    (listed es position nameBuf).length = es.countP slotUsed
  | [], _, _ => rfl
  | e :: es, position, nameBuf => by
      cases hu : slotUsed e with
      | true =>
          rw [listed_used hu, List.length_cons, listed_length es, List.countP_cons_of_pos hu]
      | false =>
          have hone := listed_unused es [e] position nameBuf (by simpa using hu)
          rw [List.singleton_append] at hone
          rw [hone, listed_length es, List.countP_cons_of_neg (by simp [hu])]

/-- The positions lie behind the slots. -/
theorem listed_position {r : DirName} : ∀ (es : List Buffer) (position : Nat) (nameBuf : Buffer),
    r ∈ listed es position nameBuf → position < r.position
  | [], _, _, h => absurd h List.not_mem_nil
  | e :: es, position, nameBuf, h => by
      have hsize : 0 < DIRECTORY_SIZE := by decide
      cases hu : slotUsed e with
      | true =>
          rw [listed_used hu] at h
          rcases List.mem_cons.mp h with rfl | h
          · rw [slotName_position]
            omega
          · have := listed_position es _ _ h
            omega
      | false =>
          have hone := listed_unused es [e] position nameBuf (by simpa using hu)
          rw [List.singleton_append, List.length_singleton, Nat.one_mul] at hone
          rw [hone] at h
          have := listed_position es _ _ h
          omega

/-! ## Short names -/

theorem trimmed_append_blank (s : List UInt8) : trimmed (s ++ [32]) = trimmed s := by
  unfold trimmed
  rw [List.rdropWhile_concat, if_pos (beq_self_eq_true _)]

theorem trimmed_append {c : UInt8} (hc : c ≠ 32) (s : List UInt8) :
    trimmed (s ++ [c]) = s ++ [c] := by
  unfold trimmed
  rw [List.rdropWhile_concat, if_neg (by simpa using hc)]

/-- The letters before the first blank lie in what is left without the blanks at the end. -/
theorem takeWhile_trimmed (s : List UInt8) :
    s.takeWhile (· ≠ 32) = (trimmed s).takeWhile (· ≠ 32) := by
  induction s using List.reverseRecOn with
  | nil => rfl
  | append_singleton s c ih =>
      by_cases hc : c = 32
      · rw [hc, trimmed_append_blank, ← ih, List.takeWhile_append]
        split
        · rename_i hall
          rw [List.takeWhile_cons_of_neg (by decide), List.append_nil]
          exact (List.IsPrefix.eq_of_length (List.takeWhile_prefix _) hall).symm
        · rfl
      · rw [trimmed_append hc]

/-- The short name that is passed on: each part ends at its first blank, and only the base is made
small. -/
def shortListed (e : Buffer) : List UInt8 :=
  withDot
    (if (e 12).toNat / 8 % 2 = 1 then (((List.range 8).map e).takeWhile (· ≠ 32)).map lowerCase
      else ((List.range 8).map e).takeWhile (· ≠ 32))
    (((List.range 3).map (fun j => e (8 + j))).takeWhile (· ≠ 32))

theorem slotName_short {e nameBuf : Buffer} (h : nameBuf 0 = 0) (position : Nat) :
    (slotName e nameBuf position).letters = (shortListed e).map UInt8.toNat := by
  have hname : shortName e nameBuf = (overlay nameBuf 0 ((shortListed e).length + 1)
      (fun i => (shortListed e).getD i 0), (shortListed e).length) := rfl
  unfold slotName DirName.letters
  rw [if_neg (by simpa using h), hname]
  dsimp only
  have hlen : (if (shortListed e).length ≠ 0 then (shortListed e).length
      else stringLen (overlay nameBuf 0 ((shortListed e).length + 1)
        (fun i => (shortListed e).getD i 0))) = (shortListed e).length := by
    split
    · rfl
    · rename_i h0
      rw [not_not] at h0
      rw [h0]
      apply Nat.le_zero.mp
      apply stringLen_le_of_zero
      rw [overlay_zero_left Nat.one_pos]
      exact List.getD_eq_default _ _ h0.le
  rw [hlen]
  apply List.ext_getElem (by simp)
  intro i h1 h2
  rw [List.length_map] at h2
  rw [List.getElem_map, List.getElem_range, List.getElem_map, overlay_zero_left (by omega),
    List.getD_eq_getElem _ _ h2]

/-- Where neither part is longer, the two parts are the same. -/
theorem withDot_inj {base base' ext ext' : List UInt8} (hb : base.length ≤ base'.length)
    (hx : ext.length ≤ ext'.length) (h : withDot base ext = withDot base' ext') :
    base = base' ∧ ext = ext' := by
  unfold withDot at h
  have hl := congrArg List.length h
  cases ext with
  | nil =>
      cases ext' with
      | nil => exact ⟨h, rfl⟩
      | cons c ext' =>
          rw [if_pos rfl, if_neg (List.cons_ne_nil c ext'), List.length_append,
            List.length_cons] at hl
          omega
  | cons c ext =>
      cases ext' with
      | nil => exact absurd hx (by simp)
      | cons c' ext' =>
          rw [if_neg (List.cons_ne_nil c ext), if_neg (List.cons_ne_nil c' ext')] at h hl
          simp only [List.length_append, List.length_cons] at hl hx
          rcases List.append_inj h (by omega) with ⟨hbase, hext⟩
          exact ⟨hbase, (List.cons.inj hext).2⟩

/-- The two short names agree where no blank stands within the parts, and nothing in the extension
is made small. -/
theorem shortListed_eq {e : Buffer} (h5 : e 0 ≠ 0x05) :
    shortListed e = shortShown e ↔ 32 ∉ trimmed (shortBase e) ∧ 32 ∉ trimmed (shortExt e) ∧
      ((e 12).toNat / 16 % 2 = 1 →
        (trimmed (shortExt e)).map lowerCase = trimmed (shortExt e)) := by
  have hbase : (List.range 8).map e = shortBase e := by
    unfold shortBase
    rw [if_neg h5]
    rfl
  have hext : (List.range 3).map (fun j => e (8 + j)) = shortExt e := rfl
  unfold shortListed shortShown
  rw [hbase, hext, takeWhile_trimmed (shortBase e), takeWhile_trimmed (shortExt e)]
  generalize trimmed (shortBase e) = base
  generalize trimmed (shortExt e) = ext
  have hnot : ∀ s : List UInt8, s.takeWhile (· ≠ 32) = s ↔ 32 ∉ s := by
    intro s
    rw [List.takeWhile_eq_self_iff]
    exact ⟨fun h hm => absurd (h 32 hm) (by decide),
      fun h c hc => decide_eq_true (fun h32 => h (h32 ▸ hc))⟩
  constructor
  · intro h
    have hb : (base.takeWhile (· ≠ 32)).length ≤ base.length := (List.takeWhile_prefix _).length_le
    have hx : (ext.takeWhile (· ≠ 32)).length ≤ ext.length := (List.takeWhile_prefix _).length_le
    have hparts := withDot_inj (by split <;> simpa using hb) (by split <;> simpa using hx) h
    -- a part of the same length is the whole part
    have hwhole : ∀ s : List UInt8, (s.takeWhile (· ≠ 32)).length = s.length → 32 ∉ s :=
      fun s hs => (hnot s).mp (List.IsPrefix.eq_of_length (List.takeWhile_prefix _) hs)
    have hext : 32 ∉ ext := by
      apply hwhole
      have hl := congrArg List.length hparts.2
      split at hl
      · rwa [List.length_map] at hl
      · exact hl
    refine ⟨?_, hext, fun h16 => ?_⟩
    · apply hwhole
      have hl := congrArg List.length hparts.1
      split at hl
      · rwa [List.length_map, List.length_map] at hl
      · exact hl
    · have hl := hparts.2
      rw [if_pos h16, (hnot ext).mpr hext] at hl
      exact hl.symm
  · rintro ⟨hb, hx, hlower⟩
    rw [(hnot base).mpr hb, (hnot ext).mpr hx]
    split
    · split
      · rename_i h8 h16
        rw [hlower h16]
      · rfl
    · split
      · rename_i h8 h16
        rw [hlower h16]
      · rfl

/-! ## Long names -/

theorem LongRun.long {k : Nat} {ls : List Buffer} (h : LongRun k ls) :
    ∀ l ∈ ls, slotLongName l = true := by
  induction h with
  | nil => exact fun l hl => absurd hl List.not_mem_nil
  | cons hlong hnum hrun ih => exact List.forall_mem_cons.mpr ⟨hlong, ih⟩

/-- Up to five parts all count: none begins with 0x05. -/
theorem LongRun.held {k : Nat} {ls : List Buffer} (h : LongRun k ls) (hk : k ≤ 4) :
    ∀ b, heldLetters ls b = assemble ls b := by
  induction h with
  | nil => exact fun b => (heldLetters_nil b).trans (assemble_nil b).symm
  | @cons k l ls hlong hnum hrun ih =>
      intro b
      rw [heldLetters_cons, (slotDeleted_false_iff l).mpr ⟨by omega, by omega, by omega⟩,
        if_neg Bool.false_ne_true, assemble_cons]
      exact ih (by omega) _

theorem LongGroup.held {l : Buffer} {ls : List Buffer} (h : LongGroup l ls) (hlen : ls.length ≤ 4)
    (b : Buffer) : heldLetters (l :: ls) b = assemble (l :: ls) b := by
  have hnum := h.number
  rw [heldLetters_cons, (slotDeleted_false_iff l).mpr ⟨by omega, by omega, by omega⟩,
    if_neg Bool.false_ne_true, assemble_cons]
  exact h.run.held hlen _

/-- The fifth of more parts is left out, and with it the letter at 52. -/
theorem LongRun.held_gap {k : Nat} {ls : List Buffer} (h : LongRun k ls) (hk : k ≤ 19) :
    ∀ b : Buffer, b 52 = 0 → heldLetters ls b 52 = 0 := by
  induction h with
  | nil =>
      intro b hb
      rwa [heldLetters_nil]
  | @cons k l ls hlong hnum hrun ih =>
      intro b hb
      rw [heldLetters_cons]
      apply ih (by omega)
      split
      · exact hb
      · rename_i hd
        rw [Bool.not_eq_true, slotDeleted_false_iff] at hd
        have hnumber : longNumber l = k + 1 := by
          unfold longNumber
          omega
        rw [putLongName_byte hnumber, if_neg (by omega), if_neg (by omega)]
        exact hb

theorem LongGroup.held_gap {l : Buffer} {ls : List Buffer} (h : LongGroup l ls)
    (hlen : 5 ≤ ls.length) : heldLetters (l :: ls) newBuffer 52 = 0 := by
  have hnum := h.number
  have hfew := h.few
  have hnumber : longNumber l = ls.length + 1 := by
    unfold longNumber
    omega
  rw [heldLetters_cons, (slotDeleted_false_iff l).mpr ⟨by omega, by omega, by omega⟩,
    if_neg Bool.false_ne_true]
  apply h.run.held_gap (by omega)
  rw [putLongName_byte hnumber, if_neg (by omega), if_neg (by omega)]
  rfl

theorem slotName_long {e nameBuf : Buffer} (h : nameBuf 0 ≠ 0) (position : Nat) :
    (slotName e nameBuf position).letters = (cString nameBuf).map UInt8.toNat := by
  unfold slotName DirName.letters cString
  rw [if_pos h, List.map_map]
  dsimp only
  exact List.map_congr_left (fun i hi => rfl)

/-- A long name comes out right where no part is left out, and no character is cut. -/
theorem slotName_group {l e : Buffer} {ls : List Buffer} (h : LongGroup l ls) (position : Nat) :
    (slotName e (heldLetters (l :: ls) newBuffer) position).letters = longUnits (l :: ls) ↔
      (l :: ls).length ≤ 5 ∧ ∀ u ∈ longUnits (l :: ls), u < 256 := by
  have hname := h.name
  rw [List.length_cons]
  constructor
  · intro hl
    constructor
    · by_contra hlong
      have hgap := h.held_gap (by omega)
      have hfew : (slotName e (heldLetters (l :: ls) newBuffer) position).letters.length ≤ 52 := by
        by_cases h0 : heldLetters (l :: ls) newBuffer 0 = 0
        · have h12 := shortName_length_le e newBuffer
          rw [slotName_short h0, List.length_map]
          exact le_trans h12 (by decide)
        · rw [slotName_long h0, List.length_map, cString, List.length_map, List.length_range]
          exact stringLen_le_of_zero hgap
      rw [hl] at hfew
      omega
    · intro u hu
      rw [← hl] at hu
      rcases List.mem_map.mp hu with ⟨i, -, rfl⟩
      exact UInt8.toNat_lt _
  · rintro ⟨hlen, hbytes⟩
    have hletters : (cString (assemble (l :: ls) newBuffer)).map UInt8.toNat
        = longUnits (l :: ls) := by
      rw [h.cString]
      exact letters_of_units hbytes
    rw [h.held (by omega)]
    -- the name is not empty, and so its first letter is not zero
    have hfirst : assemble (l :: ls) newBuffer 0 ≠ 0 := by
      intro h0
      have hempty : stringLen (assemble (l :: ls) newBuffer) = 0 :=
        Nat.le_zero.mp (stringLen_le_of_zero h0)
      have hlen0 := congrArg List.length hletters
      rw [List.length_map, cString, List.length_map, List.length_range, hempty] at hlen0
      omega
    rw [slotName_long hfirst, hletters]

/-! ## Items -/

section

variable {group : List Buffer} {e : Buffer}

theorem wellFormed_unused (h : (DirItem.entry group e).WellFormed) :
    ∀ l ∈ group, slotUsed l = false := by
  have hlong : ∀ l ∈ group, slotLongName l = true := by
    rcases h.2.2.2 with rfl | ⟨l, ls, rfl, hgroup⟩
    · exact fun l hl => absurd hl List.not_mem_nil
    · exact List.forall_mem_cons.mpr ⟨hgroup.long, hgroup.run.long⟩
  intro l hl
  rw [← Bool.not_eq_true, slotUsed_iff, hlong l hl]
  exact fun hu => nomatch hu.2

theorem wellFormed_used (h : (DirItem.entry group e).WellFormed) :
    slotUsed e = true ↔ e 0 ≠ 0x05 := by
  rw [slotUsed_iff, and_iff_left h.2.2.1]
  unfold slotDeleted
  simp only [Bool.or_eq_false_iff, beq_eq_false_iff_ne]
  exact ⟨fun hd => hd.1.2, fun h5 => ⟨⟨h.1, h5⟩, h.2.1⟩⟩

/-- An entry that is used comes out under the name that is held. -/
theorem slotName_entry (h : (DirItem.entry group e).WellFormed) (h5 : e 0 ≠ 0x05) (position : Nat) :
    (slotName e (heldLetters group newBuffer) position).letters = shownName group e ↔
      (DirItem.entry group e).ListsRight := by
  unfold DirItem.ListsRight
  rcases h.2.2.2 with rfl | ⟨l, ls, rfl, hgroup⟩
  · have hshown : shownName [] e = (shortShown e).map UInt8.toNat := if_pos rfl
    have hinj : Function.Injective UInt8.toNat := fun c d hcd => UInt8.toNat_inj.mp hcd
    rw [heldLetters_nil, slotName_short rfl, hshown, hinj.list_map.eq_iff, shortListed_eq h5]
    exact ⟨fun hs => ⟨h5, fun hne => absurd rfl hne, fun _ => hs⟩, fun hs => hs.2.2 rfl⟩
  · have hshown : shownName (l :: ls) e = longUnits (l :: ls) := if_neg (List.cons_ne_nil l ls)
    rw [hshown, slotName_group hgroup]
    exact ⟨fun hs => ⟨h5, fun _ => hs, fun hnil => nomatch hnil⟩,
      fun hs => hs.2.1 (List.cons_ne_nil l ls)⟩

/-! The slots of an item, and what the list has of them. -/

theorem listed_deleted (h : (DirItem.deleted e).WellFormed) (rest : List Buffer) (position : Nat)
    (nameBuf : Buffer) : listed ((DirItem.deleted e).slots ++ rest) position nameBuf
      = listed rest (position + DIRECTORY_SIZE) nameBuf := by
  have hd : slotDeleted e = true := by
    unfold slotDeleted
    rw [show e 0 = 0xe5 from h]
    rfl
  rw [DirItem.slots, List.singleton_append, listed, hd, if_pos rfl]

theorem listed_entry (h : (DirItem.entry group e).WellFormed) (rest : List Buffer) (position : Nat)
    (nameBuf : Buffer) : listed ((DirItem.entry group e).slots ++ rest) position nameBuf
      = listed (e :: rest) (position + group.length * DIRECTORY_SIZE) (heldLetters group nameBuf) := by
  rw [DirItem.slots, List.append_assoc, List.singleton_append, listed_unused _ _ _ _
    (wellFormed_unused h)]

theorem entry_end (position : Nat) (group : List Buffer) :
    position + group.length * DIRECTORY_SIZE + DIRECTORY_SIZE
      = position + (group.length + 1) * DIRECTORY_SIZE := by ring

theorem listed_entry_used (h : (DirItem.entry group e).WellFormed) (hu : slotUsed e = true)
    (rest : List Buffer) (position : Nat) (nameBuf : Buffer) :
    listed ((DirItem.entry group e).slots ++ rest) position nameBuf
      = slotName e (heldLetters group nameBuf) (position + (group.length + 1) * DIRECTORY_SIZE) ::
        listed rest (position + (group.length + 1) * DIRECTORY_SIZE) newBuffer := by
  rw [listed_entry h, listed_used hu, entry_end]

theorem listed_entry_unused (h : (DirItem.entry group e).WellFormed) (hu : slotUsed e = false)
    (rest : List Buffer) (position : Nat) (nameBuf : Buffer) :
    ∃ nameBuf', listed ((DirItem.entry group e).slots ++ rest) position nameBuf
      = listed rest (position + (group.length + 1) * DIRECTORY_SIZE) nameBuf' := by
  have hone := listed_unused rest [e] (position + group.length * DIRECTORY_SIZE)
    (heldLetters group nameBuf) (by simpa using hu)
  rw [List.singleton_append, List.length_singleton, Nat.one_mul, entry_end] at hone
  exact ⟨_, (listed_entry h rest position nameBuf).trans hone⟩

end

/-! ## Layouts -/

section

variable {tail : List Buffer}

/-- Where all entries are used, and nothing else, the list has one name for each of them. -/
theorem listed_items (htail : ∀ e ∈ tail, slotUsed e = false) : ∀ (items : List DirItem)
    (position : Nat), (∀ item ∈ items, item.WellFormed) →
    (∀ x ∈ entriesFrom items position, slotUsed x.2.1 = true) →
    listed (items.flatMap DirItem.slots ++ tail) position newBuffer
      = (entriesFrom items position).map
          (fun x => slotName x.2.1 (heldLetters x.1 newBuffer) x.2.2)
  | [], position, _, _ => by
      rw [List.flatMap_nil, List.nil_append, entriesFrom, List.map_nil]
      apply List.length_eq_zero_iff.mp
      rw [listed_length, List.countP_eq_zero]
      exact fun e he => by simp [htail e he]
  | .deleted e :: items, position, hw, hused => by
      rw [List.forall_mem_cons] at hw
      rw [List.flatMap_cons, List.append_assoc, listed_deleted hw.1,
        listed_items htail items _ hw.2 hused]
      rfl
  | .entry group e :: items, position, hw, hused => by
      rw [List.forall_mem_cons] at hw
      rw [entriesFrom, List.forall_mem_cons] at hused
      rw [List.flatMap_cons, List.append_assoc, listed_entry_used hw.1 hused.1,
        listed_items htail items _ hw.2 hused.2, entriesFrom, List.map_cons]

/-- A list with the right positions has all entries, and nothing else. -/
theorem listed_positions : ∀ (items : List DirItem) (position : Nat) (nameBuf : Buffer),
    (∀ item ∈ items, item.WellFormed) →
    (listed (items.flatMap DirItem.slots ++ tail) position nameBuf).map DirName.position
      = (entriesFrom items position).map (fun x => x.2.2) →
    (∀ x ∈ entriesFrom items position, slotUsed x.2.1 = true) ∧ ∀ e ∈ tail, slotUsed e = false
  | [], position, nameBuf, _, h => by
      rw [List.flatMap_nil, List.nil_append, entriesFrom, List.map_nil] at h
      have hnone := congrArg List.length (List.map_eq_nil_iff.mp h)
      rw [listed_length, List.length_nil, List.countP_eq_zero] at hnone
      exact ⟨fun x hx => absurd hx List.not_mem_nil, fun e he => by simpa using hnone e he⟩
  | .deleted e :: items, position, nameBuf, hw, h => by
      rw [List.forall_mem_cons] at hw
      rw [List.flatMap_cons, List.append_assoc, listed_deleted hw.1] at h
      exact listed_positions items _ nameBuf hw.2 h
  | .entry group e :: items, position, nameBuf, hw, h => by
      rw [List.forall_mem_cons] at hw
      rw [List.flatMap_cons, List.append_assoc, entriesFrom, List.map_cons] at h
      cases hu : slotUsed e with
      | true =>
          rw [listed_entry_used hw.1 hu, List.map_cons] at h
          have ih := listed_positions items _ newBuffer hw.2 (List.cons.inj h).2
          exact ⟨List.forall_mem_cons.mpr ⟨hu, ih.1⟩, ih.2⟩
      | false =>
          -- the first position would lie behind that of the entry
          rcases listed_entry_unused hw.1 hu (items.flatMap DirItem.slots ++ tail) position nameBuf
            with ⟨nameBuf', hlist⟩
          rw [hlist] at h
          rcases List.map_eq_cons_iff.mp h with ⟨r, rest, hr, hpos, -⟩
          have hlt := listed_position _ _ _ (hr ▸ List.mem_cons_self)
          dsimp only at hpos
          omega

/-- The number of entries that are used. -/
theorem items_countP : ∀ (items : List DirItem) (position : Nat),
    (∀ item ∈ items, item.WellFormed) →
    (items.flatMap DirItem.slots).countP slotUsed
      = (entriesFrom items position).countP (fun x => slotUsed x.2.1)
  | [], _, _ => rfl
  | .deleted e :: items, position, hw => by
      rw [List.forall_mem_cons] at hw
      have hu : ¬ slotUsed e = true := by
        rw [slotUsed_iff, slotDeleted, show e 0 = 0xe5 from hw.1]
        exact fun hd => nomatch hd.1
      rw [List.flatMap_cons, DirItem.slots, List.singleton_append, List.countP_cons_of_neg hu,
        items_countP items _ hw.2]
      rfl
  | .entry group e :: items, position, hw => by
      rw [List.forall_mem_cons] at hw
      have hgroup : group.countP slotUsed = 0 :=
        List.countP_eq_zero.mpr (fun l hl => by simp [wellFormed_unused hw.1 l hl])
      rw [List.flatMap_cons, DirItem.slots, List.countP_append, List.countP_append, hgroup,
        Nat.zero_add, List.countP_singleton, items_countP items _ hw.2, entriesFrom,
        List.countP_cons, Nat.add_comm]

theorem mem_entriesFrom {x : List Buffer × Buffer × Nat} : ∀ (items : List DirItem) (position : Nat),
    x ∈ entriesFrom items position → DirItem.entry x.1 x.2.1 ∈ items
  | [], _, h => absurd h List.not_mem_nil
  | .deleted _ :: items, _, h => List.mem_cons_of_mem _ (mem_entriesFrom items _ h)
  | .entry _ _ :: items, _, h => by
      rcases List.mem_cons.mp h with rfl | h
      · exact List.mem_cons_self
      · exact List.mem_cons_of_mem _ (mem_entriesFrom items _ h)

theorem listsRight_iff : ∀ (items : List DirItem) (position : Nat),
    (∀ item ∈ items, item.ListsRight) ↔
      ∀ x ∈ entriesFrom items position, (DirItem.entry x.1 x.2.1).ListsRight
  | [], _ => iff_of_true (fun _ h => absurd h List.not_mem_nil) (fun _ h => absurd h List.not_mem_nil)
  | .deleted _ :: items, position => by
      rw [List.forall_mem_cons, and_iff_right (show DirItem.ListsRight (.deleted _) from trivial)]
      exact listsRight_iff items _
  | .entry group e :: items, position => by
      rw [List.forall_mem_cons, entriesFrom, List.forall_mem_cons, listsRight_iff items]

section

variable {items : List DirItem}

/-- With all entries and nothing else in the list, the names decide. -/
theorem listed_letters (hw : ∀ item ∈ items, item.WellFormed)
    (hused : ∀ x ∈ entriesFrom items 0, slotUsed x.2.1 = true)
    (htail : ∀ e ∈ tail, slotUsed e = false) :
    (listed (items.flatMap DirItem.slots ++ tail) 0 newBuffer).map DirName.letters
        = (entriesFrom items 0).map (fun x => shownName x.1 x.2.1) ↔
      ∀ item ∈ items, item.ListsRight := by
  rw [listed_items htail items 0 hw hused, List.map_map, List.map_inj_left, listsRight_iff items 0]
  apply forall₂_congr
  intro x hx
  have hentry := hw _ (mem_entriesFrom items 0 hx)
  exact slotName_entry hentry ((wellFormed_used hentry).mp (hused x hx)) x.2.2

/-- Entries that come out right are used. -/
theorem used_of_listsRight (hw : ∀ item ∈ items, item.WellFormed)
    (h : ∀ item ∈ items, item.ListsRight) :
    ∀ x ∈ entriesFrom items 0, slotUsed x.2.1 = true := by
  intro x hx
  have hmem := mem_entriesFrom items 0 hx
  exact (wellFormed_used (hw _ hmem)).mpr (h _ hmem).1

/-- The list has the right names at the right positions. -/
theorem listed_entries_iff (hw : ∀ item ∈ items, item.WellFormed) :
    (listed (items.flatMap DirItem.slots ++ tail) 0 newBuffer).map (fun r => (r.letters, r.position))
        = (entriesFrom items 0).map (fun x => (shownName x.1 x.2.1, x.2.2)) ↔
      (∀ item ∈ items, item.ListsRight) ∧ ∀ e ∈ tail, slotUsed e = false := by
  constructor
  · intro h
    have hletters := congrArg (List.map Prod.fst) h
    have hpositions := congrArg (List.map Prod.snd) h
    rw [List.map_map, List.map_map] at hletters hpositions
    rcases listed_positions items 0 newBuffer hw hpositions with ⟨hused, htail⟩
    exact ⟨(listed_letters hw hused htail).mp hletters, htail⟩
  · rintro ⟨hright, htail⟩
    have hused := used_of_listsRight hw hright
    rw [listed_items htail items 0 hw hused, List.map_map, List.map_inj_left]
    intro x hx
    have hmem := mem_entriesFrom items 0 hx
    exact Prod.ext ((slotName_entry (hw _ hmem) (hright _ hmem).1 x.2.2).mpr (hright _ hmem))
      (slotName_position _ _ _)

/-- The list has the right names. Where the entries or the slots behind the end are as they should be,
their number shows that the others are as well. -/
theorem listed_names_iff (hw : ∀ item ∈ items, item.WellFormed)
    (hor : (∀ e ∈ tail, slotUsed e = false) ∨
      ∀ x ∈ entriesFrom items 0, slotUsed x.2.1 = true) :
    (listed (items.flatMap DirItem.slots ++ tail) 0 newBuffer).map DirName.letters
        = (entriesFrom items 0).map (fun x => shownName x.1 x.2.1) ↔
      (∀ item ∈ items, item.ListsRight) ∧ ∀ e ∈ tail, slotUsed e = false := by
  constructor
  · intro h
    have hlen := congrArg List.length h
    rw [List.length_map, List.length_map, listed_length, List.countP_append,
      items_countP items 0 hw] at hlen
    have hle := List.countP_le_length (p := fun x : List Buffer × Buffer × Nat => slotUsed x.2.1)
      (l := entriesFrom items 0)
    have hboth : (∀ x ∈ entriesFrom items 0, slotUsed x.2.1 = true) ∧
        ∀ e ∈ tail, slotUsed e = false := by
      rcases hor with htail | hused
      · have hzero : tail.countP slotUsed = 0 :=
          List.countP_eq_zero.mpr (fun e he => by simp [htail e he])
        exact ⟨List.countP_eq_length.mp (by omega), htail⟩
      · have hall := List.countP_eq_length.mpr hused
        have hzero : tail.countP slotUsed = 0 := by omega
        exact ⟨hused, fun e he => by simpa using List.countP_eq_zero.mp hzero e he⟩
    exact ⟨(listed_letters hw hboth.1 hboth.2).mp h, hboth.2⟩
  · rintro ⟨hright, htail⟩
    exact (listed_letters hw (used_of_listsRight hw hright) htail).mpr hright

end

end

end

/-! ## The sectors that are read -/

section

variable {sb : SbInfo} {disk : Buffer} {inode : Inode} {chain : List Nat}

/-- A byte of a slot that has been read. -/
theorem slot_ideRead {lba n i j : Nat} (stale : Buffer)
    (h : i * DIRECTORY_SIZE + j < n * BYTE_PER_VSEC) :
    slot (ideRead disk lba n stale) i j = disk (lba * BYTE_PER_VSEC + (i * DIRECTORY_SIZE + j)) := by
  unfold slot ideRead
  exact overlay_zero_left h

/-- A byte behind what has been read. -/
theorem slot_ideRead_behind {lba n i j : Nat} (stale : Buffer)
    (h : n * BYTE_PER_VSEC ≤ i * DIRECTORY_SIZE + j) :
    slot (ideRead disk lba n stale) i j = slot stale i j := by
  unfold slot ideRead
  exact overlay_of_ge (by rwa [Nat.zero_add])

theorem cutSlot_congr {e e' : Buffer} (h : ∀ j < 32, e j = e' j) : cutSlot e = cutSlot e' := by
  funext j
  unfold cutSlot
  split
  · rename_i hj
    exact h j hj
  · rfl

/-- With one sector in each cluster, a call sees the slots of the directory. -/
theorem dirSeen_dirSlots (hsec : sb.secPerClus = 1) (stale : Buffer) (chain : List Nat) :
    (dirSeen sb disk stale chain).map cutSlot = (dirSlots sb disk chain).map cutSlot := by
  unfold dirSeen dirSlots
  rw [List.map_flatMap, List.map_flatMap]
  apply List.flatMap_congr
  intro c hc
  unfold seenSlots clusterSlots slots
  rw [List.map_map, List.map_map, hsec]
  apply List.map_congr_left
  intro i hi
  rw [List.mem_range, sb.slotsPerClus_eq, hsec] at hi
  apply cutSlot_congr
  intro j hj
  have hbyte : i * DIRECTORY_SIZE + j < 1 * BYTE_PER_VSEC := by
    unfold DIRECTORY_SIZE BYTE_PER_VSEC
    omega
  rw [slot_ideRead _ hbyte, slot_ideRead _ hbyte]

theorem slotUsed_congr {e e' : Buffer} (h0 : e 0 = e' 0) (h11 : e 11 = e' 11) :
    slotUsed e = slotUsed e' := by
  unfold slotUsed slotDeleted slotLongName
  rw [h0, h11]

/-- Behind the first sector the slots are those that `disk_buf` happens to hold. -/
theorem seenSlots_countP (stale : Buffer) (clus : Nat) :
    (seenSlots sb disk stale clus).countP slotUsed
      = (List.range' 0 16).countP
          (fun i => slotUsed (slot (ideRead disk (clusToLba sb clus) 1 newBuffer) i))
        + (List.range' 16 (sb.slotsPerClus - 16)).countP (fun i => slotUsed (slot stale i)) := by
  have hpos := sb.secPerClus_pos
  have hn := sb.slotsPerClus_eq
  have hrange : List.range sb.slotsPerClus
      = List.range' 0 16 ++ List.range' 16 (sb.slotsPerClus - 16) := by
    rw [List.range_eq_range', List.range'_append_1]
    congr 1
    omega
  have hin : ∀ i j, i < 16 → j < 32 → i * DIRECTORY_SIZE + j < 1 * BYTE_PER_VSEC := by
    unfold DIRECTORY_SIZE BYTE_PER_VSEC
    omega
  have hout : ∀ i j, 16 ≤ i → 1 * BYTE_PER_VSEC ≤ i * DIRECTORY_SIZE + j := by
    unfold DIRECTORY_SIZE BYTE_PER_VSEC
    omega
  have hfirst : ∀ i ∈ List.range' 0 16,
      slotUsed (slot (ideRead disk (clusToLba sb clus) 1 stale) i)
        = slotUsed (slot (ideRead disk (clusToLba sb clus) 1 newBuffer) i) := by
    intro i hi
    have hlt := (List.mem_range'_1.mp hi).2
    apply slotUsed_congr
    · rw [slot_ideRead _ (hin i 0 hlt (by decide)), slot_ideRead _ (hin i 0 hlt (by decide))]
    · rw [slot_ideRead _ (hin i 11 hlt (by decide)), slot_ideRead _ (hin i 11 hlt (by decide))]
  have hrest : ∀ i ∈ List.range' 16 (sb.slotsPerClus - 16),
      slotUsed (slot (ideRead disk (clusToLba sb clus) 1 stale) i) = slotUsed (slot stale i) := by
    intro i hi
    have hge := (List.mem_range'_1.mp hi).1
    exact slotUsed_congr (slot_ideRead_behind _ (hout i 0 hge))
      (slot_ideRead_behind _ (hout i 11 hge))
  unfold seenSlots slots
  rw [List.countP_map, hrange, List.countP_append]
  exact congrArg₂ (· + ·)
    (List.countP_congr (fun i hi => by rw [Function.comp_apply, hfirst i hi]))
    (List.countP_congr (fun i hi => by rw [Function.comp_apply, hrest i hi]))

/-- A buffer in which every slot looks like an entry. -/
def staleLetters : Buffer := fun _ => 65

/-- With more sectors in a cluster, the number of names depends on it. -/
theorem dirSeen_countP_lt (hsec : sb.secPerClus ≠ 1) : ∀ {chain : List Nat}, chain ≠ [] →
    (dirSeen sb disk newBuffer chain).countP slotUsed
      < (dirSeen sb disk staleLetters chain).countP slotUsed := by
  have hpos := sb.secPerClus_pos
  have hn := sb.slotsPerClus_eq
  have hone : ∀ c, (seenSlots sb disk newBuffer c).countP slotUsed
      < (seenSlots sb disk staleLetters c).countP slotUsed := by
    intro c
    have hzero : (List.range' 16 (sb.slotsPerClus - 16)).countP
        (fun i => slotUsed (slot newBuffer i)) = 0 :=
      List.countP_eq_zero.mpr (fun i hi => Bool.false_ne_true)
    have hall : (List.range' 16 (sb.slotsPerClus - 16)).countP
        (fun i => slotUsed (slot staleLetters i)) = sb.slotsPerClus - 16 := by
      have hused : ∀ i ∈ List.range' 16 (sb.slotsPerClus - 16),
          slotUsed (slot staleLetters i) = true := fun i hi => rfl
      rw [List.countP_eq_length.mpr hused, List.length_range']
    rw [seenSlots_countP, seenSlots_countP, hzero, hall]
    omega
  intro chain hne
  induction chain with
  | nil => exact absurd rfl hne
  | cons c l ih =>
      rw [dirSeen_cons, dirSeen_cons, List.countP_append, List.countP_append]
      have hc := hone c
      cases l with
      | nil => simpa [dirSeen] using hc
      | cons c' l' =>
          have hl := ih (List.cons_ne_nil c' l')
          omega

/-! ## All calls -/

section

variable {α : Type} {value : DirName → α} {values : List α}

theorem Passes.listed (hp : Passes sb disk inode value values) (h : DirChain sb disk inode chain)
    (stale : Buffer) : (Talios.listed (dirSeen sb disk stale chain) 0 newBuffer).map value = values := by
  rcases hp (fun _ => stale) with ⟨pos, res, hcalls, hres⟩
  have hlist := ((dirCalls_listed h (fun _ => rfl) pos res).mp hcalls).2
  apply List.ext_getElem?
  intro k
  rw [List.getElem?_map, ← hlist k, hres k]

/-- What is found does not depend on what `disk_buf` holds. -/
theorem Passes.secPerClus (hp : Passes sb disk inode value values)
    (h : DirChain sb disk inode chain) : sb.secPerClus = 1 := by
  by_contra hsec
  have hnew := congrArg List.length (hp.listed h newBuffer)
  have hletters := congrArg List.length (hp.listed h staleLetters)
  rw [List.length_map, listed_length] at hnew hletters
  have hlt := @dirSeen_countP_lt sb disk hsec _ h.nonempty
  omega

theorem passes_iff (h : DirChain sb disk inode chain) (hsec : sb.secPerClus = 1) :
    Passes sb disk inode value values ↔
      (Talios.listed (dirSlots sb disk chain) 0 newBuffer).map value = values := by
  constructor
  · intro hp
    rcases hp (fun _ => newBuffer) with ⟨pos, res, hcalls, hres⟩
    have hlist := ((dirCalls_listed h (fun _ => dirSeen_dirSlots hsec newBuffer chain) pos res).mp
      hcalls).2
    apply List.ext_getElem?
    intro k
    rw [List.getElem?_map, ← hlist k, hres k]
  · intro hlist stale
    refine ⟨callPos (dirSlots sb disk chain),
      fun k => (Talios.listed (dirSlots sb disk chain) 0 newBuffer)[k]?, ?_, fun k => ?_⟩
    · apply (dirCalls_listed h (fun k => dirSeen_dirSlots hsec (stale k) chain) _ _).mpr
      exact ⟨fun k => rfl, fun k => rfl⟩
    · rw [← hlist, List.getElem?_map]

/-- The values in the list of the directory decide, and that its clusters have one sector. -/
theorem passes_layout (h : DirChain sb disk inode chain) (layout : DirLayout (dirSlots sb disk chain))
    {p : Prop} (hlist : (Talios.listed (layout.items.flatMap DirItem.slots ++ layout.tail) 0
      newBuffer).map value = values ↔ p) :
    Passes sb disk inode value values ↔ sb.secPerClus = 1 ∧ p := by
  rw [← layout.slots_eq] at hlist
  constructor
  · intro hp
    have hsec := hp.secPerClus h
    exact ⟨hsec, hlist.mp ((passes_iff h hsec).mp hp)⟩
  · rintro ⟨hsec, hright⟩
    exact (passes_iff h hsec).mpr (hlist.mpr hright)

end

theorem DirLayout.names_fst {es : List Buffer} (layout : DirLayout es) :
    layout.names.map Prod.fst = (entriesFrom layout.items 0).map (fun x => shownName x.1 x.2.1) := by
  unfold DirLayout.names
  rw [List.map_map]
  rfl

/-- **The names in a directory**: the calls pass those of its entries, each for its entry, where the
directory is one whose list comes out right. The names alone show it where no entry begins with 0x05,
or nothing behind the end looks like an entry. -/
theorem readdir_lists (h : DirChain sb disk inode chain) (layout : DirLayout (dirSlots sb disk chain)) :
    (PassesEntries sb disk inode layout.names ↔ layout.ListsRight sb) ∧
    ((∀ e ∈ layout.tail, slotUsed e = false) ∨
        (∀ group e, DirItem.entry group e ∈ layout.items → e 0 ≠ 0x05) →
      (PassesNames sb disk inode (layout.names.map Prod.fst) ↔ layout.ListsRight sb)) := by
  have hw := layout.wellFormed
  refine ⟨passes_layout h layout (listed_entries_iff hw), fun hor => ?_⟩
  rw [layout.names_fst]
  apply passes_layout h layout (listed_names_iff hw ?_)
  refine hor.imp_right (fun h5 x hx => ?_)
  have hmem := mem_entriesFrom layout.items 0 hx
  exact (wellFormed_used (hw _ hmem)).mpr (h5 _ _ hmem)

end

theorem entryDisk_chain : DirChain exampleSb entryDisk entryDir [2] where
  first := rfl
  first_lt := by decide
  nonempty := List.cons_ne_nil 2 []
  links := ⟨by decide, by decide +kernel, trivial⟩

/-- The directory with the file `A`. -/
def entryLayout : DirLayout (dirSlots exampleSb entryDisk [2]) where
  items := [.entry [] (slot (ideRead entryDisk 34 1 newBuffer) 0)]
  tail := (List.range' 1 15).map (slot (ideRead entryDisk 34 1 newBuffer))
  slots_eq := rfl
  wellFormed := List.forall_mem_singleton.mpr
    ⟨by decide +kernel, by decide +kernel, by decide +kernel, Or.inl rfl⟩
  tail_end := fun e he => by
    cases he
    decide +kernel

/-- Its name is passed, and the calls after that return 0. -/
theorem readdir_lists_example :
    PassesEntries exampleSb entryDisk entryDir entryLayout.names := by
  have htail : ∀ e ∈ entryLayout.tail, slotUsed e = false := by decide +kernel
  apply (readdir_lists entryDisk_chain entryLayout).1.mpr
  refine ⟨rfl, List.forall_mem_singleton.mpr ⟨by decide +kernel, fun hne => absurd rfl hne,
    fun _ => ⟨by decide +kernel, by decide +kernel, fun h16 => ?_⟩⟩, htail⟩
  exact absurd h16 (by decide +kernel)

/-- A volume with two sectors in a cluster. -/
def pairSb : SbInfo where
  bytePerSec := 512
  bytePerClus := 1024
  secPerClus := 2
  secPerFat := 1
  fatNum := 2
  fat1StartSector := 32
  fstDataSector := 34
  bytePerSec_eq := exampleSb_bytePerSec
  bytePerClus_eq := rfl
  secPerClus_pos := Nat.two_pos
  secPerClus_lt := by decide
  fatNum_pos := Nat.two_pos
  fstDataSector_eq := exampleSb_data
  fstDataSector_lt := exampleSb_data_lt

/-- The file `A` in the second sector of its directory; the first has deleted slots only. -/
def pairDisk : Buffer := fun a =>
  if a < 34 * 512 then 0xff
  else if a < 35 * 512 then 0xe5
  else if a = 35 * 512 then 65
  else if a < 35 * 512 + 11 then 32
  else if a = 35 * 512 + 11 then 0x20
  else 0

theorem pairDisk_chain : DirChain pairSb pairDisk entryDir [2] where
  first := rfl
  first_lt := by decide
  nonempty := List.cons_ne_nil 2 []
  links := ⟨by decide, by decide +kernel, trivial⟩

def pairLayout : DirLayout (dirSlots pairSb pairDisk [2]) where
  items := (List.range 16).map (fun i => .deleted (slot (ideRead pairDisk 34 2 newBuffer) i))
    ++ [.entry [] (slot (ideRead pairDisk 34 2 newBuffer) 16)]
  tail := (List.range' 17 15).map (slot (ideRead pairDisk 34 2 newBuffer))
  slots_eq := rfl
  wellFormed := by
    have hdeleted : ∀ i ∈ List.range 16, slot (ideRead pairDisk 34 2 newBuffer) i 0 = 0xe5 := by
      decide +kernel
    intro item hitem
    rcases List.mem_append.mp hitem with h | h
    · rcases List.mem_map.mp h with ⟨i, hi, rfl⟩
      exact hdeleted i hi
    · rw [List.mem_singleton.mp h]
      exact ⟨by decide +kernel, by decide +kernel, by decide +kernel, Or.inl rfl⟩
  tail_end := fun e he => by
    cases he
    decide +kernel

/-- It is not in the list. -/
theorem readdir_not_lists : ¬ ∀ (sb : SbInfo) (disk : Buffer) (inode : Inode) (chain : List Nat),
    DirChain sb disk inode chain → ∀ layout : DirLayout (dirSlots sb disk chain),
    PassesNames sb disk inode (layout.names.map Prod.fst) := by
  intro hall
  have hp := hall pairSb pairDisk entryDir [2] pairDisk_chain pairLayout
  exact absurd (hp.secPerClus pairDisk_chain) (by decide)

end Talios
