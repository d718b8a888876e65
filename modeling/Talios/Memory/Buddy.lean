import Talios.Lib.Dyadic
import Talios.Lib.Word

set_option autoImplicit false

/-! # The page allocator

The buddy allocator of `memory.c`: the page structures and zones of the global memory
manager, `reserve_phys_range`, `init_buddy_system`, `alloc_pages` and `free_pages`.

A `struct Page *` is the index of the page in `MMS.PagesGroup`, its page frame number. The list
of a `free_area` is the sequence of the pages linked on it, from `free_list.next` on: a page is
linked on at most one list, `ListBackAdd` at the head puts it in front and `ListDelete` takes
it out. Counters are `unsigned long` and wrap around.

A function answers `none` where the code would follow a pointer that is not one to a page: the
head of an empty list taken for a page, or the zone of a page outside every zone.
-/

namespace Talios

open Word

def MAX_ORDER : Nat := 11
def PAGE_4K_SHIFT : Nat := 12
def PAGE_2M_SHIFT : Nat := 21
def PAGE_4K_SIZE : Nat := 2 ^ PAGE_4K_SHIFT
def PAGE_2M_SIZE : Nat := 2 ^ PAGE_2M_SHIFT

/-- `PAGE_4K_INDEX`: the page frame number of a physical address. -/
def page4KIndex (addr : Nat) : Nat := addr / PAGE_4K_SIZE

/-- `PATTR(PG_PTABLE_MAPPED)`. -/
def PG_PTABLE_MAPPED : Nat := 1

/-! ## Data -/

/-- `struct Page`. `zoneStruct` is the index of the zone, `none` the null pointer. -/
structure Page where
  zoneStruct : Option Nat
  phyAddr : Nat
  attr : Nat
  refCount : Nat
  reserved : Bool

/-- `struct free_area`. -/
structure FreeArea where
  freeList : List Nat
  nrFree : Nat

/-- The array `free_area[MAX_ORDER]` of a zone. -/
abbrev FreeAreas := Nat → FreeArea

/-- `struct Zone`. `pagesGroup` is the page frame number of its first page. -/
structure Zone where
  pagesGroup : Nat
  pagesCount : Nat
  zoneStartAddr : Nat
  zoneEndAddr : Nat
  freeArea : FreeAreas
  pageUsingCount : Nat
  pageFreeCount : Nat
  totalPagesLink : Nat

/-- `struct GlobalMemManager` with the three zone indices. -/
structure MMS where
  page : Nat → Page
  pagesCount : Nat
  zone : Nat → Zone
  zonesCount : Nat
  zoneDmaIndex : Nat
  zoneNormalIndex : Nat
  zoneUnmapedIndex : Nat

/-- The zone with its free areas replaced. -/
def Zone.withAreas (z : Zone) (fa : FreeAreas) : Zone := { z with freeArea := fa }

def MMS.setZone (m : MMS) (zi : Nat) (z : Zone) : MMS :=
  { m with zone := Function.update m.zone zi z }

def MMS.setPage (m : MMS) (pfn : Nat) (p : Page) : MMS :=
  { m with page := Function.update m.page pfn p }

/-- `f` applied to the `n` page structures from `pfn` on. -/
def MMS.mapPages (m : MMS) (pfn n : Nat) (f : Page → Page) : MMS :=
  { m with page := fun x => if pfn ≤ x ∧ x < pfn + n then f (m.page x) else m.page x }

/-- The starts of the free blocks of each order. -/
def FreeAreas.family (fa : FreeAreas) : Dyadic.Family := fun k => (fa k).freeList

/-- `ListBackAdd` of a page at the head of list `k`, with `nr_free++`. -/
def FreeAreas.pushFree (fa : FreeAreas) (k pfn : Nat) : FreeAreas :=
  Function.update fa k ⟨pfn :: (fa k).freeList, add64 (fa k).nrFree 1⟩

/-- `ListDelete` of a page on list `k`, with `nr_free--`. -/
def FreeAreas.removeFree (fa : FreeAreas) (k pfn : Nat) : FreeAreas :=
  Function.update fa k ⟨(fa k).freeList.erase pfn, sub64 (fa k).nrFree 1⟩

/-! ## Allocation -/

/-- The `while(ob > order)` loop of `get_page_from_freelist`: halve the first block of list
`ob` and put both halves in front of list `ob - 1`, the lower half first. -/
def splitBuddy (order : Nat) : Nat → FreeAreas → Option FreeAreas
  | 0, fa => some fa
  | ob + 1, fa =>
      if order < ob + 1 then
        match (fa (ob + 1)).freeList with
        -- the head of an empty list would be taken for a page
        | [] => none
        | blockHead :: _ =>
            let fa₁ := fa.removeFree (ob + 1) blockHead
            splitBuddy order ob (Function.update fa₁ ob
              ⟨blockHead :: (blockHead + 2 ^ ob) :: (fa₁ ob).freeList, add64 (fa₁ ob).nrFree 2⟩)
      else some fa

/-- The bookkeeping of `get_page_from_freelist` for the block it returns. -/
def accountAlloc (m : MMS) (zi page order flags : Nat) : MMS :=
  let z := m.zone zi
  (m.setZone zi { z with
    pageFreeCount := sub64 z.pageFreeCount (2 ^ order)
    pageUsingCount := add64 z.pageUsingCount (2 ^ order)
    totalPagesLink := add64 z.totalPagesLink (2 ^ order) }).mapPages page (2 ^ order)
      (fun p => { p with refCount := add64 p.refCount 1, attr := p.attr ||| flags })

/-- The loop of `get_page_from_freelist` from order `i` on; `fuel` is `MAX_ORDER - i`. -/
def freelistLoop (zi order flags : Nat) : Nat → Nat → MMS → Option (MMS × Option Nat)
  | 0, _, m => some (m, none)
  | fuel + 1, i, m =>
      if ((m.zone zi).freeArea i).nrFree = 0 then freelistLoop zi order flags fuel (i + 1) m
      else
        match splitBuddy order i (m.zone zi).freeArea with
        | none => none
        | some fa =>
            match (fa order).freeList with
            | [] => none
            | page :: _ =>
                let m₁ := m.setZone zi ((m.zone zi).withAreas (fa.removeFree order page))
                match (m₁.page page).zoneStruct with
                | some pz => some (accountAlloc m₁ pz page order flags, some page)
                -- a page without a zone is off its list and given to no one
                | none => freelistLoop zi order flags fuel (i + 1) m₁

/-- `get_page_from_freelist`; `alloc_flags` is an `int`. -/
def getPageFromFreelist (m : MMS) (zi order allocFlags : Nat) : Option (MMS × Option Nat) :=
  freelistLoop zi order (signExtend32 allocFlags) (MAX_ORDER - order) order m

/-- `__alloc_pages`: the slow path is not implemented and returns `NULL`. -/
def allocPagesZone (m : MMS) (zi order allocFlags : Nat) : Option (MMS × Option Nat) :=
  getPageFromFreelist m zi order allocFlags

def ZONE_NORMAL_INDEX : Int := 0
def ZONE_UNMAPED_INDEX : Int := 1
def ZONE_DMA_INDEX : Int := 2

/-- `is_this_zone`. -/
def isThisZone (m : MMS) (zi : Nat) (selector : Int) : Bool :=
  if selector = ZONE_DMA_INDEX then zi == m.zoneDmaIndex
  else if selector = ZONE_NORMAL_INDEX then zi == m.zoneNormalIndex
  else if selector = ZONE_UNMAPED_INDEX then zi == m.zoneUnmapedIndex
  else false

/-- The loop of `get_order` from `order` on; `fuel` is `MAX_ORDER - order`. -/
def getOrderFrom (number : Nat) : Nat → Nat → Nat
  | 0, order => order
  | fuel + 1, order =>
      if number ≤ 2 ^ order then order else getOrderFrom number fuel (order + 1)

/-- `get_order`: the least order whose blocks have `number` pages, `MAX_ORDER` if none has. -/
def getOrder (number : Nat) : Nat := getOrderFrom number MAX_ORDER 0

/-- The loop of `alloc_pages` from zone `zi` on; `fuel` is the number of zones left. -/
def allocLoop (selector : Int) (order attr : Nat) : Nat → Nat → MMS → Option (MMS × Option Nat)
  | 0, _, m => some (m, none)
  | fuel + 1, zi, m =>
      if isThisZone m zi selector then
        match allocPagesZone m zi order attr with
        | none => none
        | some (m', some page) => some (m', some page)
        | some (m', none) => allocLoop selector order attr fuel (zi + 1) m'
      else allocLoop selector order attr fuel (zi + 1) m

/-- `alloc_pages`. -/
def allocPages (m : MMS) (selector : Int) (number pageAttr : Nat) : Option (MMS × Option Nat) :=
  -- all zones but the unmapped one are in the direct map
  let attr := if selector = ZONE_UNMAPED_INDEX then pageAttr else pageAttr ||| PG_PTABLE_MAPPED
  let order := getOrder number
  if MAX_ORDER ≤ order then some (m, none)
  else allocLoop selector order attr m.zonesCount 0 m

/-! ## Freeing -/

/-- The loop of `__free_pages_core` from `order` on, on the block at `pageIndex`; `fuel` is
`MAX_ORDER - 1 - order`. It returns the block that is left to be put on a list. -/
def mergeLoop (first last : Nat) : Nat → Nat → Nat → FreeAreas → FreeAreas × Nat × Nat
  | 0, pageIndex, order, fa => (fa, pageIndex, order)
  | fuel + 1, pageIndex, order, fa =>
      let buddyIndex := pageIndex ^^^ 2 ^ order
      -- a block at the end of its zone has no buddy
      if buddyIndex < first ∨ last ≤ buddyIndex then (fa, pageIndex, order)
      else if buddyIndex ∈ (fa order).freeList then
        mergeLoop first last fuel (if buddyIndex < pageIndex then buddyIndex else pageIndex)
          (order + 1) (fa.removeFree order buddyIndex)
      else (fa, pageIndex, order)

/-- `__free_pages_core`. -/
def freePagesCore (m : MMS) (page order : Nat) : Option MMS :=
  match (m.page page).zoneStruct with
  | none => none
  | some zi =>
      let z := m.zone zi
      let r := mergeLoop (page4KIndex z.zoneStartAddr) (page4KIndex z.zoneEndAddr)
        (MAX_ORDER - 1 - order) (page4KIndex (m.page page).phyAddr) order z.freeArea
      some (m.setZone zi (z.withAreas (r.1.pushFree r.2.2 r.2.1)))

/-- The bookkeeping of `__free_pages` for the block it puts back. -/
def accountFree (m : MMS) (zi page order : Nat) : MMS :=
  let z := m.zone zi
  (m.setZone zi { z with
    pageFreeCount := add64 z.pageFreeCount (2 ^ order)
    pageUsingCount := sub64 z.pageUsingCount (2 ^ order)
    totalPagesLink := sub64 z.totalPagesLink (2 ^ order) }).mapPages page (2 ^ order)
      (fun p => { p with refCount := sub64 p.refCount 1, attr := 0 })

/-- `__free_pages`. -/
def freePagesOrder (m : MMS) (page order : Nat) : Option MMS :=
  match (m.page page).zoneStruct, freePagesCore m page order with
  | some zi, some m₁ => some (accountFree m₁ zi page order)
  | _, _ => none

/-- `free_pages`; the result says whether the call returned 1. -/
def freePages (m : MMS) (page number : Nat) : Option (MMS × Bool) :=
  let order := getOrder number
  if MAX_ORDER ≤ order then some (m, false)
  else (freePagesOrder m page order).map (·, true)

/-- `AllocPage`: `number` blocks of 2 MiB. -/
def allocPage (m : MMS) (selector : Int) (number pageAttr : Nat) : Option (MMS × Option Nat) :=
  allocPages m selector (number * 2 ^ 9) pageAttr

/-- `AllocPage4K`. -/
def allocPage4K (m : MMS) (selector : Int) (number pageAttr : Nat) : Option (MMS × Option Nat) :=
  allocPages m selector number pageAttr

/-- `FreePage`. -/
def freePage (m : MMS) (page number : Nat) : Option (MMS × Bool) :=
  freePages m page (number * 2 ^ 9)

/-- `FreePage4K`. -/
def freePage4K (m : MMS) (page number : Nat) : Option (MMS × Bool) :=
  freePages m page number

/-! ## Initialisation -/

/-- One page of `reserve_phys_range`. -/
def reservePage (attr : Nat) (m : MMS) (pfn : Nat) : MMS :=
  let p := m.page pfn
  match p.zoneStruct with
  | none => m
  | some zi =>
      -- a page that is reserved already counts once
      if p.reserved then m
      else
        let z := m.zone zi
        let link := if p.refCount = 0 then 1 else 0
        (m.setZone zi { z with
          pageFreeCount := sub64 z.pageFreeCount 1
          pageUsingCount := add64 z.pageUsingCount 1
          totalPagesLink := add64 z.totalPagesLink link }).setPage pfn { p with
            reserved := true
            attr := p.attr ||| attr
            refCount := if p.refCount = 0 then 1 else p.refCount }

/-- `reserve_phys_range`. -/
def reservePhysRange (m : MMS) (start stop attr : Nat) : MMS :=
  let first := page4KIndex (alignDown PAGE_4K_SIZE start)
  let last := min (page4KIndex (alignUp64 PAGE_4K_SIZE stop)) m.pagesCount
  (List.range' first (last - first)).foldl (reservePage attr) m

/-- The order `init_buddy_system` chooses for a block at `absPageIndex` with `remains` pages
left in the run: the largest from `order` down whose blocks fit and are aligned. -/
def pickOrder (remains absPageIndex : Nat) : Nat → Nat
  | 0 => 0
  | order + 1 =>
      if 2 ^ (order + 1) ≤ remains ∧ absPageIndex % 2 ^ (order + 1) = 0 then order + 1
      else pickOrder remains absPageIndex order

/-- The `while(cursor < run_end)` loop of `init_buddy_system` on zone `zi`. -/
def cursorLoop (zi runEnd : Nat) : Nat → Nat → MMS → Option MMS
  | 0, _, m => some m
  | fuel + 1, cursor, m =>
      if cursor < runEnd then
        let z := m.zone zi
        let order := pickOrder (runEnd - cursor) (page4KIndex z.zoneStartAddr + cursor)
          (MAX_ORDER - 1)
        match freePagesCore m (z.pagesGroup + cursor) order with
        | none => none
        | some m' => cursorLoop zi runEnd fuel (cursor + 2 ^ order) m'
      else some m

/-- The end of the run of unreserved pages of zone `zi` from `bp` on. -/
def runLoop (m : MMS) (zi : Nat) : Nat → Nat → Nat
  | 0, bp => bp
  | fuel + 1, bp =>
      if bp < (m.zone zi).pagesCount ∧ (m.page ((m.zone zi).pagesGroup + bp)).reserved = false then
        runLoop m zi fuel (bp + 1)
      else bp

/-- The `while(bp < z->PagesCount)` loop of `init_buddy_system` on zone `zi`. -/
def bpLoop (zi : Nat) : Nat → Nat → MMS → Option MMS
  | 0, _, m => some m
  | fuel + 1, bp, m =>
      let z := m.zone zi
      if bp < z.pagesCount then
        if (m.page (z.pagesGroup + bp)).reserved then bpLoop zi fuel (bp + 1) m
        else
          let runEnd := runLoop m zi z.pagesCount bp
          match cursorLoop zi runEnd z.pagesCount bp m with
          | none => none
          | some m' => bpLoop zi fuel runEnd m'
      else some m

/-- The free areas after `ListInit` of every list. -/
def emptyAreas : FreeAreas := fun _ => ⟨[], 0⟩

/-- `init_buddy_system` for the zones from `zi` on; the argument is the number of zones left.
The loops over a zone run at most once per page. -/
def initBuddyFrom : Nat → Nat → MMS → Option MMS
  | 0, _, m => some m
  | fuel + 1, zi, m =>
      let m₁ := m.setZone zi ((m.zone zi).withAreas emptyAreas)
      match bpLoop zi (m.zone zi).pagesCount 0 m₁ with
      | none => none
      | some m' => initBuddyFrom fuel (zi + 1) m'

/-- `init_buddy_system`. -/
def initBuddySystem (m : MMS) : Option MMS := initBuddyFrom m.zonesCount 0 m

/-! ## The memory map -/

/-- The page structures and zone a usable range `[start, stop)` gets in `InitMemory`. -/
def addZone (m : MMS) (range : Nat × Nat) : MMS :=
  let zi := m.zonesCount
  let first := page4KIndex range.1
  let count := page4KIndex (range.2 - range.1)
  let z : Zone :=
    { pagesGroup := first, pagesCount := count, zoneStartAddr := range.1, zoneEndAddr := range.2,
      freeArea := emptyAreas, pageUsingCount := 0, pageFreeCount := count,
      totalPagesLink := 0 }
  { m.setZone zi z with
    zonesCount := zi + 1
    page := fun x =>
      if first ≤ x ∧ x < first + count then ⟨some zi, x * PAGE_4K_SIZE, 0, 0, false⟩
      else m.page x }

/-- The usable memory: page-aligned, non-empty, disjoint ranges of addresses, each with fewer
than `2^31` pages, below `pagesCount` page frames. -/
structure MemoryMap where
  ranges : List (Nat × Nat)
  pagesCount : Nat
  zoneUnmapedIndex : Nat
  aligned : ∀ r ∈ ranges, PAGE_4K_SIZE ∣ r.1 ∧ PAGE_4K_SIZE ∣ r.2
  nonempty : ∀ r ∈ ranges, r.1 < r.2
  disjoint : ranges.Pairwise (fun r r' => r.2 ≤ r'.1 ∨ r'.2 ≤ r.1)
  small : ∀ r ∈ ranges, r.2 - r.1 < 2 ^ 31 * PAGE_4K_SIZE
  below : ∀ r ∈ ranges, r.2 ≤ pagesCount * PAGE_4K_SIZE
  pagesCount_lt : pagesCount * PAGE_4K_SIZE < 2 ^ 64

/-- The zone-less memory manager `InitMemory` starts from. -/
def emptyMMS (pagesCount zoneUnmapedIndex : Nat) : MMS :=
  { page := fun _ => ⟨none, 0, 0, 0, false⟩, pagesCount := pagesCount,
    zone := fun _ => ⟨0, 0, 0, 0, emptyAreas, 0, 0, 0⟩, zonesCount := 0,
    zoneDmaIndex := 0, zoneNormalIndex := 1, zoneUnmapedIndex := zoneUnmapedIndex }

/-- The zones of `InitMemory`. -/
def initZones (map : MemoryMap) : MMS :=
  map.ranges.foldl addZone (emptyMMS map.pagesCount map.zoneUnmapedIndex)

/-- A call of `reserve_phys_range`. -/
structure Reservation where
  start : Nat
  stop : Nat
  attr : Nat

/-- The memory manager after `InitMemory` has set up the zones and made its reservations. -/
def reservedMMS (map : MemoryMap) (rs : List Reservation) : MMS :=
  rs.foldl (fun m r => reservePhysRange m r.start r.stop r.attr) (initZones map)

/-- The state `init_buddy_system` builds. -/
def bootMMS (map : MemoryMap) (rs : List Reservation) : Option MMS :=
  initBuddySystem (reservedMMS map rs)

end Talios
