/-
The object cache: `kernel/cache.c`.

An entry has an address, zero stands for `NULL`; its links are kept apart from what it stores.
`next` is one field: it leads on in the hash chain and in the LRU list alike.  A call that
follows a pointer to an entry that was freed has no result, nor has one whose chain is longer
than the cache may have entries.

`kmalloc` is asked for a block that is proposed by the caller; a block in use is not given out.
Times are those of `brights_clock_ms`.  Statistics that nothing reads, access times and the
cleanup function are left out.
-/
import BrightS.Lib.Bytes

namespace BrightS

open Bytes

/-- The hash of a name, which the cache knows an object by. -/
abbrev CacheKey := BitVec 64

/-- A time in milliseconds, which wraps around. -/
abbrev Millis := BitVec 64

/-- What an entry stores; the size is the length of the data. -/
structure CacheEntry where
  key : CacheKey
  data : List Byte
  createTime : Millis

def CacheEntry.size (e : CacheEntry) : Nat := e.data.length

/-- What a cache is asked to be. -/
structure CacheConfig where
  maxSize : BitVec 64
  maxEntries : BitVec 32
  ttlSeconds : BitVec 32

/-- What is fixed when a cache is created. -/
structure CacheSetup where
  sizeMax : Nat
  entriesMax : Nat
  ttlSeconds : Nat
  tableSize : Nat

/-- The cache: its slots, the entries with their links, the ends of the LRU list, and the two totals
that are kept beside them. -/
structure Cache where
  setup : CacheSetup
  table : Nat → Nat
  entry : Nat → Option CacheEntry
  prev : Nat → Nat
  next : Nat → Nat
  lruHead : Nat
  lruTail : Nat
  sizeCurrent : BitVec 64
  entriesCurrent : BitVec 64

/-- There is an entry at the address. -/
def Cache.live (s : Cache) (a : Nat) : Bool := (s.entry a).isSome

/-- An empty cache, unless one of the limits is zero.  Its table has a slot for every four entries,
and at least sixteen. -/
def cacheCreate (config : CacheConfig) : Option Cache :=
  if config.maxSize = 0 ∨ config.maxEntries = 0 then none else
  some
    { setup :=
        { sizeMax := config.maxSize.toNat, entriesMax := config.maxEntries.toNat
          ttlSeconds := config.ttlSeconds.toNat
          tableSize := max 16 (config.maxEntries.toNat / 4) }
      table := fun _ => 0, entry := fun _ => none, prev := fun _ => 0, next := fun _ => 0
      lruHead := 0, lruTail := 0, sizeCurrent := 0, entriesCurrent := 0 }

/-- The slot of a key: a product that wraps around, cut to the table. -/
def cacheHash (key : CacheKey) (tableSize : Nat) : Nat := (key * 2654435761).toNat % tableSize

/-! ### The hash chains

A walk along a chain ends at zero.  An entry that was freed has no links, so a walk that comes to
one is undefined.
-/

/-- The steps after which a walk is given up. -/
def Cache.fuel (s : Cache) : Nat := s.setup.entriesMax

/-- `while (entry)`, from the entry at `p` on. -/
def chainFind (s : Cache) (key : CacheKey) : Nat → Nat → Option Nat
  | 0, p => if p = 0 then some 0 else none
  | fuel + 1, p =>
      if p = 0 then some 0 else
      match s.entry p with
      | none => none
      | some e => if e.key = key then some p else chainFind s key fuel (s.next p)

/-- The address of the entry with this key, zero if there is none. -/
def cacheFindEntry (s : Cache) (key : CacheKey) : Option Nat :=
  chainFind s key s.fuel (s.table (cacheHash key s.setup.tableSize))

/-- `while (*slot)`, where `slot` is the link of the entry at `p`. -/
def chainUnlink (s : Cache) (a : Nat) : Nat → Nat → Option Cache
  | 0, _ => none
  | fuel + 1, p =>
      if s.live p = false then none
      else if s.next p = 0 then some s
      else if s.next p = a then some { s with next := Function.update s.next p (s.next a) }
      else chainUnlink s a fuel (s.next p)

/-- The entry's chain begins with the slot of its key. -/
def cacheUnhash (s : Cache) (a : Nat) (e : CacheEntry) : Option Cache :=
  let i := cacheHash e.key s.setup.tableSize
  if s.table i = 0 then some s
  else if s.table i = a then some { s with table := Function.update s.table i (s.next a) }
  else chainUnlink s a s.fuel (s.table i)

/-! ### The LRU list

The entry that was used last is its head, the one that goes first its tail.
-/

/-- A store through the pointer at `a`, which must lead to an entry; `setPrev` is its sibling. -/
def Cache.setNext (s : Cache) (a p : Nat) : Option Cache :=
  if s.live a then some { s with next := Function.update s.next a p } else none

def Cache.setPrev (s : Cache) (a p : Nat) : Option Cache :=
  if s.live a then some { s with prev := Function.update s.prev a p } else none

/-- The entry becomes the first of the list.  The link that is set here is the one that the hash
chain uses. -/
def cacheAddToLru (s : Cache) (a : Nat) : Option Cache :=
  let s := { s with prev := Function.update s.prev a 0, next := Function.update s.next a s.lruHead }
  (if s.lruHead = 0 then some s else s.setPrev s.lruHead a).map fun s =>
    { s with lruHead := a, lruTail := if s.lruTail = 0 then a else s.lruTail }

/-- The entry's neighbours are linked to each other, and its own links are cleared. -/
def cacheRemoveFromLru (s : Cache) (a : Nat) : Option Cache :=
  (if s.prev a = 0 then some { s with lruHead := s.next a }
    else s.setNext (s.prev a) (s.next a)).bind fun s =>
      (if s.next a = 0 then some { s with lruTail := s.prev a }
        else s.setPrev (s.next a) (s.prev a)).map fun s =>
          { s with prev := Function.update s.prev a 0, next := Function.update s.next a 0 }

/-! ### Removal -/

/-- The entry leaves its chain and the list, and is freed. -/
def cacheRemoveEntry (s : Cache) (a : Nat) : Option Cache :=
  match s.entry a with
  | none => none
  | some e =>
      (cacheUnhash s a e).bind fun s =>
        (cacheRemoveFromLru s a).map fun s =>
          { s with
            sizeCurrent := s.sizeCurrent - BitVec.ofNat 64 e.size
            entriesCurrent := s.entriesCurrent - 1
            entry := Function.update s.entry a none }

/-- The last entry of the list goes; an empty list is left alone. -/
def cacheEvictLru (s : Cache) : Option Cache :=
  if s.lruTail = 0 then some s else cacheRemoveEntry s s.lruTail

/-! ### The calls

The functions of the interface.  Every use of an entry moves it to the head of the list.
-/

/-- What the allocations of a `put` come to: the block for the entry, if there is one, and whether
there is one for the data. -/
structure CacheRoom where
  entry : Nat
  data : Bool

/-- An object of this size does not fit. -/
def Cache.full (s : Cache) (size : Nat) : Prop :=
  s.setup.entriesMax ≤ s.entriesCurrent.toNat ∨
    s.setup.sizeMax < (s.sizeCurrent + BitVec.ofNat 64 size).toNat

instance (s : Cache) (size : Nat) : Decidable (s.full size) := inferInstanceAs (Decidable (_ ∨ _))

/-- The part of `put` for a key that is there: the entry leaves the list before its data is
allocated anew. -/
def cacheUpdate (s : Cache) (a : Nat) (e : CacheEntry) (data : List Byte) (room : CacheRoom) :
    Option (Cache × Int) :=
  (cacheRemoveFromLru s a).bind fun s =>
    if e.size ≠ data.length ∧ room.data = false then some (s, -1) else
    let s := { s with
      entry := Function.update s.entry a (some { e with data := data })
      sizeCurrent := s.sizeCurrent - BitVec.ofNat 64 e.size + BitVec.ofNat 64 data.length }
    (cacheAddToLru s a).map fun s => (s, 0)

/-- The part of `put` for a new key, when there is room for it. -/
def cacheInsert (s : Cache) (key : CacheKey) (data : List Byte) (now : Millis) (room : CacheRoom) :
    Option (Cache × Int) :=
  let a := room.entry
  if a = 0 ∨ s.live a = true ∨ room.data = false then some (s, -1) else
  let i := cacheHash key s.setup.tableSize
  let s := { s with
    entry := Function.update s.entry a (some { key := key, data := data, createTime := now })
    next := Function.update s.next a (s.table i), table := Function.update s.table i a }
  (cacheAddToLru s a).map fun s =>
    ({ s with
      entriesCurrent := s.entriesCurrent + 1
      sizeCurrent := s.sizeCurrent + BitVec.ofNat 64 data.length }, 0)

/-- No data, and data of size zero, are the empty list. -/
def cachePut (s : Cache) (key : CacheKey) (data : List Byte) (now : Millis) (room : CacheRoom) :
    Option (Cache × Int) :=
  if data = [] then some (s, -1) else
  (cacheFindEntry s key).bind fun a =>
    match s.entry a with
    | some e => cacheUpdate s a e data room
    | none =>
        (if s.full data.length then cacheEvictLru s else some s).bind fun s =>
          if s.full data.length then some (s, -1) else cacheInsert s key data now room

/-- Whole seconds have passed since `start`. -/
def cacheExpired (ttlSeconds : Nat) (start now : Millis) : Bool :=
  0 < ttlSeconds && ttlSeconds ≤ ((now - start) / 1000).toNat

/-- The data that is found. -/
def cacheGet (s : Cache) (key : CacheKey) (now : Millis) : Option (Cache × Option (List Byte)) :=
  (cacheFindEntry s key).bind fun a =>
    match s.entry a with
    | none => some (s, none)
    | some e =>
        if cacheExpired s.setup.ttlSeconds e.createTime now then
          (cacheRemoveEntry s a).map fun s => (s, none)
        else
          (cacheRemoveFromLru s a).bind fun s =>
            (cacheAddToLru s a).map fun s => (s, some e.data)

/-- The entry with this key is removed; -1 if there is none. -/
def cacheRemove (s : Cache) (key : CacheKey) : Option (Cache × Int) :=
  (cacheFindEntry s key).bind fun a =>
    if a = 0 then some (s, -1) else (cacheRemoveEntry s a).map fun s => (s, 0)

/-- The key is found, however old its entry is. -/
def cacheContains (s : Cache) (key : CacheKey) : Option Bool :=
  (cacheFindEntry s key).map fun a => a != 0

/-- Free a chain from the entry at `p` on. -/
def freeChain (s : Cache) : Nat → Nat → Option Cache
  | 0, p => if p = 0 then some s else none
  | fuel + 1, p =>
      if p = 0 then some s
      else if s.live p then freeChain { s with entry := Function.update s.entry p none } fuel (s.next p)
      else none

/-- The chains of the first `n` slots. -/
def clearSlots (s : Cache) : Nat → Option Cache
  | 0 => some s
  | n + 1 =>
      (clearSlots s n).bind fun s =>
        (freeChain s s.fuel (s.table n)).map fun s =>
          { s with table := Function.update s.table n 0 }

/-- The chains of all slots are freed, and everything is as in a new cache. -/
def cacheClear (s : Cache) : Option Cache :=
  (clearSlots s s.setup.tableSize).map fun s =>
    { s with lruHead := 0, lruTail := 0, sizeCurrent := 0, entriesCurrent := 0 }

/-! ### Calls from outside -/

/-- `contains` does not look at the clock, but is called at some time. -/
inductive CacheCall where
  | put (key : CacheKey) (data : List Byte) (now : Millis) (room : CacheRoom)
  | get (key : CacheKey) (now : Millis)
  | contains (key : CacheKey) (now : Millis)
  | remove (key : CacheKey)
  | clear

/-- What a call answers: a status, the data that was found, or whether the key is there. -/
inductive CacheAnswer where
  | status (ret : Int)
  | found (data : Option (List Byte))
  | isIn (yes : Bool)
  deriving DecidableEq

/-- A call, and its answer; none when the call is undefined. -/
def cacheStep (s : Cache) : CacheCall → Option (Cache × CacheAnswer)
  | .put key data now room => (cachePut s key data now room).map fun r => (r.1, .status r.2)
  | .get key now => (cacheGet s key now).map fun r => (r.1, .found r.2)
  | .contains key _ => (cacheContains s key).map fun yes => (s, .isIn yes)
  | .remove key => (cacheRemove s key).map fun r => (r.1, .status r.2)
  | .clear => (cacheClear s).map fun s => (s, .status 0)

end BrightS
