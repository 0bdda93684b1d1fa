import HandshakeNode.Go
import HandshakeNode.Lib.SortedMap

/-!
# Database cursors

`dbCacheIterator` walks the cached keys over the stored ones, and `cursor` walks the pending keys
of a transaction over a `dbCacheIterator`. Both keep one iterator for each layer and a pointer to
the one of them that stands at the current pair. The two are one type here, with the layers as its
fields; the iterators under them are taken as cursors over sorted maps.
-/

namespace HandshakeNode.Ffldb

open SortedMaps

/-- The order of `bytes.Compare` is the lexicographic one over this. -/
scoped instance byteOrder : LinearOrder UInt8 where
  le_refl _ := UInt8.le_refl _
  le_trans _ _ _ := UInt8.le_trans
  lt_iff_le_not_ge _ _ := by rw [UInt8.not_le]; exact ⟨fun h => ⟨UInt8.le_of_lt h, h⟩, And.right⟩
  le_antisymm _ _ := UInt8.le_antisymm
  le_total := UInt8.le_total
  toDecidableLE := inferInstance

inductive Layer where
  | db
  | pending
deriving DecidableEq, Repr

/-- The fields that `dbCacheIterator` and `cursor` share. -/
structure MergedIter (K V : Type) [LinearOrder K] where
  pendingKeys : SortedMap K V
  pendingRemove : SortedMap K V
  dbIter : Iter K V
  pendingIter : Iter K V
  currentIter : Option Layer

namespace MergedIter

variable {K V : Type} [LinearOrder K]

def skips (c : MergedIter K V) (k : K) : Bool := c.pendingRemove.has k || c.pendingKeys.has k

def skipLoop (skips : K → Bool) (forwards : Bool) : ℕ → Iter K V → Iter K V
  | 0, it => it
  | n + 1, it =>
    match it.cur with
    | none => it
    | some x => if skips x.1 then skipLoop skips forwards n (it.move forwards) else it

variable (c : MergedIter K V) (forwards : Bool)

/-- Every turn leaves a pair of the database behind, so that there are at most as many turns as
pairs. -/
def skipPendingUpdates : MergedIter K V :=
  { c with dbIter := skipLoop c.skips forwards c.dbIter.map.items.length c.dbIter }

def chooseIterator : Bool × MergedIter K V :=
  let c := c.skipPendingUpdates forwards
  match c.dbIter.cur, c.pendingIter.cur with
  | none, none => (false, { c with currentIter := none })
  | some _, none => (true, { c with currentIter := some .db })
  | none, some _ => (true, { c with currentIter := some .pending })
  | some x, some y =>
    if (forwards && y.1 < x.1) || (!forwards && x.1 < y.1) then
      (true, { c with currentIter := some .pending })
    else
      (true, { c with currentIter := some .db })

def first : Bool × MergedIter K V :=
  { c with dbIter := c.dbIter.first, pendingIter := c.pendingIter.first }.chooseIterator true

def last : Bool × MergedIter K V :=
  { c with dbIter := c.dbIter.last, pendingIter := c.pendingIter.last }.chooseIterator false

def move : Bool × MergedIter K V :=
  match c.currentIter with
  | none => (false, c)
  | some .db => { c with dbIter := c.dbIter.move forwards }.chooseIterator forwards
  | some .pending => { c with pendingIter := c.pendingIter.move forwards }.chooseIterator forwards

def next : Bool × MergedIter K V := c.move true

def prev : Bool × MergedIter K V := c.move false

def seek (k : K) : Bool × MergedIter K V :=
  { c with dbIter := c.dbIter.seek k, pendingIter := c.pendingIter.seek k }.chooseIterator true

def current : Option (K × V) :=
  match c.currentIter with
  | none => none
  | some .db => c.dbIter.cur
  | some .pending => c.pendingIter.cur

end MergedIter

/-- `bidx`. -/
def bucketIndexPrefix : Bytes := [0x62, 0x69, 0x64, 0x78]

/-- The keys that `util.BytesPrefix` ranges over. -/
def hasPrefix (start key : Bytes) : Bool := start.isPrefixOf key

/-- `snap.NewIterator`: the cached keys over the stored ones, in a range of keys. -/
def newDbCacheIterator (stored pendingKeys pendingRemove : SortedMap Bytes Bytes)
    (inRange : Bytes → Bool) : MergedIter Bytes Bytes where
  pendingKeys := pendingKeys
  pendingRemove := pendingRemove
  dbIter := .new (stored.filter inRange)
  pendingIter := .new (pendingKeys.filter inRange)
  currentIter := none

inductive CursorType where
  | ctKeys
  | ctBuckets
  | ctFull
deriving DecidableEq, Repr

/-- What the index keys of nested buckets start with; the number is copied into four bytes. -/
def nestedPrefix (bucketID : Bytes) : Bytes :=
  bucketIndexPrefix ++ (bucketID ++ List.replicate 4 0).take 4

/-- The keys that a cursor of a type ranges over. -/
def CursorType.inRange (bucketID : Bytes) : CursorType → Bytes → Bool
  | ctKeys, key => hasPrefix bucketID key
  | ctBuckets, key => hasPrefix (nestedPrefix bucketID) key
  | ctFull, key => hasPrefix bucketID key || hasPrefix (nestedPrefix bucketID) key

structure Cursor where
  closed : Bool
  bucketID : Bytes
  iter : MergedIter Bytes Bytes

namespace Cursor

def newCursor (snapshot pendingKeys pendingRemove : SortedMap Bytes Bytes) (bucketID : Bytes)
    (cursorTyp : CursorType) : Cursor where
  closed := false
  bucketID := bucketID
  iter :=
    { pendingKeys := pendingKeys
      pendingRemove := pendingRemove
      dbIter := .new (snapshot.filter (cursorTyp.inRange bucketID))
      pendingIter := .new (pendingKeys.filter (cursorTyp.inRange bucketID))
      currentIter := none }

variable (c : Cursor)

/-- A call on the iterators, which a closed transaction refuses. -/
def call (f : MergedIter Bytes Bytes → Bool × MergedIter Bytes Bytes) : Bool × Cursor :=
  if c.closed then (false, c) else
    let r := f c.iter
    (r.1, { c with iter := r.2 })

def first : Bool × Cursor := c.call (·.first)

def last : Bool × Cursor := c.call (·.last)

def next : Bool × Cursor := c.call (·.next)

def prev : Bool × Cursor := c.call (·.prev)

def seek (key : Bytes) : Bool × Cursor := c.call (·.seek (c.bucketID ++ key))

def keyName (bucketID key : Bytes) : Bytes :=
  if hasPrefix bucketIndexPrefix key then key.drop (bucketIndexPrefix.length + 4)
  else key.drop bucketID.length

def key : Option Bytes :=
  if c.closed then none else c.iter.current.map fun x => keyName c.bucketID x.1

def value : Option Bytes :=
  if c.closed then none else
    match c.iter.current with
    | none => none
    | some x => if hasPrefix bucketIndexPrefix x.1 then none else some x.2

end Cursor

end HandshakeNode.Ffldb
