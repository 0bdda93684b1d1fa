import HandshakeNode.NameCodec
import HandshakeNode.Urkel

/-!
# The name database

The bucket of name states, the bucket of undo lists and the committed root, with the calls that
read and write them. The buckets are made when the chain state is created, so the branches for a
missing bucket are left out. Their keys are hashes, so the checks of a key's length are left out
too. `ForEach` visits a bucket in the order of its keys' bytes.
-/

namespace HandshakeNode

open LittleEndian List

/-- The number that a hash spells, its first byte counting most. -/
def Hash.toNat (h : Hash) : ℕ := leNat h.bytes.reverse

def Hash.Le (a b : Hash) : Prop := a.toNat ≤ b.toNat

instance : DecidableRel Hash.Le := fun a b => inferInstanceAs (Decidable (a.toNat ≤ b.toNat))

instance : Std.Total Hash.Le := ⟨fun a b => Nat.le_total a.toNat b.toNat⟩

instance : IsTrans Hash Hash.Le := ⟨fun _ _ _ => Nat.le_trans⟩

lemma Hash.toNat_inj {a b : Hash} (h : a.toNat = b.toNat) : a = b := by
  have ha := leBytes_leNat a.bytes.reverse
  have hb := leBytes_leNat b.bytes.reverse
  rw [length_reverse, Hash.length_bytes] at ha hb
  apply Hash.ext
  rw [← reverse_inj, ← ha, ← hb]
  exact congrArg (leBytes 32) h

lemma sorted_eq_of_perm {l1 l2 : List Hash} (h : l1.Perm l2) :
    l1.insertionSort Hash.Le = l2.insertionSort Hash.Le := by
  refine List.Perm.eq_of_pairwise (fun a b _ _ hab hba => Hash.toNat_inj (Nat.le_antisymm hab hba))
    (pairwise_insertionSort _ _) (pairwise_insertionSort _ _) ?_
  exact (perm_insertionSort _ _).trans (h.trans (perm_insertionSort _ _).symm)

def sortedKeys (s : Finset Hash) : List Hash :=
  Quot.liftOn s.val (insertionSort Hash.Le) fun _ _ => sorted_eq_of_perm

lemma coe_sortedKeys (s : Finset Hash) : (sortedKeys s : Multiset Hash) = s.val := by
  unfold sortedKeys
  induction hs : s.val using Quot.inductionOn with
  | h l => exact Quot.sound (perm_insertionSort _ _)

def byteOrder : RangeOrder Hash where
  list := sortedKeys
  nodup s := by
    rw [← Multiset.coe_nodup, coe_sortedKeys]
    exact s.nodup
  mem_iff s k := by
    rw [← Multiset.mem_coe, coe_sortedKeys]
    rfl

structure NameDb where
  nameStates : GoMap Hash Bytes
  nameUndo : GoMap Hash Bytes
  nameRoot : Option Bytes

def newNameDb : NameDb where
  nameStates := ∅
  nameUndo := ∅
  nameRoot := some Hash.zero.bytes

namespace NameDb

variable (db : NameDb)

def dbFetchNameRoot : Result Hash :=
  match db.nameRoot with
  | none => .ok Hash.zero
  | some rootBytes =>
    if h : rootBytes.length = 32 then .ok ⟨rootBytes, h⟩
    else .error (.corruption "corrupt name root")

def dbPutNameRoot (root : Hash) : NameDb := { db with nameRoot := some root.bytes }

def dbFetchNameState (nameHash : Hash) : Result (Option NameState) :=
  match db.nameStates.lookup nameHash with
  | none => .ok none
  | some serialized => do
    let ns ← decodeNameState nameHash serialized
    return some ns

def deleteNameState (nameHash : Hash) : NameDb :=
  { db with nameStates := db.nameStates.erase nameHash }

def dbPutNameState (ns : NameState) : Result NameDb :=
  if ns.isNull then .ok (db.deleteNameState ns.nameHash)
  else do
    let serialized ← ns.encode
    return { db with nameStates := db.nameStates.insert ns.nameHash serialized }

def dbFetchNameLeaves : List UrkelLeaf :=
  (byteOrder.list db.nameStates.keys).map fun nameHash =>
    ⟨nameHash, (db.nameStates.lookup nameHash).getD []⟩

def dbPutNameUndo (blockHash : Hash) (entries : List NameUndoEntry) : Result NameDb :=
  if entries.length = 0 then .ok { db with nameUndo := db.nameUndo.erase blockHash }
  else do
    let serialized ← dbSerializeNameUndo entries
    return { db with nameUndo := db.nameUndo.insert blockHash serialized }

def dbFetchNameUndo (blockHash : Hash) : Result (List NameUndoEntry) :=
  match db.nameUndo.lookup blockHash with
  | none => .ok []
  | some serialized => dbDeserializeNameUndo serialized

def dbRemoveNameUndo (blockHash : Hash) : NameDb :=
  { db with nameUndo := db.nameUndo.erase blockHash }

end NameDb

end HandshakeNode
