import HandshakeNode.ScriptStack
import HandshakeNode.Utxo

/-!
# Parallel script validation

`txValidator.Validate` hands the items to a number of goroutines over one unbuffered channel and
takes their results back over another, in one loop. A send and the receive it meets are one step
here, and the steps of the goroutines come in any order. The state also keeps the results that the
loop has received, each with the number of its item.
-/

namespace HandshakeNode

structure TxValidateItem where
  txInIndex : ℕ
  txIn : TxIn
  tx : Tx

/-- The script engine, with the flags, the caches and the view it is made with. An error is known by
its text. -/
structure Scripts (Engine : Type) where
  newEngine : (pkScript : Bytes) → (tx : Tx) → (txIdx : ℕ) → (inputAmount : Int64) →
    Except String Engine
  execute : Engine → Except String Unit

/-- A slice of byte strings under `%x`. -/
def hexList (bs : List Bytes) : String := "[" ++ " ".intercalate (bs.map hexOf) ++ "]"

/-- What follows the first words of both errors. The signature script is always empty. -/
def inputText (item : TxValidateItem) (pkScript : Bytes) (err : String) : String :=
  toString item.tx.hash ++ ":" ++ toString item.txInIndex ++ " which references output " ++
    toString item.txIn.previousOutPoint ++ " - " ++ err ++ " (input witness " ++
    hexList item.txIn.witness ++ ", input script bytes , prev output script bytes " ++
    hexOf pkScript ++ ")"

def validateItem {Engine : Type} (view : UtxoViewpoint) (scripts : Scripts Engine)
    (item : TxValidateItem) : Result Unit :=
  match view.lookupEntry item.txIn.previousOutPoint with
  | none =>
    .error (.rule .missingTxOut ("unable to find unspent output " ++
      toString item.txIn.previousOutPoint ++ " referenced from transaction " ++
      toString item.tx.hash ++ ":" ++ toString item.txInIndex))
  | some utxo =>
    let pkScript := utxo.pkScriptOf
    match scripts.newEngine pkScript item.tx item.txInIndex utxo.amount with
    | .error err =>
      .error (.rule .scriptMalformed ("failed to parse input " ++ inputText item pkScript err))
    | .ok vm =>
      match scripts.execute vm with
      | .error err =>
        .error (.rule .scriptValidation ("failed to validate input " ++
          inputText item pkScript err))
      | .ok () => .ok ()

inductive HandlerAt where
  | selecting
  | validating (i : ℕ)
  | sending (i : ℕ) (result : Result Unit)
  | exited

inductive ValidateAt where
  | selecting
  | closing (result : Result Unit)
  | returned (result : Result Unit)

structure TxValidator (workers : ℕ) where
  main : ValidateAt
  currentItem : ℕ
  processedItems : ℕ
  quit : Bool
  handlers : Fin workers → HandlerAt
  received : List (ℕ × Result Unit)

namespace TxValidator

variable {Engine : Type} {workers : ℕ}

def start (workers : ℕ) (items : List TxValidateItem) : TxValidator workers where
  main := if items.length = 0 then .returned (.ok ()) else .selecting
  currentItem := 0
  processedItems := 0
  quit := false
  handlers _ := .selecting
  received := []

def setHandler (v : TxValidator workers) (w : Fin workers) (h : HandlerAt) : TxValidator workers :=
  { v with handlers := Function.update v.handlers w h }

inductive Action (workers : ℕ) where
  /-- `validateChan <- item` meets the receive of a handler. -/
  | feed (w : Fin workers)
  | validate (w : Fin workers)
  /-- `v.resultChan <- result` meets the receive of the loop. -/
  | collect (w : Fin workers)
  /-- A handler chooses the closed `quitChan`, in the loop or in `sendResult`. -/
  | quit (w : Fin workers)
  /-- `close(v.quitChan)` and `return`. -/
  | close

def afterReceive (items : List TxValidateItem) (processedItems : ℕ) : Result Unit → ValidateAt
  | .error e => .closing (.error e)
  | .ok () => if processedItems < items.length then .selecting else .closing (.ok ())

def afterSend : Result Unit → HandlerAt
  | .error _ => .exited
  | .ok () => .selecting

def step (view : UtxoViewpoint) (scripts : Scripts Engine) (items : List TxValidateItem)
    (v : TxValidator workers) : Action workers → Option (TxValidator workers)
  | .feed w =>
    match v.main, v.handlers w with
    | .selecting, .selecting =>
      if v.currentItem < items.length then
        some ({ v with currentItem := v.currentItem + 1 }.setHandler w (.validating v.currentItem))
      else none
    | _, _ => none
  | .validate w =>
    match v.handlers w with
    | .validating i =>
      items[i]?.map fun item => v.setHandler w (.sending i (validateItem view scripts item))
    | _ => none
  | .collect w =>
    match v.main, v.handlers w with
    | .selecting, .sending i result =>
      some ({ v with
        processedItems := v.processedItems + 1
        main := afterReceive items (v.processedItems + 1) result
        received := (i, result) :: v.received }.setHandler w (afterSend result))
    | _, _ => none
  | .quit w =>
    if v.quit then
      match v.handlers w with
      | .selecting => some (v.setHandler w .exited)
      | .sending _ result => some (v.setHandler w (afterSend result))
      | _ => none
    else none
  | .close =>
    match v.main with
    | .closing result => some { v with quit := true, main := .returned result }
    | _ => none

inductive Reached (view : UtxoViewpoint) (scripts : Scripts Engine) (items : List TxValidateItem) :
    TxValidator workers → Prop where
  | start : Reached view scripts items (start workers items)
  | step {v v' : TxValidator workers} {a : Action workers} (h : Reached view scripts items v)
      (hstep : v.step view scripts items a = some v') : Reached view scripts items v'

end TxValidator

end HandshakeNode
